/-
This file says when `finish` returns. Sorting a staging sorts its rows by partition
and address, whichever staging it is. A build that is told to sort throws before
it writes anything when two rows stand at the same place, and otherwise all that
can still throw is the number of tuples of a composite dictionary.
-/

import Mmpack.Finished
import Mmpack.Written

namespace Mmpack

open ByteList Emitter Builder

/-! ### Sorting -/

namespace StagedRow

/-- Rows in the order of an image, with rows at the same place as they came. -/
def sortRows (rows : List StagedRow) : List StagedRow :=
  rows.insertionSort fun first second => first.place ≤ second.place

theorem sortRows_perm (rows : List StagedRow) : (sortRows rows).Perm rows :=
  List.perm_insertionSort _ rows

theorem not_before_iff (first second : StagedRow) :
    ¬ second.Before first ↔ first.place ≤ second.place := not_lt

theorem sortRows_pairwise (rows : List StagedRow) :
    (sortRows rows).Pairwise fun first second => first.place ≤ second.place := by
  have total : Std.Total fun first second : StagedRow => first.place ≤ second.place :=
    ⟨fun first second => le_total first.place second.place⟩
  have transitive : IsTrans StagedRow fun first second => first.place ≤ second.place :=
    ⟨fun _ _ _ => le_trans⟩
  exact List.pairwise_insertionSort _ rows

/-- Rows in order are sorted. -/
theorem sortRows_eq_self {rows : List StagedRow} (ordered : rows.Pairwise Before) :
    sortRows rows = rows :=
  (ordered.imp fun less => le_of_lt less).insertionSort_eq

/-- Rows that are sorted are in strict order where no two stand at the same place. -/
theorem sortRows_before_iff (rows : List StagedRow) :
    (sortRows rows).Pairwise Before ↔ (rows.map place).Nodup := by
  rw [← ((sortRows_perm rows).map place).nodup_iff]
  constructor
  · intro ordered
    exact List.pairwise_map.mpr (ordered.imp fun less => ne_of_lt less)
  · intro distinct
    have apart := List.pairwise_map.mp distinct
    exact ((sortRows_pairwise rows).and apart).imp fun ⟨le, ne⟩ => lt_of_le_of_ne le ne

end StagedRow

theorem MemoryStaging.sort_view {staging : MemoryStaging} (bound : staging.addressBits ≤ 64) :
    staging.sort.view = StagedRow.sortRows staging.view := by
  refine List.map_insertionSort _ _ _ _ fun first _ second _ => ?_
  rw [← StagedRow.not_before_iff, before_iff (show staging.sort.addressBits ≤ 64 from bound)]
  simp [before]

theorem WideStaging.sort_view (staging : WideStaging) :
    staging.sort.view = StagedRow.sortRows staging.view := by
  refine List.map_insertionSort _ _ _ _ fun first _ second _ => ?_
  rw [← StagedRow.not_before_iff, before_iff]

theorem BlobStaging.sort_view {staging : BlobStaging}
    (lengths : ∀ row ∈ staging.rows, row.address.length = staging.width) :
    staging.sort.view = StagedRow.sortRows staging.view := by
  refine List.map_insertionSort _ _ _ _ fun first member second member' => ?_
  rw [← StagedRow.not_before_iff, before_iff (lengths second member') (lengths first member)]

namespace Builder

variable {builder : Builder}

theorem Sound.sort_view (sound : builder.Sound) {owned : StagingObject}
    (owns : builder.staging = some owned) :
    owned.staging.sort.view = StagedRow.sortRows owned.staging.view := by
  have staging := sound.staging
  unfold StagingOk at staging
  rcases mode : builder.mode with _ | _ | _ | _ <;> rw [mode] at staging
  · rw [staging.1] at owns
    nomatch owns
  · obtain ⟨-, id, memory, equation, bits⟩ := staging
    obtain rfl := Option.some.inj (equation.symm.trans owns)
    exact MemoryStaging.sort_view (bits ▸ sound.addressBits)
  · obtain ⟨-, id, wide, equation⟩ := staging
    obtain rfl := Option.some.inj (equation.symm.trans owns)
    exact WideStaging.sort_view wide
  · obtain ⟨id, blob, equation, -, width, lengths⟩ := staging
    obtain rfl := Option.some.inj (equation.symm.trans owns)
    exact BlobStaging.sort_view fun row member => (lengths row member).1.trans width.symm

theorem pairwise_nodup {rows : List StagedRow} (ordered : rows.Pairwise StagedRow.Before) :
    (rows.map StagedRow.place).Nodup :=
  List.pairwise_map.mpr (ordered.imp fun less => ne_of_lt less)

theorem checkSortedUnique_congr {other : Builder} (blob : other.blob = builder.blob)
    (width : other.wideWidth = builder.wideWidth) (rows : List StagedRow) :
    checkSortedUnique other rows = checkSortedUnique builder rows := by
  have steps : rowIncreases other = rowIncreases builder := by
    funext first second
    rw [rowIncreases, rowIncreases, blob, width]
  induction rows with
  | nil => rfl
  | cons first rest inductionHypothesis =>
    cases rest with
    | nil => rfl
    | cons second rest => rw [checkSortedUnique, checkSortedUnique, steps, inductionHypothesis]

theorem orderStaging_congr {other : Builder} (blob : other.blob = builder.blob)
    (width : other.wideWidth = builder.wideWidth)
    (order : other.options.order = builder.options.order) (staging : Staging) :
    orderStaging other staging = orderStaging builder staging := by
  rw [orderStaging, orderStaging, order, checkSortedUnique_congr blob width]

end Builder

/-! ### Writing -/

theorem writePartitions_returns (builder : Builder) (layout : Layout)
    {runs : List (List StagedRow)} {stretches : List (Nat × Nat)}
    (inStep : stretches.length = runs.length) (emitter : Emitter) :
    ∃ partitions, (writePartitions builder layout runs stretches emitter).2 = .ok partitions := by
  induction runs generalizing stretches emitter with
  | nil =>
    rw [List.eq_nil_of_length_eq_zero inStep]
    exact ⟨[], rfl⟩
  | cons run runs inductionHypothesis =>
    obtain ⟨stretch, rest, rfl⟩ := List.exists_cons_of_length_eq_add_one inStep
    simp only [writePartitions]
    obtain ⟨partitions, written⟩ := inductionHypothesis (Nat.succ.inj inStep)
      (writeRecords builder layout (planPartition builder layout run stretch) run
        (writeRemapTable (planPartition builder layout run stretch).remapTable emitter))
    split
    · exact ⟨_, rfl⟩
    · rename_i error thrown
      rw [thrown] at written
      cases written

/-- The number of tuples fits the header of a composite dictionary, or none is written. -/
def FewTuples (builder : Builder) : Prop :=
  builder.options.valueInterning = .never ∨ builder.tuples.length < 2 ^ 32

theorem writeDictionaries_returns {builder : Builder} {rows : List StagedRow}
    (few : FewTuples builder) (emitter : Emitter) : ∃ written,
      (writeDictionaries builder (chooseLayout builder rows) emitter).2 = .ok written := by
  unfold writeDictionaries
  cases interned : (chooseLayout builder rows).interned with
  | false => exact ⟨_, rfl⟩
  | true =>
    have fits : ¬ 2 ^ 32 - 1 < builder.tuples.length := by
      rcases few with never | few
      · simp only [chooseLayout, never] at interned
        nomatch interned
      · omega
    simp only [if_true, writeValueDictionary, writeFixedDictionaryHeader, if_neg fits]
    exact ⟨_, rfl⟩

theorem writeImage_returns {builder : Builder} {rows : List StagedRow}
    (few : FewTuples builder) : ∃ partitions,
      (writeImage builder (chooseLayout builder rows) rows).2 = .ok partitions := by
  obtain ⟨⟨dicts, valueDict⟩, accepted⟩ := @writeDictionaries_returns builder rows few
    (Emitter.start.emit header.encode)
  unfold writeImage
  cases written : writeDictionaries builder (chooseLayout builder rows)
      (Emitter.start.emit header.encode) with
  | mk emitter result =>
    rw [written] at accepted
    obtain rfl : result = .ok (dicts, valueDict) := accepted
    obtain ⟨partitions, recorded⟩ := writePartitions_returns builder (chooseLayout builder rows)
      (chooseLayout_stretches builder rows) (emitter.padTo 8)
    simp only
    split
    · rename_i error thrown
      rw [thrown] at recorded
      nomatch recorded
    · exact ⟨_, rfl⟩

/-! ### Finishing -/

section Finishing

variable {builder : Builder}

/-- The rows can be put in order, under the policy of the build. -/
def Builder.Orderable (builder : Builder) : Prop :=
  if builder.options.order = .assumeSorted then builder.rows.Pairwise StagedRow.Before
  else (builder.rows.map StagedRow.place).Nodup

/-- What putting a staging in order comes to, told from its rows. -/
theorem orderStaging_rows (sound : builder.Sound) {staging : Staging}
    (view : staging.view = builder.rows)
    (flag : staging.isSorted = true ↔ builder.rows.Pairwise StagedRow.Before)
    (sorts : staging.sort.view = StagedRow.sortRows builder.rows) :
    ¬ builder.Orderable ∧ (∃ error, (orderStaging builder staging).2 = .error error) ∨
      builder.Orderable ∧ (∃ flag, (orderStaging builder staging).2 = .ok flag) ∧
        (orderStaging builder staging).1.view = StagedRow.sortRows builder.rows := by
  unfold orderStaging Builder.Orderable
  by_cases sorted : staging.isSorted = true
  · have ordered := flag.mp sorted
    rw [if_pos sorted]
    refine Or.inr ⟨?_, ⟨false, rfl⟩, view.trans (StagedRow.sortRows_eq_self ordered).symm⟩
    split
    · exact ordered
    · exact pairwise_nodup ordered
  · rw [if_neg sorted]
    by_cases assumed : builder.options.order = .assumeSorted
    · rw [if_pos assumed, if_pos assumed]
      exact Or.inl ⟨fun ordered => sorted (flag.mpr ordered), _, rfl⟩
    · have shaped : ∀ row ∈ staging.sort.view, builder.Shaped row := by
        intro row member
        rw [sorts] at member
        exact sound.row ((StagedRow.sortRows_perm _).mem_iff.mp member)
      have chain : staging.sort.view.IsChain StagedRow.Before ↔
          staging.sort.view.Pairwise StagedRow.Before :=
        ⟨StagedRow.pairwise_of_steps, fun ordered => ordered.isChain⟩
      have passes := (checkSortedUnique_iff shaped).trans chain
      rw [sorts, StagedRow.sortRows_before_iff] at passes
      rw [if_neg assumed, if_neg assumed, sorts]
      cases check : checkSortedUnique builder (StagedRow.sortRows builder.rows) with
      | ok result => exact Or.inr ⟨passes.mp check, ⟨true, rfl⟩, rfl⟩
      | error error =>
        refine Or.inl ⟨fun distinct => ?_, error, rfl⟩
        rw [passes.mpr distinct] at check
        nomatch check

/-- The staging a first `finish` works on holds the rows of the builder. -/
theorem finish_staging (sound : builder.Sound) {owned : StagingObject}
    (owns : builder.staging = some owned ∨
      builder.staging = none ∧ owned.staging = makeStaging builder.options .keyed) :
    owned.staging.view = builder.rows ∧
      (owned.staging.isSorted = true ↔ builder.rows.Pairwise StagedRow.Before) ∧
      owned.staging.sort.view = StagedRow.sortRows builder.rows := by
  rcases owns with owns | ⟨none, made⟩
  · have view : builder.rows = owned.staging.view := by rw [Builder.rows, owns]
    rw [view]
    exact ⟨rfl, sound.ordered owned owns, sound.sort_view owns⟩
  · have empty : builder.rows = [] := by rw [Builder.rows, none]
    rw [empty, made]
    exact ⟨rfl, iff_of_true rfl List.Pairwise.nil, rfl⟩

/-- A first `finish` throws and writes nothing, or writes the image of the rows in order. -/
theorem finish_rows (sound : builder.Sound) (running : builder.finished = false) :
    ¬ builder.Orderable ∧ (∃ error, (finish builder).outcome = .error error) ∧
        (finish builder).image = [] ∨
      builder.Orderable ∧ ∃ staging nextObject,
        let final : Builder := { builder with staging, finished := true, nextObject }
        let rows := StagedRow.sortRows builder.rows
        (finish builder).image = (writeImage final (chooseLayout final rows) rows).1.out ∧
          ((finish builder).outcome.isOk =
            (writeImage final (chooseLayout final rows) rows).2.isOk) ∧
          ∀ report, (finish builder).outcome = .ok report → ∃ flag partitions,
            (writeImage final (chooseLayout final rows) rows).2 = .ok partitions ∧
            report = reportOf final (chooseLayout final rows) flag partitions
              (writeImage final (chooseLayout final rows) rows).1.pos := by
  obtain ⟨owned, nextObject, owns, equation⟩ := finish_eq running
  obtain ⟨view, flag, sorts⟩ := finish_staging sound owns
  have same : orderStaging { builder with
      staging := some owned, finished := true, nextObject } owned.staging =
        orderStaging builder owned.staging := by
    apply orderStaging_congr <;> rfl
  rw [equation, finishOwned, same]
  rcases orderStaging_rows sound view flag sorts with ⟨disordered, error, thrown⟩ |
    ⟨orderable, ⟨flag, ordered⟩, inOrder⟩
  · refine Or.inl ⟨disordered, ?_⟩
    cases ordering : orderStaging builder owned.staging with
    | mk staging result =>
      rw [ordering] at thrown
      obtain rfl : result = .error error := thrown
      exact ⟨⟨error, rfl⟩, rfl⟩
  · refine Or.inr ⟨orderable, ?_⟩
    cases ordering : orderStaging builder owned.staging with
    | mk staging result =>
      rw [ordering] at ordered inOrder
      obtain rfl : result = .ok flag := ordered
      refine ⟨some { owned with staging }, nextObject, ?_⟩
      simp only at inOrder ⊢
      rw [inOrder]
      cases written : writeImage { builder with
          staging := some { owned with staging }, finished := true, nextObject } (chooseLayout
            { builder with staging := some { owned with staging }, finished := true, nextObject }
            (StagedRow.sortRows builder.rows)) (StagedRow.sortRows builder.rows) with
      | mk emitter result =>
        cases result with
        | error error => exact ⟨rfl, rfl, fun _ impossible => by cases impossible⟩
        | ok partitions =>
          refine ⟨rfl, rfl, fun report returned => ⟨flag, partitions, rfl, ?_⟩⟩
          exact (Except.ok.inj returned).symm

/-- A first `finish` returns where the rows can be put in order, and otherwise writes nothing. -/
theorem finish_returns_iff (sound : builder.Sound) (running : builder.finished = false)
    (few : FewTuples builder) :
    ((∃ report, (finish builder).outcome = .ok report) ↔ builder.Orderable) ∧
      (¬ builder.Orderable → (finish builder).image = []) := by
  rcases finish_rows sound running with ⟨disordered, ⟨error, thrown⟩, silent⟩ | ⟨orderable,
    staging, nextObject, -, outcome, -⟩
  · refine ⟨iff_of_false ?_ disordered, fun _ => silent⟩
    rintro ⟨report, returned⟩
    rw [thrown] at returned
    nomatch returned
  · refine ⟨iff_of_true ?_ orderable, fun disordered => absurd orderable disordered⟩
    have fewFinal : FewTuples { builder with staging, finished := true, nextObject } := few
    obtain ⟨partitions, written⟩ := @writeImage_returns _ (StagedRow.sortRows builder.rows)
      fewFinal
    rw [written] at outcome
    cases result : (finish builder).outcome with
    | ok report => exact ⟨report, rfl⟩
    | error error =>
      rw [result] at outcome
      nomatch outcome

end Finishing

end Mmpack
