/-
This file says what `finish` leaves behind when it returns: the builder it was
called on, its rows put in strictly increasing order, and the image the writer
makes of them. `Built` collects what holds of a finished build and its log.
-/

import Mmpack.Tracks
import Mmpack.Written

namespace Mmpack

open ByteList

namespace Builder

variable {builder : Builder}

/-! ### Ordering the rows -/

/-- A row of the build's address form: bytes of the one width, or an integer. -/
def Shaped (builder : Builder) (row : StagedRow) : Prop :=
  if builder.blob.isSome then
    row.address = 0 ∧ row.addressBytes.length = builder.wideWidth ∧ 0 < builder.wideWidth
  else row.addressBytes = []

/-- The comparison of neighbouring rows is the order of rows. -/
theorem rowIncreases_iff {first second : StagedRow} (shaped : builder.Shaped first)
    (shaped' : builder.Shaped second) :
    rowIncreases builder first second = true ↔ first.Before second := by
  rw [StagedRow.before_iff]
  unfold Shaped at shaped shaped'
  unfold rowIncreases
  rw [Bool.or_eq_true, Bool.and_eq_true, decide_eq_true_eq, decide_eq_true_eq]
  refine or_congr_right (and_congr_right fun _ => ?_)
  cases wide : builder.blob.isSome with
  | true =>
    simp only [wide, if_true] at shaped shaped' ⊢
    obtain ⟨zero, length, -⟩ := shaped
    obtain ⟨zero', length', -⟩ := shaped'
    rw [decide_eq_true_eq, List.take_of_length_le (by omega), List.take_of_length_le (by omega),
      memcmp_lt_zero (length.trans length'.symm), zero, zero', Nat.add_lt_add_iff_left]
  | false =>
    simp only [wide, Bool.false_eq_true, if_false] at shaped shaped' ⊢
    rw [decide_eq_true_eq, UInt64.lt_iff_toNat_lt, shaped, shaped', Nat.add_lt_add_iff_right]

theorem checkSortedUnique_iff {rows : List StagedRow}
    (shaped : ∀ row ∈ rows, builder.Shaped row) :
    checkSortedUnique builder rows = .ok () ↔ rows.IsChain StagedRow.Before := by
  induction rows with
  | nil => exact iff_of_true rfl List.IsChain.nil
  | cons first rest inductionHypothesis =>
    cases rest with
    | nil => exact iff_of_true rfl (List.IsChain.singleton first)
    | cons second rest =>
      have later := inductionHypothesis fun row member =>
        shaped row (List.mem_cons_of_mem _ member)
      have step := rowIncreases_iff (shaped first List.mem_cons_self) (shaped second (by simp))
      rw [List.isChain_cons_cons, ← later, ← step, checkSortedUnique]
      split
      · rename_i increases
        exact (and_iff_right increases).symm
      · rename_i stays
        exact iff_of_false (fun returned => nomatch returned) fun both => stays both.1

theorem Sound.sort_perm (sound : builder.Sound) {owned : StagingObject}
    (owns : builder.staging = some owned) : owned.staging.sort.view.Perm owned.staging.view := by
  have staging := sound.staging
  unfold StagingOk at staging
  rcases mode : builder.mode with _ | _ | _ | _ <;> rw [mode] at staging
  · rw [staging.1] at owns
    nomatch owns
  · obtain ⟨-, id, memory, equation, -⟩ := staging
    obtain rfl := Option.some.inj (equation.symm.trans owns)
    exact memory.sort_perm
  · obtain ⟨-, id, wide, equation⟩ := staging
    obtain rfl := Option.some.inj (equation.symm.trans owns)
    exact wide.sort_perm
  · obtain ⟨id, blob, equation, -⟩ := staging
    obtain rfl := Option.some.inj (equation.symm.trans owns)
    exact blob.sort_perm

/-- What ordering a staging does when it does not throw. -/
theorem orderStaging_spec (sound : builder.Sound) {owned : StagingObject}
    (owns : builder.staging = some owned) {other : Builder}
    (blob : other.blob = builder.blob) (width : other.wideWidth = builder.wideWidth) {flag : Bool}
    (ordered : (orderStaging other owned.staging).2 = .ok flag) :
    (orderStaging other owned.staging).1.view.Perm owned.staging.view ∧
      (orderStaging other owned.staging).1.view.Pairwise StagedRow.Before := by
  have rowsEq : builder.rows = owned.staging.view := by rw [rows, owns]
  unfold orderStaging at ordered ⊢
  by_cases sorted : owned.staging.isSorted = true
  · rw [if_pos sorted]
    exact ⟨List.Perm.refl _, (sound.ordered owned owns).mp sorted⟩
  · rw [if_neg sorted] at ordered ⊢
    split at ordered
    · cases ordered
    · rename_i sorts
      rw [if_neg sorts]
      have perm := sound.sort_perm owns
      cases check : checkSortedUnique other owned.staging.sort.view with
      | error error =>
        rw [check] at ordered
        cases ordered
      | ok _ =>
        refine ⟨perm, StagedRow.pairwise_of_steps ((checkSortedUnique_iff fun row member => ?_).mp
          check)⟩
        have shaped := sound.row (rowsEq ▸ perm.mem_iff.mp member)
        rwa [Shaped, blob, width]

end Builder

open Builder

/-! ### Finishing -/

/-- What a call of `finish` that returns did. -/
structure Finishes (builder final : Builder) (report : BuildReport) (image : List UInt8)
    (partitions : List (DirEntry × PartitionPlan)) : Prop where
  running : builder.finished = false
  same : final = { builder with
    staging := final.staging, finished := true, nextObject := final.nextObject }
  perm : final.rows.Perm builder.rows
  ordered : final.rows.Pairwise StagedRow.Before
  image : (writeImage final (chooseLayout final final.rows) final.rows).1.out = image
  written : (writeImage final (chooseLayout final final.rows) final.rows).2 = .ok partitions
  report : ∃ flag, report = reportOf final (chooseLayout final final.rows) flag partitions
    (writeImage final (chooseLayout final final.rows) final.rows).1.pos

theorem finishOwned_spec {builder : Builder} {owned : StagingObject} {report : BuildReport}
    (returned : (finishOwned builder owned).outcome = .ok report) :
    ∃ flag partitions,
      let final := (finishOwned builder owned).builder
      (orderStaging builder owned.staging).2 = .ok flag ∧
      final = { builder with staging := final.staging } ∧
      final.rows = (orderStaging builder owned.staging).1.view ∧
      (writeImage final (chooseLayout final final.rows) final.rows).1.out =
        (finishOwned builder owned).image ∧
      (writeImage final (chooseLayout final final.rows) final.rows).2 = .ok partitions ∧
      report = reportOf final (chooseLayout final final.rows) flag partitions
        (writeImage final (chooseLayout final final.rows) final.rows).1.pos ∧
      (finishOwned builder owned).overrun =
        (tuplesOverrun (chooseLayout final final.rows) final.tuples ||
          recordsOverrun final (chooseLayout final final.rows) final.rows) := by
  unfold finishOwned at returned ⊢
  cases ordering : orderStaging builder owned.staging with
  | mk staging ordered =>
    rw [ordering] at returned
    cases ordered with
    | error error => cases returned
    | ok flag =>
      simp only at returned ⊢
      generalize named :
        ({ builder with staging := some { owned with staging } } : Builder) = final at returned ⊢
      have rowsEq : final.rows = staging.view := by rw [← named, rows]
      have same : final = { builder with staging := final.staging } := by rw [← named]
      have tuplesEq : final.tuples = builder.tuples := by rw [← named]
      cases written : writeImage final (chooseLayout final staging.view) staging.view with
      | mk emitter result =>
        rw [written] at returned
        cases result with
        | error error => cases returned
        | ok partitions =>
          simp only [rowsEq, tuplesEq, written] at returned ⊢
          exact ⟨flag, partitions, rfl, same, trivial, trivial, rfl,
            (Except.ok.inj returned).symm, trivial⟩

/-- When `finish` returns, it wrote the image of the rows in order. -/
theorem finish_spec {builder : Builder} (sound : builder.Sound) {report : BuildReport}
    (returned : (finish builder).outcome = .ok report) :
    ∃ partitions, Finishes builder (finish builder).builder report (finish builder).image
      partitions := by
  by_cases finished : builder.finished = true
  · rw [finish, if_pos finished] at returned
    cases returned
  · have running : builder.finished = false := by simpa using finished
    obtain ⟨owned, nextObject, owns, equation⟩ := finish_eq running
    rw [equation] at returned ⊢
    obtain ⟨flag, partitions, ordered, same, rowsEq, image, parts, reportEq, -⟩ :=
      finishOwned_spec returned
    have order : (orderStaging { builder with
          staging := some owned, finished := true, nextObject } owned.staging).1.view.Perm
        builder.rows ∧ (orderStaging { builder with
          staging := some owned, finished := true, nextObject } owned.staging).1.view.Pairwise
          StagedRow.Before := by
      rcases owns with owned' | ⟨none, fresh⟩
      · have rowsEq : builder.rows = owned.staging.view := by
          rw [rows, show builder.staging = some owned from owned']
        rw [rowsEq]
        exact orderStaging_spec sound owned' rfl rfl ordered
      · have rowsEq : builder.rows = [] := by
          rw [rows, show builder.staging = Option.none from none]
        have empty : (orderStaging { builder with
            staging := some owned, finished := true, nextObject } owned.staging).1.view = [] := by
          rw [fresh]
          rfl
        rw [empty, rowsEq]
        exact ⟨List.Perm.refl _, List.Pairwise.nil⟩
    refine ⟨partitions, running, ?_, ?_, ?_, image, parts, flag, reportEq⟩
    · rw [same]
    · rw [rowsEq]
      exact order.1
    · rw [rowsEq]
      exact order.2

/-! ### Finished builds -/

/-- A build as `finish` leaves it: the rows it wrote are the committed records in order. -/
structure Built (build : Build) (builder : Builder) : Prop where
  schema : builder.schema = build.schema
  options : builder.options = build.options
  fields : builder.schema.fields ≠ []
  addressBits : builder.options.addressBits ≤ 64
  statCount : builder.stats.length = builder.schema.fields.length
  dictCount : builder.textDicts.length = builder.schema.fields.countP (·.kind = .text)
  wide : builder.blob.isSome = true ↔ builder.mode = .explicitWide
  shaped : ∀ row ∈ builder.rows, builder.Shaped row
  mode : builder.mode = build.session.builder.mode
  keyed : builder.mode = .keyed ∨ builder.mode = .undecided → ∀ row ∈ builder.rows, ∃ key,
    row.partition = partitionOf builder.options.addressBits key ∧
      row.address = addressOf builder.options.addressBits key
  width : builder.wideWidth < 2 ^ 32
  count : builder.count = builder.rows.length
  few : builder.rows.length < 2 ^ 64
  ordered : builder.rows.Pairwise StagedRow.Before
  stages : List.Forall₂ builder.Stages builder.rows build.log.sorted
  declared : ∀ set ∈ build.log.observed, set.1 < builder.schema.fields.length
  observed : ∀ entry ∈ build.log.sorted, ∀ set ∈ entry.sets, set ∈ build.log.observed
  stats : ∀ i decl, builder.schema.fields[i]? = some decl →
    (builder.statsAt i).Spans decl.kind (observedAt build.log.observed i)

theorem Log.note_committed_length_le (log : Log) (handles : List RecordRef) (call : Call) :
    (log.note handles call).committed.length ≤ log.committed.length + 1 := by
  unfold note
  split
  · exact Nat.le_succ _
  · exact Nat.le_succ _
  · exact Nat.le_succ _
  · split <;> exact Nat.le_succ _
  · split
    · simp
    · exact Nat.le_succ _
  · exact Nat.le_succ _
  · exact Nat.le_succ _

theorem Session.logged_committed_length_le (session : Session) (log : Log) (calls : List Call) :
    (session.logged log calls).committed.length ≤ log.committed.length + calls.length := by
  induction calls generalizing session log with
  | nil => exact Nat.le_refl _
  | cons call rest inductionHypothesis =>
    have one : (log.noteResult session.handles call (session.perform call).1).committed.length ≤
        log.committed.length + 1 := by
      cases (session.perform call).1 with
      | ok _ => exact log.note_committed_length_le session.handles call
      | error _ => exact Nat.le_succ _
    rw [Session.logged, List.length_cons]
    exact le_trans (inductionHypothesis _ _) (by omega)

/-- Every committed record is a call. -/
theorem Build.committed_length_le (build : Build) :
    build.log.committed.length ≤ build.calls.length :=
  le_trans (Session.logged_committed_length_le _ _ _) (by simp [Log.empty])

/-- There is one way to put records of different places in order. -/
theorem eq_sorted_of_places {entries records : List Committed} (perm : entries.Perm records)
    (ordered : entries.Pairwise fun first second => first.place < second.place) :
    entries = records.insertionSort fun first second => first.place ≤ second.place := by
  have sorts := (List.perm_insertionSort
    (fun first second : Committed => first.place ≤ second.place) records).trans perm.symm
  have distinct := (sorts.pairwise_iff fun different => Ne.symm different).mpr
    (ordered.imp ne_of_lt)
  have weakly := List.pairwise_insertionSort
    (fun first second : Committed => first.place ≤ second.place) records
  have strictly := (weakly.and distinct).imp fun ⟨least, different⟩ =>
    lt_of_le_of_ne least different
  exact sorts.symm.eq_of_pairwise (fun first second _ _ less less' =>
    absurd less (not_lt_of_gt less')) ordered strictly

/-- Staged rows stand where their records do. -/
theorem map_place_of_stages {builder : Builder} {rows : List StagedRow}
    {entries : List Committed} (stages : List.Forall₂ builder.Stages rows entries) :
    rows.map StagedRow.place = entries.map Committed.place := by
  induction stages with
  | nil => rfl
  | cons staged _ inductionHypothesis =>
    rw [List.map_cons, List.map_cons, inductionHypothesis, StagedRow.place, Committed.place,
      staged.partition, staged.address, staged.addressBytes]

theorem places_of_stages {builder : Builder} {rows : List StagedRow} {entries : List Committed}
    (ordered : rows.Pairwise StagedRow.Before)
    (stages : List.Forall₂ builder.Stages rows entries) :
    entries.Pairwise fun first second => first.place < second.place := by
  have places : (entries.map Committed.place).Pairwise (· < ·) := by
    rw [← map_place_of_stages stages]
    exact List.pairwise_map.mpr ordered
  exact List.pairwise_map.mp places

/-- A `finish` that returns was the first. -/
theorem Build.running (build : Build) {report : BuildReport}
    (returned : build.finished.outcome = .ok report) : build.session.builder.finished = false := by
  by_contra finished
  have thrown : build.finished.outcome = .error .finishCalledTwice := by
    rw [Build.finished, finish, if_pos (by simpa using finished)]
  rw [thrown] at returned
  cases returned

/-- A build whose `finish` returns. -/
theorem Build.finishes (build : Build) {report : BuildReport}
    (returned : build.finished.outcome = .ok report) :
    ∃ partitions,
      Finishes build.session.builder build.finished.builder report build.finished.image partitions ∧
        Built build build.finished.builder := by
  have running := build.running returned
  have tracks := build.tracks running
  have sound := tracks.sound
  obtain ⟨partitions, finishes⟩ : ∃ partitions, Finishes build.session.builder
    build.finished.builder report build.finished.image partitions := finish_spec sound returned
  obtain ⟨entries, stages, perm⟩ := List.perm_comp_forall₂ finishes.perm tracks.rows
  obtain rfl : entries = build.log.sorted :=
    eq_sorted_of_places perm (places_of_stages finishes.ordered stages)
  have same := finishes.same
  generalize build.finished.builder = final at *
  have schema : final.schema = build.session.builder.schema := by rw [same]
  have options : final.options = build.session.builder.options := by rw [same]
  have blob : final.blob = build.session.builder.blob := by rw [same]
  have wideWidth : final.wideWidth = build.session.builder.wideWidth := by rw [same]
  have mode : final.mode = build.session.builder.mode := by rw [same]
  have grows : Grows build.session.builder final := by
    refine grows_of_same schema ?_ ?_ <;> rw [same]
  refine ⟨partitions, finishes, ?_⟩
  exact
    { schema := schema.trans tracks.schema
      options := options.trans tracks.options
      fields := schema ▸ sound.fields
      addressBits := options ▸ sound.addressBits
      statCount := by rw [schema, ← sound.statCount, same]
      dictCount := by rw [schema, ← sound.dictCount, same]
      wide := by
        rw [blob, mode]
        exact sound.wide_iff
      shaped := fun row member => by
        rw [Shaped, blob, wideWidth]
        exact sound.row (finishes.perm.mem_iff.mp member)
      mode := mode
      keyed := fun keyed row member => by
        rw [options]
        exact sound.keyed_row (mode ▸ keyed) (finishes.perm.mem_iff.mp member)
      width := wideWidth ▸ sound.width
      count := by
        rw [finishes.perm.length_eq, ← sound.count, same]
      few := by
        rw [stages.length_eq, perm.length_eq]
        exact lt_of_le_of_lt build.committed_length_le build.few
      ordered := finishes.ordered
      stages := stages.imp fun _ _ staged => staged.grows grows
      declared := fun set member => by
        rw [schema]
        exact tracks.declared set member
      observed := fun entry member => tracks.rowsObserved entry (perm.mem_iff.mp member)
      stats := fun i decl declared => by
        have statsEq : final.statsAt i = build.session.builder.statsAt i := by
          rw [statsAt, statsAt, same]
        rw [statsEq]
        exact tracks.stats i decl (schema ▸ declared) }

/-- Where the input is assumed sorted, `finish` returns only on records committed in order. -/
theorem Build.sorted_eq_committed (build : Build) {report : BuildReport}
    (returned : build.finished.outcome = .ok report)
    (assumes : build.options.order = .assumeSorted) : build.log.sorted = build.log.committed := by
  have running := build.running returned
  have tracks := build.tracks running
  refine (eq_sorted_of_places (List.Perm.refl _) (places_of_stages ?_ tracks.rows)).symm
  have assumed : build.session.builder.options.order = .assumeSorted := by
    rw [tracks.options, assumes]
  rw [Build.finished, finish, if_neg (by simp [running])] at returned
  cases staging : build.session.builder.staging with
  | none =>
    rw [rows, staging]
    exact List.Pairwise.nil
  | some owned =>
    rw [rows, staging]
    refine (tracks.sound.ordered owned staging).mp ?_
    simp only [ensureStaging, staging] at returned
    by_contra disordered
    rw [finishOwned, orderStaging, if_neg disordered, if_pos assumed] at returned
    cases returned

end Mmpack
