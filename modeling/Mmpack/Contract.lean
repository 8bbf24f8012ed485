/-
This file says what a staging of the caller's own has to do. The builder sees it through
an interface: rows are pushed, it is asked whether they are in order, it may be told to
sort, and its rows are read. A staging that keeps what is pushed, tells order truly and
sorts can stand in for the built-in ones in a build of integer addresses: every call
comes to the same, and so do the image and the report.
-/

import Mmpack.Interning
import Mmpack.Lockstep
import Mmpack.Opening
import Mmpack.SameInput

namespace Mmpack

open ByteList

/-! ### The contract -/

/-- The push that stages a row with an integer address. -/
def StagedRow.pushed (row : StagedRow) : StagingEvent :=
  .push row.partition row.address row.tuple

/-- What the builder relies on: after pushes the rows are those pushed, they are in order exactly
when the staging says so, and sorting puts them in order and changes nothing else. Rows of one
place may be left in any order. -/
structure StagingBehaviour.Obeys (behaviour : StagingBehaviour) : Prop where
  view : ∀ rows : List StagedRow, (∀ row ∈ rows, row.addressBytes = []) →
    behaviour.view (rows.map StagedRow.pushed) = rows
  isSorted : ∀ rows : List StagedRow, (∀ row ∈ rows, row.addressBytes = []) →
    (behaviour.isSorted (rows.map StagedRow.pushed) = true ↔ rows.Pairwise StagedRow.Before)
  sort_perm : ∀ rows : List StagedRow, (∀ row ∈ rows, row.addressBytes = []) →
    (behaviour.view (rows.map StagedRow.pushed ++ [.sort])).Perm rows
  sort_ordered : ∀ rows : List StagedRow, (∀ row ∈ rows, row.addressBytes = []) →
    (behaviour.view (rows.map StagedRow.pushed ++ [.sort])).Pairwise fun first second =>
      first.place ≤ second.place

/-- A builder with another staging under it. -/
def Builder.restage (builder : Builder) (owned : StagingObject) (nextObject : Nat) : Builder :=
  { builder with staging := some owned, nextObject }

/-- The second builder is the first but for its staging, which is the caller's and holds the same
rows as long as rows may come. -/
def Builder.StandsIn (behaviour : StagingBehaviour) (first second : Builder) : Prop :=
  ∃ owned nextObject, second = first.restage owned nextObject ∧
    (first.finished = false →
      owned.staging = .other behaviour (first.rows.map StagedRow.pushed))

namespace Builder

variable {behaviour : StagingBehaviour} {builder first second : Builder} {owned : StagingObject}
  {nextObject : Nat}

/-! ### Beginning a record -/

theorem enterMode_restage (wanted : KeyMode) :
    (builder.restage owned nextObject).enterMode wanted =
      ((builder.enterMode wanted).1,
        (builder.enterMode wanted).2.restage owned nextObject) := by
  unfold enterMode restage ensureStaging
  by_cases finished : builder.finished = true
  · simp only [if_pos finished]
  · simp only [if_neg finished]
    by_cases undecided : builder.mode = .undecided
    · simp only [if_pos undecided]
      cases builder.staging <;> rfl
    · simp only [if_neg undecided]
      split <;> rfl

theorem beginRecord_restage (key : UInt64) :
    (builder.restage owned nextObject).beginRecord key =
      ((builder.beginRecord key).1, (builder.beginRecord key).2.restage owned nextObject) := by
  unfold beginRecord
  rw [enterMode_restage]
  cases builder.enterMode .keyed with
  | mk result entered => cases result <;> rfl

theorem beginRecordAt_restage (partition address : UInt64) :
    (builder.restage owned nextObject).beginRecordAt partition address =
      ((builder.beginRecordAt partition address).1,
        (builder.beginRecordAt partition address).2.restage owned nextObject) := by
  unfold beginRecordAt
  rw [enterMode_restage]
  cases builder.enterMode .explicit with
  | mk result entered => cases result <;> rfl

/-- A build that is not of spans refuses one, whatever its staging. -/
theorem beginRecordAtBytes_restage (partition : UInt64) (address : List UInt8)
    (narrow : (builder.beginRecordAtBytes partition address).2.mode ≠ .explicitWide) :
    (builder.restage owned nextObject).beginRecordAtBytes partition address =
      ((builder.beginRecordAtBytes partition address).1,
        (builder.beginRecordAtBytes partition address).2.restage owned nextObject) := by
  revert narrow
  unfold beginRecordAtBytes enterWideMode restage
  by_cases empty : address = []
  · intro _
    simp only [if_pos empty]
  · simp only [if_neg empty]
    by_cases finished : builder.finished = true
    · intro _
      simp only [if_pos finished, andThen]
    · simp only [if_neg finished]
      by_cases undecided : builder.mode = .undecided
      · intro narrow
        refine absurd ?_ narrow
        simp only [if_pos undecided]
        cases builder.staging <;> simp only [andThen] <;> split <;> rfl
      · simp only [if_neg undecided]
        by_cases wide : builder.mode = .explicitWide
        · intro narrow
          refine absurd ?_ narrow
          simp only [if_neg (not_not.mpr wide), andThen]
          split
          · exact wide
          · exact wide
        · intro _
          simp only [ne_eq, if_pos wide, andThen]

/-- Beginning a record stages nothing and finishes nothing. -/
theorem BeginsAs.kept {wanted : KeyMode} {pending : List UInt8} {rec : RecordRef}
    {outcome : Outcome RecordRef} (comes : builder.BeginsAs wanted pending rec outcome) :
    outcome.2.rows = builder.rows ∧ outcome.2.finished = builder.finished := by
  have finished {entered : Builder} (enters : builder.Enters wanted pending entered) :
      entered.finished = builder.finished := by
    obtain ⟨staging, nextObject, rfl⟩ := enters.fields
    rfl
  cases comes with
  | refused error => exact ⟨rfl, rfl⟩
  | mismatched error entered enters _ width => exact ⟨enters.rows, finished enters⟩
  | begun entered enters =>
    have same := finished enters
    exact ⟨enters.rows, same⟩

/-! ### Setting and committing -/

theorem set_restage (id : Nat) (value : FieldValue) :
    (builder.restage owned nextObject).set id value =
      ((builder.set id value).1, (builder.set id value).2.restage owned nextObject) := by
  have moved := set_with builder builder.options builder.mode (some owned) builder.blob nextObject
    builder.tuples builder.index builder.dedupActive id value
  obtain ⟨slots, stats, textDicts, frame⟩ := set_frame builder id value
  rw [frame] at moved ⊢
  exact moved

theorem internTuple_restage : (builder.restage owned nextObject).internTuple =
    (builder.internTuple.1, builder.internTuple.2.restage owned nextObject) := by
  unfold internTuple maybeGiveUpOnDedup restage
  by_cases active : builder.dedupActive = true
  · simp only [if_pos active]
    cases builder.index.find? fun id => decide (builder.tuples[id]? = some builder.slots) with
    | some id => rfl
    | none =>
      simp only
      split
      · rfl
      · split <;> rfl
  · simp only [if_neg active]

/-- A commit is refused alike, in the same words. -/
theorem commit_restage_rejected {rec : RecordRef} (rejects : builder.Rejects rec) :
    (builder.restage owned nextObject).commit rec =
      ((builder.commit rec).1, (builder.commit rec).2.restage owned nextObject) := by
  have rejects' : (builder.restage owned nextObject).Rejects rec := rejects
  unfold Rejects at rejects rejects'
  unfold commit
  by_cases finished : builder.finished = true
  · rw [if_pos finished]
    exact if_pos finished
  · rw [if_neg finished, if_pos (rejects.resolve_left finished)]
    exact (if_neg finished).trans (if_pos (rejects'.resolve_left finished))

/-- A commit that is not refused pushes its row to the caller's staging. -/
theorem commit_restage {rec : RecordRef} (accepts : ¬ builder.Rejects rec)
    (narrow : builder.blob = none) {events : List StagingEvent}
    (custom : owned.staging = .other behaviour events) (staging : Option StagingObject) :
    (builder.restage owned nextObject).commit rec =
      (.ok (), (builder.committed rec staging).restage { owned with
        staging := .other behaviour
          (events ++ [.push rec.partition rec.address builder.internTuple.1]) } nextObject) := by
  have blob : builder.internTuple.2.blob = none := by
    obtain ⟨tuple, tuples, index, dedupActive, interned, -, -⟩ := internTuple_eq builder
    rw [interned]
    exact narrow
  have accepts' : ¬ (builder.restage owned nextObject).Rejects rec := accepts
  rw [commit_interns accepts', internTuple_restage]
  unfold stage pushNarrow restage committed
  simp only [blob, custom, Staging.push, andThen, narrow]
  obtain ⟨tuple, tuples, index, dedupActive, interned, -, -⟩ := internTuple_eq builder
  rw [interned]
  rfl

/-! ### Finishing -/

/-- Rows at the same places pass or fail the check for duplicates alike. -/
theorem checkSortedUnique_places (narrow : builder.blob = none) {rows rows' : List StagedRow}
    (same : rows'.map (fun row => (row.partition, row.address)) =
      rows.map fun row => (row.partition, row.address)) :
    checkSortedUnique builder rows' = checkSortedUnique builder rows := by
  induction rows generalizing rows' with
  | nil => rw [List.map_eq_nil_iff.mp same]
  | cons first rest inductionHypothesis =>
    obtain ⟨first', rest', rfl, here, later⟩ := List.map_eq_cons_iff.mp same
    cases rest with
    | nil =>
      rw [List.map_eq_nil_iff.mp later]
      rfl
    | cons second rest =>
      have remaining := inductionHypothesis later
      obtain ⟨second', rest', rfl, next, -⟩ := List.map_eq_cons_iff.mp later
      obtain ⟨partition, address⟩ := Prod.mk.inj here
      obtain ⟨partition', address'⟩ := Prod.mk.inj next
      have step : rowIncreases builder first' second' = rowIncreases builder first second := by
        simp only [rowIncreases, narrow, Option.isSome_none, Bool.false_eq_true, if_false,
          partition, address, partition', address']
      rw [checkSortedUnique, checkSortedUnique, step, remaining, partition', address']

/-- Integer rows at one place have one partition and one address. -/
theorem spots_of_places {rows rows' : List StagedRow}
    (integers : ∀ row ∈ rows, row.addressBytes = []) (integers' : ∀ row ∈ rows',
      row.addressBytes = []) (same : rows'.map StagedRow.place = rows.map StagedRow.place) :
    rows'.map (fun row => (row.partition, row.address)) =
      rows.map fun row => (row.partition, row.address) := by
  have spot {list : List StagedRow} (integers : ∀ row ∈ list, row.addressBytes = []) :
      list.map (fun row => (row.partition, row.address)) = (list.map StagedRow.place).map
        fun place => (UInt64.ofNat (ofLex place).1, UInt64.ofNat (ofLex place).2) := by
    rw [List.map_map]
    refine List.map_congr_left fun row member => ?_
    simp only [Function.comp, StagedRow.place, ofLex_toLex, integers row member, beNat,
      Nat.add_zero, UInt64.ofNat_toNat]
  rw [spot integers, spot integers', same]

/-- A staging that obeys is put in order like the one it stands in for. -/
theorem orderStaging_restage (obeys : behaviour.Obeys) {staging : Staging}
    {rows : List StagedRow} (integers : ∀ row ∈ rows, row.addressBytes = [])
    (narrow : builder.blob = none) (view : staging.view = rows)
    (flag : staging.isSorted = true ↔ rows.Pairwise StagedRow.Before)
    (sorts : staging.sort.view = StagedRow.sortRows rows) :
    let custom := Staging.other behaviour (rows.map StagedRow.pushed)
    (orderStaging builder custom).2 = (orderStaging builder staging).2 ∧
      ((∃ flag, (orderStaging builder staging).2 = .ok flag) →
        (orderStaging builder custom).1.view = (orderStaging builder staging).1.view) := by
  intro custom
  have sameFlag : custom.isSorted = staging.isSorted := by
    rw [Bool.eq_iff_iff, flag]
    exact obeys.isSorted rows integers
  have perm := obeys.sort_perm rows integers
  have places : custom.sort.view.map StagedRow.place =
      (StagedRow.sortRows rows).map StagedRow.place := by
    refine ((perm.trans (StagedRow.sortRows_perm rows).symm).map _).eq_of_pairwise
      (fun _ _ _ _ less less' => le_antisymm less less')
      (List.pairwise_map.mpr (obeys.sort_ordered rows integers))
      (List.pairwise_map.mpr (StagedRow.sortRows_pairwise rows))
  have checks : checkSortedUnique builder custom.sort.view =
      checkSortedUnique builder staging.sort.view := by
    rw [sorts]
    refine checkSortedUnique_places narrow (spots_of_places ?_ ?_ places)
    · exact fun row member => integers row ((StagedRow.sortRows_perm rows).mem_iff.mp member)
    · exact fun row member => integers row (perm.mem_iff.mp member)
  unfold orderStaging
  rw [sameFlag, checks]
  by_cases sorted : staging.isSorted = true
  · rw [if_pos sorted, if_pos sorted]
    exact ⟨rfl, fun _ => (obeys.view rows integers).trans view.symm⟩
  · rw [if_neg sorted, if_neg sorted]
    by_cases assumed : builder.options.order = .assumeSorted
    · rw [if_pos assumed, if_pos assumed]
      refine ⟨rfl, ?_⟩
      rintro ⟨_, impossible⟩
      cases impossible
    · rw [if_neg assumed, if_neg assumed]
      refine ⟨rfl, ?_⟩
      rintro ⟨flag, passed⟩
      -- Rows that pass the check stand at places of their own, so there is one order of them.
      have checked : checkSortedUnique builder (StagedRow.sortRows rows) = .ok () := by
        rw [← sorts]
        cases check : checkSortedUnique builder staging.sort.view with
        | ok result => rfl
        | error error =>
          rw [check] at passed
          cases passed
      have shaped : ∀ row ∈ StagedRow.sortRows rows, builder.Shaped row := by
        intro row member
        rw [Shaped, narrow]
        exact integers row ((StagedRow.sortRows_perm rows).mem_iff.mp member)
      have ordered := StagedRow.pairwise_of_steps ((checkSortedUnique_iff shaped).mp checked)
      have distinct := pairwise_nodup ordered
      rw [← places] at distinct
      have ordered' := ((obeys.sort_ordered rows integers).and
        (List.pairwise_map.mp distinct)).imp fun apart => lt_of_le_of_ne apart.1 apart.2
      exact (StagedRow.eq_of_perm (perm.trans (StagedRow.sortRows_perm rows).symm) ordered'
        ordered).trans sorts.symm

/-- Two builders that differ in their staging finish alike when it is put in order alike. -/
theorem finishOwned_restage {owned' : StagingObject}
    (orders : (orderStaging (builder.restage owned' nextObject) owned'.staging).2 =
      (orderStaging builder owned.staging).2)
    (views : (∃ flag, (orderStaging builder owned.staging).2 = .ok flag) →
      (orderStaging (builder.restage owned' nextObject) owned'.staging).1.view =
        (orderStaging builder owned.staging).1.view) :
    (finishOwned (builder.restage owned' nextObject) owned').outcome =
        (finishOwned builder owned).outcome ∧
      (finishOwned (builder.restage owned' nextObject) owned').image =
        (finishOwned builder owned).image := by
  unfold finishOwned
  cases ordering : orderStaging builder owned.staging with
  | mk staging result =>
    cases ordering' : orderStaging (builder.restage owned' nextObject) owned'.staging with
    | mk staging' result' =>
      rw [ordering, ordering'] at orders views
      obtain rfl : result' = result := orders
      cases result' with
      | error error => exact ⟨rfl, rfl⟩
      | ok flag =>
        have view : staging'.view = staging.view := views ⟨flag, rfl⟩
        have same : SameInput { builder with staging := some { owned with staging } }
            { builder.restage owned' nextObject with
              staging := some { owned' with staging := staging' } } :=
          ⟨rfl, rfl, rfl, rfl, rfl, rfl, rfl, rfl, rfl, rfl, rfl, rfl⟩
        have layouts := same.chooseLayout (same.choice rfl staging.view)
        simp only [view, layouts, same.writeImage rfl]
        split <;> exact ⟨rfl, rfl⟩

theorem finish_owns (running : builder.finished = false) : ∃ owned nextObject,
    (finish builder).builder = { builder with
      staging := some owned, finished := true, nextObject } := by
  obtain ⟨owned, nextObject, -, equation⟩ := finish_eq running
  obtain ⟨staging, stored, -⟩ := finishOwned_builder
    { builder with staging := some owned, finished := true, nextObject } owned
  exact ⟨{ owned with staging }, nextObject, by rw [equation, stored]⟩

theorem StandsIn.finish (obeys : behaviour.Obeys) (stands : StandsIn behaviour first second)
    (running : first.finished = false → first.Sound ∧ first.blob = none ∧
      ∀ row ∈ first.rows, row.addressBytes = []) :
    (finish second).outcome = (finish first).outcome ∧
      (finish second).image = (finish first).image := by
  obtain ⟨owned, nextObject, rfl, holds⟩ := stands
  by_cases finished : first.finished = true
  · rw [Mmpack.finish, Mmpack.finish, if_pos finished]
    exact ⟨by rw [if_pos (by exact finished)], by rw [if_pos (by exact finished)]⟩
  · rw [Bool.not_eq_true] at finished
    obtain ⟨sound, narrow, integers⟩ := running finished
    obtain ⟨owned₁, nextObject₁, owns, equation⟩ := finish_eq finished
    obtain ⟨owned₂, nextObject₂, owns₂, equation₂⟩ :=
      @finish_eq (first.restage owned nextObject) finished
    obtain rfl : owned = owned₂ := by
      rcases owns₂ with owns₂ | ⟨none, -⟩
      · exact Option.some.inj owns₂
      · cases none
    obtain ⟨view, flag, sorts⟩ := finish_staging sound owns
    obtain ⟨orders, views⟩ := orderStaging_restage obeys integers narrow view flag sorts
    let closing : Builder :=
      { first with staging := some owned₁, finished := true, nextObject := nextObject₁ }
    have ordering (staging : Staging) :
        orderStaging closing staging = orderStaging first staging := by
      apply orderStaging_congr <;> rfl
    have ordering' (staging : Staging) : orderStaging (closing.restage owned nextObject₂) staging =
        orderStaging first staging := by
      apply orderStaging_congr <;> rfl
    rw [equation, equation₂]
    refine @finishOwned_restage closing owned₁ nextObject₂ owned ?_ ?_
    · rw [ordering, ordering', holds finished]
      exact orders
    · rw [ordering, ordering', holds finished]
      exact views

end Builder

/-! ### Sessions -/

namespace Session

open Builder

variable {behaviour : StagingBehaviour} {schema : SchemaBuilder} {options : BuildOptions}
  {first second : Session}

/-- A session with the staging in place of the built-in one. -/
structure StandsIn (behaviour : StagingBehaviour) (schema : SchemaBuilder)
    (options : BuildOptions) (first second : Session) : Prop where
  handles : second.handles = first.handles
  builders : Builder.StandsIn behaviour first.builder second.builder
  tracks : first.builder.finished = true ∨ ∃ log, Tracks schema options first log

/-- Wide mode is for good. -/
theorem perform_wide {session : Session} {call : Call} (builtIn : call.BuiltIn)
    (wide : session.builder.mode = .explicitWide) :
    (session.perform call).2.builder.mode = .explicitWide := by
  have begins {wanted : KeyMode} {pending : List UInt8} {rec : RecordRef}
      (begins : beginsOf session.builder.options.addressBits call = some (wanted, pending, rec)) :
      (session.perform call).2.builder.mode = .explicitWide := by
    obtain ⟨outcome, equation, comes⟩ := perform_begins begins
    have mode {entered : Builder} (enters : session.builder.Enters wanted pending entered) :
        entered.mode = .explicitWide := by
      obtain ⟨staging, nextObject, rfl⟩ := enters.fields
      rcases enters.admits.2 with undecided | same
      · rw [wide] at undecided
        cases undecided
      · exact same.symm.trans wide
    rw [equation]
    cases comes with
    | refused error => exact wide
    | mismatched error entered enters _ width =>
      have kept := mode enters
      exact kept
    | begun entered enters =>
      have kept := mode enters
      exact kept
  cases call with
  | setStaging staging => exact builtIn.elim
  | beginRecord | beginRecordAt | beginRecordAtBytes => exact begins rfl
  | set handle id value =>
    simp only [perform]
    split
    · obtain ⟨slots, stats, textDicts, frame⟩ := set_frame session.builder id value
      rw [after, frame]
      exact wide
    · exact wide
  | commit handle =>
    simp only [perform]
    split
    · rename_i rec given
      rw [after]
      by_cases rejects : session.builder.Rejects rec
      · obtain ⟨error, equation⟩ := commit_rejected rejects
        rw [equation]
        exact wide
      · obtain ⟨tuple, tuples, index, dedupActive, interned, -, -⟩ :=
          internTuple_eq session.builder
        obtain ⟨staging, lastWide, staged⟩ :=
          stage_frame session.builder.internTuple.2 rec session.builder.internTuple.1
        rw [commit_interns rejects]
        generalize session.builder.internTuple.2.stage rec session.builder.internTuple.1 =
          outcome at staged
        obtain ⟨result, later⟩ := outcome
        cases result <;>
        · simp only [andThen]
          simp only at staged
          rw [staged, interned]
          exact wide
    · exact wide
  | finish =>
    obtain ⟨staging, nextObject, same⟩ := finish_builder session.builder
    simp only [perform, same]
    exact wide

theorem StandsIn.step_tracks (stands : StandsIn behaviour schema options first second)
    {call : Call} (builtIn : call.BuiltIn) : (first.perform call).2.builder.finished = true ∨
      ∃ log, Tracks schema options (first.perform call).2 log := by
  rcases stands.tracks with finished | ⟨log, tracks⟩
  · exact Or.inl (perform_finished finished builtIn)
  · by_cases last : call = .finish
    · subst last
      exact Or.inl (finish_finished _)
    · exact Or.inr ⟨_, perform_tracks tracks builtIn last⟩

/-- Builders that change alike and stage nothing stand in for each other still. -/
theorem StandsIn.moves (stands : StandsIn behaviour schema options first second)
    {later later' : Builder}
    (moves : ∀ owned nextObject, second.builder = first.builder.restage owned nextObject →
      later' = later.restage owned nextObject)
    (rows : later.rows = first.builder.rows)
    (finished : later.finished = first.builder.finished) :
    Builder.StandsIn behaviour later later' := by
  obtain ⟨owned, nextObject, same, holds⟩ := stands.builders
  refine ⟨owned, nextObject, moves owned nextObject same, fun running => ?_⟩
  rw [rows]
  exact holds (finished.symm.trans running)

/-- Records are begun on both sides, or refused in the same words. -/
theorem StandsIn.begin (stands : StandsIn behaviour schema options first second) {call : Call}
    {wanted : KeyMode} {pending : List UInt8} {rec : RecordRef} (builtIn : call.BuiltIn)
    {outcome outcome' : Outcome RecordRef}
    (comes : first.builder.BeginsAs wanted pending rec outcome)
    (performs : first.perform call = first.keep outcome)
    (performs' : second.perform call = second.keep outcome')
    (moves : ∀ owned nextObject, second.builder = first.builder.restage owned nextObject →
      outcome' = (outcome.1, outcome.2.restage owned nextObject)) :
    (second.perform call).1 = (first.perform call).1 ∧
      StandsIn behaviour schema options (first.perform call).2 (second.perform call).2 := by
  have tracks := stands.step_tracks builtIn
  obtain ⟨rows, finished⟩ := comes.kept
  obtain ⟨owned, nextObject, same, -⟩ := stands.builders
  have builders := stands.moves (fun owned nextObject same =>
    congrArg Prod.snd (moves owned nextObject same)) rows finished
  have results : outcome'.1 = outcome.1 := by rw [moves owned nextObject same]
  rw [performs] at tracks ⊢
  rw [performs']
  obtain ⟨result, later⟩ := outcome
  obtain ⟨result', later'⟩ := outcome'
  obtain rfl : result' = result := results
  cases result' with
  | error error => exact ⟨rfl, stands.handles, builders, tracks⟩
  | ok handle => exact ⟨rfl, congrArg (· ++ [handle]) stands.handles, builders, tracks⟩

/-- A record is committed on both sides, or refused in the same words. -/
theorem StandsIn.commit (stands : StandsIn behaviour schema options first second) {handle : Nat}
    (narrow : (first.perform (.commit handle)).2.builder.mode ≠ .explicitWide) :
    (second.perform (.commit handle)).1 = (first.perform (.commit handle)).1 ∧
      StandsIn behaviour schema options (first.perform (.commit handle)).2
        (second.perform (.commit handle)).2 := by
  have tracks := @StandsIn.step_tracks _ _ _ _ _ stands (.commit handle) trivial
  obtain ⟨owned, nextObject, same, holds⟩ := stands.builders
  simp only [perform, stands.handles] at tracks narrow ⊢
  cases given : first.handles[handle]? with
  | none => exact ⟨rfl, stands⟩
  | some rec =>
    simp only [given, after] at tracks narrow ⊢
    by_cases rejects : first.builder.Rejects rec
    · have moves := @commit_restage_rejected _ owned nextObject _ rejects
      obtain ⟨error, thrown⟩ := commit_rejected rejects
      rw [same, moves, thrown]
      rw [thrown] at tracks
      exact ⟨rfl, stands.handles, ⟨owned, nextObject, rfl, holds⟩, tracks⟩
    · have running : first.builder.finished = false := by
        rw [← Bool.not_eq_true]
        exact fun finished => rejects (Or.inl finished)
      obtain ⟨log, tracked⟩ := stands.tracks.resolve_left (by simp [running])
      rcases commit_eq tracked.sound tracked.narrow
        (tracked.handles rec (List.mem_of_getElem? given)) with ⟨rejected, -⟩ |
        ⟨-, staging, equation, commits⟩
      · exact absurd rejected rejects
      · rw [equation] at narrow tracks ⊢
        have mode : first.builder.mode ≠ .explicitWide := narrow
        have blob : first.builder.blob = none := by
          rw [← Option.not_isSome_iff_eq_none]
          exact fun wide => mode (tracked.sound.wide_iff.mp wide)
        have moves := @commit_restage behaviour _ owned nextObject _ rejects blob _ (holds running)
          staging
        rw [same, moves]
        refine ⟨rfl, stands.handles, ⟨_, nextObject, rfl, fun _ => ?_⟩, tracks⟩
        rw [commits.rows, List.map_append]
        rfl

theorem StandsIn.finish (obeys : behaviour.Obeys)
    (stands : StandsIn behaviour schema options first second)
    (narrow : first.builder.mode ≠ .explicitWide) :
    (Mmpack.finish second.builder).outcome = (Mmpack.finish first.builder).outcome ∧
      (Mmpack.finish second.builder).image = (Mmpack.finish first.builder).image := by
  refine stands.builders.finish obeys fun running => ?_
  obtain ⟨log, tracked⟩ := stands.tracks.resolve_left (by simp [running])
  have blob : first.builder.blob = none := by
    rw [← Option.not_isSome_iff_eq_none]
    exact fun wide => narrow (tracked.sound.wide_iff.mp wide)
  refine ⟨tracked.sound, blob, fun row member => ?_⟩
  have shaped := tracked.sound.row member
  rw [blob] at shaped
  exact shaped

/-- One call comes to the same on both sides. -/
theorem perform_standsIn (obeys : behaviour.Obeys)
    (stands : StandsIn behaviour schema options first second) {call : Call}
    (builtIn : call.BuiltIn) (narrow : (first.perform call).2.builder.mode ≠ .explicitWide) :
    (second.perform call).1 = (first.perform call).1 ∧
      StandsIn behaviour schema options (first.perform call).2 (second.perform call).2 := by
  cases call with
  | setStaging staging => exact builtIn.elim
  | beginRecord key =>
    refine stands.begin trivial (first.builder.beginRecord_beginsAs key) rfl rfl ?_
    intro owned nextObject same
    rw [same, beginRecord_restage]
  | beginRecordAt partition address =>
    refine stands.begin trivial (first.builder.beginRecordAt_beginsAs partition address) rfl rfl ?_
    intro owned nextObject same
    rw [same, beginRecordAt_restage]
  | beginRecordAtBytes partition address =>
    refine stands.begin trivial (first.builder.beginRecordAtBytes_beginsAs partition address) rfl
      rfl ?_
    intro owned nextObject same
    rw [same]
    refine beginRecordAtBytes_restage partition address fun wide => narrow ?_
    simp only [perform]
    generalize first.builder.beginRecordAtBytes partition address = outcome at wide
    obtain ⟨result, later⟩ := outcome
    cases result <;> exact wide
  | set handle id value =>
    have tracks := @StandsIn.step_tracks _ _ _ _ _ stands (.set handle id value) trivial
    simp only [perform, stands.handles] at tracks ⊢
    cases given : first.handles[handle]? with
    | none => exact ⟨rfl, stands⟩
    | some rec =>
      simp only [given, after] at tracks ⊢
      obtain ⟨owned, nextObject, same, -⟩ := stands.builders
      have results : (second.builder.set id value).1 = (first.builder.set id value).1 := by
        rw [same, set_restage]
      obtain ⟨slots, stats, textDicts, frame⟩ := set_frame first.builder id value
      refine ⟨results, stands.handles, stands.moves (fun owned nextObject same => ?_) ?_ ?_, tracks⟩
      · rw [same, set_restage]
      · rw [frame]
        rfl
      · rw [frame]
  | commit handle => exact stands.commit narrow
  | finish =>
    have tracks := @StandsIn.step_tracks _ _ _ _ _ stands .finish trivial
    have mode : first.builder.mode ≠ .explicitWide := by
      obtain ⟨staging, nextObject, same⟩ := finish_builder first.builder
      simp only [perform, same] at narrow
      exact narrow
    obtain ⟨outcome, -⟩ := stands.finish obeys mode
    simp only [perform, outcome] at tracks ⊢
    refine ⟨trivial, stands.handles, ?_, tracks⟩
    obtain ⟨owned, nextObject, same, holds⟩ := stands.builders
    by_cases finished : first.builder.finished = true
    · have finished' : second.builder.finished = true := by
        rw [same]
        exact finished
      rw [Mmpack.finish, Mmpack.finish, if_pos finished, if_pos finished']
      exact stands.builders
    · rw [Bool.not_eq_true] at finished
      have finished' : second.builder.finished = false := by
        rw [same]
        exact finished
      obtain ⟨owned₁, nextObject₁, left⟩ := finish_owns finished
      obtain ⟨owned₂, nextObject₂, right⟩ := finish_owns finished'
      rw [left, right, same]
      exact ⟨owned₂, nextObject₂, rfl, fun running => by cases running⟩

/-- The staging in place is not noticed as long as no record is begun with a span. -/
theorem lockstep (obeys : behaviour.Obeys) : Lockstep.Simulation perform perform Call.BuiltIn
    (fun session => session.builder.mode ≠ .explicitWide) (StandsIn behaviour schema options) where
  back := fun _ _ builtIn narrow wide => narrow (perform_wide builtIn wide)
  output := fun _ _ _ stands builtIn narrow => (perform_standsIn obeys stands builtIn narrow).1
  related := fun _ _ _ stands builtIn narrow => (perform_standsIn obeys stands builtIn narrow).2

end Session

/-! ### Builds on a staging of the caller's own -/

/-- The start of a build whose first call puts the staging in place. -/
def Build.onStaging (build : Build) (behaviour : StagingBehaviour) : Session :=
  ((Session.start build.fresh).perform (.setStaging (.other behaviour []))).2

theorem Build.onStaging_standsIn (build : Build) (behaviour : StagingBehaviour) :
    ((Session.start build.fresh).perform (.setStaging (.other behaviour []))).1 = .ok () ∧
      Session.StandsIn behaviour build.schema build.options (Session.start build.fresh)
        (build.onStaging behaviour) := by
  have tracks := Session.start_tracks build.made
  obtain ⟨-, -, -, rows, mode, -⟩ := Builder.make_eq build.made
  have none : build.fresh.staging = none := (tracks.sound.fresh mode).1
  have sets : build.fresh.setStaging (.other behaviour []) =
      (.ok (), build.fresh.own (.other behaviour [])) := by
    unfold Builder.setStaging
    rw [none]
  have performs : (Session.start build.fresh).perform (.setStaging (.other behaviour [])) =
      (.ok (), { builder := build.fresh.own (.other behaviour []), handles := [] }) := by
    simp only [Session.perform, Session.start, Session.after, sets]
  refine ⟨by rw [performs], ?_, ?_, Or.inr ⟨_, tracks⟩⟩
  · rw [Build.onStaging, performs]
    rfl
  · rw [Build.onStaging, performs]
    refine ⟨_, _, rfl, fun _ => ?_⟩
    rw [Session.start, rows]
    rfl

/-- A staging that obeys the contract can stand in for the built-in ones: every call returns or
throws the same, in the same words, and `finish` comes to the same image and the same report. -/
theorem Build.custom_staging {build : Build} {behaviour : StagingBehaviour}
    (obeys : behaviour.Obeys) (narrow : build.session.builder.mode ≠ .explicitWide) :
    ((Session.start build.fresh).perform (.setStaging (.other behaviour []))).1 = .ok () ∧
      Lockstep.outputs Session.perform (build.onStaging behaviour) build.calls =
        Lockstep.outputs Session.perform (Session.start build.fresh) build.calls ∧
      (finish ((build.onStaging behaviour).run build.calls).builder).outcome =
        build.finished.outcome ∧
      (finish ((build.onStaging behaviour).run build.calls).builder).image =
        build.finished.image := by
  obtain ⟨accepted, stands⟩ := build.onStaging_standsIn behaviour
  obtain ⟨same, ends⟩ := (Session.lockstep obeys).run stands build.builtIn narrow
  exact ⟨accepted, same, ends.finish obeys narrow⟩

/-- The plainest staging there is: a list of rows, sorted when it is told to. -/
def StagingEvent.apply (rows : List StagedRow) : StagingEvent → List StagedRow
  | .push partition address tuple => rows ++ [⟨partition, address, [], tuple⟩]
  | .sort => StagedRow.sortRows rows

def StagingBehaviour.plain : StagingBehaviour where
  view events := events.foldl StagingEvent.apply []
  isSorted events := decide ((events.foldl StagingEvent.apply []).Pairwise fun first second =>
    first.place < second.place)

theorem foldl_pushed {rows : List StagedRow} (integers : ∀ row ∈ rows, row.addressBytes = [])
    (front : List StagedRow) :
    (rows.map StagedRow.pushed).foldl StagingEvent.apply front = front ++ rows := by
  induction rows generalizing front with
  | nil => exact (List.append_nil front).symm
  | cons row rest inductionHypothesis =>
    have here : StagingEvent.apply front row.pushed = front ++ [row] := by
      simp only [StagedRow.pushed, StagingEvent.apply, ← integers row List.mem_cons_self]
    rw [List.map_cons, List.foldl_cons, here,
      inductionHypothesis (fun other member => integers other (List.mem_cons_of_mem _ member)),
      List.append_assoc, List.singleton_append]

theorem StagingBehaviour.plain_obeys : StagingBehaviour.plain.Obeys := by
  have pushes {rows : List StagedRow} (integers : ∀ row ∈ rows, row.addressBytes = []) :
      StagingBehaviour.plain.view (rows.map StagedRow.pushed) = rows :=
    (foldl_pushed integers []).trans (List.nil_append rows)
  have sorts {rows : List StagedRow} (integers : ∀ row ∈ rows, row.addressBytes = []) :
      StagingBehaviour.plain.view (rows.map StagedRow.pushed ++ [.sort]) =
        StagedRow.sortRows rows := by
    refine (List.foldl_append ..).trans ?_
    exact congrArg StagedRow.sortRows (pushes integers)
  refine ⟨fun rows integers => pushes integers, fun rows integers => ?_, fun rows integers => ?_,
    fun rows integers => ?_⟩
  · refine decide_eq_true_iff.trans ?_
    exact iff_of_eq (congrArg (List.Pairwise StagedRow.Before) (pushes integers))
  · rw [sorts integers]
    exact StagedRow.sortRows_perm rows
  · rw [sorts integers]
    exact StagedRow.sortRows_pairwise rows

/-- Three records out of order, one of them begun with a span and refused. -/
def customSample : Build :=
  Build.of numberSchema { BuildOptions.default with order := .sortIfNeeded }
    [.beginRecord 9, .set 0 0 (.uint 3), .commit 0, .beginRecordAtBytes 1 [7], .beginRecord 4,
      .set 1 0 (.uint 5), .commit 1, .beginRecord 6, .commit 2]
    numberSchema_fields BuildOptions.default_addressBits (by decide) (by decide)

theorem sample_custom_staging :
    (finish ((customSample.onStaging .plain).run customSample.calls).builder).outcome =
        customSample.finished.outcome ∧
      customSample.finished.image ≠ [] ∧
      Lockstep.outputs Session.perform (customSample.onStaging .plain) customSample.calls =
        [.ok (), .ok (), .ok (), .error .mixedKeyModes, .ok (), .ok (), .ok (), .ok (),
          .ok ()] := by
  obtain ⟨-, results, outcome, -⟩ := @Build.custom_staging customSample _
    StagingBehaviour.plain_obeys (by decide +kernel)
  refine ⟨outcome, by decide +kernel, ?_⟩
  rw [results]
  decide +kernel

end Mmpack
