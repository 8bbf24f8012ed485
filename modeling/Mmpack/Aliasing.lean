/-
This file is about the two names the builder has for its staging: the one that
owns it, and the plain pointer that wide mode keeps beside it. The invariant stated
with the pointer is that it is set exactly in wide mode and names the object owned.

Replacing the staging breaks it at two moments: in wide mode, where the pointer is
left on an object that is gone, and before wide mode, where the pointer is never
set. A run keeps the invariant in every state exactly when it does neither.
-/

import Mmpack.Calls

namespace Mmpack

open ByteList

namespace Builder

/-! ### The invariant -/

/-- The pointer is set exactly in wide mode, and names the object that is owned. -/
structure Aliased (builder : Builder) : Prop where
  wide : builder.blob.isSome = true ↔ builder.mode = .explicitWide
  owned : ∀ id, builder.blob = some id → ∃ owned, builder.staging = some owned ∧ owned.id = id

/-- A wide record went to the object that is owned, with all its bytes. -/
def StoresBytes (builder : Builder) (rec : RecordRef) (later : Builder) : Prop :=
  builder.mode = .explicitWide → ∃ id before after tuple,
    builder.staging = some ⟨id, .blob before⟩ ∧ later.staging = some ⟨id, .blob after⟩ ∧
      after.rows = before.rows ++
        [{ partition := rec.partition, address := builder.pendingAddress, tuple }]

/-- The invariant as a run carries it: the object is one for bytes, and objects are numbered as
they are made. -/
structure Linked (builder : Builder) : Prop where
  wide : builder.blob.isSome = true ↔ builder.mode = .explicitWide
  owned : ∀ id, builder.blob = some id → ∃ staging, builder.staging = some ⟨id, .blob staging⟩
  numbered : ∀ owned, builder.staging = some owned → owned.id < builder.nextObject

variable {builder : Builder}

theorem Linked.aliased (linked : builder.Linked) : builder.Aliased where
  wide := linked.wide
  owned id same := by
    obtain ⟨staging, owns⟩ := linked.owned id same
    exact ⟨_, owns, rfl⟩

theorem Linked.blob_none (linked : builder.Linked) (narrow : builder.mode ≠ .explicitWide) :
    builder.blob = none :=
  Option.not_isSome_iff_eq_none.mp fun isSome => narrow (linked.wide.mp isSome)

theorem make_linked {schema : SchemaBuilder} {options : BuildOptions}
    (made : make schema options = .ok builder) : builder.Linked := by
  obtain ⟨-, -, rfl⟩ := make_blank made
  refine ⟨by simp [blank], fun id same => ?_, fun owned same => ?_⟩
  · cases same
  · cases same

/-! ### Owning and entering a mode -/

/-- Owning another object keeps the invariant where there is no pointer to the old one. -/
theorem Linked.own (linked : builder.Linked) (narrow : builder.mode ≠ .explicitWide)
    (staging : Staging) : (builder.own staging).Linked where
  wide := linked.wide
  owned id same := by
    have none : builder.blob = none := linked.blob_none narrow
    rw [show (builder.own staging).blob = builder.blob from rfl, none] at same
    nomatch same
  numbered owned same := by
    obtain rfl := Option.some.inj same
    exact Nat.lt_succ_self _

theorem Linked.ensureStaging (linked : builder.Linked) (wanted : KeyMode) :
    (builder.ensureStaging wanted).Linked := by
  unfold Builder.ensureStaging
  cases owns : builder.staging with
  | some owned => exact linked
  | none =>
    refine linked.own (fun wide => ?_) _
    obtain ⟨id, same⟩ := Option.isSome_iff_exists.mp (linked.wide.mpr wide)
    obtain ⟨staging, other⟩ := linked.owned id same
    rw [owns] at other
    nomatch other

theorem Linked.enterMode (linked : builder.Linked) (wanted : KeyMode)
    (narrow : wanted ≠ .explicitWide) : (builder.enterMode wanted).2.Linked := by
  unfold Builder.enterMode
  split
  · exact linked
  · split
    · rename_i undecided
      have none := linked.blob_none (by rw [undecided]; decide)
      have entered : Linked { builder with mode := wanted } :=
        ⟨by simp [none, narrow], linked.owned, linked.numbered⟩
      exact entered.ensureStaging wanted
    · split <;> exact linked

theorem Linked.enterWideMode (linked : builder.Linked) (width : Nat)
    (fresh : builder.finished = false → builder.mode = .undecided → builder.staging = none) :
    (builder.enterWideMode width).2.Linked := by
  unfold Builder.enterWideMode
  by_cases finished : builder.finished = true
  · rw [if_pos finished]
    exact linked
  · rw [if_neg finished]
    by_cases undecided : builder.mode = .undecided
    · rw [if_pos undecided, fresh (by simpa using finished) undecided]
      refine ⟨iff_of_true rfl rfl, fun id same => ?_, fun owned same => ?_⟩
      · obtain rfl := Option.some.inj same
        exact ⟨_, rfl⟩
      · obtain rfl := Option.some.inj same
        exact Nat.lt_succ_self _
    · rw [if_neg undecided]
      split <;> exact linked

/-- What goes on only when a call returned goes on from where the call left. -/
theorem andThen_linked {First Second : Type} {outcome : Outcome First}
    {next : First → Builder → Outcome Second} (linked : outcome.2.Linked)
    (step : ∀ result, (next result outcome.2).2.Linked) : (andThen outcome next).2.Linked := by
  obtain ⟨result, after⟩ := outcome
  cases result with
  | ok result => exact step result
  | error error => exact linked

theorem Linked.beginRecordAtBytes (linked : builder.Linked) (partition : UInt64)
    {address : List UInt8}
    (fresh : builder.finished = false → address ≠ [] → builder.mode = .undecided →
      builder.staging = none) : (builder.beginRecordAtBytes partition address).2.Linked := by
  unfold Builder.beginRecordAtBytes
  split
  · exact linked
  · rename_i nonempty
    have entered := linked.enterWideMode (address.length % 2 ^ 32) fun running =>
      fresh running nonempty
    refine andThen_linked entered fun _ => ?_
    split
    · exact entered
    · exact ⟨entered.wide, entered.owned, entered.numbered⟩

/-! ### Setting and committing -/

theorem Linked.set (linked : builder.Linked) (id : Nat) (value : FieldValue) :
    (builder.set id value).2.Linked := by
  obtain ⟨slots, stats, textDicts, equation⟩ := set_frame builder id value
  rw [equation]
  exact ⟨linked.wide, linked.owned, linked.numbered⟩

theorem pushBytes_rows {staging pushed : BlobStaging} {partition : UInt64} {address : List UInt8}
    {tuple : Nat} (runs : staging.pushBytes partition address tuple = .ok pushed) :
    pushed.rows = staging.rows ++ [⟨partition, address, tuple⟩] := by
  unfold BlobStaging.pushBytes at runs
  split at runs
  · nomatch runs
  · rw [← Except.ok.inj runs]

theorem Linked.stage (linked : builder.Linked) (rec : RecordRef) (tuple : Nat) :
    (builder.stage rec tuple).2.Linked ∧
      ((builder.stage rec tuple).1 = .ok () →
        builder.StoresBytes rec (builder.stage rec tuple).2) := by
  unfold Builder.stage
  cases blob : builder.blob with
  | some id =>
    obtain ⟨staging, owns⟩ := linked.owned id blob
    simp only [pushWide, owns, ne_eq, not_true_eq_false, if_false]
    cases runs : staging.pushBytes rec.partition builder.pendingAddress tuple with
    | error error => exact ⟨linked, fun returned => by cases returned⟩
    | ok pushed =>
      refine ⟨⟨linked.wide, fun other same => ?_, fun other same => ?_⟩, fun _ _ =>
        ⟨id, staging, pushed, tuple, owns, rfl, pushBytes_rows runs⟩⟩
      · exact ⟨pushed, by rw [Option.some.inj (blob.symm.trans same)]⟩
      · have numbered := linked.numbered _ owns
        rwa [← Option.some.inj same]
  | none =>
    have narrow (wide : builder.mode = .explicitWide) : False := by
      have isSome := linked.wide.mpr wide
      rw [blob] at isSome
      cases isSome
    refine ⟨?_, fun _ wide => (narrow wide).elim⟩
    simp only
    unfold pushNarrow
    cases owns : builder.staging with
    | none => exact linked
    | some owned =>
      cases runs : owned.staging.push rec.partition rec.address tuple with
      | error error => simpa only [runs] using linked
      | ok pushed =>
        simp only [runs]
        refine ⟨linked.wide, fun other same => ?_, fun other same => ?_⟩
        · cases blob.symm.trans same
        · have numbered := linked.numbered _ owns
          rwa [← Option.some.inj same]

theorem Linked.commit (linked : builder.Linked) (rec : RecordRef) :
    (builder.commit rec).2.Linked ∧
      ((builder.commit rec).1 = .ok () → builder.StoresBytes rec (builder.commit rec).2) := by
  unfold Builder.commit
  split
  · exact ⟨linked, fun returned => nomatch returned⟩
  · split
    · exact ⟨linked, fun returned => nomatch returned⟩
    · obtain ⟨tuple, tuples, index, dedupActive, interned, -, -⟩ := internTuple_eq builder
      have internedLinked : Linked { builder with tuples, index, dedupActive } :=
        ⟨linked.wide, linked.owned, linked.numbered⟩
      obtain ⟨staged, stores⟩ := internedLinked.stage rec tuple
      rw [interned]
      simp only
      generalize ({ builder with tuples, index, dedupActive } : Builder).stage rec tuple =
        outcome at *
      obtain ⟨result, after⟩ := outcome
      cases result with
      | error error => exact ⟨staged, fun returned => nomatch returned⟩
      | ok _ => exact ⟨⟨staged.wide, staged.owned, staged.numbered⟩, fun _ => stores rfl⟩

/-! ### Finishing -/

theorem Linked.finish (linked : builder.Linked) : (finish builder).builder.Linked := by
  unfold Mmpack.finish
  split
  · exact linked
  · have running : Linked { builder with finished := true } :=
      ⟨linked.wide, linked.owned, linked.numbered⟩
    have ensured := running.ensureStaging .keyed
    generalize ({ builder with finished := true } : Builder).ensureStaging .keyed = entered at *
    simp only
    split
    · rename_i owned owns
      obtain ⟨staging, equation, sorts⟩ := finishOwned_builder entered owned
      rw [equation]
      refine ⟨ensured.wide, fun id same => ?_, fun other same => ?_⟩
      · obtain ⟨blob, owns'⟩ := ensured.owned id same
        obtain rfl := Option.some.inj (owns.symm.trans owns')
        rcases sorts with rfl | rfl
        · exact ⟨blob, rfl⟩
        · exact ⟨blob.sort, rfl⟩
      · have numbered := ensured.numbered _ owns
        rwa [← Option.some.inj same]
    · exact ensured

end Builder

/-! ### Whole runs -/

namespace Session

open Builder

variable {session : Session}

/-- A commit that returns keeps the bytes of a wide record. -/
def StoresBytes (session : Session) : Call → Prop
  | .commit handle => ∀ rec, session.handles[handle]? = some rec →
      (session.perform (.commit handle)).1 = .ok () →
        session.builder.StoresBytes rec (session.perform (.commit handle)).2.builder
  | _ => True

/-- The invariant holds in every state of a run, and no commit loses the bytes of an address. -/
def Upholds (session : Session) : List Call → Prop
  | [] => session.builder.Aliased
  | call :: rest =>
    session.builder.Aliased ∧ session.StoresBytes call ∧ (session.perform call).2.Upholds rest

/-- The staging is not replaced in wide mode, and no other is in place where wide mode is
entered. -/
def Minds (session : Session) : Call → Prop
  | .setStaging _ => session.builder.mode = .explicitWide →
      ∃ owned, session.builder.staging = some owned ∧ owned.staging.size ≠ 0
  | .beginRecordAtBytes _ address => session.builder.finished = false → address ≠ [] →
      session.builder.mode = .undecided → session.builder.staging = none
  | _ => True

def Mindful (session : Session) : List Call → Prop
  | [] => True
  | call :: rest => session.Minds call ∧ (session.perform call).2.Mindful rest

theorem keep_builder (session : Session) (outcome : Outcome RecordRef) :
    (session.keep outcome).2.builder = outcome.2 := by
  obtain ⟨result, later⟩ := outcome
  cases result <;> rfl

/-- A call that minds the staging keeps the invariant. -/
theorem perform_linked (linked : session.builder.Linked) {call : Call}
    (minds : session.Minds call) :
    (session.perform call).2.builder.Linked ∧ session.StoresBytes call := by
  cases call with
  | beginRecord key =>
    refine ⟨?_, trivial⟩
    rw [perform, keep_builder, Builder.beginRecord]
    have entered := linked.enterMode .keyed (by decide)
    exact andThen_linked entered fun _ => ⟨entered.wide, entered.owned, entered.numbered⟩
  | beginRecordAt partition address =>
    refine ⟨?_, trivial⟩
    rw [perform, keep_builder, Builder.beginRecordAt]
    have entered := linked.enterMode .explicit (by decide)
    exact andThen_linked entered fun _ => ⟨entered.wide, entered.owned, entered.numbered⟩
  | beginRecordAtBytes partition address =>
    refine ⟨?_, trivial⟩
    rw [perform, keep_builder]
    exact linked.beginRecordAtBytes partition minds
  | set handle id value =>
    refine ⟨?_, trivial⟩
    simp only [perform]
    split
    · exact linked.set id value
    · exact linked
  | commit handle =>
    unfold StoresBytes
    cases given : session.handles[handle]? with
    | none =>
      refine ⟨?_, fun rec other => nomatch given.symm.trans other⟩
      rw [perform, given]
      exact linked
    | some rec =>
      obtain ⟨later, stores⟩ := linked.commit rec
      refine ⟨?_, fun other same returned => ?_⟩
      · rw [perform, given]
        exact later
      · obtain rfl := Option.some.inj (given.symm.trans same)
        rw [perform, given] at returned ⊢
        exact stores returned
  | setStaging staging =>
    refine ⟨?_, trivial⟩
    simp only [perform, after, Builder.setStaging]
    cases owns : session.builder.staging with
    | none =>
      refine linked.own (fun wide => ?_) staging
      obtain ⟨owned, other, -⟩ := minds wide
      nomatch owns.symm.trans other
    | some owned =>
      by_cases empty : owned.staging.size ≠ 0
      · simp only [if_pos empty]
        exact linked
      · simp only [if_neg empty]
        refine linked.own (fun wide => ?_) staging
        obtain ⟨other, same, size⟩ := minds wide
        obtain rfl := Option.some.inj (owns.symm.trans same)
        exact empty size
  | finish => exact ⟨linked.finish, trivial⟩

/-- A call that does not mind the staging breaks the invariant. -/
theorem minds_of_aliased (linked : session.builder.Linked) {call : Call}
    (aliased : (session.perform call).2.builder.Aliased) : session.Minds call := by
  cases call with
  | beginRecord | beginRecordAt | set | commit | finish => trivial
  | beginRecordAtBytes partition address =>
    intro running nonempty undecided
    by_contra owned
    obtain ⟨staging, owns⟩ := Option.ne_none_iff_exists'.mp owned
    have unset := linked.blob_none (by rw [undecided]; decide)
    -- Wide mode is entered, and the pointer is left as it was.
    have entered : (session.perform (.beginRecordAtBytes partition address)).2.builder.blob = none ∧
        (session.perform (.beginRecordAtBytes partition address)).2.builder.mode =
          .explicitWide := by
      rw [perform, keep_builder]
      simp only [Builder.beginRecordAtBytes, if_neg nonempty, enterWideMode, running,
        Bool.false_eq_true, if_false, undecided, if_true, owns, andThen]
      split <;> exact ⟨unset, rfl⟩
    have isSome := aliased.wide.mpr entered.2
    rw [entered.1] at isSome
    cases isSome
  | setStaging staging =>
    intro wide
    obtain ⟨id, pointer⟩ := Option.isSome_iff_exists.mp (linked.wide.mpr wide)
    obtain ⟨blob, owns⟩ := linked.owned id pointer
    refine ⟨_, owns, fun empty => ?_⟩
    -- The new object has a new number, and the pointer names the old one.
    have replaced : (session.perform (.setStaging staging)).2.builder =
        session.builder.own staging := by
      simp only [perform, after, Builder.setStaging, owns, empty, ne_eq, not_true_eq_false,
        if_false]
    rw [replaced] at aliased
    obtain ⟨owned, same, number⟩ := aliased.owned id pointer
    obtain rfl := Option.some.inj same
    have numbered := linked.numbered _ owns
    exact absurd number (Nat.ne_of_gt numbered)

theorem upholds_iff_of_linked (linked : session.builder.Linked) (calls : List Call) :
    session.Upholds calls ↔ session.Mindful calls := by
  induction calls generalizing session with
  | nil => exact iff_of_true linked.aliased trivial
  | cons call rest inductionHypothesis =>
    constructor
    · rintro ⟨-, -, upholds⟩
      have aliased : (session.perform call).2.builder.Aliased := by
        cases rest with
        | nil => exact upholds
        | cons => exact upholds.1
      have minds := minds_of_aliased linked aliased
      exact ⟨minds, (inductionHypothesis (perform_linked linked minds).1).mp upholds⟩
    · rintro ⟨minds, mindful⟩
      obtain ⟨later, stores⟩ := perform_linked linked minds
      exact ⟨linked.aliased, stores, (inductionHypothesis later).mpr mindful⟩

end Session

/-- A run from a new builder upholds the invariant of the two names in every state, and commits no
wide record without its bytes, exactly when it minds the staging. -/
theorem Builder.upholds_iff {schema : SchemaBuilder} {options : BuildOptions} {builder : Builder}
    (made : make schema options = .ok builder) (calls : List Call) :
    (Session.start builder).Upholds calls ↔ (Session.start builder).Mindful calls :=
  Session.upholds_iff_of_linked (make_linked made) calls

/-- One field. -/
def flagSchema : SchemaBuilder where
  fields := [⟨[0x66], .uint, 0⟩]
  named := by decide
  distinct := by decide
  declared := by simp [FieldKind.Declares]
  length_lt := by decide

/-- A staging is installed, and then a record with wide addresses is begun. -/
def stagedBeforeWide : List Call :=
  [.setStaging (.wide { rows := [], sorted := true }), .beginRecordAtBytes 0 [1, 2], .commit 0]

theorem exists_fresh : ∃ builder, Builder.make flagSchema .default = .ok builder := ⟨_, rfl⟩

theorem sample_upholds : ∃ builder, Builder.make flagSchema .default = .ok builder ∧
    (Session.start builder).Upholds [.beginRecordAtBytes 0 [1, 2], .commit 0] := by
  obtain ⟨builder, made⟩ := exists_fresh
  refine ⟨builder, made, (Builder.upholds_iff made _).mpr ?_⟩
  obtain rfl := Except.ok.inj made
  exact ⟨fun _ _ _ => rfl, trivial, trivial⟩

/-- The run above leaves wide mode without its pointer, and the record without its address. -/
theorem sample_drops_bytes : ∃ builder, Builder.make flagSchema .default = .ok builder ∧
    ¬ (Session.start builder).Upholds stagedBeforeWide ∧
      ((Session.start builder).run stagedBeforeWide).builder.rows = [⟨0, 0, [], 0⟩] := by
  obtain ⟨builder, made⟩ := exists_fresh
  refine ⟨builder, made, fun upholds => ?_, ?_⟩
  · obtain ⟨-, minds, -⟩ := (Session.upholds_iff_of_linked (Builder.make_linked made) _).mp upholds
    obtain rfl := Except.ok.inj made
    nomatch minds rfl (by decide) rfl
  · obtain rfl := Except.ok.inj made
    rfl

end Mmpack
