/-
This file is about handles. A handle carries the partition and the integer address
it was begun with; the bytes of a wide address and the values of the fields are in
the scratch of the builder, which every handle shares. So a commit stages its own
partition and integer address in any run, the bytes of its address through the handle
begun last, and its whole record if no other handle has set a field since then.
-/

import Mmpack.Aliasing
import Mmpack.Finished

namespace Mmpack

open ByteList

namespace Builder

variable {builder : Builder}

/-! ### What calls leave alone -/

/-- What is left alone by all calls but those that begin a record or set a field. -/
structure Frame (earlier later : Builder) : Prop where
  schema : later.schema = earlier.schema
  options : later.options = earlier.options
  slots : later.slots = earlier.slots
  textDicts : later.textDicts = earlier.textDicts
  mode : later.mode = earlier.mode
  blob : later.blob = earlier.blob
  pendingAddress : later.pendingAddress = earlier.pendingAddress

theorem frame_refl (builder : Builder) : Frame builder builder :=
  ⟨rfl, rfl, rfl, rfl, rfl, rfl, rfl⟩

/-! ### What a commit stages -/

/-- A record handed to a staging: by its integer address, or by its bytes where there are any. -/
def Hands (before : Staging) (entry : Committed) (tuple : Nat) (after : Staging) : Prop :=
  if entry.addressBytes = [] then before.push entry.partition entry.address tuple = .ok after
  else ∃ wide pushed, before = .blob wide ∧ after = .blob pushed ∧
    wide.pushBytes entry.partition entry.addressBytes tuple = .ok pushed

/-- The staging that is owned was handed a record with the values of a tuple. -/
def HandsTo (builder : Builder) (entry : Committed) (values : List UInt64) (later : Builder) :
    Prop :=
  ∃ tuple owned after, later.tuples[tuple]? = some values ∧ builder.staging = some owned ∧
    later.staging = some { owned with staging := after } ∧ Hands owned.staging entry tuple after

/-- What the commit of a handle stages: the address of the handle, or the bytes pending in wide
mode. -/
def atHand (builder : Builder) (rec : RecordRef) : Committed where
  partition := rec.partition
  address := rec.address
  addressBytes := if builder.blob.isSome then builder.pendingAddress else []
  sets := []

theorem atHand_narrow (blob : builder.blob = none) (rec : RecordRef) :
    builder.atHand rec = ⟨rec.partition, rec.address, [], []⟩ := by
  rw [atHand, blob]
  rfl

theorem atHand_wide (blob : builder.blob.isSome = true) (rec : RecordRef) :
    builder.atHand rec = ⟨rec.partition, rec.address, builder.pendingAddress, []⟩ := by
  rw [atHand, if_pos blob]

theorem stage_hands {rec : RecordRef} {tuple : Nat}
    (nonempty : builder.blob.isSome = true → builder.pendingAddress ≠ []) :
    (∃ error, builder.stage rec tuple = (.error error, builder)) ∨
      ∃ owned after lastWide, builder.staging = some owned ∧
        Hands owned.staging (builder.atHand rec) tuple after ∧
        builder.stage rec tuple = (.ok (), { builder with
          staging := some { owned with staging := after }, lastWide }) := by
  rcases Option.eq_none_or_eq_some builder.blob with blob | ⟨target, blob⟩
  · rw [stage_narrow blob, pushNarrow]
    cases owns : builder.staging with
    | none => exact Or.inl ⟨_, rfl⟩
    | some owned =>
      cases pushed : owned.staging.push rec.partition rec.address tuple with
      | error error => exact Or.inl ⟨error, by simp only [pushed]⟩
      | ok after =>
        refine Or.inr ⟨owned, after, builder.lastWide, rfl, ?_, by simp only [pushed]⟩
        rw [atHand_narrow blob, Hands, if_pos rfl]
        exact pushed
  · have isSome : builder.blob.isSome = true := by rw [blob]; rfl
    have routed : builder.stage rec tuple = builder.pushWide target rec.partition tuple := by
      rw [stage, blob]
    rw [routed, pushWide]
    split
    · rename_i id wide owns
      split
      · exact Or.inl ⟨_, rfl⟩
      · cases pushed : wide.pushBytes rec.partition builder.pendingAddress tuple with
        | error error => exact Or.inl ⟨error, rfl⟩
        | ok after =>
          refine Or.inr ⟨_, .blob after, builder.pendingAddress, owns, ?_, rfl⟩
          rw [atHand_wide isSome, Hands, if_neg (nonempty isSome)]
          exact ⟨wide, after, rfl, rfl, pushed⟩
    · exact Or.inl ⟨_, rfl⟩

/-- A commit that returns hands the staging what is at hand, with the values in the slots. -/
theorem commit_hands (builder : Builder) (rec : RecordRef)
    (nonempty : builder.blob.isSome = true → builder.pendingAddress ≠ []) :
    Frame builder (builder.commit rec).2 ∧ ((builder.commit rec).1 = .ok () →
      builder.HandsTo (builder.atHand rec) builder.slots (builder.commit rec).2) := by
  unfold commit
  split
  · exact ⟨frame_refl builder, fun returned => by cases returned⟩
  · split
    · exact ⟨frame_refl builder, fun returned => by cases returned⟩
    · obtain ⟨tuple, tuples, index, dedupActive, interned, -, found⟩ := internTuple_eq builder
      rw [interned]
      rcases @stage_hands { builder with tuples, index, dedupActive } rec tuple nonempty with
        ⟨error, equation⟩ | ⟨owned, after, lastWide, owns, hands, equation⟩
      · simp only [equation, andThen]
        exact ⟨⟨rfl, rfl, rfl, rfl, rfl, rfl, rfl⟩, fun returned => by cases returned⟩
      · simp only [equation, andThen]
        exact ⟨⟨rfl, rfl, rfl, rfl, rfl, rfl, rfl⟩, fun _ =>
          ⟨tuple, owned, after, found, owns, rfl, hands⟩⟩

theorem finish_frame (builder : Builder) : Frame builder (finish builder).builder := by
  obtain ⟨staging, nextObject, equation⟩ := builder.finish_builder
  rw [equation]
  exact ⟨rfl, rfl, rfl, rfl, rfl, rfl, rfl⟩

/-- The commit of a record with the given draft staged its partition and its integer address. -/
def HandsPlace (builder : Builder) (draft : Committed) (later : Builder) : Prop :=
  ∃ bytes values, builder.HandsTo { draft with addressBytes := bytes } values later

/-- The commit staged the bytes of the address too. A wide record is staged as one where the builder
knows its staging for one of bytes. -/
def HandsSpan (builder : Builder) (draft : Committed) (later : Builder) : Prop :=
  (draft.addressBytes ≠ [] → builder.blob.isSome = true) →
    ∃ values, builder.HandsTo draft values later

/-- The commit staged the record whole, with the values of its fields. -/
def HandsWhole (builder : Builder) (draft : Committed) (later : Builder) : Prop :=
  (draft.addressBytes ≠ [] → builder.blob.isSome = true) →
    ∃ values, later.Fills draft.sets values ∧ builder.HandsTo draft values later

end Builder

/-! ### Drafts -/

namespace Session

open Builder

/-- What the owners of the handles know: the arguments each was begun with, and the setter calls
made through it since. -/
def noteDraft (session : Session) (drafts : List Committed) : Call → List Committed
  | .beginRecord key =>
    let bits := session.builder.options.addressBits
    drafts ++ [{ partition := partitionOf bits key, address := addressOf bits key
                 addressBytes := [], sets := [] }]
  | .beginRecordAt partition address =>
    drafts ++ [{ partition, address, addressBytes := [], sets := [] }]
  | .beginRecordAtBytes partition address =>
    drafts ++ [{ partition, address := 0, addressBytes := address, sets := [] }]
  | .set handle id value =>
    drafts.modify handle fun draft => { draft with sets := draft.sets ++ [(id, value)] }
  | .commit _ | .setStaging _ | .finish => drafts

/-- The drafts after a call, which changes them if it returns. -/
def drafted (session : Session) (drafts : List Committed) (call : Call) : List Committed :=
  match (session.perform call).1 with
  | .ok _ => session.noteDraft drafts call
  | .error _ => drafts

/-- Whether all fields that were set since the last record was begun were set through its handle. -/
def noteAlone (session : Session) (alone : Bool) : Call → Bool
  | .beginRecord _ | .beginRecordAt _ _ | .beginRecordAtBytes _ _ => true
  | .set handle _ _ => alone && decide (session.handles.length ≤ handle + 1)
  | .commit _ | .setStaging _ | .finish => alone

/-- The same after a call, which counts if it returns. -/
def aloneAfter (session : Session) (alone : Bool) (call : Call) : Bool :=
  match (session.perform call).1 with
  | .ok _ => session.noteAlone alone call
  | .error _ => alone

/-- Every commit of a run that returns does with the draft of its handle what it should. -/
def EveryCommit (does : Session → Bool → Nat → Committed → Builder → Prop) (session : Session)
    (drafts : List Committed) (alone : Bool) : List Call → Prop
  | [] => True
  | call :: rest =>
    (∀ handle draft, call = .commit handle → drafts[handle]? = some draft →
      (session.perform call).1 = .ok () →
        does session alone handle draft (session.perform call).2.builder) ∧
    (session.perform call).2.EveryCommit does (session.drafted drafts call)
      (session.aloneAfter alone call) rest

/-- What a commit stages of the draft of its handle. -/
structure HandsDraft (session : Session) (alone : Bool) (handle : Nat) (draft : Committed)
    (later : Builder) : Prop where
  place : session.builder.HandsPlace draft later
  span : session.handles.length ≤ handle + 1 → session.builder.HandsSpan draft later
  whole : session.handles.length ≤ handle + 1 → alone = true →
    session.builder.HandsWhole draft later

/-- The call uses no handle but the one begun last. -/
def UsesLast (session : Session) : Call → Prop
  | .set handle _ _ | .commit handle => session.handles.length ≤ handle + 1
  | _ => True

/-- Handles are used one after the other. -/
def OneByOne (session : Session) : List Call → Prop
  | [] => True
  | call :: rest => session.UsesLast call ∧ (session.perform call).2.OneByOne rest

/-- Handles carry the parts of their drafts, and all drafts are of the mode of the build. -/
structure Drafts (session : Session) (drafts : List Committed) : Prop where
  parts : session.handles = drafts.map fun draft => ⟨draft.partition, draft.address⟩
  modes : ∀ draft ∈ drafts, session.builder.mode ≠ .undecided ∧
    (draft.addressBytes ≠ [] ↔ session.builder.mode = .explicitWide)
  pending : session.builder.mode = .explicitWide → drafts ≠ [] →
    session.builder.pendingAddress ≠ []
  blob : session.builder.blob.isSome = true → session.builder.mode = .explicitWide

/-- The scratch holds the last draft, its fields as long as only its own handle set any. -/
structure Scratch (session : Session) (drafts : List Committed) (alone : Bool) : Prop where
  slotCount : session.builder.slots.length = session.builder.schema.fields.length
  dictCount : session.builder.textDicts.length =
    session.builder.schema.fields.countP (·.kind = .text)
  fills : alone = true → ∀ draft, drafts.getLast? = some draft →
    session.builder.Fills draft.sets session.builder.slots
  pending : ∀ draft, drafts.getLast? = some draft → draft.addressBytes ≠ [] →
    session.builder.pendingAddress = draft.addressBytes

variable {session : Session} {drafts : List Committed} {alone : Bool}

theorem Drafts.frame (holds : session.Drafts drafts) {later : Builder}
    (frame : Frame session.builder later) :
    Drafts { session with builder := later } drafts where
  parts := holds.parts
  modes := by rw [frame.mode]; exact holds.modes
  pending := by rw [frame.mode, frame.pendingAddress]; exact holds.pending
  blob := by rw [frame.mode, frame.blob]; exact holds.blob

theorem Scratch.frame (holds : session.Scratch drafts alone) {later : Builder}
    (schema : later.schema = session.builder.schema) (slots : later.slots = session.builder.slots)
    (textDicts : later.textDicts = session.builder.textDicts)
    (pendingAddress : later.pendingAddress = session.builder.pendingAddress) :
    Scratch { session with builder := later } drafts alone where
  slotCount := by rw [slots, schema]; exact holds.slotCount
  dictCount := by rw [textDicts, schema]; exact holds.dictCount
  fills own draft isLast := by
    have grows : Grows session.builder { later with tuples := session.builder.tuples } :=
      grows_of_same schema textDicts rfl
    rw [slots]
    exact (holds.fills own draft isLast).grows grows
  pending := by rw [pendingAddress]; exact holds.pending

/-! ### Beginning a record -/

theorem Drafts.begin (holds : session.Drafts drafts) {draft : Committed} {later : Builder}
    {rec : RecordRef} (handle : rec = ⟨draft.partition, draft.address⟩)
    (entered : session.builder.mode = .undecided ∨ session.builder.mode = later.mode)
    (decided : later.mode ≠ .undecided)
    (wide : draft.addressBytes ≠ [] ↔ later.mode = .explicitWide)
    (pending : later.mode = .explicitWide → later.pendingAddress ≠ [])
    (blob : later.blob.isSome = true → later.mode = .explicitWide) :
    Drafts { builder := later, handles := session.handles ++ [rec] } (drafts ++ [draft]) where
  parts := by rw [List.map_append, holds.parts, handle]; rfl
  modes other member := by
    rcases List.mem_append.mp member with old | new
    · obtain ⟨wasDecided, same⟩ := holds.modes other old
      rw [← entered.resolve_left wasDecided]
      exact ⟨wasDecided, same⟩
    · rw [List.mem_singleton.mp new]
      exact ⟨decided, wide⟩
  pending isWide _ := pending isWide
  blob := blob

/-- A begun record has nothing set. -/
theorem Scratch.begin (holds : session.Scratch drafts alone) {draft : Committed} {later : Builder}
    (schema : later.schema = session.builder.schema)
    (textDicts : later.textDicts = session.builder.textDicts)
    (slots : later.slots = session.builder.slots.map fun _ => 0) (unset : draft.sets = [])
    (pending : draft.addressBytes ≠ [] → later.pendingAddress = draft.addressBytes)
    (handles : List RecordRef) :
    Scratch { builder := later, handles } (drafts ++ [draft]) true where
  slotCount := by rw [slots, schema, List.length_map]; exact holds.slotCount
  dictCount := by rw [textDicts, schema]; exact holds.dictCount
  fills _ other isLast := by
    rw [List.getLast?_concat, Option.some.injEq] at isLast
    have grows : Grows session.builder { later with tuples := session.builder.tuples } :=
      grows_of_same schema textDicts rfl
    rw [← isLast, unset, slots]
    exact (fills_cleared holds.slotCount).grows grows
  pending other isLast := by
    rw [List.getLast?_concat, Option.some.injEq] at isLast
    rw [← isLast]
    exact pending

/-! ### One call -/

/-- Before a mode is decided there is no draft. -/
theorem Drafts.none_of_undecided (holds : session.Drafts drafts)
    (undecided : session.builder.mode = .undecided) : drafts = [] := by
  refine List.eq_nil_iff_forall_not_mem.mpr fun draft member => ?_
  exact (holds.modes draft member).1 undecided

/-- Entering wide mode without beginning a record keeps the drafts. -/
theorem Drafts.enterWide (holds : session.Drafts drafts) {later : Builder}
    (mode : session.builder.mode = .undecided ∨ session.builder.mode = .explicitWide)
    (entered : later.mode = .explicitWide)
    (pending : later.pendingAddress = session.builder.pendingAddress) :
    Drafts { session with builder := later } drafts := by
  rcases mode with undecided | wide
  · obtain rfl := holds.none_of_undecided undecided
    refine ⟨holds.parts, ?_, fun _ some => absurd rfl some, fun _ => entered⟩
    intro draft member
    nomatch member
  · refine ⟨holds.parts, ?_, ?_, fun _ => entered⟩
    · intro draft member
      obtain ⟨-, same⟩ := holds.modes draft member
      rw [wide] at same
      exact ⟨by rw [entered]; exact KeyMode.noConfusion, by rw [entered]; exact same⟩
    · intro _ some
      rw [pending]
      exact holds.pending wide some

theorem map_noteSet (drafts : List Committed) (handle id : Nat) (value : FieldValue) :
    (drafts.modify handle fun draft => { draft with sets := draft.sets ++ [(id, value)] }).map
      (fun draft => (⟨draft.partition, draft.address⟩ : RecordRef)) =
        drafts.map fun draft => ⟨draft.partition, draft.address⟩ := by
  refine List.ext_getElem? fun i => ?_
  rw [List.getElem?_map, List.getElem?_map, List.getElem?_modify]
  split <;> cases drafts[i]? <;> rfl

theorem mem_noteSet {drafts : List Committed} {handle id : Nat} {value : FieldValue}
    {draft : Committed} (member : draft ∈ drafts.modify handle fun draft =>
      { draft with sets := draft.sets ++ [(id, value)] }) :
    ∃ old ∈ drafts, draft.addressBytes = old.addressBytes := by
  obtain ⟨i, found⟩ := List.mem_iff_getElem?.mp member
  rw [List.getElem?_modify] at found
  cases located : drafts[i]? with
  | none =>
    rw [located] at found
    split at found <;> nomatch found
  | some old =>
    refine ⟨old, List.mem_of_getElem? located, ?_⟩
    rw [located] at found
    split at found <;> rw [← Option.some.inj found]

/-- Calls that begin no record and set no field change no draft. -/
theorem perform_frame (holds : session.Drafts drafts) {call : Call}
    (quiet : (∃ handle, call = .commit handle) ∨ (∃ staging, call = .setStaging staging) ∨
      call = .finish) :
    session.drafted drafts call = drafts ∧ ∃ later,
      (session.perform call).2 = { session with builder := later } ∧
        Frame session.builder later := by
  rcases quiet with ⟨handle, rfl⟩ | ⟨staging, rfl⟩ | rfl
  · refine ⟨by unfold drafted; split <;> rfl, ?_⟩
    simp only [perform]
    cases given : session.handles[handle]? with
    | none => exact ⟨session.builder, rfl, frame_refl _⟩
    | some rec =>
      refine ⟨_, rfl, (commit_hands session.builder rec fun isSome => ?_).1⟩
      have some : drafts ≠ [] := by
        rintro rfl
        rw [holds.parts] at given
        cases given
      exact holds.pending (holds.blob isSome) some
  · refine ⟨by unfold drafted; split <;> rfl, _, rfl, ?_⟩
    unfold Builder.setStaging
    split
    · split <;> exact ⟨rfl, rfl, rfl, rfl, rfl, rfl, rfl⟩
    · exact ⟨rfl, rfl, rfl, rfl, rfl, rfl, rfl⟩
  · exact ⟨by unfold drafted; split <;> rfl, _, rfl, finish_frame session.builder⟩

theorem noteDraft_begins {call : Call} {wanted : KeyMode} {pending : List UInt8} {rec : RecordRef}
    (begins : beginsOf session.builder.options.addressBits call = some (wanted, pending, rec)) :
    session.noteDraft drafts call =
      drafts ++ [{ partition := rec.partition, address := rec.address, addressBytes := pending
                   sets := [] }] := by
  cases call with
  | beginRecord | beginRecordAt | beginRecordAtBytes =>
    cases begins
    rfl
  | set | commit | setStaging | finish => cases begins

theorem Drafts.performBegins (holds : session.Drafts drafts) {call : Call} {wanted : KeyMode}
    {pending : List UInt8} {rec : RecordRef}
    (begins : beginsOf session.builder.options.addressBits call = some (wanted, pending, rec)) :
    (session.perform call).2.Drafts (session.drafted drafts call) := by
  obtain ⟨outcome, equation, comes⟩ := perform_begins begins
  unfold drafted
  rw [equation, noteDraft_begins begins]
  cases comes with
  | refused error => exact holds
  | mismatched error entered enters wide width =>
    obtain ⟨staging, nextObject, rfl⟩ := enters.fields
    exact holds.enterWide (wide ▸ enters.admits.2) wide rfl
  | begun entered enters =>
    obtain ⟨staging, nextObject, rfl⟩ := enters.fields
    refine holds.begin rfl enters.admits.2 enters.decided enters.spans (fun wide => ?_)
      fun isSome => ?_
    · simp only [clearSlots, if_pos (show wanted = .explicitWide from wide)]
      exact enters.spans.mpr wide
    · -- in another mode the pointer is the one there was, and that is one of wide mode
      by_contra narrow
      simp only [clearSlots, if_neg fun both : wanted = .explicitWide ∧ _ => narrow both.1]
        at isSome
      have wide := holds.blob isSome
      rcases enters.admits.2 with undecided | same
      · cases undecided.symm.trans wide
      · exact narrow (same.symm.trans wide)

/-- Every call keeps the drafts in step with the handles. -/
theorem perform_drafts (holds : session.Drafts drafts) (call : Call) :
    (session.perform call).2.Drafts (session.drafted drafts call) := by
  cases call with
  | beginRecord | beginRecordAt | beginRecordAtBytes => exact holds.performBegins rfl
  | set handle id value =>
    have framed : Drafts (session.perform (.set handle id value)).2 drafts := by
      obtain ⟨slots, stats, textDicts, equation⟩ := set_frame session.builder id value
      simp only [perform]
      split
      · rw [after, equation]
        exact ⟨holds.parts, holds.modes, holds.pending, holds.blob⟩
      · exact holds
    unfold drafted
    split
    · rw [noteDraft]
      refine ⟨framed.parts.trans (map_noteSet drafts handle id value).symm, ?_, ?_, framed.blob⟩
      · intro draft member
        obtain ⟨old, inside, same⟩ := mem_noteSet member
        rw [same]
        exact framed.modes old inside
      · intro wide some
        exact framed.pending wide fun empty => some (by rw [empty, List.modify_nil])
    · exact framed
  | commit handle =>
    obtain ⟨same, later, equation, frame⟩ := perform_frame holds (Or.inl ⟨handle, rfl⟩)
    rw [same, equation]
    exact holds.frame frame
  | setStaging staging =>
    obtain ⟨same, later, equation, frame⟩ :=
      perform_frame holds (Or.inr (Or.inl ⟨staging, rfl⟩))
    rw [same, equation]
    exact holds.frame frame
  | finish =>
    obtain ⟨same, later, equation, frame⟩ := perform_frame holds (Or.inr (Or.inr rfl))
    rw [same, equation]
    exact holds.frame frame

/-- The setter of the handle begun last writes to the last draft, and another one into its slots. -/
theorem set_scratch (holds : session.Drafts drafts) (scratch : session.Scratch drafts alone)
    (handle id : Nat) (value : FieldValue) :
    (session.perform (.set handle id value)).2.Scratch
      (session.drafted drafts (.set handle id value))
      (session.aloneAfter alone (.set handle id value)) := by
  have count : session.handles.length = drafts.length := by rw [holds.parts, List.length_map]
  cases given : session.handles[handle]? with
  | none =>
    have outside := List.getElem?_eq_none_iff.mp given
    simp only [drafted, aloneAfter, perform, given, noteDraft, noteAlone]
    rw [List.modify_eq_self (by omega), decide_eq_true (by omega), Bool.and_true]
    exact scratch
  | some rec =>
    have inside := (List.getElem?_eq_some_iff.mp given).1
    rcases set_writes scratch.dictCount id value with ⟨error, equation⟩ | ⟨decl, raw, dicts,
      declared, length, grows, keeps, equation⟩
    · simp only [drafted, aloneAfter, perform, given, after, equation]
      exact scratch
    · simp only [drafted, aloneAfter, perform, given, after, equation, noteDraft, noteAlone]
      have grows : Grows session.builder
          { session.builder with textDicts := dicts, tuples := session.builder.tuples } :=
        ⟨rfl, fun i => grows _, List.prefix_rfl⟩
      have isLast (changed : Committed) (isLast : (drafts.modify handle fun draft =>
          { draft with sets := draft.sets ++ [(id, value)] }).getLast? = some changed) :
          ∃ draft, drafts.getLast? = some draft ∧ changed = if handle = drafts.length - 1 then
            { draft with sets := draft.sets ++ [(id, value)] } else draft := by
        rw [List.getLast?_eq_getElem?, List.length_modify, List.getElem?_modify,
          ← List.getLast?_eq_getElem?] at isLast
        split at isLast
        · rename_i same
          obtain ⟨draft, found, rfl⟩ := Option.map_eq_some_iff.mp isLast
          exact ⟨draft, found, (if_pos same).symm⟩
        · rename_i other
          obtain ⟨draft, found, rfl⟩ := Option.map_eq_some_iff.mp isLast
          exact ⟨draft, found, (if_neg other).symm⟩
      refine ⟨?_, length.trans scratch.dictCount, fun own changed changedLast => ?_,
        fun changed changedLast => ?_⟩
      · rw [List.length_set]
        exact scratch.slotCount
      · obtain ⟨own, last⟩ := Bool.and_eq_true_iff.mp own
        obtain ⟨draft, found, rfl⟩ := isLast changed changedLast
        rw [if_pos (by have least := of_decide_eq_true last; omega)]
        exact ((scratch.fills own draft found).grows grows).set declared
          (by cases value <;> exact keeps)
      · obtain ⟨draft, found, rfl⟩ := isLast changed changedLast
        have pending := scratch.pending draft found
        split <;> exact pending

theorem Scratch.performBegins (scratch : session.Scratch drafts alone) {call : Call}
    {wanted : KeyMode} {pending : List UInt8} {rec : RecordRef}
    (begins : beginsOf session.builder.options.addressBits call = some (wanted, pending, rec)) :
    (session.perform call).2.Scratch (session.drafted drafts call)
      (session.aloneAfter alone call) := by
  obtain ⟨outcome, equation, comes⟩ := perform_begins begins
  have noted : session.noteAlone alone call = true := by
    cases call with
    | beginRecord | beginRecordAt | beginRecordAtBytes => rfl
    | set | commit | setStaging | finish => cases begins
  unfold drafted aloneAfter
  rw [equation, noteDraft_begins begins, noted]
  cases comes with
  | refused error => exact scratch
  | mismatched error entered enters =>
    obtain ⟨staging, nextObject, rfl⟩ := enters.fields
    exact scratch.frame rfl rfl rfl rfl
  | begun entered enters =>
    obtain ⟨staging, nextObject, rfl⟩ := enters.fields
    refine scratch.begin ?_ ?_ ?_ ?_ (fun nonempty => ?_) _
    · rfl
    · rfl
    · rfl
    · rfl
    · simp only [clearSlots, if_pos (enters.spans.mp nonempty)]

/-- Every call keeps the scratch with the last draft. -/
theorem perform_scratch (holds : session.Drafts drafts) (scratch : session.Scratch drafts alone)
    (call : Call) :
    (session.perform call).2.Scratch (session.drafted drafts call)
      (session.aloneAfter alone call) := by
  have quiet {call : Call} (noted : session.noteAlone alone call = alone)
      (quiet : (∃ handle, call = .commit handle) ∨
        (∃ staging, call = .setStaging staging) ∨ call = .finish) :
      (session.perform call).2.Scratch (session.drafted drafts call)
        (session.aloneAfter alone call) := by
    obtain ⟨same, later, equation, frame⟩ := perform_frame holds quiet
    have kept : session.aloneAfter alone call = alone := by
      unfold aloneAfter
      split
      · exact noted
      · rfl
    rw [same, kept, equation]
    exact scratch.frame frame.schema frame.slots frame.textDicts frame.pendingAddress
  cases call with
  | beginRecord | beginRecordAt | beginRecordAtBytes => exact scratch.performBegins rfl
  | set handle id value => exact set_scratch holds scratch handle id value
  | commit handle => exact quiet rfl (Or.inl ⟨handle, rfl⟩)
  | setStaging staging => exact quiet rfl (Or.inr (Or.inl ⟨staging, rfl⟩))
  | finish => exact quiet rfl (Or.inr (Or.inr rfl))

/-! ### What a commit stages of its draft -/

theorem Drafts.nonempty (holds : session.Drafts drafts) (some : drafts ≠ [])
    (isSome : session.builder.blob.isSome = true) : session.builder.pendingAddress ≠ [] :=
  holds.pending (holds.blob isSome) some

/-- A commit stages the place of its draft, whatever happened through other handles. -/
theorem commit_place (holds : session.Drafts drafts) {handle : Nat} {draft : Committed}
    (given : drafts[handle]? = some draft)
    (returned : (session.perform (.commit handle)).1 = .ok ()) :
    session.builder.HandsPlace draft (session.perform (.commit handle)).2.builder := by
  have found : session.handles[handle]? = some ⟨draft.partition, draft.address⟩ := by
    rw [holds.parts, List.getElem?_map, given]
    rfl
  have some : drafts ≠ [] := List.ne_nil_of_mem (List.mem_of_getElem? given)
  simp only [perform, found, after] at returned ⊢
  exact ⟨_, _, (commit_hands session.builder _ (holds.nonempty some)).2 returned⟩

/-- The commit of the last draft stages its place and the values in the slots. -/
theorem commit_last (holds : session.Drafts drafts) (scratch : session.Scratch drafts alone)
    {handle : Nat} {draft : Committed} (given : drafts[handle]? = some draft)
    (last : session.handles.length ≤ handle + 1)
    (returned : (session.perform (.commit handle)).1 = .ok ()) :
    drafts.getLast? = some draft ∧
      Frame session.builder (session.perform (.commit handle)).2.builder ∧
      ((draft.addressBytes ≠ [] → session.builder.blob.isSome = true) →
        session.builder.HandsTo draft session.builder.slots
          (session.perform (.commit handle)).2.builder) := by
  have found : session.handles[handle]? = some ⟨draft.partition, draft.address⟩ := by
    rw [holds.parts, List.getElem?_map, given]
    rfl
  have inside := (List.getElem?_eq_some_iff.mp given).1
  have count : session.handles.length = drafts.length := by rw [holds.parts, List.length_map]
  have isLast : drafts.getLast? = some draft := by
    rw [List.getLast?_eq_getElem?, ← given]
    congr 1
    omega
  have some : drafts ≠ [] := List.ne_nil_of_mem (List.mem_of_getElem? given)
  simp only [perform, found, after] at returned ⊢
  obtain ⟨frame, stages⟩ :=
    commit_hands session.builder ⟨draft.partition, draft.address⟩ (holds.nonempty some)
  refine ⟨isLast, frame, fun wide => ?_⟩
  have bytes : session.builder.atHand ⟨draft.partition, draft.address⟩ =
      { draft with sets := [] } := by
    by_cases integer : draft.addressBytes = []
    · have narrow : session.builder.blob = none := Option.not_isSome_iff_eq_none.mp fun isSome =>
        ((holds.modes draft (List.mem_of_getElem? given)).2.mpr (holds.blob isSome)) integer
      rw [atHand_narrow narrow, integer]
    · rw [atHand_wide (wide integer), scratch.pending draft isLast integer]
  have hands := stages returned
  rw [bytes] at hands
  exact hands

/-- What a commit stages, by what was done through other handles. -/
theorem commit_draft (holds : session.Drafts drafts) (scratch : session.Scratch drafts alone)
    {handle : Nat} {draft : Committed} (given : drafts[handle]? = some draft)
    (returned : (session.perform (.commit handle)).1 = .ok ()) :
    session.HandsDraft alone handle draft (session.perform (.commit handle)).2.builder where
  place := commit_place holds given returned
  span last wide := by
    obtain ⟨-, -, hands⟩ := commit_last holds scratch given last returned
    exact ⟨_, hands wide⟩
  whole last own wide := by
    obtain ⟨isLast, frame, hands⟩ := commit_last holds scratch given last returned
    have grows : Grows session.builder { (session.perform (.commit handle)).2.builder with
        tuples := session.builder.tuples } :=
      grows_of_same frame.schema frame.textDicts rfl
    exact ⟨_, (scratch.fills own draft isLast).grows grows, hands wide⟩

/-! ### Runs -/

theorem start_drafts {schema : SchemaBuilder} {options : BuildOptions} {builder : Builder}
    (made : Builder.make schema options = .ok builder) : (start builder).Drafts [] where
  parts := rfl
  modes _ member := nomatch member
  pending _ some := absurd rfl some
  blob isSome := ((make_linked made).wide.mp isSome)

theorem start_scratch {schema : SchemaBuilder} {options : BuildOptions} {builder : Builder}
    (made : Builder.make schema options = .ok builder) : (start builder).Scratch [] true where
  slotCount := (make_eq made).1.slotCount
  dictCount := (make_eq made).1.dictCount
  fills _ _ isLast := nomatch isLast
  pending _ isLast := nomatch isLast

theorem everyCommit_hands (holds : session.Drafts drafts) (scratch : session.Scratch drafts alone)
    (calls : List Call) : session.EveryCommit HandsDraft drafts alone calls := by
  induction calls generalizing session drafts alone with
  | nil => trivial
  | cons call rest ih =>
    refine ⟨fun handle draft same given returned => ?_,
      ih (perform_drafts holds call) (perform_scratch holds scratch call)⟩
    subst same
    exact commit_draft holds scratch given returned

/-- In any run a commit stages the place its handle was begun with, through the handle begun last
the bytes of the address too, and the whole record if no other handle has set a field since. -/
theorem start_commits {schema : SchemaBuilder} {options : BuildOptions} {builder : Builder}
    (made : Builder.make schema options = .ok builder) (calls : List Call) :
    (start builder).EveryCommit HandsDraft [] true calls :=
  everyCommit_hands (start_drafts made) (start_scratch made) calls

/-- A record with its field set, and a second one begun before the first is committed. -/
def interleaved : List Call := [.beginRecord 1, .set 0 0 (.uint 7), .beginRecord 2, .commit 0]

/-- The second record is set and committed after the first has been, and is staged whole. -/
theorem sample_commits : ∃ builder, Builder.make flagSchema .default = .ok builder ∧
    let calls := interleaved ++ [.set 1 0 (.uint 9), .commit 1]
    (start builder).EveryCommit HandsDraft [] true calls ∧
      (((start builder).run (calls.take 5)).perform (.commit 1)).1 = .ok () := by
  obtain ⟨builder, made⟩ := exists_fresh
  refine ⟨builder, made, start_commits made _, ?_⟩
  obtain rfl := Except.ok.inj made
  decide +kernel

/-- Beginning the second record cleared the slot of the first. -/
theorem sample_loses_value : ∃ builder, Builder.make flagSchema .default = .ok builder ∧
    ¬ (start builder).EveryCommit
      (fun session _ _ draft later => session.builder.HandsWhole draft later) [] true
        interleaved := by
  obtain ⟨builder, made⟩ := exists_fresh
  refine ⟨builder, made, fun commits => ?_⟩
  obtain rfl := Except.ok.inj made
  obtain ⟨-, -, -, whole, -⟩ := commits
  obtain ⟨values, fills, tuple, owned, after, found, -⟩ := whole 0 _ rfl rfl rfl fun some =>
    absurd rfl some
  have zero : values = [0] := List.mem_singleton.mp (List.mem_of_getElem? found)
  subst zero
  obtain ⟨-, same⟩ := fills.2 0 _ 0 rfl rfl
  nomatch same

end Session

end Mmpack
