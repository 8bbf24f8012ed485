/-
This file says what every call on a builder does. Each call has one lemma: it
either throws and leaves the builder as it was, or returns and changes it in the
way the lemma says. Nothing later unfolds a call.
-/

import Mmpack.Sound

namespace Mmpack

open ByteList

namespace Builder

variable {builder : Builder}

/-! ### Entering a mode -/

/-- Owning the first staging, an empty one, and entering the mode it goes with. -/
theorem own_sound (sound : builder.Sound) (undecided : builder.mode = .undecided)
    {mode : KeyMode} {width : Nat} (small : width < 2 ^ 32) {blob : Option Nat}
    {staging : Staging} (empty : staging.view = []) (sorted : staging.isSorted = true)
    (ok : StagingOk { builder.own staging with mode, wideWidth := width, blob }) :
    Sound { builder.own staging with mode, wideWidth := width, blob } := by
  have none := (sound.fresh undecided).1
  refine { sound with width := small, staging := ok, ordered := fun owned same => ?_, count := ?_ }
  · obtain rfl := Option.some.inj same
    rw [empty]
    exact iff_of_true sorted List.Pairwise.nil
  · have count := sound.count
    rw [rows, none] at count
    exact count.trans (congrArg List.length empty).symm

theorem own_kept (sound : builder.Sound) (undecided : builder.mode = .undecided)
    {mode : KeyMode} {width : Nat} {blob : Option Nat} {staging : Staging}
    (empty : staging.view = []) :
    Kept builder { builder.own staging with mode, wideWidth := width, blob } := by
  refine ⟨rfl, rfl, rfl, rfl, rfl, rfl, ?_, rfl, rfl, fun decided => absurd undecided decided⟩
  rw [rows, rows, (sound.fresh undecided).1]
  exact empty

theorem enterMode_eq (sound : builder.Sound) {wanted : KeyMode}
    (integer : wanted = .keyed ∨ wanted = .explicit) :
    (∃ error, builder.enterMode wanted = (.error error, builder)) ∨
      ∃ entered, builder.enterMode wanted = (.ok (), entered) ∧ entered.Sound ∧
        entered.mode = wanted ∧ Kept builder entered := by
  unfold enterMode
  by_cases finished : builder.finished = true
  · exact Or.inl ⟨_, if_pos finished⟩
  · rw [if_neg finished]
    by_cases undecided : builder.mode = .undecided
    · obtain ⟨none, narrow⟩ := sound.fresh undecided
      rw [if_pos undecided]
      refine Or.inr ⟨_, rfl, ?_⟩
      simp only [ensureStaging, none]
      rcases integer with rfl | rfl
      · exact ⟨own_sound sound undecided sound.width rfl rfl ⟨narrow, _, _, rfl, rfl⟩, rfl,
          own_kept sound undecided rfl⟩
      · exact ⟨own_sound sound undecided sound.width rfl rfl ⟨narrow, _, _, rfl⟩, rfl,
          own_kept sound undecided rfl⟩
    · rw [if_neg undecided]
      by_cases same : builder.mode = wanted
      · rw [if_neg (not_not.mpr same)]
        exact Or.inr ⟨builder, rfl, sound, same, kept_refl builder⟩
      · exact Or.inl ⟨_, if_pos same⟩

theorem enterWideMode_eq (sound : builder.Sound) {width : Nat} (small : width < 2 ^ 32) :
    (∃ error, builder.enterWideMode width = (.error error, builder)) ∨
      ∃ entered, builder.enterWideMode width = (.ok (), entered) ∧ entered.Sound ∧
        entered.mode = .explicitWide ∧ Kept builder entered := by
  unfold enterWideMode
  by_cases finished : builder.finished = true
  · exact Or.inl ⟨_, if_pos finished⟩
  · rw [if_neg finished]
    by_cases undecided : builder.mode = .undecided
    · obtain ⟨none, -⟩ := sound.fresh undecided
      rw [if_pos undecided]
      simp only [none]
      refine Or.inr ⟨_, rfl, ?_, rfl, own_kept sound undecided rfl⟩
      exact own_sound sound undecided small rfl rfl
        ⟨_, _, rfl, rfl, rfl, fun row member => nomatch member⟩
    · rw [if_neg undecided]
      by_cases same : builder.mode = .explicitWide
      · rw [if_neg (not_not.mpr same)]
        exact Or.inr ⟨builder, rfl, sound, same, kept_refl builder⟩
      · exact Or.inl ⟨_, if_pos same⟩

/-! ### What beginning a record does -/

/-- A call that begins a record may go on in the mode it wants. -/
def Admits (builder : Builder) (wanted : KeyMode) : Prop :=
  builder.finished = false ∧ (builder.mode = .undecided ∨ builder.mode = wanted)

theorem makeStaging_view (options : BuildOptions) (wanted : KeyMode) :
    (makeStaging options wanted).view = [] := by
  unfold makeStaging
  split <;> rfl

/-- Entering a mode changes the mode, and makes a staging if there is none. -/
theorem enterMode_cases (builder : Builder) (wanted : KeyMode) :
    ¬ builder.Admits wanted ∧ (∃ error, builder.enterMode wanted = (.error error, builder)) ∨
      builder.Admits wanted ∧ ∃ staging nextObject,
        ({ builder with mode := wanted, staging, nextObject } : Builder).rows = builder.rows ∧
        builder.enterMode wanted =
          (.ok (), { builder with mode := wanted, staging, nextObject }) := by
  unfold enterMode Admits
  by_cases finished : builder.finished = true
  · exact Or.inl ⟨by simp [finished], _, if_pos finished⟩
  · rw [if_neg finished]
    by_cases undecided : builder.mode = .undecided
    · rw [if_pos undecided]
      refine Or.inr ⟨⟨by simpa using finished, Or.inl undecided⟩, ?_⟩
      cases owns : builder.staging with
      | none =>
        refine ⟨_, _, ?_, by simp only [ensureStaging, own]; rfl⟩
        rw [rows, rows, owns]
        exact makeStaging_view builder.options wanted
      | some owned =>
        exact ⟨some owned, builder.nextObject, by rw [rows, rows, owns],
          by simp only [ensureStaging]⟩
    · rw [if_neg undecided]
      by_cases same : builder.mode = wanted
      · rw [if_neg (not_not.mpr same)]
        refine Or.inr ⟨⟨by simpa using finished, Or.inr same⟩, builder.staging,
          builder.nextObject, rfl, ?_⟩
        rw [← same]
      · refine Or.inl ⟨?_, _, if_pos same⟩
        rintro ⟨-, other | other⟩
        · exact undecided other
        · exact same other

/-- Entering wide mode fixes the width too, and the pointer to a staging it makes. -/
theorem enterWideMode_cases (builder : Builder) (width : Nat) :
    ¬ builder.Admits .explicitWide ∧
        (∃ error, builder.enterWideMode width = (.error error, builder)) ∨
      builder.Admits .explicitWide ∧ ∃ entered staging nextObject,
        entered = { builder with
          mode := .explicitWide
          wideWidth := if builder.mode = .undecided then width else builder.wideWidth
          staging
          blob := if builder.mode = .undecided ∧ builder.staging.isNone then
            some builder.nextObject else builder.blob
          nextObject } ∧
        entered.rows = builder.rows ∧ builder.enterWideMode width = (.ok (), entered) := by
  unfold enterWideMode Admits
  by_cases finished : builder.finished = true
  · exact Or.inl ⟨by simp [finished], _, if_pos finished⟩
  · rw [if_neg finished]
    by_cases undecided : builder.mode = .undecided
    · rw [if_pos undecided]
      refine Or.inr ⟨⟨by simpa using finished, Or.inl undecided⟩, ?_⟩
      cases owns : builder.staging with
      | none =>
        refine ⟨_, some ⟨builder.nextObject, .blob { width, rows := [], sorted := true }⟩,
          builder.nextObject + 1, rfl, ?_, ?_⟩
        · rw [rows, rows, owns]
          rfl
        · rw [if_pos undecided, if_pos ⟨undecided, rfl⟩]
          rfl
      | some owned =>
        refine ⟨_, some owned, builder.nextObject, rfl, ?_, ?_⟩
        · rw [rows, rows, owns]
        · rw [if_pos undecided, if_neg fun both => by cases both.2]
    · rw [if_neg undecided]
      by_cases same : builder.mode = .explicitWide
      · rw [if_neg (not_not.mpr same)]
        refine Or.inr ⟨⟨by simpa using finished, Or.inr same⟩, _, builder.staging,
          builder.nextObject, rfl, rfl, ?_⟩
        rw [if_neg undecided, if_neg fun both => undecided both.1, ← same]
      · refine Or.inl ⟨?_, _, if_pos same⟩
        rintro ⟨-, other | other⟩
        · exact undecided other
        · exact same other

theorem beginRecord_cases (builder : Builder) (key : UInt64) :
    ¬ builder.Admits .keyed ∧ (∃ error, builder.beginRecord key = (.error error, builder)) ∨
      builder.Admits .keyed ∧ ∃ staging nextObject,
        ({ builder with mode := .keyed, staging, nextObject } : Builder).rows = builder.rows ∧
        builder.beginRecord key =
          (.ok ⟨partitionOf builder.options.addressBits key,
            addressOf builder.options.addressBits key⟩,
            { builder with mode := .keyed, staging, nextObject }.clearSlots) := by
  unfold beginRecord
  refine (enterMode_cases builder .keyed).imp (fun ⟨refused, error, equation⟩ => ?_)
    fun ⟨admits, staging, nextObject, rows, equation⟩ => ?_
  · exact ⟨refused, error, by rw [equation]; rfl⟩
  · exact ⟨admits, staging, nextObject, rows, by rw [equation]; rfl⟩

theorem beginRecordAt_cases (builder : Builder) (partition address : UInt64) :
    ¬ builder.Admits .explicit ∧
        (∃ error, builder.beginRecordAt partition address = (.error error, builder)) ∨
      builder.Admits .explicit ∧ ∃ staging nextObject,
        ({ builder with mode := .explicit, staging, nextObject } : Builder).rows = builder.rows ∧
        builder.beginRecordAt partition address = (.ok ⟨partition, address⟩,
          { builder with mode := .explicit, staging, nextObject }.clearSlots) := by
  unfold beginRecordAt
  refine (enterMode_cases builder .explicit).imp (fun ⟨refused, error, equation⟩ => ?_)
    fun ⟨admits, staging, nextObject, rows, equation⟩ => ?_
  · exact ⟨refused, error, by rw [equation]; rfl⟩
  · exact ⟨admits, staging, nextObject, rows, by rw [equation]; rfl⟩

/-- A wide record that is not begun may have entered the mode. -/
theorem beginRecordAtBytes_cases (builder : Builder) (partition : UInt64)
    (address : List UInt8) :
    ¬ (builder.Admits .explicitWide ∧ address ≠ []) ∧
        (∃ error, builder.beginRecordAtBytes partition address = (.error error, builder)) ∨
      (builder.Admits .explicitWide ∧ address ≠ []) ∧ ∃ entered staging nextObject,
        entered = { builder with
          mode := .explicitWide
          wideWidth := if builder.mode = .undecided then address.length % 2 ^ 32
            else builder.wideWidth
          staging
          blob := if builder.mode = .undecided ∧ builder.staging.isNone then
            some builder.nextObject else builder.blob
          nextObject } ∧
        entered.rows = builder.rows ∧
        (address.length ≠ entered.wideWidth ∧
            (∃ error, builder.beginRecordAtBytes partition address = (.error error, entered)) ∨
          address.length = entered.wideWidth ∧ builder.beginRecordAtBytes partition address =
            (.ok ⟨partition, 0⟩, { entered with pendingAddress := address }.clearSlots)) := by
  unfold beginRecordAtBytes
  by_cases empty : address = []
  · exact Or.inl ⟨fun both => both.2 empty, _, if_pos empty⟩
  · rw [if_neg empty]
    rcases enterWideMode_cases builder (address.length % 2 ^ 32) with
      ⟨refused, error, equation⟩ | ⟨admits, entered, staging, nextObject, same, rows, equation⟩
    · exact Or.inl ⟨fun both => refused both.1, error, by rw [equation]; rfl⟩
    · refine Or.inr ⟨⟨admits, empty⟩, entered, staging, nextObject, same, rows, ?_⟩
      simp only [equation, andThen]
      by_cases width : address.length = entered.wideWidth
      · exact Or.inr ⟨width, if_neg (not_not.mpr width)⟩
      · exact Or.inl ⟨width, _, if_pos width⟩

/-- A builder that has entered a mode. A span decides the width of wide mode, and the pointer
follows a staging that is made for it. -/
structure Enters (builder : Builder) (wanted : KeyMode) (pending : List UInt8)
    (entered : Builder) : Prop where
  admits : builder.Admits wanted
  decided : wanted ≠ .undecided
  spans : pending ≠ [] ↔ wanted = .explicitWide
  rows : entered.rows = builder.rows
  fields : ∃ staging nextObject, entered = { builder with
    mode := wanted
    wideWidth := if wanted = .explicitWide ∧ builder.mode = .undecided then
      pending.length % 2 ^ 32 else builder.wideWidth
    staging
    blob := if wanted = .explicitWide ∧ builder.mode = .undecided ∧ builder.staging.isNone then
      some builder.nextObject else builder.blob
    nextObject }

/-- What a call that begins a record comes to. A span of the wrong length is refused once the
mode is entered. -/
inductive BeginsAs (builder : Builder) (wanted : KeyMode) (pending : List UInt8)
    (rec : RecordRef) : Outcome RecordRef → Prop
  | refused (error : BuildError) : BeginsAs builder wanted pending rec (.error error, builder)
  | mismatched (error : BuildError) (entered : Builder)
      (enters : builder.Enters wanted pending entered) (wide : wanted = .explicitWide)
      (width : pending.length ≠ entered.wideWidth) :
      BeginsAs builder wanted pending rec (.error error, entered)
  | begun (entered : Builder) (enters : builder.Enters wanted pending entered) :
      BeginsAs builder wanted pending rec (.ok rec, { entered with
        pendingAddress := if wanted = KeyMode.explicitWide then pending
          else builder.pendingAddress }.clearSlots)

theorem beginRecord_beginsAs (builder : Builder) (key : UInt64) :
    builder.BeginsAs .keyed [] ⟨partitionOf builder.options.addressBits key,
      addressOf builder.options.addressBits key⟩ (builder.beginRecord key) := by
  rcases beginRecord_cases builder key with ⟨-, error, equation⟩ | ⟨admits, staging, nextObject,
    rows, equation⟩
  · rw [equation]
    exact .refused error
  · rw [equation]
    exact .begun { builder with mode := .keyed, staging, nextObject }
      ⟨admits, KeyMode.noConfusion, iff_of_false (fun some => some rfl) KeyMode.noConfusion, rows,
        staging, nextObject, rfl⟩

theorem beginRecordAt_beginsAs (builder : Builder) (partition address : UInt64) :
    builder.BeginsAs .explicit [] ⟨partition, address⟩
      (builder.beginRecordAt partition address) := by
  rcases beginRecordAt_cases builder partition address with ⟨-, error, equation⟩ | ⟨admits,
    staging, nextObject, rows, equation⟩
  · rw [equation]
    exact .refused error
  · rw [equation]
    exact .begun { builder with mode := .explicit, staging, nextObject }
      ⟨admits, KeyMode.noConfusion, iff_of_false (fun some => some rfl) KeyMode.noConfusion, rows,
        staging, nextObject, rfl⟩

theorem beginRecordAtBytes_beginsAs (builder : Builder) (partition : UInt64)
    (address : List UInt8) :
    builder.BeginsAs .explicitWide address ⟨partition, 0⟩
      (builder.beginRecordAtBytes partition address) := by
  rcases beginRecordAtBytes_cases builder partition address with ⟨-, error, equation⟩ |
    ⟨⟨admits, nonempty⟩, entered, staging, nextObject, same, rows, outcome⟩
  · rw [equation]
    exact .refused error
  · have enters : builder.Enters .explicitWide address entered :=
      ⟨admits, KeyMode.noConfusion, iff_of_true nonempty rfl, rows, staging, nextObject, by
        simp only [same, true_and]⟩
    rcases outcome with ⟨width, error, equation⟩ | ⟨-, equation⟩
    · rw [equation]
      exact .mismatched error entered enters rfl width
    · rw [equation]
      exact .begun entered enters

/-! ### Beginning a record -/

/-- What beginning a record comes to: nothing but entering a mode, or a handle on slots that are
zero. -/
structure Begins (builder : Builder) (pending : List UInt8) (rec : RecordRef) (later : Builder) :
    Prop where
  sound : later.Sound
  begun : later.Begun rec
  schema : later.schema = builder.schema
  options : later.options = builder.options
  tuples : later.tuples = builder.tuples
  stats : later.stats = builder.stats
  textDicts : later.textDicts = builder.textDicts
  rows : later.rows = builder.rows
  finished : later.finished = builder.finished
  slots : later.slots = builder.slots.map fun _ => 0
  pendingAddress : later.pendingAddress = pending
  handles : ∀ other, builder.Begun other → later.Begun other

theorem Kept.begins {entered : Builder} (kept : Kept builder entered) (sound : entered.Sound)
    {rec : RecordRef} {pending : List UInt8}
    (begun : ({ entered with pendingAddress := pending } : Builder).Begun rec)
    (length : entered.mode = .explicitWide → pending.length = entered.wideWidth) :
    Begins builder pending rec { entered with pendingAddress := pending }.clearSlots where
  sound := { sound with slotCount := by simp [clearSlots, sound.slotCount] }
  begun := begun
  schema := kept.schema
  options := kept.options
  tuples := kept.tuples
  stats := kept.stats
  textDicts := kept.textDicts
  rows := kept.rows
  finished := kept.finished
  slots := congrArg (List.map fun _ => 0) kept.slots
  pendingAddress := rfl
  handles other old := by
    by_cases undecided : builder.mode = .undecided
    · rw [Begun, undecided] at old
      exact old.elim
    · obtain rfl := kept.decided undecided
      unfold Begun at old ⊢
      cases mode : entered.mode <;> rw [mode] at old <;> simp only [clearSlots]
      · exact old
      · exact old
      · exact ⟨old.1, old.2.1, length mode⟩

/-- Beginning a record with an integer address, whatever the handle is made of. -/
theorem beginInteger_eq (sound : builder.Sound)
    (narrow : builder.mode ≠ .explicitWide → builder.pendingAddress = []) {wanted : KeyMode}
    (integer : wanted = .keyed ∨ wanted = .explicit) (handle : Builder → RecordRef)
    (begun : ∀ entered : Builder, entered.mode = wanted → entered.Begun (handle entered)) :
    (∃ error, (andThen (builder.enterMode wanted) fun _ entered =>
        (.ok (handle entered), entered.clearSlots)) = (.error error, builder)) ∨
      ∃ rec later, (andThen (builder.enterMode wanted) fun _ entered =>
        (.ok (handle entered), entered.clearSlots)) = (.ok rec, later) ∧
          later.mode ≠ .explicitWide ∧ Begins builder [] rec later := by
  rcases enterMode_eq sound integer with ⟨error, equation⟩ | ⟨entered, equation, enteredSound,
    mode, kept⟩
  · exact Or.inl ⟨error, by rw [equation]; rfl⟩
  · have notWide : wanted ≠ .explicitWide := by
      rcases integer with rfl | rfl <;> decide
    have wasNarrow : builder.mode ≠ .explicitWide := by
      intro wide
      have same := kept.decided (by rw [wide]; decide)
      exact notWide (by rw [← mode, same, wide])
    have pending : entered = { entered with pendingAddress := [] } := by
      rw [← kept.pendingAddress.trans (narrow wasNarrow)]
    refine Or.inr ⟨_, _, by rw [equation]; rfl, by rwa [clearSlots, mode], ?_⟩
    rw [pending]
    exact kept.begins enteredSound (begun { entered with pendingAddress := [] } mode)
      fun wide => absurd (mode.symm.trans wide) notWide

theorem beginRecord_eq (sound : builder.Sound)
    (narrow : builder.mode ≠ .explicitWide → builder.pendingAddress = []) (key : UInt64) :
    (∃ error, builder.beginRecord key = (.error error, builder)) ∨
      ∃ rec later, builder.beginRecord key = (.ok rec, later) ∧ later.mode ≠ .explicitWide ∧
        Begins builder [] rec later :=
  beginInteger_eq sound narrow (Or.inl rfl) _ fun entered mode => by
    rw [Begun, mode]
    exact ⟨key, rfl⟩

theorem beginRecordAt_eq (sound : builder.Sound)
    (narrow : builder.mode ≠ .explicitWide → builder.pendingAddress = [])
    (partition address : UInt64) :
    (∃ error, builder.beginRecordAt partition address = (.error error, builder)) ∨
      ∃ rec later, builder.beginRecordAt partition address = (.ok rec, later) ∧
        later.mode ≠ .explicitWide ∧ Begins builder [] rec later :=
  beginInteger_eq sound narrow (Or.inr rfl) _ fun entered mode => by
    rw [Begun, mode]
    trivial

/-- A call that throws may have entered wide mode already. -/
theorem beginRecordAtBytes_eq (sound : builder.Sound) (partition : UInt64)
    (address : List UInt8) :
    (∃ error later, builder.beginRecordAtBytes partition address = (.error error, later) ∧
        later.Sound ∧ Kept builder later) ∨
      ∃ rec later, builder.beginRecordAtBytes partition address = (.ok rec, later) ∧
        later.mode = .explicitWide ∧ Begins builder address rec later := by
  unfold beginRecordAtBytes
  by_cases empty : address = []
  · exact Or.inl ⟨_, builder, if_pos empty, sound, kept_refl builder⟩
  · rw [if_neg empty]
    have small : address.length % 2 ^ 32 < 2 ^ 32 := Nat.mod_lt _ (Nat.two_pow_pos 32)
    rcases enterWideMode_eq sound small with ⟨error, equation⟩ | ⟨entered,
      equation, enteredSound, mode, kept⟩
    · exact Or.inl ⟨error, builder, by rw [equation]; rfl, sound, kept_refl builder⟩
    · simp only [equation, andThen]
      by_cases width : address.length = entered.wideWidth
      · rw [if_neg (not_not.mpr width)]
        have positive : 0 < entered.wideWidth := by
          rw [← width]
          exact List.length_pos_iff.mpr empty
        refine Or.inr ⟨_, _, rfl, mode, kept.begins enteredSound ?_ fun _ => width⟩
        rw [Begun]
        simp only [mode]
        exact ⟨trivial, positive, width⟩
      · exact Or.inl ⟨_, entered, if_pos width, enteredSound, kept⟩

/-! ### Setting a field -/

/-- What a slot holds of a value that went through the setter of the field's kind. -/
def Keeps (builder : Builder) (i : Nat) (decl : FieldDecl) (value : FieldValue) (raw : UInt64) :
    Prop :=
  match value with
  | .uint v => decl.kind = .uint ∧ raw = v
  | .sint v => decl.kind = .sint ∧ raw = v.toUInt64
  | .f32 bits => decl.kind = .f32 ∧ raw = bits.toUInt64
  | .f64 bits => decl.kind = .f64 ∧ raw = bits
  | .text v => decl.kind = .text ∧ (builder.dictOf i).order[raw.toNat]? = some v
  | .bytes v => decl.kind = .bytes ∧ v.length = decl.fixedWidth ∧ raw = UInt64.ofNat (leNat v)

/-- Entries keep their ids as a dictionary grows. -/
theorem Keeps.grows {later : Builder} {i : Nat} {decl : FieldDecl} {value : FieldValue}
    {raw : UInt64} (grows : (builder.dictOf i).order <+: (later.dictOf i).order)
    (keeps : builder.Keeps i decl value raw) : later.Keeps i decl value raw := by
  cases value with
  | text v =>
    obtain ⟨kind, found⟩ := keeps
    obtain ⟨inside, entry⟩ := List.getElem?_eq_some_iff.mp found
    exact ⟨kind, by rw [List.prefix_iff_getElem?.mp grows _ inside, entry]⟩
  | uint | sint | f32 | f64 | bytes => exact keeps

/-- What a setter does. -/
structure Sets (builder : Builder) (id : Nat) (value : FieldValue) (later : Builder) : Prop where
  sound : later.Sound
  handles : ∀ rec, builder.Begun rec → later.Begun rec
  schema : later.schema = builder.schema
  options : later.options = builder.options
  tuples : later.tuples = builder.tuples
  rows : later.rows = builder.rows
  mode : later.mode = builder.mode
  finished : later.finished = builder.finished
  pendingAddress : later.pendingAddress = builder.pendingAddress
  slots : ∃ decl raw, builder.schema.fields[id]? = some decl ∧ later.Keeps id decl value raw ∧
    later.slots = builder.slots.set id raw
  dicts : ∀ i, (builder.dictOf i).order <+: (later.dictOf i).order
  stats : ∀ i decl, builder.schema.fields[i]? = some decl → later.statsAt i =
    match if id = i then value.observed else none with
    | some raw => (builder.statsAt i).observe decl.kind raw
    | none => builder.statsAt i

theorem withField_eq (builder : Builder) (id : Nat) (kind : FieldKind)
    (wrongKind : List UInt8 → BuildError) (set : FieldDecl → Outcome Unit) :
    (∃ error, builder.withField id kind wrongKind set = (.error error, builder)) ∨
      ∃ decl, builder.schema.fields[id]? = some decl ∧ decl.kind = kind ∧
        builder.withField id kind wrongKind set = set decl := by
  unfold withField
  cases declared : builder.schema.fields[id]? with
  | none => exact Or.inl ⟨_, rfl⟩
  | some decl =>
    by_cases same : decl.kind = kind
    · exact Or.inr ⟨decl, rfl, same, if_neg (not_not.mpr same)⟩
    · exact Or.inl ⟨_, if_pos same⟩

/-- All a setter touches are the slots, the ranges and the dictionaries. -/
theorem set_frame (builder : Builder) (id : Nat) (value : FieldValue) :
    ∃ slots stats textDicts,
      (builder.set id value).2 = { builder with slots, stats, textDicts } := by
  have field (kind : FieldKind) (wrongKind : List UInt8 → BuildError)
      (set : FieldDecl → Outcome Unit)
      (framed : ∀ decl, ∃ slots stats textDicts,
        (set decl).2 = { builder with slots, stats, textDicts }) :
      ∃ slots stats textDicts, (builder.withField id kind wrongKind set).2 =
        { builder with slots, stats, textDicts } := by
    rcases withField_eq builder id kind wrongKind set with ⟨error, equation⟩ | ⟨decl, -, -,
      equation⟩
    · exact ⟨builder.slots, builder.stats, builder.textDicts, by rw [equation]⟩
    · rw [equation]
      exact framed decl
  cases value with
  | uint v | sint v | f32 v | f64 v => exact field _ _ _ fun _ => ⟨_, _, _, rfl⟩
  | text v =>
    refine field _ _ _ fun _ => ?_
    split <;> exact ⟨_, _, _, rfl⟩
  | bytes v =>
    refine field _ _ _ fun _ => ?_
    split <;> exact ⟨_, _, _, rfl⟩

/-- A setter writes a slot, and may widen a range or grow a dictionary. -/
theorem sets_of_write (sound : builder.Sound) {id : Nat} {value : FieldValue} {decl : FieldDecl}
    (declared : builder.schema.fields[id]? = some decl) {raw : UInt64}
    (dicts : List BlobDictionaryBuilder) (stats : List FieldStats)
    (dictCount : dicts.length = builder.textDicts.length)
    (grows : ∀ slot, (builder.textDicts.getD slot .empty).order <+:
      (dicts.getD slot .empty).order)
    (statsEq : stats = match value.observed with
      | some raw => builder.stats.modify id (·.observe decl.kind raw)
      | none => builder.stats)
    (keeps : Keeps { builder with textDicts := dicts } id decl value raw) :
    Sets builder id value
      { builder with slots := builder.slots.set id raw, textDicts := dicts, stats } where
  sound :=
    { sound with
      statCount := by
        have count := sound.statCount
        subst statsEq
        simp only
        split
        · rw [List.length_modify, count]
        · exact count
      dictCount := dictCount.trans sound.dictCount
      slotCount := by simp [sound.slotCount] }
  handles rec begun := begun
  schema := rfl
  options := rfl
  tuples := rfl
  rows := rfl
  mode := rfl
  finished := rfl
  pendingAddress := rfl
  slots := ⟨decl, raw, declared, by cases value <;> exact keeps, rfl⟩
  dicts i := grows _
  stats i other found := by
    have inside : i < builder.stats.length := by
      rw [sound.statCount]
      exact (List.getElem?_eq_some_iff.mp found).1
    subst statsEq
    simp only [statsAt]
    by_cases same : id = i
    · subst same
      obtain rfl := Option.some.inj (declared.symm.trans found)
      simp only [if_true]
      cases value.observed with
      | none => rfl
      | some raw => simp [List.getD_eq_getElem?_getD, List.getElem?_eq_getElem inside]
    · rw [if_neg same]
      cases value.observed with
      | none => rfl
      | some raw => simp [List.getD_eq_getElem?_getD, same]

theorem intern_spec {dict grown : BlobDictionaryBuilder} {text : List UInt8} {entry : Nat}
    (interned : dict.intern text = .ok (grown, entry)) :
    dict.order <+: grown.order ∧ grown.order[entry]? = some text := by
  unfold BlobDictionaryBuilder.intern at interned
  split at interned
  · rename_i id found
    obtain ⟨rfl, rfl⟩ := Prod.mk.inj (Except.ok.inj interned)
    obtain ⟨inside, same, -⟩ := List.idxOf?_eq_some_iff.mp found
    exact ⟨List.prefix_rfl, by rw [List.getElem?_eq_getElem inside, same]⟩
  · split at interned
    · obtain ⟨rfl, rfl⟩ := Prod.mk.inj (Except.ok.inj interned)
      exact ⟨List.prefix_append _ _, List.getElem?_concat_length⟩
    · nomatch interned

theorem textSlot_lt
    (dictCount : builder.textDicts.length = builder.schema.fields.countP (·.kind = .text))
    {id : Nat} {decl : FieldDecl}
    (declared : builder.schema.fields[id]? = some decl) (isText : decl.kind = .text) :
    textSlot builder.schema id < builder.textDicts.length := by
  obtain ⟨inside, same⟩ := List.getElem?_eq_some_iff.mp declared
  have split := congrArg (List.countP (fun field : FieldDecl => decide (field.kind = .text)))
    (List.take_append_drop id builder.schema.fields)
  rw [List.countP_append, List.drop_eq_getElem_cons inside, same,
    List.countP_cons_of_pos (by simpa using isText)] at split
  rw [dictCount, textSlot]
  omega

/-- `set_text` interns its value first, whatever else it writes. -/
theorem setText_writes
    (dictCount : builder.textDicts.length = builder.schema.fields.countP (·.kind = .text))
    (id : Nat) (v : List UInt8) :
    (∃ error, builder.setText id v = (.error error, builder)) ∨
      ∃ decl raw dicts, builder.schema.fields[id]? = some decl ∧
        dicts.length = builder.textDicts.length ∧
        (∀ slot, (builder.textDicts.getD slot .empty).order <+:
          (dicts.getD slot .empty).order) ∧
        Keeps { builder with textDicts := dicts } id decl (.text v) raw ∧
        builder.setText id v = (.ok (), { builder with
          slots := builder.slots.set id raw
          textDicts := dicts }) := by
  rcases withField_eq builder id .text .notTextField _ with thrown | ⟨decl, declared, kind,
    equation⟩
  · exact Or.inl thrown
  · have inside := textSlot_lt dictCount declared kind
    rw [setText, equation]
    cases interned : (builder.textDicts.getD (textSlot builder.schema id) .empty).intern v with
    | error error => exact Or.inl ⟨error, rfl⟩
    | ok result =>
      obtain ⟨dict, entry⟩ := result
      obtain ⟨grows, found⟩ := intern_spec interned
      refine Or.inr ⟨decl, _, _, declared, List.length_set, fun slot => ?_, ⟨kind, ?_⟩, rfl⟩
      · rw [List.getD_eq_getElem?_getD, List.getD_eq_getElem?_getD]
        by_cases same : textSlot builder.schema id = slot
        · subst same
          rw [List.getElem?_set_self inside]
          rwa [List.getD_eq_getElem?_getD] at grows
        · rw [List.getElem?_set_ne same]
      · have small := dict.size_lt
        have bound := (List.getElem?_eq_some_iff.mp found).1
        rw [UInt64.toNat_ofNat', Nat.mod_eq_of_lt (by omega)]
        simpa [dictOf, List.getD_eq_getElem?_getD, List.getElem?_set, inside] using found

/-- A setter throws and leaves the builder alone, or writes what keeps the value. -/
theorem set_writes
    (dictCount : builder.textDicts.length = builder.schema.fields.countP (·.kind = .text))
    (id : Nat) (value : FieldValue) :
    (∃ error, builder.set id value = (.error error, builder)) ∨
      ∃ decl raw dicts, builder.schema.fields[id]? = some decl ∧
        dicts.length = builder.textDicts.length ∧
        (∀ slot, (builder.textDicts.getD slot .empty).order <+:
          (dicts.getD slot .empty).order) ∧
        Keeps { builder with textDicts := dicts } id decl value raw ∧
        builder.set id value = (.ok (), { builder with
          slots := builder.slots.set id raw
          textDicts := dicts
          stats := match value.observed with
            | some raw => builder.stats.modify id (·.observe decl.kind raw)
            | none => builder.stats }) := by
  cases value with
  | uint v =>
    refine (withField_eq builder id .uint _ _).imp_right fun ⟨decl, declared, kind, equation⟩ =>
      ⟨decl, v, builder.textDicts, declared, rfl, fun slot => List.prefix_rfl, ⟨kind, rfl⟩, ?_⟩
    rw [kind]
    exact equation
  | sint v =>
    refine (withField_eq builder id .sint _ _).imp_right fun ⟨decl, declared, kind, equation⟩ =>
      ⟨decl, v.toUInt64, builder.textDicts, declared, rfl, fun slot => List.prefix_rfl,
        ⟨kind, rfl⟩, ?_⟩
    rw [kind]
    exact equation
  | f32 bits =>
    exact (withField_eq builder id .f32 _ _).imp_right fun ⟨decl, declared, kind, equation⟩ =>
      ⟨decl, bits.toUInt64, builder.textDicts, declared, rfl, fun slot => List.prefix_rfl,
        ⟨kind, rfl⟩, equation⟩
  | f64 bits =>
    exact (withField_eq builder id .f64 _ _).imp_right fun ⟨decl, declared, kind, equation⟩ =>
      ⟨decl, bits, builder.textDicts, declared, rfl, fun slot => List.prefix_rfl,
        ⟨kind, rfl⟩, equation⟩
  | text v => exact setText_writes dictCount id v
  | bytes v =>
    rcases withField_eq builder id .bytes .notBytesField _ with thrown | ⟨decl, declared, kind,
      equation⟩
    · exact Or.inl thrown
    · rw [set, setBytes, equation]
      by_cases width : v.length = decl.fixedWidth
      · rw [if_neg (not_not.mpr width)]
        exact Or.inr ⟨decl, _, builder.textDicts, declared, rfl, fun slot => List.prefix_rfl,
          ⟨kind, width, rfl⟩, rfl⟩
      · exact Or.inl ⟨_, if_pos width⟩

/-- A setter throws and leaves the builder alone, or sets. -/
theorem set_eq (sound : builder.Sound) (id : Nat) (value : FieldValue) :
    (∃ error, builder.set id value = (.error error, builder)) ∨
      ∃ later, builder.set id value = (.ok (), later) ∧ Sets builder id value later := by
  rcases set_writes sound.dictCount id value with thrown | ⟨decl, raw, dicts, declared, length,
    grows, keeps, equation⟩
  · exact Or.inl thrown
  · exact Or.inr ⟨_, equation, sets_of_write sound declared dicts _ length grows rfl keeps⟩

/-! ### Committing -/

/-- What committing does. -/
structure Commits (builder : Builder) (rec : RecordRef) (later : Builder) : Prop where
  sound : later.Sound
  handles : ∀ other, builder.Begun other → later.Begun other
  schema : later.schema = builder.schema
  options : later.options = builder.options
  stats : later.stats = builder.stats
  textDicts : later.textDicts = builder.textDicts
  slots : later.slots = builder.slots
  mode : later.mode = builder.mode
  finished : later.finished = builder.finished
  pendingAddress : later.pendingAddress = builder.pendingAddress
  tuples : builder.tuples <+: later.tuples
  tuple : later.tuples[builder.internTuple.1]? = some builder.slots
  rows : later.rows = builder.rows ++
    [{ partition := rec.partition, address := rec.address
       addressBytes := builder.pendingAddress, tuple := builder.internTuple.1 }]

theorem internTuple_eq (builder : Builder) :
    ∃ tuple tuples index dedupActive, builder.internTuple =
      (tuple, { builder with tuples, index, dedupActive }) ∧ builder.tuples <+: tuples ∧
        tuples[tuple]? = some builder.slots := by
  unfold internTuple
  by_cases active : builder.dedupActive = true
  · simp only [active, if_true]
    cases found : builder.index.find? fun id => decide (builder.tuples[id]? = some builder.slots)
    with
    | some id =>
      refine ⟨id, builder.tuples, builder.index, true, ?_, List.prefix_rfl, ?_⟩
      · simp only [← active]
      · simpa using List.find?_some found
    | none =>
      simp only [maybeGiveUpOnDedup]
      split
      · exact ⟨_, _, _, _, rfl, List.prefix_append _ _, List.getElem?_concat_length⟩
      · split
        · exact ⟨_, _, _, _, rfl, List.prefix_append _ _, List.getElem?_concat_length⟩
        · exact ⟨_, _, _, _, rfl, List.prefix_append _ _, List.getElem?_concat_length⟩
  · rw [if_neg active]
    exact ⟨_, _, _, builder.dedupActive, rfl, List.prefix_append _ _,
      List.getElem?_concat_length⟩

/-- A staging as a committed record leaves it. -/
structure Staged (builder : Builder) (rec : RecordRef) (tuple : Nat) (owned : StagingObject) :
    Prop where
  view : owned.staging.view = builder.rows ++
    [{ partition := rec.partition, address := rec.address
       addressBytes := builder.pendingAddress, tuple }]
  staging : StagingOk { builder with staging := some owned }
  ordered : owned.staging.isSorted = true ↔ owned.staging.view.Pairwise StagedRow.Before

theorem stage_narrow (blob : builder.blob = none) (rec : RecordRef) (tuple : Nat) :
    builder.stage rec tuple = builder.pushNarrow rec tuple := by
  rw [stage, blob]

theorem pushNarrow_eq {owned : StagingObject} (equation : builder.staging = some owned)
    {rec : RecordRef} {tuple : Nat} {pushed : Staging}
    (runs : owned.staging.push rec.partition rec.address tuple = .ok pushed) :
    builder.pushNarrow rec tuple =
      (.ok (), { builder with staging := some { owned with staging := pushed } }) := by
  simp only [pushNarrow, equation, runs]

theorem pushWide_eq {id : Nat} {owned pushed : BlobStaging}
    (equation : builder.staging = some ⟨id, .blob owned⟩) {partition : UInt64} {tuple : Nat}
    (runs : owned.pushBytes partition builder.pendingAddress tuple = .ok pushed) :
    builder.pushWide id partition tuple = (.ok (), { builder with
      staging := some ⟨id, .blob pushed⟩, lastWide := builder.pendingAddress }) := by
  simp only [pushWide, equation, runs, ne_eq, not_true_eq_false, if_false]

theorem stage_keyed (sound : builder.Sound) (mode : builder.mode = .keyed)
    (narrow : builder.pendingAddress = []) {rec : RecordRef} (begun : builder.Begun rec)
    (tuple : Nat) :
    ∃ owned, builder.stage rec tuple = (.ok (), { builder with staging := some owned }) ∧
      Staged builder rec tuple owned := by
  have staging := sound.staging
  rw [StagingOk, mode] at staging
  rw [Begun, mode] at begun
  obtain ⟨blob, id, owned, equation, bits⟩ := staging
  obtain ⟨key, rfl⟩ := begun
  have rowsEq : builder.rows = owned.view := by
    rw [rows, equation]
    rfl
  refine ⟨_, (stage_narrow blob _ _).trans (pushNarrow_eq equation rfl), ?_, ?_, ?_⟩
  · refine (MemoryStaging.view_push owned _ _ tuple).trans ?_
    rw [bits, packKey_split sound.addressBits, rowsEq, narrow]
  · rw [StagingOk]
    simp only [mode]
    exact ⟨blob, _, _, rfl, bits⟩
  · exact MemoryStaging.push_ordered (bits ▸ sound.addressBits) (sound.ordered _ equation) _ _ tuple

theorem stage_explicit (sound : builder.Sound) (mode : builder.mode = .explicit)
    (narrow : builder.pendingAddress = []) (rec : RecordRef) (tuple : Nat) :
    ∃ owned, builder.stage rec tuple = (.ok (), { builder with staging := some owned }) ∧
      Staged builder rec tuple owned := by
  have staging := sound.staging
  rw [StagingOk, mode] at staging
  obtain ⟨blob, id, owned, equation⟩ := staging
  have rowsEq : builder.rows = owned.view := by
    rw [rows, equation]
    rfl
  refine ⟨_, (stage_narrow blob _ _).trans (pushNarrow_eq equation rfl), ?_, ?_, ?_⟩
  · refine (WideStaging.view_push owned _ _ tuple).trans ?_
    rw [rowsEq, narrow]
  · rw [StagingOk]
    simp only [mode]
    exact ⟨blob, _, _, rfl⟩
  · exact WideStaging.push_ordered (sound.ordered _ equation) _ _ tuple

theorem stage_wide (sound : builder.Sound) (mode : builder.mode = .explicitWide)
    {rec : RecordRef} (begun : builder.Begun rec) (tuple : Nat) :
    ∃ owned, builder.stage rec tuple = (.ok (), { builder with
        staging := some owned, lastWide := builder.pendingAddress }) ∧
      Staged builder rec tuple owned := by
  have staging := sound.staging
  rw [StagingOk, mode] at staging
  rw [Begun, mode] at begun
  obtain ⟨id, owned, equation, blob, width, lengths⟩ := staging
  obtain ⟨zero, positive, length⟩ := begun
  have rowsEq : builder.rows = owned.view := by
    rw [rows, equation]
    rfl
  obtain ⟨pushed, runs, pushedWidth, pushedRows, pushedOrder⟩ :=
    BlobStaging.pushBytes_eq rec.partition (length.trans width.symm) tuple
  have routed : builder.stage rec tuple = builder.pushWide id rec.partition tuple := by
    rw [stage, blob]
  have view : pushed.view = owned.view ++ [⟨rec.partition, 0, builder.pendingAddress, tuple⟩] := by
    simp [BlobStaging.view, pushedRows]
  refine ⟨_, routed.trans (pushWide_eq equation runs), ?_, ?_, ?_⟩
  · rw [rowsEq, zero]
    exact view
  · rw [StagingOk]
    simp only [mode]
    refine ⟨_, _, rfl, blob, pushedWidth.trans width, fun row member => ?_⟩
    rw [pushedRows, List.mem_append, List.mem_singleton] at member
    rcases member with old | rfl
    · exact lengths row old
    · exact ⟨length, positive⟩
  · have ordered : owned.sorted = true ↔ owned.view.Pairwise StagedRow.Before :=
      sound.ordered _ equation
    change pushed.sorted = true ↔ pushed.view.Pairwise StagedRow.Before
    rw [pushedOrder, view, StagedRow.pairwise_push, ordered, width, BlobStaging.view,
      List.getLast?_map]
    refine and_congr_right fun _ => ?_
    cases last : owned.rows.getLast? with
    | none => simp
    | some row =>
      have before := @BlobStaging.before_iff _ _ ⟨rec.partition, builder.pendingAddress, tuple⟩
        (lengths row (List.mem_of_getLast? last)).1 length
      simp [← before]

/-- A record begun in the mode of the build is staged as it is. -/
theorem stage_eq (sound : builder.Sound)
    (narrow : builder.mode ≠ .explicitWide → builder.pendingAddress = []) {rec : RecordRef}
    (begun : builder.Begun rec) (tuple : Nat) :
    ∃ owned, builder.stage rec tuple = (.ok (), { builder with
        staging := some owned
        lastWide := if builder.blob.isSome then builder.pendingAddress else builder.lastWide }) ∧
      Staged builder rec tuple owned := by
  have wide := sound.wide_iff
  rcases mode : builder.mode with _ | _ | _ | _
  · rw [Begun, mode] at begun
    exact begun.elim
  all_goals rw [← mode]
  · rw [if_neg (by simp [wide, mode])]
    exact stage_keyed sound mode (narrow (by rw [mode]; decide)) begun tuple
  · rw [if_neg (by simp [wide, mode])]
    exact stage_explicit sound mode (narrow (by rw [mode]; decide)) rec tuple
  · rw [if_pos (wide.mpr mode)]
    exact stage_wide sound mode begun tuple

/-- A commit throws without touching anything. -/
def Rejects (builder : Builder) (rec : RecordRef) : Prop :=
  builder.finished = true ∨
    builder.options.order = .assumeSorted ∧ builder.count ≠ 0 ∧ builder.increasing rec = false

/-- What a commit that returns leaves, up to the staging. -/
def committed (builder : Builder) (rec : RecordRef) (staging : Option StagingObject) : Builder :=
  { builder with
    tuples := builder.internTuple.2.tuples
    index := builder.internTuple.2.index
    dedupActive := builder.internTuple.2.dedupActive
    staging
    lastWide := if builder.blob.isSome then builder.pendingAddress else builder.lastWide
    lastPartition := rec.partition
    lastAddress := rec.address
    count := builder.count + 1 }

/-- A commit throws and leaves the builder alone, or stages the record. -/
theorem commit_eq (sound : builder.Sound)
    (narrow : builder.mode ≠ .explicitWide → builder.pendingAddress = []) {rec : RecordRef}
    (begun : builder.Begun rec) :
    builder.Rejects rec ∧ (∃ error, builder.commit rec = (.error error, builder)) ∨
      ¬ builder.Rejects rec ∧ ∃ staging,
        builder.commit rec = (.ok (), builder.committed rec staging) ∧
          Commits builder rec (builder.committed rec staging) := by
  unfold commit Rejects
  by_cases finished : builder.finished = true
  · exact Or.inl ⟨Or.inl finished, _, if_pos finished⟩
  · rw [if_neg finished]
    split
    · rename_i disordered
      exact Or.inl ⟨Or.inr disordered, _, rfl⟩
    · rename_i inOrder
      obtain ⟨tuple, tuples, index, dedupActive, interned, grows, found⟩ := internTuple_eq builder
      have internedSound : Sound { builder with tuples, index, dedupActive } := { sound with }
      obtain ⟨owned, pushed, view, ok, ordered⟩ := stage_eq internedSound narrow begun tuple
      simp only [committed, interned, pushed, andThen]
      refine Or.inr ⟨fun rejected => rejected.elim finished inOrder, some owned, rfl, ?_⟩
      exact
        { sound :=
            { sound with
              staging := ok
              ordered := fun other same => by
                obtain rfl := Option.some.inj same
                exact ordered
              count := by
                rw [Builder.rows]
                simp only
                rw [view, List.length_append, List.length_singleton, sound.count]
                rfl }
          handles := fun other old => old
          schema := rfl
          options := rfl
          stats := rfl
          textDicts := rfl
          slots := rfl
          mode := rfl
          finished := rfl
          pendingAddress := rfl
          tuples := grows
          tuple := by rw [interned]; exact found
          rows := by rw [interned]; exact view }

/-! ### Finishing -/

theorem ensureStaging_eq (builder : Builder) (wanted : KeyMode) :
    ∃ owned nextObject, builder.ensureStaging wanted =
        { builder with staging := some owned, nextObject } ∧
      (builder.staging = some owned ∨
        builder.staging = none ∧ owned.staging = makeStaging builder.options wanted) := by
  unfold ensureStaging
  rcases staging : builder.staging with _ | owned
  · exact ⟨_, _, rfl, Or.inr ⟨rfl, rfl⟩⟩
  · exact ⟨owned, builder.nextObject, by simp only [← staging], Or.inl rfl⟩

/-- A first `finish` works on the staging that is owned, or on an empty one. -/
theorem finish_eq (running : builder.finished = false) : ∃ owned nextObject,
    (builder.staging = some owned ∨
      builder.staging = none ∧ owned.staging = makeStaging builder.options .keyed) ∧
    finish builder = finishOwned
      { builder with staging := some owned, finished := true, nextObject } owned := by
  obtain ⟨owned, nextObject, ensured, owns⟩ :=
    ensureStaging_eq { builder with finished := true } .keyed
  refine ⟨owned, nextObject, owns, ?_⟩
  rw [finish, if_neg (by simp [running])]
  simp only [ensured]

theorem finishOwned_builder (builder : Builder) (owned : StagingObject) :
    ∃ staging, (finishOwned builder owned).builder =
        { builder with staging := some { owned with staging } } ∧
      (staging = owned.staging ∨ staging = owned.staging.sort) := by
  have ordered : (orderStaging builder owned.staging).1 = owned.staging ∨
      (orderStaging builder owned.staging).1 = owned.staging.sort := by
    unfold orderStaging
    split
    · exact Or.inl rfl
    · split
      · exact Or.inl rfl
      · exact Or.inr rfl
  refine ⟨(orderStaging builder owned.staging).1, ?_, ordered⟩
  unfold finishOwned
  simp only
  split
  · rfl
  · split <;> rfl

/-- All `finish` touches is the staging. -/
theorem finish_builder (builder : Builder) : ∃ staging nextObject,
    (finish builder).builder = { builder with staging, finished := true, nextObject } := by
  by_cases finished : builder.finished = true
  · refine ⟨builder.staging, builder.nextObject, ?_⟩
    rw [finish, if_pos finished, ← finished]
  · obtain ⟨owned, nextObject, -, equation⟩ := finish_eq (by simpa using finished)
    obtain ⟨staging, after, -⟩ := finishOwned_builder
      { builder with staging := some owned, finished := true, nextObject } owned
    exact ⟨_, _, by rw [equation, after]⟩

end Builder

end Mmpack
