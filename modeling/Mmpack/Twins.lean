/-
This file runs two builds beside each other. They may differ in their layout
options, in whether they give up on collapsing tuples, and in whether their keys
are packed by the builder or split by the caller. What their calls return does not
tell them apart, and their rows stay the same but for the ids of their tuples.

Where the two collapse tuples alike, those ids are the same too.
-/

import Mmpack.Tracks

namespace Mmpack

open ByteList

/-! ### Splitting keys -/

/-- A call of a keyed build, made with the parts of the key. -/
def Call.styled (splits : Bool) (bits : Nat) : Call → Call
  | .beginRecord key =>
    if splits then .beginRecordAt (partitionOf bits key) (addressOf bits key)
    else .beginRecord key
  | call => call

/-- The calls that fill a build whose keys are not split by the caller. -/
def Call.Keyed : Call → Prop
  | .beginRecord _ | .set _ _ _ | .commit _ => True
  | _ => False

/-- The modes two builds are in. -/
inductive ModeTwins : Bool → KeyMode → KeyMode → Prop
  | same (mode : KeyMode) : ModeTwins false mode mode
  | undecided : ModeTwins true .undecided .undecided
  | keyed : ModeTwins true .keyed .explicit

/-- Rows at the same place whose tuples hold the same values. -/
structure SameRow (tuples tuples' : List (List UInt64)) (row row' : StagedRow) : Prop where
  partition : row'.partition = row.partition
  address : row'.address = row.address
  addressBytes : row'.addressBytes = row.addressBytes
  values : ∃ values, tuples[row.tuple]? = some values ∧ tuples'[row'.tuple]? = some values

theorem getElem?_of_prefix {Item : Type} {front whole : List Item} (grows : front <+: whole)
    {i : Nat} {item : Item} (found : front[i]? = some item) : whole[i]? = some item := by
  obtain ⟨inside, same⟩ := List.getElem?_eq_some_iff.mp found
  rw [List.prefix_iff_getElem?.mp grows _ inside, same]

theorem SameRow.grows {tuples tuples' later later' : List (List UInt64)} {row row' : StagedRow}
    (same : SameRow tuples tuples' row row') (grows : tuples <+: later)
    (grows' : tuples' <+: later') : SameRow later later' row row' := by
  obtain ⟨values, found, found'⟩ := same.values
  exact { same with
    values := ⟨values, getElem?_of_prefix grows found, getElem?_of_prefix grows' found'⟩ }

namespace Builder

/-- What decides where a tuple goes: the options of collapsing, and the tuples so far. -/
structure SameTables (first second : Builder) : Prop where
  sample : second.options.dedupSample = first.options.dedupSample
  keeps : second.options.dedupKeeps = first.options.dedupKeeps
  tuples : second.tuples = first.tuples
  index : second.index = first.index
  dedupActive : second.dedupActive = first.dedupActive
  rows : second.rows = first.rows

/-- Builders that differ in layout options, in the form of their staging and in their tables of
tuples only. -/
structure Twins (splits precise : Bool) (first second : Builder) : Prop where
  same : ∃ options mode staging blob nextObject tuples index dedupActive, second = { first with
    options, mode, staging, blob, nextObject, tuples, index, dedupActive }
  order : second.options.order = first.options.order
  addressBits : second.options.addressBits = first.options.addressBits
  modes : ModeTwins splits first.mode second.mode
  wide : second.blob.isSome = first.blob.isSome
  rows : List.Forall₂ (SameRow first.tuples second.tuples) first.rows second.rows
  tables : precise = true → SameTables first second

variable {splits precise : Bool} {first second : Builder}

/-! ### Beginning a record -/

theorem Twins.finished (twins : Twins splits precise first second) :
    second.finished = first.finished := by
  obtain ⟨_, _, _, _, _, _, _, _, same⟩ := twins.same
  rw [same]

theorem Twins.mode (twins : Twins false precise first second) : second.mode = first.mode := by
  have modes := twins.modes
  revert modes
  generalize first.mode = mode
  generalize second.mode = mode'
  rintro ⟨⟩
  rfl

theorem Twins.admits_keyed (twins : Twins splits precise first second) :
    second.Admits (if splits then .explicit else .keyed) ↔ first.Admits .keyed := by
  have modes := twins.modes
  unfold Admits
  rw [twins.finished]
  revert modes
  generalize first.mode = mode
  generalize second.mode = mode'
  rintro (_ | _ | _) <;> simp

theorem Twins.admits (twins : Twins false precise first second) (wanted : KeyMode) :
    second.Admits wanted ↔ first.Admits wanted := by
  rw [Admits, Admits, twins.finished, twins.mode]

/-- Builders that enter a mode on both sides stay twins. -/
theorem Twins.enter (twins : Twins splits precise first second) {mode mode' : KeyMode}
    {wideWidth nextObject nextObject' : Nat} {staging staging' : Option StagingObject}
    {blob blob' : Option Nat} {entered entered' : Builder}
    (left : entered = { first with mode, wideWidth, staging, blob, nextObject })
    (right : entered' = { second with
      mode := mode', wideWidth, staging := staging', blob := blob', nextObject := nextObject' })
    (modes : ModeTwins splits mode mode') (wide : blob'.isSome = blob.isSome)
    (rows : entered.rows = first.rows) (rows' : entered'.rows = second.rows) :
    Twins splits precise entered entered' := by
  obtain ⟨⟨_, _, _, _, _, _, _, _, rfl⟩, order, bits, -, -, same, tables⟩ := twins
  rw [← rows, ← rows'] at same
  subst left right
  refine ⟨⟨_, _, _, _, _, _, _, _, rfl⟩, order, bits, modes, wide, same, fun precise => ?_⟩
  have equal := tables precise
  exact ⟨equal.sample, equal.keeps, equal.tuples, equal.index, equal.dedupActive,
    rows'.trans (equal.rows.trans rows.symm)⟩

theorem Twins.clear (twins : Twins splits precise first second) :
    Twins splits precise first.clearSlots second.clearSlots := by
  obtain ⟨⟨_, _, _, _, _, _, _, _, rfl⟩, order, bits, modes, wide, same, tables⟩ := twins
  refine ⟨⟨_, _, _, _, _, _, _, _, rfl⟩, order, bits, modes, wide, same, fun precise => ?_⟩
  have equal := tables precise
  exact ⟨equal.sample, equal.keeps, equal.tuples, equal.index, equal.dedupActive, equal.rows⟩

theorem Twins.pend (twins : Twins splits precise first second) (pendingAddress : List UInt8) :
    Twins splits precise { first with pendingAddress } { second with pendingAddress } := by
  obtain ⟨⟨_, _, _, _, _, _, _, _, rfl⟩, order, bits, modes, wide, same, tables⟩ := twins
  refine ⟨⟨_, _, _, _, _, _, _, _, rfl⟩, order, bits, modes, wide, same, fun precise => ?_⟩
  have equal := tables precise
  exact ⟨equal.sample, equal.keeps, equal.tuples, equal.index, equal.dedupActive, equal.rows⟩

/-- Records of integer addresses begun on both sides. -/
theorem Twins.enterInteger (twins : Twins splits precise first second) {mode mode' : KeyMode}
    {staging staging' : Option StagingObject} {nextObject nextObject' : Nat}
    (modes : ModeTwins splits mode mode')
    (rows : ({ first with mode, staging, nextObject } : Builder).rows = first.rows)
    (rows' : ({ second with mode := mode', staging := staging', nextObject := nextObject' } :
      Builder).rows = second.rows) :
    Twins splits precise ({ first with mode, staging, nextObject } : Builder).clearSlots
      ({ second with mode := mode', staging := staging', nextObject := nextObject' } :
        Builder).clearSlots := by
  obtain ⟨_, _, _, _, _, _, _, _, same⟩ := twins.same
  have width : second.wideWidth = first.wideWidth := by rw [same]
  have entered : ({ second with mode := mode', staging := staging', nextObject := nextObject' } :
      Builder) = { second with
        mode := mode', wideWidth := first.wideWidth, staging := staging', blob := second.blob
        nextObject := nextObject' } := by
    rw [← width]
  exact (twins.enter rfl entered modes twins.wide rows rows').clear

/-! ### Setting a field -/

/-- Setting a field asks neither for the options nor for what is committed. -/
theorem set_with (builder : Builder) (options : BuildOptions) (mode : KeyMode)
    (staging : Option StagingObject) (blob : Option Nat) (nextObject : Nat)
    (tuples : List (List UInt64)) (index : List Nat) (dedupActive : Bool) (id : Nat)
    (value : FieldValue) :
    ({ builder with options, mode, staging, blob, nextObject, tuples, index, dedupActive } :
        Builder).set id value =
      ((builder.set id value).1, { (builder.set id value).2 with
        options, mode, staging, blob, nextObject, tuples, index, dedupActive }) := by
  cases value <;>
    simp only [set, setUint, setSint, setF32, setF64, setText, setBytes, withField] <;>
    split <;> try rfl
  all_goals split <;> try rfl
  all_goals split <;> rfl

/-- Fields set on both sides leave twins. -/
theorem Twins.set (twins : Twins splits precise first second) (id : Nat) (value : FieldValue) :
    (second.set id value).1 = (first.set id value).1 ∧
      Twins splits precise (first.set id value).2 (second.set id value).2 := by
  obtain ⟨⟨options, mode, staging, blob, nextObject, tuples, index, dedupActive, rfl⟩, order, bits,
    modes, wide, same, tables⟩ := twins
  obtain ⟨slots, stats, textDicts, frame⟩ := set_frame first id value
  rw [set_with]
  refine ⟨rfl, ⟨options, mode, staging, blob, nextObject, tuples, index, dedupActive, rfl⟩, ?_, ?_,
    ?_, ?_, ?_, fun precise => ?_⟩ <;> rw [frame]
  · exact order
  · exact bits
  · exact modes
  · exact wide
  · exact same
  · have equal := tables precise
    exact ⟨equal.sample, equal.keeps, equal.tuples, equal.index, equal.dedupActive, equal.rows⟩

/-! ### Committing -/

/-- Where a tuple goes is decided by the tables so far, the number of records and the options of
collapsing. -/
theorem internTuple_of_eq (slots : second.slots = first.slots) (count : second.count = first.count)
    (sample : second.options.dedupSample = first.options.dedupSample)
    (keeps : second.options.dedupKeeps = first.options.dedupKeeps)
    (tuples : second.tuples = first.tuples) (index : second.index = first.index)
    (dedupActive : second.dedupActive = first.dedupActive) :
    second.internTuple.1 = first.internTuple.1 ∧
      second.internTuple.2.tuples = first.internTuple.2.tuples ∧
      second.internTuple.2.index = first.internTuple.2.index ∧
      second.internTuple.2.dedupActive = first.internTuple.2.dedupActive := by
  unfold internTuple maybeGiveUpOnDedup
  rw [slots, tuples, index, dedupActive]
  simp only [count, sample, keeps]
  split
  · split
    · exact ⟨rfl, tuples, index, dedupActive⟩
    · split
      · exact ⟨rfl, rfl, rfl, rfl⟩
      · split
        · exact ⟨rfl, rfl, rfl, rfl⟩
        · exact ⟨rfl, rfl, rfl, rfl⟩
  · exact ⟨rfl, rfl, rfl, rfl⟩

/-- Tables in the same state take a tuple in the same way. -/
theorem internTuple_congr (slots : second.slots = first.slots) (count : second.count = first.count)
    (equal : SameTables first second) :
    second.internTuple.1 = first.internTuple.1 ∧
      second.internTuple.2.tuples = first.internTuple.2.tuples ∧
      second.internTuple.2.index = first.internTuple.2.index ∧
      second.internTuple.2.dedupActive = first.internTuple.2.dedupActive :=
  internTuple_of_eq slots count equal.sample equal.keeps equal.tuples equal.index
    equal.dedupActive

/-- The same commits are refused on both sides. -/
theorem Twins.rejects (twins : Twins splits precise first second) (rec : RecordRef) :
    second.Rejects rec ↔ first.Rejects rec := by
  obtain ⟨⟨options, mode, staging, blob, nextObject, tuples, index, dedupActive, rfl⟩, order, -,
    -, wide, -, -⟩ := twins
  unfold Rejects increasing
  simp only at order wide ⊢
  rw [order, wide]

/-- Records committed on both sides leave twins. -/
theorem Twins.commit (twins : Twins splits precise first second) {rec : RecordRef}
    {staging staging' : Option StagingObject}
    (commits : Commits first rec (first.committed rec staging))
    (commits' : Commits second rec (second.committed rec staging')) :
    Twins splits precise (first.committed rec staging) (second.committed rec staging') := by
  have wide := twins.wide
  obtain ⟨options, mode, old, blob, nextObject, tuples, index, dedupActive, same⟩ := twins.same
  have slots : second.slots = first.slots := by rw [same]
  have count : second.count = first.count := by rw [same]
  have pending : second.pendingAddress = first.pendingAddress := by rw [same]
  refine ⟨⟨options, mode, staging', blob, nextObject, second.internTuple.2.tuples,
    second.internTuple.2.index, second.internTuple.2.dedupActive, ?_⟩, twins.order,
    twins.addressBits, twins.modes, wide, ?_, fun precise => ?_⟩
  · unfold committed
    rw [wide]
    generalize second.internTuple = interned
    rw [same]
  · rw [commits.rows, commits'.rows]
    refine List.rel_append (twins.rows.imp fun _ _ related =>
      related.grows commits.tuples commits'.tuples) (List.Forall₂.cons ?_ List.Forall₂.nil)
    refine ⟨rfl, rfl, pending, first.slots, commits.tuple, ?_⟩
    rw [commits'.tuple, slots]
  · have equal := twins.tables precise
    obtain ⟨id, tuples, index, dedupActive⟩ := internTuple_congr slots count equal
    refine ⟨equal.sample, equal.keeps, tuples, index, dedupActive, ?_⟩
    rw [commits.rows, commits'.rows, equal.rows, id, pending]

end Builder

/-! ### Runs -/

namespace Session

open Builder

variable {splits precise : Bool} {schema : SchemaBuilder} {options options' : BuildOptions}
  {first second : Session} {log : Log}

/-- Sessions on twin builders with the same handles. -/
structure Twins (splits precise : Bool) (first second : Session) : Prop where
  builders : Builder.Twins splits precise first.builder second.builder
  handles : second.handles = first.handles

/-- A record with an integer address, or with one of bytes, is begun on both sides or on none. -/
theorem Twins.keep_error (twins : Twins splits precise first second) {outcome outcome' :
    Outcome RecordRef} {error error' : BuildError} {entered entered' : Builder}
    (builders : Builder.Twins splits precise entered entered')
    (left : outcome = (.error error, entered)) (right : outcome' = (.error error', entered')) :
    (second.keep outcome').1.isOk = (first.keep outcome).1.isOk ∧
      Twins splits precise (first.keep outcome).2 (second.keep outcome').2 := by
  subst left right
  exact ⟨rfl, builders, twins.handles⟩

theorem Twins.keep_ok (twins : Twins splits precise first second) {outcome outcome' :
    Outcome RecordRef} {rec : RecordRef} {entered entered' : Builder}
    (builders : Builder.Twins splits precise entered entered')
    (left : outcome = (.ok rec, entered)) (right : outcome' = (.ok rec, entered')) :
    (second.keep outcome').1.isOk = (first.keep outcome).1.isOk ∧
      Twins splits precise (first.keep outcome).2 (second.keep outcome').2 := by
  subst left right
  exact ⟨rfl, builders, congrArg (· ++ [rec]) twins.handles⟩

/-- A record begun by its key, and on the other side by the key or by its parts. -/
theorem Twins.beginRecord (twins : Twins splits precise first second) (key : UInt64) :
    let call := Call.styled splits first.builder.options.addressBits (.beginRecord key)
    (second.perform call).1.isOk = (first.perform (.beginRecord key)).1.isOk ∧
      Twins splits precise (first.perform (.beginRecord key)).2 (second.perform call).2 := by
  have builders := twins.builders
  have admits := builders.admits_keyed
  have bits := builders.addressBits
  cases splits with
  | false =>
    simp only [Call.styled, Bool.false_eq_true, if_false, perform] at admits ⊢
    rcases beginRecord_cases first.builder key with ⟨refused, error, left⟩ | ⟨admitted, staging,
      nextObject, rows, left⟩
    · rcases beginRecord_cases second.builder key with ⟨-, error', right⟩ | ⟨admitted, -⟩
      · exact twins.keep_error builders left right
      · exact absurd (admits.mp admitted) refused
    · rcases beginRecord_cases second.builder key with ⟨refused, -⟩ | ⟨-, staging', nextObject',
        rows', right⟩
      · exact absurd (admits.mpr admitted) refused
      · rw [bits] at right
        exact twins.keep_ok (builders.enterInteger (.same .keyed) rows rows') left right
  | true =>
    simp only [Call.styled, if_true, perform] at admits ⊢
    rcases beginRecord_cases first.builder key with ⟨refused, error, left⟩ | ⟨admitted, staging,
      nextObject, rows, left⟩
    · rcases beginRecordAt_cases second.builder _ _ with ⟨-, error', right⟩ | ⟨admitted, -⟩
      · exact twins.keep_error builders left right
      · exact absurd (admits.mp admitted) refused
    · rcases beginRecordAt_cases second.builder _ _ with ⟨refused, -⟩ | ⟨-, staging', nextObject',
        rows', right⟩
      · exact absurd (admits.mpr admitted) refused
      · exact twins.keep_ok (builders.enterInteger .keyed rows rows') left right

theorem Twins.beginRecordAt (twins : Twins false precise first second)
    (partition address : UInt64) :
    (second.perform (.beginRecordAt partition address)).1.isOk =
        (first.perform (.beginRecordAt partition address)).1.isOk ∧
      Twins false precise (first.perform (.beginRecordAt partition address)).2
        (second.perform (.beginRecordAt partition address)).2 := by
  have builders := twins.builders
  have admits := builders.admits .explicit
  simp only [perform]
  rcases beginRecordAt_cases first.builder partition address with ⟨refused, error, left⟩ |
    ⟨admitted, staging, nextObject, rows, left⟩
  · rcases beginRecordAt_cases second.builder partition address with ⟨-, error', right⟩ |
      ⟨admitted, -⟩
    · exact twins.keep_error builders left right
    · exact absurd (admits.mp admitted) refused
  · rcases beginRecordAt_cases second.builder partition address with ⟨refused, -⟩ | ⟨-, staging',
      nextObject', rows', right⟩
    · exact absurd (admits.mpr admitted) refused
    · exact twins.keep_ok (builders.enterInteger (.same .explicit) rows rows') left right

/-- A record of a wide address, which may enter the mode and still be refused. -/
theorem Twins.beginRecordAtBytes (twins : Twins false precise first second)
    (sound : first.builder.Sound) (sound' : second.builder.Sound) (partition : UInt64)
    (address : List UInt8) :
    (second.perform (.beginRecordAtBytes partition address)).1.isOk =
        (first.perform (.beginRecordAtBytes partition address)).1.isOk ∧
      Twins false precise (first.perform (.beginRecordAtBytes partition address)).2
        (second.perform (.beginRecordAtBytes partition address)).2 := by
  have builders := twins.builders
  have admits := builders.admits .explicitWide
  have mode := builders.mode
  have wide := builders.wide
  obtain ⟨_, _, _, _, _, _, _, _, same⟩ := builders.same
  simp only [perform]
  rcases beginRecordAtBytes_cases first.builder partition address with ⟨refused, error, left⟩ |
    ⟨⟨admitted, given⟩, entered, staging, nextObject, enters, rows, goes⟩
  · rcases beginRecordAtBytes_cases second.builder partition address with ⟨-, error', right⟩ |
      ⟨⟨admitted, given⟩, -⟩
    · exact twins.keep_error builders left right
    · exact absurd ⟨admits.mp admitted, given⟩ refused
  · rcases beginRecordAtBytes_cases second.builder partition address with ⟨refused, -⟩ | ⟨-,
      entered', staging', nextObject', enters', rows', goes'⟩
    · exact absurd ⟨admits.mpr admitted, given⟩ refused
    · have left : first.builder.mode = .undecided → first.builder.staging.isNone = true := by
        intro undecided
        rw [(sound.fresh undecided).1]
        rfl
      have right : second.builder.mode = .undecided → second.builder.staging.isNone = true := by
        intro undecided
        rw [(sound'.fresh undecided).1]
        rfl
      have blob : (if second.builder.mode = .undecided ∧ second.builder.staging.isNone = true then
            some second.builder.nextObject else second.builder.blob).isSome =
          (if first.builder.mode = .undecided ∧ first.builder.staging.isNone = true then
            some first.builder.nextObject else first.builder.blob).isSome := by
        by_cases undecided : first.builder.mode = .undecided
        · have undecided' := mode.trans undecided
          rw [if_pos ⟨undecided', right undecided'⟩, if_pos ⟨undecided, left undecided⟩]
          rfl
        · have decided' : second.builder.mode ≠ .undecided := by rwa [mode]
          rw [if_neg fun both => decided' both.1, if_neg fun both => undecided both.1, wide]
      have width : second.builder.wideWidth = first.builder.wideWidth := by rw [same]
      rw [mode, width] at enters'
      have entering := builders.enter enters enters' (.same .explicitWide) (by rwa [mode] at blob)
        rows rows'
      have widths : entered'.wideWidth = entered.wideWidth := by
        obtain ⟨_, _, _, _, _, _, _, _, same⟩ := entering.same
        rw [same]
      rcases goes with ⟨short, error, left⟩ | ⟨fits, left⟩
      · rcases goes' with ⟨-, error', right⟩ | ⟨fits, -⟩
        · exact twins.keep_error entering left right
        · exact absurd (fits.trans widths) short
      · rcases goes' with ⟨short, -⟩ | ⟨-, right⟩
        · exact absurd (fits.trans widths.symm) short
        · exact twins.keep_ok (entering.pend address).clear left right

/-- A call through a handle, made on both sides. -/
theorem Twins.after (twins : Twins splits precise first second) {outcome outcome' : Outcome Unit}
    (returns : outcome'.1.isOk = outcome.1.isOk)
    (builders : Builder.Twins splits precise outcome.2 outcome'.2) :
    (second.after outcome').1.isOk = (first.after outcome).1.isOk ∧
      Twins splits precise (first.after outcome).2 (second.after outcome').2 :=
  ⟨returns, builders, twins.handles⟩

theorem Twins.commit (twins : Twins splits precise first second)
    (tracks : Tracks schema options first log) (tracks' : Tracks schema options' second log)
    {rec : RecordRef} (member : rec ∈ first.handles) :
    (second.after (second.builder.commit rec)).1.isOk =
        (first.after (first.builder.commit rec)).1.isOk ∧
      Twins splits precise (first.after (first.builder.commit rec)).2
        (second.after (second.builder.commit rec)).2 := by
  have builders := twins.builders
  have rejects := builders.rejects rec
  have begun' := tracks'.handles rec (twins.handles ▸ member)
  rcases commit_eq tracks.sound tracks.narrow (tracks.handles rec member) with
    ⟨refused, error, left⟩ | ⟨taken, staging, left, commits⟩
  · rcases commit_eq tracks'.sound tracks'.narrow begun' with ⟨-, error', right⟩ | ⟨taken, -⟩
    · rw [left, right]
      exact twins.after rfl builders
    · exact absurd (rejects.mpr refused) taken
  · rcases commit_eq tracks'.sound tracks'.narrow begun' with ⟨refused, -⟩ | ⟨-, staging', right,
      commits'⟩
    · exact absurd (rejects.mp refused) taken
    · rw [left, right]
      exact twins.after rfl (builders.commit commits commits')

/-- One call on both sides: it returns on both or throws on both, and leaves twins. -/
theorem perform_twins (twins : Twins splits precise first second)
    (tracks : Tracks schema options first log) (tracks' : Tracks schema options' second log)
    {call : Call} (builtIn : call.BuiltIn) (notLast : call ≠ .finish)
    (keyed : splits = true → call.Keyed) :
    let call' := call.styled splits options.addressBits
    (second.perform call').1.isOk = (first.perform call).1.isOk ∧
      Twins splits precise (first.perform call).2 (second.perform call').2 := by
  cases call with
  | finish => exact absurd rfl notLast
  | setStaging staging => exact builtIn.elim
  | beginRecord key =>
    rw [← tracks.options]
    exact twins.beginRecord key
  | beginRecordAt partition address =>
    obtain rfl : splits = false := by
      by_contra other
      exact keyed (by simpa using other)
    exact twins.beginRecordAt partition address
  | beginRecordAtBytes partition address =>
    obtain rfl : splits = false := by
      by_contra other
      exact keyed (by simpa using other)
    exact twins.beginRecordAtBytes tracks.sound tracks'.sound partition address
  | set handle id value =>
    simp only [Call.styled, perform, twins.handles]
    cases first.handles[handle]? with
    | none => exact ⟨rfl, twins⟩
    | some rec =>
      obtain ⟨same, builders⟩ := twins.builders.set id value
      exact twins.after (congrArg Except.isOk same) builders
  | commit handle =>
    simp only [Call.styled, perform, twins.handles]
    cases given : first.handles[handle]? with
    | none => exact ⟨rfl, twins⟩
    | some rec => exact twins.commit tracks tracks' (List.mem_of_getElem? given)

/-- The log does not tell the keyed call from the split one. -/
theorem noteResult_styled (log : Log) (handles : List RecordRef) (call : Call) (bits : Nat)
    {result result' : Except BuildError Unit} (same : result'.isOk = result.isOk) :
    log.noteResult handles (call.styled splits bits) result' =
      log.noteResult handles call result := by
  have noted : log.note handles (call.styled splits bits) = log.note handles call := by
    cases call with
    | beginRecord key => cases splits <;> rfl
    | beginRecordAt | beginRecordAtBytes | set | commit | setStaging | finish => rfl
  cases result with
  | ok _ =>
    cases result' with
    | ok _ => exact noted
    | error _ => nomatch same
  | error _ =>
    cases result' with
    | ok _ => nomatch same
    | error _ => rfl

/-- Which of the calls return. -/
def returns (session : Session) : List Call → List Bool
  | [] => []
  | call :: rest => (session.perform call).1.isOk :: (session.perform call).2.returns rest

/-- Runs on both sides return from the same calls, and stay twins in step with one log. -/
theorem run_twins (twins : Twins splits precise first second)
    (tracks : Tracks schema options first log) (tracks' : Tracks schema options' second log)
    {calls : List Call} (builtIn : ∀ call ∈ calls, call.BuiltIn)
    (running : ∀ call ∈ calls, call ≠ .finish)
    (keyed : splits = true → ∀ call ∈ calls, call.Keyed) :
    let calls' := calls.map (·.styled splits options.addressBits)
    second.returns calls' = first.returns calls ∧
      second.logged log calls' = first.logged log calls ∧
      Twins splits precise (first.run calls) (second.run calls') ∧
      Tracks schema options (first.run calls) (first.logged log calls) ∧
      Tracks schema options' (second.run calls') (first.logged log calls) := by
  induction calls generalizing first second log with
  | nil => exact ⟨rfl, rfl, twins, tracks, tracks'⟩
  | cons call rest inductionHypothesis =>
    have here := builtIn call List.mem_cons_self
    have notLast := running call List.mem_cons_self
    obtain ⟨same, twins'⟩ := perform_twins twins tracks tracks' here notLast
      fun splits => keyed splits call List.mem_cons_self
    have noted := @noteResult_styled splits log first.handles call options.addressBits _ _ same
    have step := perform_tracks tracks here notLast
    have builtIn' : (call.styled splits options.addressBits).BuiltIn := by
      cases call with
      | beginRecord key => cases splits <;> trivial
      | beginRecordAt | beginRecordAtBytes | set | commit | setStaging | finish => exact here
    have notLast' : call.styled splits options.addressBits ≠ .finish := by
      cases call with
      | beginRecord key => cases splits <;> exact fun impossible => nomatch impossible
      | beginRecordAt | beginRecordAtBytes | set | commit | setStaging | finish => exact notLast
    have step' := perform_tracks tracks' builtIn' notLast'
    rw [twins.handles, noted] at step'
    obtain ⟨returned, sameLog, later⟩ := inductionHypothesis twins' step step'
      (fun other member => builtIn other (List.mem_cons_of_mem _ member))
      (fun other member => running other (List.mem_cons_of_mem _ member))
      fun splits other member => keyed splits other (List.mem_cons_of_mem _ member)
    refine ⟨?_, ?_, later⟩
    · simp only [List.map_cons, returns]
      rw [same, returned]
    · simp only [List.map_cons, logged]
      rw [twins.handles, noted]
      exact sameLog

theorem start_twins {fresh fresh' : Builder} (made : Builder.make schema options = .ok fresh)
    (made' : Builder.make schema options' = .ok fresh') (order : options'.order = options.order)
    (bits : options'.addressBits = options.addressBits)
    (tables : precise = true → options'.dedupSample = options.dedupSample ∧
      options'.dedupKeeps = options.dedupKeeps) :
    Twins splits precise (start fresh) (start fresh') := by
  obtain ⟨-, -, rfl⟩ := Builder.make_blank made
  obtain ⟨-, -, rfl⟩ := Builder.make_blank made'
  have modes : ModeTwins splits .undecided .undecided := by
    cases splits with
    | false => exact .same .undecided
    | true => exact .undecided
  refine ⟨⟨⟨_, _, _, _, _, _, _, _, rfl⟩, order, bits, modes, rfl, List.Forall₂.nil,
    fun precise => ?_⟩, rfl⟩
  obtain ⟨sample, keeps⟩ := tables precise
  exact ⟨sample, keeps, rfl, rfl, rfl, rfl⟩

/-- A run that is not finished made no call of `finish`. -/
theorem not_finish_of_running {session : Session} {calls : List Call}
    (builtIn : ∀ call ∈ calls, call.BuiltIn)
    (running : (session.run calls).builder.finished = false) : ∀ call ∈ calls, call ≠ .finish := by
  have stays {session : Session} {calls : List Call} (builtIn : ∀ call ∈ calls, call.BuiltIn)
      (finished : session.builder.finished = true) :
      (session.run calls).builder.finished = true := by
    induction calls generalizing session with
    | nil => exact finished
    | cons call rest inductionHypothesis =>
      exact inductionHypothesis (fun other member => builtIn other (List.mem_cons_of_mem _ member))
        (perform_finished finished (builtIn call List.mem_cons_self))
  induction calls generalizing session with
  | nil => exact fun call member => nomatch member
  | cons call rest inductionHypothesis =>
    have later : ∀ other ∈ rest, other.BuiltIn := fun other member =>
      builtIn other (List.mem_cons_of_mem _ member)
    rintro other (_ | ⟨_, member⟩)
    · rintro rfl
      have finished := stays later (show (session.perform .finish).2.builder.finished = true from
        finish_finished _)
      rw [show (session.perform .finish).2.run rest = session.run (.finish :: rest) from rfl,
        running] at finished
      nomatch finished
    · exact inductionHypothesis later running other member

end Session

/-! ### Builds -/

/-- Two builds of the same data, each to be finished next. -/
structure Build.Twins (splits precise : Bool) (build second : Build) : Prop where
  schema : second.schema = build.schema
  order : second.options.order = build.options.order
  addressBits : second.options.addressBits = build.options.addressBits
  tables : precise = true → second.options.dedupSample = build.options.dedupSample ∧
    second.options.dedupKeeps = build.options.dedupKeeps
  keyed : splits = true → ∀ call ∈ build.calls, call.Keyed
  calls : second.calls = build.calls.map (·.styled splits build.options.addressBits)
  open_ : ∀ call ∈ build.calls, call ≠ .finish

/-- Calls that are not split are the calls. -/
theorem map_styled_false (calls : List Call) (bits : Nat) :
    calls.map (·.styled false bits) = calls := by
  conv_rhs => rw [← List.map_id calls]
  refine List.map_congr_left fun call _ => ?_
  cases call <;> rfl

namespace Build.Twins

variable {splits precise : Bool} {build second : Build}

/-- Twin builds return from the same calls, keep one log, and end in twin builders. -/
theorem run (twins : Twins splits precise build second) :
    (Session.start second.fresh).returns second.calls =
        (Session.start build.fresh).returns build.calls ∧
      second.log = build.log ∧ Session.Twins splits precise build.session second.session ∧
      Session.Tracks build.schema build.options build.session build.log ∧
      Session.Tracks build.schema second.options second.session build.log := by
  have made := second.made
  rw [twins.schema] at made
  have start := @Session.start_twins splits precise _ _ _ _ _ build.made made twins.order
    twins.addressBits twins.tables
  have tracks := Session.start_tracks build.made
  have tracks' := Session.start_tracks made
  unfold Build.log Build.session
  rw [twins.calls]
  exact Session.run_twins start tracks tracks' build.builtIn twins.open_ twins.keyed

end Build.Twins

end Mmpack
