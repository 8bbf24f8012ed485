/-
This file embeds `keyed.hpp`: the wrappers that hold the caller's split of a key, and the
join that puts one back together. A key may be of any type. What the split returns
decides between the overloads, so a split is into integers or into bytes, once and for
all keys.

A build through the wrapper is the build of the split keys, and its caller's ledger is
the ledger of that build read back through the split.
-/

import Mmpack.Caught

namespace Mmpack

open ByteList Checked Cursor SortedMap

variable {Key : Type}

/-! ### Splits and joins -/

/-- How a caller splits a key: into a partition, and an address of one of the two forms. -/
inductive Split (Key : Type)
  | integers (parts : Key → UInt64 × UInt64)
  | bytes (parts : Key → UInt64 × List UInt8)

/-- How a caller joins one, from the form of address it accepts. -/
inductive Join (Key : Type)
  | integers (join : UInt64 → UInt64 → Key)
  | bytes (join : UInt64 → List UInt8 → Key)

/-- What a lookup is given. -/
def Split.target (split : Split Key) (key : Key) : Target :=
  match split with
  | .integers parts => .integer (parts key).1 (parts key).2
  | .bytes parts => .bytes (parts key).1 (parts key).2

/-! ### Tables -/

/-- `keyed_table`, without its join. -/
structure KeyedTable (Key : Type) where
  table : Table
  split : Split Key

namespace KeyedTable

variable (keyed : KeyedTable Key)

/-- A lookup by key, which forwards to the form for split keys. -/
def lookup (lookup : Lookup) (key : Key) : Read Position :=
  keyed.table.lookup lookup (keyed.split.target key)

def find : Key → Read Position := keyed.lookup .find
def lowerBound : Key → Read Position := keyed.lookup .lowerBound
def upperBound : Key → Read Position := keyed.lookup .upperBound
def floor : Key → Read Position := keyed.lookup .floor
def ceil : Key → Read Position := keyed.lookup .ceil

def contains (key : Key) : Read Bool := do
  return decide ((← keyed.find key) ≠ keyed.table.end)

/-- `key()`, for a wrapper with a join. It is `none` where `value()` throws: an integer is asked
for and the image has none. -/
def key (join : Join Key) (it : Position) : Read (Option Key) :=
  match join with
  | .integers join => do
    let partition ← keyed.table.partition it
    match ← keyed.table.address it with
    | none => return none
    | some address => return some (join (UInt64.ofNat partition) (UInt64.ofNat address))
  | .bytes join => do
    let buffer := List.replicate keyed.table.addressWidth 0
    let full ← keyed.table.addressInto it buffer
    let partition ← keyed.table.partition it
    return some (join (UInt64.ofNat partition) (full.getD buffer))

end KeyedTable

/-! ### Builders -/

structure KeyedBuilder (Key : Type) where
  builder : Builder
  split : Split Key

namespace KeyedBuilder

def beginRecord (keyed : KeyedBuilder Key) (key : Key) : Outcome RecordRef :=
  match keyed.split with
  | .integers parts => keyed.builder.beginRecordAt (parts key).1 (parts key).2
  | .bytes parts => keyed.builder.beginRecordAtBytes (parts key).1 (parts key).2

def commit (keyed : KeyedBuilder Key) (rec : RecordRef) : Outcome Unit := keyed.builder.commit rec

end KeyedBuilder

/-- A call on a keyed builder, or on a handle it has given out. -/
inductive KeyedCall (Key : Type)
  | beginRecord (key : Key)
  | set (handle id : Nat) (value : Builder.FieldValue)
  | commit (handle : Nat)

/-- The call it makes on the builder underneath. -/
def Split.call (split : Split Key) : KeyedCall Key → Call
  | .beginRecord key =>
    match split with
    | .integers parts => .beginRecordAt (parts key).1 (parts key).2
    | .bytes parts => .beginRecordAtBytes (parts key).1 (parts key).2
  | .set handle id value => .set handle id value
  | .commit handle => .commit handle

theorem Split.call_builtIn (split : Split Key) (call : KeyedCall Key) :
    (split.call call).BuiltIn := by
  cases call with
  | beginRecord key => cases split <;> trivial
  | set handle id value => trivial
  | commit handle => trivial

/-- One call on a keyed builder. -/
def Session.performKeyed (session : Session) (split : Split Key) :
    KeyedCall Key → Except BuildError Unit × Session
  | .beginRecord key =>
    session.keep ((KeyedBuilder.mk session.builder split).beginRecord key)
  | .set handle id value => session.perform (.set handle id value)
  | .commit handle =>
    match session.handles[handle]? with
    | some rec => session.after ((KeyedBuilder.mk session.builder split).commit rec)
    | none => (.ok (), session)

theorem Session.performKeyed_eq (session : Session) (split : Split Key) (call : KeyedCall Key) :
    session.performKeyed split call = session.perform (split.call call) := by
  cases call with
  | beginRecord key => cases split <;> rfl
  | set handle id value => rfl
  | commit handle => rfl

/-! ### The caller's ledger -/

/-- A record as the caller of a keyed builder knows it. -/
structure KeyedRecord (Key : Type) where
  key : Key
  sets : List (Nat × Builder.FieldValue)

/-- The same record, its key split. -/
def Split.entry (split : Split Key) (record : KeyedRecord Key) : Committed :=
  match split with
  | .integers parts =>
    { partition := (parts record.key).1, address := (parts record.key).2, addressBytes := []
      sets := record.sets }
  | .bytes parts =>
    { partition := (parts record.key).1, address := 0, addressBytes := (parts record.key).2
      sets := record.sets }

/-- The drafts after a call that returned. -/
def noteKeyed (drafts : List (KeyedRecord Key)) : KeyedCall Key → List (KeyedRecord Key)
  | .beginRecord key => drafts ++ [{ key, sets := [] }]
  | .set handle id value =>
    drafts.modify handle fun draft => { draft with sets := draft.sets ++ [(id, value)] }
  | .commit _ => drafts

/-- The record a call that returned commits. -/
def bookKeyed (drafts : List (KeyedRecord Key)) : KeyedCall Key → List (KeyedRecord Key)
  | .commit handle => drafts[handle]?.toList
  | _ => []

/-- The records of the commits that return, each under its key. -/
def Session.keyedLedger (session : Session) (split : Split Key)
    (drafts : List (KeyedRecord Key)) : List (KeyedCall Key) → List (KeyedRecord Key)
  | [] => []
  | call :: rest =>
    match session.performKeyed split call with
    | (.ok _, next) => bookKeyed drafts call ++ next.keyedLedger split (noteKeyed drafts call) rest
    | (.error _, next) => next.keyedLedger split drafts rest

section Ledgers

variable {session : Session} {split : Split Key} {drafts : List (KeyedRecord Key)}

theorem noteKeyed_entries (call : KeyedCall Key) :
    (noteKeyed drafts call).map split.entry =
      session.noteDraft (drafts.map split.entry) (split.call call) := by
  cases call with
  | beginRecord key => cases split <;> exact List.map_append
  | set handle id value =>
    refine List.ext_getElem? fun index => ?_
    simp only [noteKeyed, Session.noteDraft, Split.call, List.getElem?_map, List.getElem?_modify]
    cases drafts[index]? with
    | none => rfl
    | some draft =>
      simp only [Option.map_some]
      split <;> cases split <;> rfl
  | commit handle => rfl

theorem bookKeyed_entries (call : KeyedCall Key) {returned : Unit}
    (outcome : (session.perform (split.call call)).1 = .ok returned) :
    session.booked (drafts.map split.entry) (split.call call) =
      (bookKeyed drafts call).map split.entry := by
  unfold Session.booked
  rw [outcome]
  cases call with
  | beginRecord key => cases split <;> rfl
  | set handle id value => rfl
  | commit handle =>
    show ((drafts.map split.entry)[handle]?).toList = (drafts[handle]?.toList).map split.entry
    rw [List.getElem?_map]
    cases drafts[handle]? <;> rfl

theorem booked_of_thrown {call : Call} {drafts : List Committed} {error : BuildError}
    (thrown : (session.perform call).1 = .error error) : session.booked drafts call = [] := by
  unfold Session.booked
  rw [thrown]
  cases call <;> rfl

/-- The ledger of a keyed builder is that of the builder underneath, read through the split. -/
theorem Session.keyedLedger_entries (calls : List (KeyedCall Key)) :
    (session.keyedLedger split drafts calls).map split.entry =
      session.ledger (drafts.map split.entry) (calls.map split.call) := by
  induction calls generalizing session drafts with
  | nil => rfl
  | cons call rest inductionHypothesis =>
    rw [List.map_cons, keyedLedger, ledger, performKeyed_eq, drafted]
    cases outcome : session.perform (split.call call) with
    | mk result next =>
      cases result with
      | error error =>
        rw [booked_of_thrown (congrArg Prod.fst outcome), List.nil_append]
        exact inductionHypothesis
      | ok returned =>
        simp only
        rw [List.map_append, bookKeyed_entries call (congrArg Prod.fst outcome),
          inductionHypothesis, @noteKeyed_entries _ session]

end Ledgers

end Mmpack
