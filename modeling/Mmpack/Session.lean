/-
This file says how a builder is driven. A session is a builder with the handles
it has given out, and its calls may come in any order; a call that throws leaves
the session where it is and the next one goes on.

The log is the caller's side: what was begun, set and committed, told from the
calls and from which of them returned. What an image must contain is stated
against the log.
-/

import Mmpack.Writer
import Mathlib.Data.Prod.Lex

namespace Mmpack

open ByteList

/-! ### Sessions -/

/-- A call on a builder. A handle is named by the order it was given out in. -/
inductive Call
  | beginRecord (key : UInt64)
  | beginRecordAt (partition address : UInt64)
  | beginRecordAtBytes (partition : UInt64) (address : List UInt8)
  | set (handle id : Nat) (value : Builder.FieldValue)
  | commit (handle : Nat)
  | setStaging (staging : Staging)
  | finish

/-- The calls that leave the built-in staging in place. -/
def Call.BuiltIn : Call → Prop
  | .setStaging _ => False
  | _ => True

instance : DecidablePred Call.BuiltIn := fun call => by
  cases call <;> unfold Call.BuiltIn <;> infer_instance

structure Session where
  builder : Builder
  handles : List RecordRef

namespace Session

def start (builder : Builder) : Session where
  builder := builder
  handles := []

/-- Keep the handle of a record that was begun. -/
def keep (session : Session) (outcome : Outcome RecordRef) : Except BuildError Unit × Session :=
  match outcome with
  | (.ok rec, builder) => (.ok (), { builder, handles := session.handles ++ [rec] })
  | (.error error, builder) => (.error error, { session with builder })

/-- Go on with the builder a call left behind. -/
def after (session : Session) (outcome : Outcome Unit) : Except BuildError Unit × Session :=
  (outcome.1, { session with builder := outcome.2 })

/-- One call. Nothing happens through a handle that was never given out. -/
def perform (session : Session) : Call → Except BuildError Unit × Session
  | .beginRecord key => session.keep (session.builder.beginRecord key)
  | .beginRecordAt partition address =>
    session.keep (session.builder.beginRecordAt partition address)
  | .beginRecordAtBytes partition address =>
    session.keep (session.builder.beginRecordAtBytes partition address)
  | .set handle id value =>
    match session.handles[handle]? with
    | some _ => session.after (session.builder.set id value)
    | none => (.ok (), session)
  | .commit handle =>
    match session.handles[handle]? with
    | some rec => session.after (session.builder.commit rec)
    | none => (.ok (), session)
  | .setStaging staging => session.after (session.builder.setStaging staging)
  | .finish =>
    let finished := finish session.builder
    (finished.outcome.map fun _ => (), { session with builder := finished.builder })

/-- The calls of a session, in order. What they throw is caught. -/
def run (session : Session) (calls : List Call) : Session :=
  calls.foldl (fun session call => (session.perform call).2) session

end Session

/-! ### The caller's log -/

/-- A record as the caller committed it: the two parts of its key, and the setter calls made
since it was begun. -/
structure Committed where
  partition : UInt64
  address : UInt64
  /-- Empty where the address is an integer. -/
  addressBytes : List UInt8
  sets : List (Nat × Builder.FieldValue)
  deriving DecidableEq, Repr

/-- Where a record stands in an image: its partition, then its address as a number. The bytes of a
wide address are a big-endian one, and one of the two addresses is always zero. -/
def Committed.place (entry : Committed) : ℕ ×ₗ ℕ :=
  toLex (entry.partition.toNat, entry.address.toNat + beNat entry.addressBytes)

/-- What a caller knows who notes every call that returns. -/
structure Log where
  /-- The address bytes of the record begun last. A wide record is committed under them. -/
  pending : List UInt8
  /-- The setter calls since a record was begun last. -/
  sets : List (Nat × Builder.FieldValue)
  /-- All setter calls, those of records never committed too. -/
  observed : List (Nat × Builder.FieldValue)
  committed : List Committed
  deriving DecidableEq, Repr

namespace Log

def empty : Log where
  pending := []
  sets := []
  observed := []
  committed := []

/-- The committed records in the order of an image. -/
def sorted (log : Log) : List Committed :=
  log.committed.insertionSort fun first second => first.place ≤ second.place

/-- Note a call that returned. -/
def note (log : Log) (handles : List RecordRef) : Call → Log
  | .beginRecord _ | .beginRecordAt _ _ => { log with pending := [], sets := [] }
  | .beginRecordAtBytes _ address => { log with pending := address, sets := [] }
  | .set handle id value =>
    match handles[handle]? with
    | some _ => { log with
        sets := log.sets ++ [(id, value)]
        observed := log.observed ++ [(id, value)] }
    | none => log
  | .commit handle =>
    match handles[handle]? with
    | some rec => { log with
        committed := log.committed ++
          [{ partition := rec.partition, address := rec.address
             addressBytes := log.pending, sets := log.sets }] }
    | none => log
  | .setStaging _ | .finish => log

/-- Note a call if it returned. -/
def noteResult (log : Log) (handles : List RecordRef) (call : Call) :
    Except BuildError Unit → Log
  | .ok _ => log.note handles call
  | .error _ => log

end Log

/-- The log of the calls of a session. -/
def Session.logged (session : Session) (log : Log) : List Call → Log
  | [] => log
  | call :: rest =>
    (session.perform call).2.logged
      (log.noteResult session.handles call (session.perform call).1) rest

/-- The last value set for a field. -/
def lastSet (sets : List (Nat × Builder.FieldValue)) (id : Nat) : Option Builder.FieldValue :=
  (sets.reverse.find? (·.1 = id)).map (·.2)

/-! ### Builds -/

/-- A builder made from a schema and driven through some calls, the built-in staging left in
place. -/
structure Build where
  schema : SchemaBuilder
  options : BuildOptions
  calls : List Call
  /-- A machine makes fewer calls than a 64-bit counter has values. -/
  few : calls.length < 2 ^ 64
  fresh : Builder
  made : Builder.make schema options = .ok fresh
  builtIn : ∀ call ∈ calls, call.BuiltIn

namespace Build

/-- The build of some calls, where the constructor does not throw. -/
def of (schema : SchemaBuilder) (options : BuildOptions) (calls : List Call)
    (fields : schema.fields ≠ []) (bits : options.addressBits ≤ 64)
    (few : calls.length < 2 ^ 64) (builtIn : ∀ call ∈ calls, call.BuiltIn) : Build :=
  match made : Builder.make schema options with
  | .ok fresh => { schema, options, calls, few, fresh, made, builtIn }
  | .error error => absurd made (by
      rw [Builder.make, if_neg fields, if_neg (Nat.not_lt.mpr bits)]
      exact fun other => nomatch other)

theorem of_spec {schema : SchemaBuilder} {options : BuildOptions} {calls : List Call}
    (fields : schema.fields ≠ []) (bits : options.addressBits ≤ 64)
    (few : calls.length < 2 ^ 64) (builtIn : ∀ call ∈ calls, call.BuiltIn) :
    (of schema options calls fields bits few builtIn).schema = schema ∧
      (of schema options calls fields bits few builtIn).options = options ∧
      (of schema options calls fields bits few builtIn).calls = calls := by
  unfold of
  split
  · exact ⟨rfl, rfl, rfl⟩
  · rename_i error thrown
    rw [Builder.make, if_neg fields, if_neg (Nat.not_lt.mpr bits)] at thrown
    nomatch thrown

/-- The session after the calls. -/
def session (build : Build) : Session := (Session.start build.fresh).run build.calls

def log (build : Build) : Log := (Session.start build.fresh).logged .empty build.calls

/-- What `finish` does after the calls. -/
def finished (build : Build) : Finish := finish build.session.builder

theorem exists_report (build : Build) (returns : build.finished.outcome.isOk = true) :
    ∃ report, build.finished.outcome = .ok report := by
  cases outcome : build.finished.outcome with
  | ok report => exact ⟨report, rfl⟩
  | error error =>
    rw [outcome] at returns
    nomatch returns

end Build

end Mmpack
