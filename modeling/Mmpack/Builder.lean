/-
This file embeds the consuming half of `table_builder`: beginning a record,
setting its fields, and committing it.

A call may throw after it has changed the builder, so its outcome carries both
the result or the error and the builder it leaves behind. The staging the builder
owns is an object with an identity, since the builder also keeps a plain pointer to
it in wide mode.
-/

import Mmpack.Schema
import Mmpack.Dictionary
import Mmpack.Staging

namespace Mmpack

open ByteList

/-! ### Options -/

inductive InterningPolicy
  | automatic
  | always
  | never
  deriving DecidableEq, Repr

inductive InputOrder
  | assumeSorted
  | sortIfNeeded
  deriving DecidableEq, Repr

/-- `build_options`. The comparison of doubles that decides when deduplication is abandoned is a
parameter: `dedupKeeps distinct seen` is `distinct / seen <= dedup_give_up_ratio`. -/
structure BuildOptions where
  addressBits : Nat
  valueInterning : InterningPolicy
  order : InputOrder
  partitionRemap : Bool
  partitionAddressWidth : Bool
  alignFields : Bool
  dedupSample : UInt64
  dedupKeeps : Nat → Nat → Bool
  maxDenseSlots : UInt64

/-- The defaults, for which the ratio is nine tenths. -/
def BuildOptions.default : BuildOptions where
  addressBits := 32
  valueInterning := .automatic
  order := .assumeSorted
  partitionRemap := true
  partitionAddressWidth := true
  alignFields := false
  dedupSample := 0x100000
  dedupKeeps := fun distinct seen => distinct * 10 ≤ seen * 9
  maxDenseSlots := 0x100000

theorem BuildOptions.default_addressBits : BuildOptions.default.addressBits ≤ 64 := by decide

/-! ### The builder -/

/-- Which key world a build is in, fixed by its first record. -/
inductive KeyMode
  | undecided
  | keyed
  | explicit
  | explicitWide
  deriving DecidableEq, Repr

/-- `record_ref`: a handle on the scratch slots of its builder. -/
structure RecordRef where
  partition : UInt64
  address : UInt64
  deriving DecidableEq, Repr

structure FieldStats where
  min : UInt64
  max : UInt64
  seen : Bool
  deriving DecidableEq, Repr

def FieldStats.empty : FieldStats where
  min := 0xffffffffffffffff
  max := 0
  seen := false

def FieldStats.observe (stats : FieldStats) (kind : FieldKind) (raw : UInt64) : FieldStats :=
  if stats.seen = false then { min := raw, max := raw, seen := true }
  else if kind = .sint then
    -- Compared in signed space, so that the range, and with it the width, is right.
    { stats with
      min := if raw.toInt64 < stats.min.toInt64 then raw else stats.min
      max := if stats.max.toInt64 < raw.toInt64 then raw else stats.max }
  else
    { stats with
      min := if raw < stats.min then raw else stats.min
      max := if stats.max < raw then raw else stats.max }

/-- A staging object and its identity. -/
structure StagingObject where
  id : Nat
  staging : Staging

structure Builder where
  schema : SchemaBuilder
  options : BuildOptions
  staging : Option StagingObject
  /-- Scratch for the record being built. -/
  slots : List UInt64
  /-- The table of tuples, in id order. -/
  tuples : List (List UInt64)
  stats : List FieldStats
  textDicts : List BlobDictionaryBuilder
  /-- The ids the hash index holds. -/
  index : List Nat
  count : Nat
  lastPartition : UInt64
  lastAddress : UInt64
  mode : KeyMode
  /-- The object `blob_` points to. -/
  blob : Option Nat
  wideWidth : Nat
  pendingAddress : List UInt8
  lastWide : List UInt8
  dedupActive : Bool
  finished : Bool
  /-- The identity of the next staging object. -/
  nextObject : Nat

/-- What a call leaves behind: its result or what it threw, and the builder. -/
abbrev Outcome (Result : Type) := Except BuildError Result × Builder

namespace Builder

variable {Result Next : Type}

/-- Go on after a call, unless it threw. -/
def andThen (outcome : Outcome Result) (next : Result → Builder → Outcome Next) : Outcome Next :=
  match outcome with
  | (.ok result, builder) => next result builder
  | (.error error, builder) => (.error error, builder)

def make (schema : SchemaBuilder) (options : BuildOptions) : Except BuildError Builder :=
  if schema.fields = [] then .error .schemaHasNoFields
  else if 64 < options.addressBits then .error .addressBitsTooLarge
  else .ok
    { schema
      options
      staging := none
      slots := List.replicate schema.fields.length 0
      tuples := []
      stats := List.replicate schema.fields.length .empty
      textDicts := (schema.fields.filter (·.kind = .text)).map fun _ => .empty
      index := []
      count := 0
      lastPartition := 0
      lastAddress := 0
      mode := .undecided
      blob := none
      wideWidth := 0
      pendingAddress := []
      lastWide := []
      dedupActive := true
      finished := false
      nextObject := 0 }

/-- Take ownership of a staging. The one owned before is destroyed. -/
def own (builder : Builder) (staging : Staging) : Builder :=
  { builder with
    staging := some { id := builder.nextObject, staging }
    nextObject := builder.nextObject + 1 }

def setStaging (builder : Builder) (staging : Staging) : Outcome Unit :=
  match builder.staging with
  | some owned =>
    if owned.staging.size ≠ 0 then (.error .stagingAfterFirstRecord, builder)
    else (.ok (), builder.own staging)
  | none => (.ok (), builder.own staging)

/-! ### Key modes -/

def makeStaging (options : BuildOptions) (wanted : KeyMode) : Staging :=
  if wanted = .explicit then .wide { rows := [], sorted := true }
  else .memory { addressBits := options.addressBits, rows := [], sorted := true }

/-- Make a staging unless there is one. -/
def ensureStaging (builder : Builder) (wanted : KeyMode) : Builder :=
  match builder.staging with
  | some _ => builder
  | none => builder.own (makeStaging builder.options wanted)

def enterMode (builder : Builder) (wanted : KeyMode) : Outcome Unit :=
  if builder.finished then (.error .recordsAfterFinish, builder)
  else if builder.mode = .undecided then
    (.ok (), { builder with mode := wanted }.ensureStaging wanted)
  else if builder.mode ≠ wanted then (.error .mixedKeyModes, builder)
  else (.ok (), builder)

def enterWideMode (builder : Builder) (width : Nat) : Outcome Unit :=
  if builder.finished then (.error .recordsAfterFinish, builder)
  else if builder.mode = .undecided then
    let entered := { builder with mode := .explicitWide, wideWidth := width }
    match builder.staging with
    | some _ => (.ok (), entered)
    | none =>
      (.ok (), { entered.own (.blob { width, rows := [], sorted := true }) with
        blob := some builder.nextObject })
  else if builder.mode ≠ .explicitWide then (.error .mixedKeyModes, builder)
  else (.ok (), builder)

/-! ### Beginning a record -/

def clearSlots (builder : Builder) : Builder :=
  { builder with slots := builder.slots.map fun _ => 0 }

def beginRecord (builder : Builder) (key : UInt64) : Outcome RecordRef :=
  andThen (builder.enterMode .keyed) fun _ builder =>
    (.ok { partition := partitionOf builder.options.addressBits key
           address := addressOf builder.options.addressBits key },
      builder.clearSlots)

def beginRecordAt (builder : Builder) (partition address : UInt64) : Outcome RecordRef :=
  andThen (builder.enterMode .explicit) fun _ builder =>
    (.ok { partition, address }, builder.clearSlots)

/-- The width of the address is cast to 32 bits on entering the mode. -/
def beginRecordAtBytes (builder : Builder) (partition : UInt64) (address : List UInt8) :
    Outcome RecordRef :=
  if address = [] then (.error .emptyWideAddress, builder)
  else
    andThen (builder.enterWideMode (address.length % 2 ^ 32)) fun _ builder =>
      if address.length ≠ builder.wideWidth then
        (.error (.addressWidthMismatch address.length builder.wideWidth), builder)
      else
        (.ok { partition, address := 0 },
          { builder with pendingAddress := address }.clearSlots)

/-! ### Setting fields -/

/-- The value given to a setter. A float is its bit pattern. -/
inductive FieldValue
  | uint (value : UInt64)
  | sint (value : Int64)
  | f32 (bits : UInt32)
  | f64 (bits : UInt64)
  | text (value : List UInt8)
  | bytes (value : List UInt8)
  deriving DecidableEq, Repr

def setSlot (builder : Builder) (id : Nat) (raw : UInt64) : Builder :=
  { builder with slots := builder.slots.set id raw }

/-- `observe`: widen the range of a field. -/
def observe (builder : Builder) (id : Nat) (kind : FieldKind) (raw : UInt64) : Builder :=
  { builder with stats := builder.stats.modify id (·.observe kind raw) }

/-- A setter's checks on the field: its id, then its kind. -/
def withField (builder : Builder) (id : Nat) (kind : FieldKind)
    (wrongKind : List UInt8 → BuildError) (set : FieldDecl → Outcome Unit) : Outcome Unit :=
  match builder.schema.fields[id]? with
  | none => (.error .fieldIdOutOfRange, builder)
  | some decl =>
    if decl.kind ≠ kind then (.error (wrongKind decl.name), builder) else set decl

def setUint (builder : Builder) (id : Nat) (v : UInt64) : Outcome Unit :=
  builder.withField id .uint .notUintField fun _ =>
    (.ok (), (builder.setSlot id v).observe id .uint v)

def setSint (builder : Builder) (id : Nat) (v : Int64) : Outcome Unit :=
  builder.withField id .sint .notSintField fun _ =>
    (.ok (), (builder.setSlot id v.toUInt64).observe id .sint v.toUInt64)

def setF32 (builder : Builder) (id : Nat) (bits : UInt32) : Outcome Unit :=
  builder.withField id .f32 .notF32Field fun _ => (.ok (), builder.setSlot id bits.toUInt64)

def setF64 (builder : Builder) (id : Nat) (bits : UInt64) : Outcome Unit :=
  builder.withField id .f64 .notF64Field fun _ => (.ok (), builder.setSlot id bits)

/-- The place of a text field among the text fields. -/
def textSlot (schema : SchemaBuilder) (id : Nat) : Nat :=
  (schema.fields.take id).countP (·.kind = .text)

def setText (builder : Builder) (id : Nat) (v : List UInt8) : Outcome Unit :=
  builder.withField id .text .notTextField fun _ =>
    match (builder.textDicts.getD (textSlot builder.schema id) .empty).intern v with
    | .error error => (.error error, builder)
    | .ok (dict, entry) =>
      (.ok (), { builder with
        textDicts := builder.textDicts.set (textSlot builder.schema id) dict }.setSlot id
          (UInt64.ofNat entry))

def setBytes (builder : Builder) (id : Nat) (v : List UInt8) : Outcome Unit :=
  builder.withField id .bytes .notBytesField fun decl =>
    if v.length ≠ decl.fixedWidth then (.error (.bytesFieldSize decl.name decl.fixedWidth), builder)
    else (.ok (), builder.setSlot id (UInt64.ofNat (leNat v)))

def set (builder : Builder) (id : Nat) : FieldValue → Outcome Unit
  | .uint value => builder.setUint id value
  | .sint value => builder.setSint id value
  | .f32 bits => builder.setF32 id bits
  | .f64 bits => builder.setF64 id bits
  | .text value => builder.setText id value
  | .bytes value => builder.setBytes id value

/-! ### Committing -/

/-- `maybe_give_up_on_dedup`. -/
def maybeGiveUpOnDedup (builder : Builder) : Builder :=
  if builder.count + 1 < builder.options.dedupSample.toNat then builder
  else if builder.options.dedupKeeps builder.tuples.length (builder.count + 1) then builder
  else { builder with dedupActive := false, index := [] }

/-- Append the scratch slots as a tuple, collapsing onto an existing one while dedup is
active. -/
def internTuple (builder : Builder) : Nat × Builder :=
  let candidate := builder.tuples.length
  if builder.dedupActive then
    match builder.index.find? fun id => decide (builder.tuples[id]? = some builder.slots) with
    | some id => (id, builder)
    | none =>
      (candidate, { builder with
        tuples := builder.tuples ++ [builder.slots]
        index := builder.index ++ [candidate] }.maybeGiveUpOnDedup)
  else
    (candidate, { builder with tuples := builder.tuples ++ [builder.slots] })

/-- Whether a record comes after the last one committed. -/
def increasing (builder : Builder) (rec : RecordRef) : Bool :=
  decide (builder.lastPartition < rec.partition) ||
    (decide (builder.lastPartition = rec.partition) &&
      if builder.blob.isSome then
        decide (memcmp (builder.lastWide.take builder.wideWidth)
          (builder.pendingAddress.take builder.wideWidth) < 0)
      else decide (builder.lastAddress < rec.address))

/-- Push to the object `blob_` points to, if it is still there. -/
def pushWide (builder : Builder) (target : Nat) (partition : UInt64) (tuple : Nat) :
    Outcome Unit :=
  match builder.staging with
  | some { id, staging := .blob staging } =>
    if id ≠ target then (.error .danglingStaging, builder)
    else
      match staging.pushBytes partition builder.pendingAddress tuple with
      | .error error => (.error error, builder)
      | .ok staging =>
        (.ok (), { builder with
          staging := some { id, staging := .blob staging }
          lastWide := builder.pendingAddress })
  | _ => (.error .danglingStaging, builder)

def pushNarrow (builder : Builder) (rec : RecordRef) (tuple : Nat) : Outcome Unit :=
  match builder.staging with
  | some { id, staging } =>
    match staging.push rec.partition rec.address tuple with
    | .error error => (.error error, builder)
    | .ok staging => (.ok (), { builder with staging := some { id, staging } })
  | none => (.error .danglingStaging, builder)

/-- Push to the staging the build is in. -/
def stage (builder : Builder) (rec : RecordRef) (tuple : Nat) : Outcome Unit :=
  match builder.blob with
  | some target => builder.pushWide target rec.partition tuple
  | none => builder.pushNarrow rec tuple

def commit (builder : Builder) (rec : RecordRef) : Outcome Unit :=
  if builder.finished then (.error .commitAfterFinish, builder)
  else if builder.options.order = .assumeSorted ∧ builder.count ≠ 0 ∧
      builder.increasing rec = false then
    (.error (.notIncreasing rec.partition.toNat), builder)
  else
    let (tuple, builder) := builder.internTuple
    andThen (builder.stage rec tuple) fun _ builder =>
      (.ok (), { builder with
        lastPartition := rec.partition
        lastAddress := rec.address
        count := builder.count + 1 })

end Builder

end Mmpack
