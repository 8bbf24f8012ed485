/-
This file embeds what `table.hpp` reads through an iterator: the partition, the
address and the key of an element, and the values of its fields.

A float is its bit pattern and a string the bytes it spans.
-/

import Mmpack.Search

namespace Mmpack

open ByteList Checked Cursor

namespace Table

variable (table : Table)

/-! ### Addresses -/

/-- The address as an integer: the stored stretch, shifted back up. -/
def addressOfRecord (s i : Nat) : Read Nat := do
  let p ← table.layoutOf s
  let stored ← loadAddress table.region (p.records + i * p.stride) p.addressWidth
  return if 8 ≤ p.addressSkip then 0 else stored <<< (8 * p.addressSkip) % 2 ^ 64

def partition (it : Position) : Read Nat := table.slotPartition it.slot

def address (it : Position) : Read (Option Nat) := do
  if table.narrowAddress = false then return none
  return some (← table.addressOfRecord it.slot it.index)

def addressBytes (it : Position) : Read (List UInt8) := do
  let p ← table.layoutOf it.slot
  readBytes table.region (p.records + it.index * p.stride) p.addressWidth

def addressSkip (it : Position) : Read Nat := do
  return (← table.layoutOf it.slot).addressSkip

/-- The buffer after `address_into`, or `none` when its size is not the address width, where the
call returns false and leaves the buffer alone. A copy past the end of the buffer is a fault. -/
def addressInto (it : Position) (out : List UInt8) : Read (Option (List UInt8)) := do
  if out.length ≠ table.addressWidth then return none
  let p ← table.layoutOf it.slot
  let stored ← readBytes table.region (p.records + it.index * p.stride) p.addressWidth
  if out.length < p.addressSkip + p.addressWidth then throw .outOfBounds
  return some (overwrite (List.replicate out.length 0) p.addressSkip stored)

def keyOfRecord (s i : Nat) : Read Nat := do
  let bits := table.schema.addressBits
  let partition ← table.slotPartition s
  let address ← table.addressOfRecord s i
  return if 64 ≤ bits then address else partition <<< bits % 2 ^ 64 ||| address

def key (it : Position) : Read (Option Nat) := do
  if table.hasKeyMapping = false then return none
  return some (← table.keyOfRecord it.slot it.index)

/-! ### Fields -/

/-- `table::field`: the id of a name. -/
def field (name : List UInt8) : Read (Option Nat) := table.schema.find table.region name

/-- The reference of a record into the composite dictionary, through the partition's own table
when there is one. A local reference past that table is `none`. -/
def reference (p : PartitionLayout) (record : Nat) : Read (Option Nat) := do
  let ref ← loadUint table.region (record + p.addressWidth) p.refWidth
  if p.remapped then
    if p.remapCount ≤ ref then return none
    match p.remap with
    | none => throw .outOfBounds
    | some remap => return some (← load table.region (remap + ref * 4) 4)
  else
    return some ref

/-- Base of the value tuple of an element, or `none` for a null pointer. -/
def valueBase (it : Position) : Read (Option Nat) := do
  if table.dirCount ≤ it.slot then return none
  let p ← table.layoutOf it.slot
  let r := p.records + it.index * p.stride
  if table.interned = false then return some (r + p.addressWidth)
  match ← table.reference p r with
  | none => return none
  | some ref => return table.valueDict.element ref

def readScalar (it : Position) (id : Nat) (expected : FieldKind) : Read (Option UInt64) := do
  if table.schema.fieldCount ≤ id then return none
  let d ← table.schema.field table.region id
  if d.kind ≠ expected.code then return none
  match ← table.valueBase it with
  | none => return none
  | some base =>
    let stored ← loadUint table.region (base + d.offset) d.width
    return some (UInt64.ofNat (stored + d.bias))

def uint (it : Position) (id : Nat) : Read (Option UInt64) := table.readScalar it id .uint

def sint (it : Position) (id : Nat) : Read (Option Int64) := do
  return (← table.readScalar it id .sint).map UInt64.toInt64

/-- The bit pattern of the float. -/
def f32 (it : Position) (id : Nat) : Read (Option UInt32) := do
  return (← table.readScalar it id .f32).map UInt64.toUInt32

/-- The bit pattern of the double. -/
def f64 (it : Position) (id : Nat) : Read (Option UInt64) := table.readScalar it id .f64

def bytes (it : Position) (id : Nat) : Read (Option (List UInt8)) := do
  if table.schema.fieldCount ≤ id then return none
  let d ← table.schema.field table.region id
  if d.kind ≠ FieldKind.bytes.code then return none
  match ← table.valueBase it with
  | none => return none
  | some base => return some (← readBytes table.region (base + d.offset) d.width)

def text (it : Position) (id : Nat) : Read (Option (List UInt8)) := do
  match ← table.readScalar it id .text with
  | none => return none
  | some raw =>
    let d ← table.schema.field table.region id
    match table.blobDicts[d.dictIndex]? with
    | none => return none
    | some dict => dict.text table.region raw.toNat

end Table

end Mmpack
