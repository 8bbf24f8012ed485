/-
This file embeds the iterators and the lookups of `table.hpp`.

An iterator is a slot and an index in it. A lookup picks a slot from the
directory, reduces the probe to the stretch of the address that the partition of
the slot stores, and bisects its records. The two comparison regimes of the source
are templates on a flag; here the probe says which regime it belongs to. A
`uint64_t` argument is a number, and a span argument the bytes it refers to.
-/

import Mmpack.Bisect
import Mmpack.Table

namespace Mmpack

open ByteList Checked Cursor

/-- Everything about one partition's byte layout. -/
structure PartitionLayout where
  records : Nat
  /-- Null unless the partition is remapped. -/
  remap : Option Nat
  count : Nat
  remapCount : Nat
  stride : Nat
  /-- The local width when remapped, else the global one. -/
  refWidth : Nat
  addressWidth : Nat
  addressSkip : Nat
  remapped : Bool
  deriving DecidableEq, Repr

/-- The address a lookup is given, by regime. -/
inductive Probe
  | narrow (value : Nat)
  | wide (bytes : List UInt8)
  deriving DecidableEq, Repr

/-- The lookups a table offers. -/
inductive Lookup
  | find
  | lowerBound
  | upperBound
  | floor
  | ceil
  deriving DecidableEq, Repr

/-- The arguments of a lookup, by overload. -/
inductive Target
  | key (key : UInt64)
  | integer (partition address : UInt64)
  | bytes (partition : UInt64) (address : List UInt8)
  deriving DecidableEq, Repr

/-- A probe shifted down to the stretch a partition stores. -/
structure NarrowProbe where
  value : Nat
  tail : Bool
  deriving DecidableEq, Repr

structure WideProbe where
  /-- Where the stretch starts in the probe. -/
  bytes : Nat
  tail : Bool
  head : Bool
  deriving DecidableEq, Repr

/-- Load a stored address of runtime width. -/
def loadAddress (region : List UInt8) (position width : Nat) : Read Nat :=
  if isValidWidth width then load region position width
  else loadUintMasked region position (maskForWidth width)

def probeNarrow (p : PartitionLayout) (address : Nat) : NarrowProbe :=
  let s := 8 * p.addressSkip
  { value := if 64 ≤ s then 0 else address >>> s
    tail := if 64 ≤ s then address ≠ 0 else address &&& (2 ^ s - 1) ≠ 0 }

/-- Whether one of the next bytes is not zero. -/
def anyNonzero (bytes : List UInt8) : Nat → Nat → Read Bool
  | 0, _ => pure false
  | remaining + 1, position => do
    if (← load bytes position 1) ≠ 0 then return true
    anyNonzero bytes remaining (position + 1)

/-- A directory field by a masked load, or the value its absence implies. -/
def loadMaskedPresent (region : List UInt8) (position width mask implied : Nat) : Read Nat :=
  if width ≠ 0 then loadUintMasked region position mask else pure implied

namespace Table

variable (table : Table)

/-! ### Slots -/

def slotPartition (i : Nat) : Read Nat :=
  loadMaskedPresent table.region (table.slotBytes i + table.dir.partitionAt)
    table.dir.partitionWidth table.dir.partitionMask i

def slotOffset (i : Nat) : Read Nat :=
  loadUintMasked table.region (table.slotBytes i + table.dir.offsetAt) table.dir.offsetMask

def slotCount (i : Nat) : Read Nat :=
  loadUintMasked table.region (table.slotBytes i + table.dir.countAt) table.dir.countMask

def layoutOf (s : Nat) : Read PartitionLayout := do
  let p := table.slotBytes s
  let offset ← loadUintMasked table.region (p + table.dir.offsetAt) table.dir.offsetMask
  let schemaId ← loadMaskedPresent table.region (p + table.dir.schemaAt) table.dir.schemaWidth
    table.dir.schemaMask 0
  let count ← loadUintMasked table.region (p + table.dir.countAt) table.dir.countMask
  let remapCount ← loadMaskedPresent table.region (p + table.dir.remapAt) table.dir.remapWidth
    table.dir.remapMask 0
  let addressWidth ← loadMaskedPresent table.region (p + table.dir.addrAt) table.dir.addrWidth
    table.dir.addrMask table.addressWidth
  let addressSkip ← loadMaskedPresent table.region (p + table.dir.skipAt) table.dir.skipWidth
    table.dir.skipMask 0
  -- Each of the four is cast to 32 bits.
  let schemaId := schemaId % 2 ^ 32
  let remapCount := remapCount % 2 ^ 32
  let addressWidth := addressWidth % 2 ^ 32
  let remapped := schemaId ≠ 0
  return { records := offset + if remapped then remapCount * 4 else 0
           remap := if remapped then some offset else none
           count
           remapCount
           stride := (addressWidth + if remapped then schemaId else table.valuePart) % 2 ^ 32
           refWidth := if remapped then schemaId else table.refWidth
           addressWidth
           addressSkip := addressSkip % 2 ^ 32
           remapped }

/-! ### Iterators -/

def «end» : Position := ⟨table.dirCount, 0⟩

def normalize (position : Position) : Read Position :=
  settle table.slotCount table.dirCount position

def retreat (position : Position) : Read Position := stepBack table.slotCount position

def begin : Read Position := table.normalize ⟨0, 0⟩

/-- `operator++`. -/
def next (it : Position) : Read Position := table.normalize ⟨it.slot, it.index + 1⟩

/-- `operator--`. -/
def previous (it : Position) : Read Position := table.retreat it

def partitionCountFrom : Nat → Nat → Read Nat
  | 0, _ => pure 0
  | remaining + 1, i => do
    let count ← table.slotCount i
    let rest ← partitionCountFrom remaining (i + 1)
    return if count ≠ 0 then rest + 1 else rest

def partitionCount : Read Nat := table.partitionCountFrom table.dirCount 0

/-! ### Searching the directory -/

/-- The first slot whose partition is not below `p`. -/
def slotLowerBound (p : Nat) : Read Nat :=
  if table.dense then pure (if p < table.dirCount then p else table.dirCount)
  else Bisect.search (fun mid => do return decide ((← table.slotPartition mid) < p)) table.dirCount

def slotExact (p : Nat) : Read Nat := do
  let s ← table.slotLowerBound p
  if s < table.dirCount then
    if (← table.slotPartition s) = p then return s
  return table.dirCount

/-- The last slot whose partition is not above `p`, or `dir_count`. -/
def slotFloor (p : Nat) : Read Nat := do
  if table.dirCount = 0 then return 0
  if table.dense then return if p < table.dirCount then p else table.dirCount - 1
  let lo ← Bisect.search (fun mid => do return decide ((← table.slotPartition mid) ≤ p))
    table.dirCount
  return if lo = 0 then table.dirCount else lo - 1

def floorAtOrBefore (s : Nat) : Read Position := lastAtOrBefore table.slotCount table.dirCount s

def floorBefore (s : Nat) : Read Position :=
  if s = 0 then pure table.end else table.floorAtOrBefore (s - 1)

/-! ### Searching a partition -/

def probeWide (p : PartitionLayout) (address : List UInt8) : Read WideProbe := do
  let head ← anyNonzero address p.addressSkip 0
  let tail ← anyNonzero address (table.addressWidth - (p.addressSkip + p.addressWidth))
    (p.addressSkip + p.addressWidth)
  return { bytes := p.addressSkip, tail, head }

def searchLowerNarrow (p : PartitionLayout) (address : Nat) : Read Nat :=
  Bisect.search (fun mid => do
    return decide ((← loadAddress table.region (p.records + mid * p.stride) p.addressWidth) <
      address)) p.count

def searchUpperNarrow (p : PartitionLayout) (address : Nat) : Read Nat :=
  Bisect.search (fun mid => do
    return !decide (address <
      (← loadAddress table.region (p.records + mid * p.stride) p.addressWidth))) p.count

/-- `limit` selects the bound: 0 for the lower one, 1 for the upper one. -/
def searchWide (p : PartitionLayout) (address : List UInt8) (start : Nat) (limit : Int) :
    Read Nat :=
  Bisect.search (fun mid => do
    return decide (memcmp (← readBytes table.region (p.records + mid * p.stride) p.addressWidth)
      (← readBytes address start p.addressWidth) < limit)) p.count

/-- The index `lower_bound_parts` finds in the partition. -/
def searchBelow (p : PartitionLayout) : Probe → Read Nat
  | .narrow value =>
    let q := probeNarrow p value
    table.searchLowerNarrow p ((q.value + if q.tail then 1 else 0) % 2 ^ 64)
  | .wide bytes => do
    let q ← table.probeWide p bytes
    if q.head then return p.count
    table.searchWide p bytes q.bytes (if q.tail then 1 else 0)

/-- The first index strictly above the target. -/
def searchAbove (p : PartitionLayout) : Probe → Read Nat
  | .narrow value => table.searchUpperNarrow p (probeNarrow p value).value
  | .wide bytes => do
    let q ← table.probeWide p bytes
    if q.head then return p.count
    table.searchWide p bytes q.bytes 1

/-- The index of the record equal to the target, if there is one. -/
def searchEqual (p : PartitionLayout) : Probe → Read (Option Nat)
  | .narrow value => do
    let q := probeNarrow p value
    if q.tail then return none
    let index ← table.searchLowerNarrow p q.value
    if p.count ≤ index then return none
    let stored ← loadAddress table.region (p.records + index * p.stride) p.addressWidth
    return if stored ≠ q.value then none else some index
  | .wide bytes => do
    let q ← table.probeWide p bytes
    if q.head || q.tail then return none
    let index ← table.searchWide p bytes q.bytes 0
    if p.count ≤ index then return none
    let stored ← readBytes table.region (p.records + index * p.stride) p.addressWidth
    let wanted ← readBytes bytes q.bytes p.addressWidth
    return if memcmp stored wanted ≠ 0 then none else some index

/-! ### The lookups -/

/-- `lower_bound_parts` and `upper_bound_parts`, which differ in the search they make inside
the partition of the target. -/
def boundParts (search : PartitionLayout → Probe → Read Nat) (partition : Nat) (probe : Probe) :
    Read Position := do
  let slot ← table.slotLowerBound partition
  if slot < table.dirCount then
    if (← table.slotPartition slot) = partition then
      let index ← search (← table.layoutOf slot) probe
      return ← table.normalize ⟨slot, index⟩
  table.normalize ⟨slot, 0⟩

def lowerBoundParts (partition : Nat) (probe : Probe) : Read Position :=
  table.boundParts table.searchBelow partition probe

def upperBoundParts (partition : Nat) (probe : Probe) : Read Position :=
  table.boundParts table.searchAbove partition probe

def floorParts (partition : Nat) (probe : Probe) : Read Position := do
  let slot ← table.slotFloor partition
  if table.dirCount ≤ slot then return table.end
  if (← table.slotPartition slot) = partition then
    let p ← table.layoutOf slot
    if p.count ≠ 0 then
      let above ← table.searchAbove p probe
      if above ≠ 0 then return ⟨slot, above - 1⟩
    return ← table.floorBefore slot
  table.floorAtOrBefore slot

def findParts (partition : Nat) (probe : Probe) : Read Position := do
  let slot ← table.slotExact partition
  if table.dirCount ≤ slot then return table.end
  let p ← table.layoutOf slot
  if p.count = 0 then return table.end
  match ← table.searchEqual p probe with
  | some index => return ⟨slot, index⟩
  | none => return table.end

def parts : Lookup → Nat → Probe → Read Position
  | .find => table.findParts
  | .lowerBound => table.lowerBoundParts
  | .upperBound => table.upperBoundParts
  | .floor => table.floorParts
  | .ceil => table.lowerBoundParts

/-- The integer `*_at` forms, which find nothing on images of wider addresses. -/
def atInteger (lookup : Lookup) (partition address : Nat) : Read Position :=
  if table.narrowAddress = false then pure table.end
  else table.parts lookup partition (.narrow address)

/-- The span `*_at` forms, which reject a probe of another width. -/
def atBytes (lookup : Lookup) (partition : Nat) (address : List UInt8) : Read Position := do
  if address.length ≠ table.addressWidth then return table.end
  if table.narrowAddress then
    let value ← loadUint address 0 table.addressWidth
    return ← table.parts lookup partition (.narrow value)
  table.parts lookup partition (.wide address)

/-- The key-taking forms, which find nothing on images without a key space. -/
def atKey (lookup : Lookup) (key : Nat) : Read Position :=
  if table.hasKeyMapping = false then pure table.end
  else table.atInteger lookup (table.schema.partitionOf key) (table.schema.addressOf key)

def lowerBound : Nat → Read Position := table.atKey .lowerBound
def upperBound : Nat → Read Position := table.atKey .upperBound
def find : Nat → Read Position := table.atKey .find
def floor : Nat → Read Position := table.atKey .floor
def ceil : Nat → Read Position := table.atKey .ceil

def contains (key : Nat) : Read Bool := do
  return decide ((← table.find key) ≠ table.end)

def lowerBoundAt : Nat → Nat → Read Position := table.atInteger .lowerBound
def upperBoundAt : Nat → Nat → Read Position := table.atInteger .upperBound
def findAt : Nat → Nat → Read Position := table.atInteger .find
def floorAt : Nat → Nat → Read Position := table.atInteger .floor
def ceilAt : Nat → Nat → Read Position := table.atInteger .ceil

def lowerBoundAtBytes : Nat → List UInt8 → Read Position := table.atBytes .lowerBound
def upperBoundAtBytes : Nat → List UInt8 → Read Position := table.atBytes .upperBound
def findAtBytes : Nat → List UInt8 → Read Position := table.atBytes .find
def floorAtBytes : Nat → List UInt8 → Read Position := table.atBytes .floor
def ceilAtBytes : Nat → List UInt8 → Read Position := table.atBytes .ceil

/-- Any lookup in any of its forms. -/
def lookup (lookup : Lookup) : Target → Read Position
  | .key key => table.atKey lookup key.toNat
  | .integer partition address => table.atInteger lookup partition.toNat address.toNat
  | .bytes partition address => table.atBytes lookup partition.toNat address

end Table

end Mmpack
