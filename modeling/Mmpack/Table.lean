/-
This file embeds the opening of `table.hpp`: the table over a mapped image, the
decoded form of its directory, and `try_open`, which validates the image before
anything is read through it.

A pointer into the image is its offset. The opening is written in the checked
arithmetic of the machine, so that a wrapped sum or a load outside the image is a
fault of the model and not a value.
-/

import Mmpack.SchemaView
import Mmpack.DictionaryView
import Mmpack.Cursor

namespace Mmpack

open ByteList Checked

/-- A mapped region. Its length is a `size_t`. -/
structure Image where
  bytes : List UInt8
  length_lt : bytes.length < 2 ^ 64
  deriving DecidableEq, Repr

def Image.size (image : Image) : Nat := image.bytes.length

/-- Read-only view over an image, with what opening it settled. -/
structure Table where
  /-- `base_` and `size_`. -/
  image : Image
  schema : SchemaView
  directory : Nat
  dirCount : Nat
  recordCount : Nat
  dir : DirLayout
  blobDicts : List BlobDictionaryView
  valueDict : FixedDictionaryView
  recordStride : Nat
  /-- What follows the address in a record. -/
  valuePart : Nat
  addressWidth : Nat
  refWidth : Nat
  dense : Bool
  interned : Bool
  deriving DecidableEq, Repr

namespace Table

abbrev region (table : Table) : List UInt8 := table.image.bytes

def size (table : Table) : Nat := table.recordCount
def directorySlots (table : Table) : Nat := table.dirCount
def hasDenseDirectory (table : Table) : Bool := table.dense
def hasKeyMapping (table : Table) : Bool := table.schema.hasKeyMapping

/-- Narrow addresses compare as integers, the others as opaque bytes. -/
def narrowAddress (table : Table) : Bool := table.schema.narrowAddress

/-! ### Directory slots -/

def slotBytes (table : Table) (i : Nat) : Nat := table.directory + i * table.dir.stride

def slot (table : Table) (i : Nat) : Read DirEntry :=
  decodeDirEntry table.region (table.slotBytes i) table.dir i table.addressWidth

/-! ### Opening -/

/-- The header and the footer. -/
def openFrame (image : Image) : Try Status Footer := do
  rejectIf .tooSmall (image.size < headerSize + footerSize)
  let head ← Header.load image.bytes 0
  rejectIf .badMagic (head.magic ≠ magic)
  rejectIf .badVersion (head.formatVersion ≠ formatVersion)
  let start ← checkedSub image.size footerSize
  let foot ← Footer.load image.bytes start
  rejectIf .badSize (foot.magic ≠ magic)
  rejectIf .badVersion (foot.formatVersion ≠ formatVersion)
  rejectIf .badSize (foot.imageSize ≠ image.size)
  return foot

/-- The schema block, and what the table asks of it beyond its own consistency. -/
def openSchema (image : Image) (foot : Footer) (tail : Nat) : Try Status SchemaView := do
  rejectIf .badSchema (tail < foot.schemaOffset)
  let room ← checkedSub tail foot.schemaOffset
  rejectIf .badSchema (room < foot.schemaSize)
  let schema ← orReject .badSchema
    (SchemaView.open image.bytes foot.schemaOffset foot.schemaSize)
  rejectIf .badSchema (schema.recordStride = 0)
  rejectIf .badSchema (schema.hasKeyMapping = true ∧ schema.narrowAddress = false)
  rejectIf .badSchema (schema.recordStride < schema.addressWidth)
  return schema

/-- The table before its dictionaries are opened. -/
def attach (image : Image) (foot : Footer) (schema : SchemaView) (valuePart : Nat) : Table where
  image := image
  schema := schema
  directory := foot.dirOffset
  dirCount := foot.dirCount
  recordCount := foot.recordCount
  dir := schema.directoryLayout
  blobDicts := List.replicate schema.dictCount .empty
  valueDict := .empty
  recordStride := schema.recordStride
  valuePart := valuePart
  addressWidth := schema.addressWidth
  refWidth := schema.refWidth
  dense := foot.flags &&& denseDirectoryFlag ≠ 0
  interned := schema.interned

/-- The record stride of a partition, by its slot. -/
def checkStride (table : Table) (d : DirEntry) : Try Status Nat := do
  let stride ← checkedAdd 32 d.addressWidth table.valuePart
  if d.schemaId ≠ 0 then
    rejectIf .badDirectory (maxLocalWidth < d.schemaId)
    rejectIf .badDirectory (table.interned = false)
    rejectIf .badDirectory (d.remapCount = 0 ∨ d.count = 0)
    checkedAdd 32 d.addressWidth d.schemaId
  else
    rejectIf .badDirectory (d.remapCount ≠ 0)
    return stride

/-- The bytes of a partition with records lie between `floor` and the directory. The result is
the next floor. -/
def checkBlock (table : Table) (d : DirEntry) (stride floor : Nat) : Try Status Nat := do
  rejectIf .badDirectory (d.offset < floor ∨ table.directory < d.offset)
  let available ← checkedSub table.directory d.offset
  let tableBytes ← checkedMul 64 d.remapCount 4
  rejectIf .badDirectory (available < tableBytes)
  let room ← checkedSub available tableBytes
  let most ← checkedDiv room stride
  rejectIf .badDirectory (most < d.count)
  let start ← checkedAdd 64 d.offset tableBytes
  let records ← checkedMul 64 d.count stride
  checkedAdd 64 start records

/-- One round of the loop over the directory, with the next floor. -/
def checkSlot (table : Table) (i previous floor : Nat) : Try Status (DirEntry × Nat) := do
  let d ← table.slot i
  rejectIf .badDirectory (0 < i ∧ d.partition ≤ previous)
  rejectIf .badDirectory (table.addressWidth < d.addressWidth)
  let slack ← checkedSub table.addressWidth d.addressWidth
  rejectIf .badDirectory (slack < d.addressSkip)
  let stride ← table.checkStride d
  rejectIf .badDirectory (stride = 0)
  if d.count ≠ 0 then
    return (d, ← table.checkBlock d stride floor)
  else
    return (d, floor)

/-- The loop over the directory, from slot `i` on. -/
def checkSlots (table : Table) : Nat → Nat → Nat → Nat → Nat → Try Status Nat
  | 0, _, _, _, total => pure total
  | remaining + 1, i, previous, floor, total => do
    let (d, floor) ← table.checkSlot i previous floor
    let total ← checkedAdd 64 total d.count
    checkSlots table remaining (i + 1) d.partition floor total

def openDirectory (table : Table) (tail : Nat) : Try Status Unit := do
  rejectIf .badDirectory (table.dir.stride = 0)
  rejectIf .badDirectory (decide (table.dir.partitionWidth = 0) ≠ table.dense)
  rejectIf .badDirectory (table.directory < headerSize ∨ tail < table.directory)
  let room ← checkedSub tail table.directory
  let most ← checkedDiv room table.dir.stride
  rejectIf .badDirectory (most < table.dirCount)
  let slots ← checkedMul 64 table.dirCount table.dir.stride
  let finish ← checkedAdd 64 table.directory slots
  let slack ← checkedAdd 64 finish 8
  rejectIf .badDirectory (table.image.size < slack)
  let total ← table.checkSlots table.dirCount 0 0 headerSize 0
  rejectIf .badDirectory (total ≠ table.recordCount)

/-- One round of the loop over the dictionaries. -/
def openDictionary (tail : Nat) (table : Table) (i : Nat) : Try Status Table := do
  let e ← table.schema.dictionary table.region i
  rejectIf .badDictionary (e.offset < headerSize ∨ tail < e.offset)
  let room ← checkedSub tail e.offset
  rejectIf .badDictionary (room < e.size)
  if table.schema.interned = true ∧ i = table.schema.valueDict then
    let fixed ← orReject .badDictionary (FixedDictionaryView.open table.region e.offset e.size)
    rejectIf .badDictionary (fixed.elemSize ≠ table.schema.valueStride)
    return { table with valueDict := fixed }
  else
    let blob ← orReject .badDictionary (BlobDictionaryView.open table.region e.offset e.size)
    return { table with blobDicts := table.blobDicts.set i blob }

def openDictionaries (tail : Nat) : Nat → Nat → Table → Try Status Table
  | 0, _, table => pure table
  | remaining + 1, i, table => do
    let table ← openDictionary tail table i
    openDictionaries tail remaining (i + 1) table

/-- Every text field must point at a blob dictionary, not the composite one. -/
def checkTextFields (table : Table) : Nat → Nat → Try Status Unit
  | 0, _ => pure ()
  | remaining + 1, i => do
    let f ← table.schema.field table.region i
    rejectIf .badDictionary (f.kind = FieldKind.text.code ∧ table.schema.interned = true ∧
      f.dictIndex = table.schema.valueDict)
    checkTextFields table remaining (i + 1)

/-- `table::try_open`. A null base is `none`. -/
def tryOpen (base : Option Image) : Try Status Table :=
  match base with
  | none => throw .tooSmall
  | some image => do
    let foot ← openFrame image
    let tail ← checkedSub image.size footerSize
    let schema ← openSchema image foot tail
    let valuePart ← checkedSub schema.recordStride schema.addressWidth
    let table := attach image foot schema valuePart
    table.openDirectory tail
    let table ← openDictionaries tail schema.dictCount 0 table
    table.checkTextFields schema.fieldCount 0
    return table

end Table

end Mmpack
