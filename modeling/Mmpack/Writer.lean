/-
This file embeds the writing half of `table_builder`: the image is appended to a
sink, block after block, with a counter of the bytes emitted so far from which
every recorded offset is taken.

Emitting is state passing. A step that may throw returns its error beside the
emitter, since what the sink has received by then stays in it.

Tuples and records are put together in buffers that are sized beforehand, and stored
into without a check. Where a store ends past its buffer the code has no behaviour to
model: `Finish` tells so, and shows what would go out if memory took the store.
-/

import Mmpack.Buffers
import Mmpack.Layout

namespace Mmpack

open ByteList

/-! ### The emitter -/

/-- The sink, and the writer's own count of what went into it. -/
structure Emitter where
  out : List UInt8
  pos : Nat
  deriving DecidableEq, Repr

namespace Emitter

def start : Emitter where
  out := []
  pos := 0

/-- Append to the sink, and count `size` bytes. -/
def write (emitter : Emitter) (data : List UInt8) (size : Nat) : Emitter where
  out := emitter.out ++ data
  pos := (emitter.pos + size) % 2 ^ 64

def emit (emitter : Emitter) (data : List UInt8) : Emitter := emitter.write data data.length

/-- Emit zeros up to the next multiple of the alignment. -/
def padTo (emitter : Emitter) (alignment : Nat) : Emitter :=
  emitter.emit (List.replicate (alignUp emitter.pos alignment - emitter.pos) 0)

end Emitter

/-! ### Dictionaries -/

def writeTextDictionaries : List BlobDictionaryBuilder → Emitter → Emitter × List DictEntry
  | [], emitter => (emitter, [])
  | dict :: rest, emitter =>
    let padded := emitter.padTo 8
    let (last, entries) :=
      writeTextDictionaries rest (padded.write dict.write dict.serializedSize)
    (last, { offset := padded.pos, size := dict.serializedSize } :: entries)

/-- The bytes of a field in a tuple. -/
def fieldBytes (field : FieldDesc × UInt64) : List UInt8 :=
  leBytes (accessWidth field.1.width) (field.2 - UInt64.ofNat field.1.bias).toNat

/-- `encode_tuple`: serialize one tuple from `out` on. -/
def encodeTupleInto (layout : Layout) (values : List UInt64) (out : Nat) (buffer : Buffer) :
    Buffer :=
  (buffer.store out (List.replicate layout.valueStride 0)).storeAll
    (fun field => out + field.1.offset) fieldBytes (layout.descs.zip values)

/-- The scratch of the composite dictionary with a tuple in it. -/
def tupleScratch (layout : Layout) (values : List UInt64) : Buffer :=
  encodeTupleInto layout values 0 (.zeros layout.valueStride)

/-- A tuple as the composite dictionary has it. -/
def encodeTuple (layout : Layout) (values : List UInt64) : List UInt8 :=
  (tupleScratch layout values).bytes.take layout.valueStride

def writeTuples (layout : Layout) : List (List UInt64) → Emitter → Emitter
  | [], emitter => emitter
  | tuple :: rest, emitter => writeTuples layout rest (emitter.emit (encodeTuple layout tuple))

/-- The composite dictionary of an interned image. -/
def writeValueDictionary (layout : Layout) (tuples : List (List UInt64)) (emitter : Emitter) :
    Emitter × Except BuildError DictEntry :=
  let padded := emitter.padTo 8
  match writeFixedDictionaryHeader tuples.length layout.valueStride with
  | .error error => (padded, .error error)
  | .ok head =>
    (writeTuples layout tuples (padded.write head dictHeaderSize),
      .ok { offset := padded.pos, size := fixedDictionarySize tuples.length layout.valueStride })

/-! ### Records -/

/-- How one partition is written. -/
structure PartitionPlan where
  schemaId : Nat
  saved : Nat
  remapTable : List Nat
  skip : Nat
  width : Nat
  deriving DecidableEq, Repr

def planPartition (builder : Builder) (layout : Layout) (run : List StagedRow)
    (stretch : Nat × Nat) : PartitionPlan :=
  let distinct := distinctTuples run
  let planned := planRemap builder.options layout.refWidth distinct.length run.length
  if layout.interned ∧ planned.1 ≠ 0 then
    { schemaId := planned.1, saved := planned.2, remapTable := distinct
      skip := stretch.1, width := stretch.2 }
  else
    { schemaId := 0, saved := 0, remapTable := [], skip := stretch.1, width := stretch.2 }

/-- The width of a reference. -/
def PartitionPlan.refWidth (plan : PartitionPlan) (layout : Layout) : Nat :=
  if plan.schemaId ≠ 0 then plan.schemaId else layout.refWidth

def PartitionPlan.stride (plan : PartitionPlan) (layout : Layout) : Nat :=
  (plan.width + if layout.interned then plan.refWidth layout else layout.valueStride) % 2 ^ 32

/-- The address part of a record: a window into the bytes, or the integer shifted down. -/
def storedAddress (builder : Builder) (plan : PartitionPlan) (row : StagedRow) : List UInt8 :=
  if builder.blob.isSome then slice row.addressBytes plan.skip plan.width
  else leBytes (accessWidth plan.width)
    (if 8 ≤ plan.skip then 0 else row.address.toNat >>> (8 * plan.skip))

/-- The reference a record stores. -/
def storedReference (plan : PartitionPlan) (row : StagedRow) : Nat :=
  if plan.schemaId ≠ 0 then plan.remapTable.idxOf row.tuple else row.tuple

/-- The value part of a record: a reference, or the tuple itself. -/
def storeValue (builder : Builder) (layout : Layout) (plan : PartitionPlan) (row : StagedRow)
    (record : Buffer) : Buffer :=
  if layout.interned then
    record.store plan.width
      (leBytes (accessWidth (plan.refWidth layout)) (storedReference plan row))
  else encodeTupleInto layout (builder.tuples.getD row.tuple []) plan.width record

/-- Put a record together in the buffer. The stride that is cleared and emitted is that of its
partition. -/
def storeRecord (builder : Builder) (layout : Layout) (plan : PartitionPlan) (row : StagedRow)
    (record : Buffer) : Buffer :=
  storeValue builder layout plan row
    ((record.store 0 (List.replicate (plan.stride layout) 0)).store 0
      (storedAddress builder plan row))

/-- The one buffer that all records are put together in. -/
def recordBuffer (layout : Layout) : Buffer := .zeros layout.recordStride

/-- A record as it is emitted. What the buffer held before is cleared as far as it is emitted, so
the buffer is taken as it is at first. -/
def encodeRecord (builder : Builder) (layout : Layout) (plan : PartitionPlan) (row : StagedRow) :
    List UInt8 :=
  (storeRecord builder layout plan row (recordBuffer layout)).bytes.take (plan.stride layout)

def writeRemapTable : List Nat → Emitter → Emitter
  | [], emitter => emitter
  | global :: rest, emitter => writeRemapTable rest (emitter.emit (leBytes 4 global))

def writeRecords (builder : Builder) (layout : Layout) (plan : PartitionPlan) :
    List StagedRow → Emitter → Emitter
  | [], emitter => emitter
  | row :: rest, emitter =>
    writeRecords builder layout plan rest (emitter.emit (encodeRecord builder layout plan row))

/-- The directory slot of a partition whose bytes start at `offset`. -/
def slotOf (plan : PartitionPlan) (partition : UInt64) (offset count : Nat) : DirEntry where
  partition := partition.toNat
  offset := offset
  count := count
  schemaId := plan.schemaId
  remapCount := plan.remapTable.length % 2 ^ 32
  addressWidth := plan.width
  addressSkip := plan.skip

/-- The partitions, with the stretch each one was priced at. -/
def writePartitions (builder : Builder) (layout : Layout) :
    List (List StagedRow) → List (Nat × Nat) → Emitter →
      Emitter × Except BuildError (List (DirEntry × PartitionPlan))
  | [], [], emitter => (emitter, .ok [])
  | run :: runs, stretch :: stretches, emitter =>
    let plan := planPartition builder layout run stretch
    let partition := (run.map (·.partition)).headD 0
    let after := writeRecords builder layout plan run (writeRemapTable plan.remapTable emitter)
    match writePartitions builder layout runs stretches after with
    | (last, .ok rest) =>
      (last, .ok ((slotOf plan partition emitter.pos run.length, plan) :: rest))
    | (last, .error error) => (last, .error error)
  | _, _, emitter => (emitter, .error .partitionRangesOutOfStep)

/-! ### The directory -/

def useDense (options : BuildOptions) (directory : List DirEntry) : Bool :=
  match directory.getLast? with
  | none => false
  | some last =>
    let span := (last.partition + 1) % 2 ^ 64
    decide (span ≤ options.maxDenseSlots.toNat) &&
      decide (span ≤ (directory.length * 4 + 16) % 2 ^ 64)

/-- The largest of the values, or zero. -/
def largest (values : List Nat) : Nat := values.foldl max 0

/-- Every directory field narrowed to what the image needs. -/
def directoryLayoutFor (dense : Bool) (addressWidth : Nat) (directory : List DirEntry) :
    DirLayout :=
  let maxRemap := largest (directory.map (·.remapCount))
  let maxSkip := largest (directory.map (·.addressSkip))
  let trimmed := directory.any fun d => d.addressWidth ≠ addressWidth
  makeDirLayout
    (if dense then 0 else widthFor (largest (directory.map (·.partition))))
    (widthFor (largest (directory.map (·.offset))))
    (widthFor (largest (directory.map (·.count))))
    (if maxRemap ≠ 0 then 1 else 0)
    (if maxRemap ≠ 0 then widthFor maxRemap else 0)
    (if trimmed then 1 else 0)
    (if maxSkip ≠ 0 then 1 else 0)

/-- A slot without records, whose address range is still a legal one. -/
def gapSlot (addressWidth partition : Nat) : DirEntry where
  partition := partition
  offset := 0
  count := 0
  schemaId := 0
  remapCount := 0
  addressWidth := addressWidth
  addressSkip := 0

/-- The slots of a dense directory, from partition `next` on. -/
def denseSlots (addressWidth : Nat) : Nat → List DirEntry → List DirEntry
  | _, [] => []
  | next, d :: rest =>
    (List.range' next (d.partition - next)).map (gapSlot addressWidth) ++
      d :: denseSlots addressWidth ((d.partition + 1) % 2 ^ 64) rest

def directorySlots (dense : Bool) (addressWidth : Nat) (directory : List DirEntry) :
    List DirEntry :=
  if dense then denseSlots addressWidth 0 directory else directory

def writeSlots (layout : DirLayout) : List DirEntry → Emitter → Emitter
  | [], emitter => emitter
  | d :: rest, emitter => writeSlots layout rest (emitter.emit (encodeDirEntry layout d))

/-! ### The schema -/

/-- The names one after the other, each with its NUL. -/
def nameBlob : List FieldDecl → List UInt8
  | [] => []
  | decl :: rest => decl.name ++ [0] ++ nameBlob rest

/-- Give every field the 32-bit offset of its name. -/
def nameFields (decls : List FieldDecl) (descs : List FieldDesc) : List FieldDesc :=
  descs.mapIdx fun i desc => { desc with nameOffset := (nameBlob (decls.take i)).length % 2 ^ 32 }

def schemaHeader (builder : Builder) (layout : Layout) (dir : DirLayout) (dictCount nameBytes
    valueDict : Nat) : SchemaHeader where
  magic := schemaMagic
  fieldCount := layout.descs.length % 2 ^ 32
  dictCount := dictCount % 2 ^ 32
  recordStride := layout.recordStride
  valueStride := layout.valueStride
  nameBytes := nameBytes % 2 ^ 32
  addressWidth := layout.addressWidth % 2 ^ 8
  addressBits :=
    if builder.mode = .explicit ∨ builder.mode = .explicitWide then noKeyMapping
    else builder.options.addressBits % 2 ^ 8
  mode := if layout.interned then 1 else 0
  refWidth := if layout.interned then layout.refWidth % 2 ^ 8 else 0
  valueDict := if layout.interned then valueDict else 0
  dirPartitionWidth := dir.partitionWidth % 2 ^ 8
  dirOffsetWidth := dir.offsetWidth % 2 ^ 8
  dirCountWidth := dir.countWidth % 2 ^ 8
  dirRemapWidth := dir.remapWidth % 2 ^ 8
  dirAddrWidth := dir.addrWidth % 2 ^ 8
  dirSkipWidth := dir.skipWidth % 2 ^ 8

def writeSchema (builder : Builder) (layout : Layout) (dir : DirLayout) (dicts : List DictEntry)
    (valueDict : Nat) (emitter : Emitter) : Emitter :=
  let names := nameBlob builder.schema.fields
  let descs := nameFields builder.schema.fields layout.descs
  let head := schemaHeader builder layout dir dicts.length names.length valueDict
  (((emitter.emit head.encode).emit (descs.map FieldDesc.encode).flatten).emit
    (dicts.map DictEntry.encode).flatten).emit names

/-! ### The image -/

/-- What the builder decided, and the numbers it decided from. -/
structure BuildReport where
  records : Nat
  distinctValues : Nat
  partitions : Nat
  interned : Bool
  dedupAbandoned : Bool
  sortedDuringFinish : Bool
  hasKeyMapping : Bool
  addressWidth : Nat
  refWidth : Nat
  valueStride : Nat
  recordStride : Nat
  remappedPartitions : Nat
  remapSavedBytes : Nat
  addressBytesTotal : Nat
  addressSavedBytes : Nat
  narrowedPartitions : Nat
  directoryStride : Nat
  inlineEstimate : Nat
  internedEstimate : Nat
  imageBytes : Nat
  deriving DecidableEq, Repr

/-- The dictionaries of an image, and the index of the composite one. -/
def writeDictionaries (builder : Builder) (layout : Layout) (emitter : Emitter) :
    Emitter × Except BuildError (List DictEntry × Nat) :=
  let (emitter, texts) := writeTextDictionaries builder.textDicts emitter
  if layout.interned then
    match writeValueDictionary layout builder.tuples emitter with
    | (emitter, .ok entry) => (emitter, .ok (texts ++ [entry], texts.length % 2 ^ 32))
    | (emitter, .error error) => (emitter, .error error)
  else (emitter, .ok (texts, 0))

def header : Header where
  magic := magic
  formatVersion := formatVersion
  reserved := 0

/-- The blocks from the directory on. -/
def writeTail (builder : Builder) (layout : Layout) (dicts : List DictEntry) (valueDict : Nat)
    (directory : List DirEntry) (emitter : Emitter) : Emitter :=
  let emitter := emitter.padTo 8
  let dirOffset := emitter.pos
  let dense := useDense builder.options directory
  let dir := directoryLayoutFor dense layout.addressWidth directory
  let slots := directorySlots dense layout.addressWidth directory
  let emitter := (writeSlots dir slots emitter).padTo 8
  let schemaOffset := emitter.pos
  let emitter := writeSchema builder layout dir dicts valueDict emitter
  let foot : Footer :=
    { magic := magic
      formatVersion := formatVersion
      flags := if dense then denseDirectoryFlag else 0
      recordCount := builder.count % 2 ^ 64
      dirOffset
      dirCount := slots.length % 2 ^ 64
      schemaOffset
      schemaSize := (emitter.pos + (2 ^ 64 - schemaOffset)) % 2 ^ 64
      imageSize := (emitter.pos + footerSize) % 2 ^ 64 }
  emitter.emit foot.encode

/-- `write_image`, with the slots and plans of the partitions. -/
def writeImage (builder : Builder) (layout : Layout) (rows : List StagedRow) :
    Emitter × Except BuildError (List (DirEntry × PartitionPlan)) :=
  match writeDictionaries builder layout (Emitter.start.emit header.encode) with
  | (emitter, .error error) => (emitter, .error error)
  | (emitter, .ok (dicts, valueDict)) =>
    match writePartitions builder layout (partitionRuns rows) layout.stretches
        (emitter.padTo 8) with
    | (emitter, .error error) => (emitter, .error error)
    | (emitter, .ok partitions) =>
      (writeTail builder layout dicts valueDict (partitions.map Prod.fst) emitter, .ok partitions)

/-- Whether a tuple ends past the scratch of the composite dictionary. -/
def tuplesOverrun (layout : Layout) (tuples : List (List UInt64)) : Bool :=
  layout.interned && tuples.any fun tuple => (tupleScratch layout tuple).overrun

/-- Whether a record ends past the record buffer. -/
def recordsOverrun (builder : Builder) (layout : Layout) (rows : List StagedRow) : Bool :=
  ((partitionRuns rows).zip layout.stretches).any fun part =>
    part.1.any fun row => (storeRecord builder layout
      (planPartition builder layout part.1 part.2) row (recordBuffer layout)).overrun

/-! ### Finishing -/

/-- What `finish` leaves behind: what the sink received, the report or what was thrown, and the
builder. After an overrun nothing of it is promised. -/
structure Finish where
  image : List UInt8
  outcome : Except BuildError BuildReport
  builder : Builder
  overrun : Bool := false

/-- `check_sorted_unique` on neighbouring rows. -/
def rowIncreases (builder : Builder) (first second : StagedRow) : Bool :=
  decide (first.partition < second.partition) ||
    (decide (first.partition = second.partition) &&
      if builder.blob.isSome then
        decide (memcmp (first.addressBytes.take builder.wideWidth)
          (second.addressBytes.take builder.wideWidth) < 0)
      else decide (first.address < second.address))

def checkSortedUnique (builder : Builder) : List StagedRow → Except BuildError Unit
  | first :: second :: rest =>
    if rowIncreases builder first second then checkSortedUnique builder (second :: rest)
    else .error (.duplicateKey second.partition.toNat second.address.toNat)
  | _ => .ok ()

/-- The staging put in order, or what that throws. The flag says whether it was sorted. -/
def orderStaging (builder : Builder) (staging : Staging) :
    Staging × Except BuildError Bool :=
  if staging.isSorted then (staging, .ok false)
  else if builder.options.order = .assumeSorted then (staging, .error .inputNotSorted)
  else (staging.sort, (checkSortedUnique builder staging.sort.view).map fun _ => true)

def reportOf (builder : Builder) (layout : Layout) (sortedDuringFinish : Bool)
    (partitions : List (DirEntry × PartitionPlan)) (imageBytes : Nat) : BuildReport where
  records := builder.count
  distinctValues := builder.tuples.length
  partitions := partitions.length
  interned := layout.interned
  dedupAbandoned := !builder.dedupActive
  sortedDuringFinish := sortedDuringFinish
  hasKeyMapping := builder.mode = .keyed ∨ builder.mode = .undecided
  addressWidth := layout.addressWidth
  refWidth := layout.refWidth
  valueStride := layout.valueStride
  recordStride := layout.recordStride
  remappedPartitions := partitions.countP fun partition => partition.2.schemaId ≠ 0
  remapSavedBytes := (partitions.map fun partition => partition.2.saved).sum % 2 ^ 64
  addressBytesTotal := layout.addressBytesTotal
  addressSavedBytes := layout.addressSavedBytes
  narrowedPartitions := layout.narrowedPartitions
  directoryStride :=
    (directoryLayoutFor (useDense builder.options (partitions.map Prod.fst)) layout.addressWidth
      (partitions.map Prod.fst)).stride
  inlineEstimate := layout.inlineEstimate
  internedEstimate := layout.internedEstimate
  imageBytes := imageBytes

/-- `finish`, on the builder and the staging it owns. -/
def finishOwned (builder : Builder) (owned : StagingObject) : Finish :=
  let (staging, ordered) := orderStaging builder owned.staging
  let builder := { builder with staging := some { owned with staging } }
  match ordered with
  | .error error => { image := [], outcome := .error error, builder }
  | .ok sortedDuringFinish =>
    let layout := chooseLayout builder staging.view
    match writeImage builder layout staging.view with
    | (emitter, .error error) => { image := emitter.out, outcome := .error error, builder }
    | (emitter, .ok partitions) =>
      { image := emitter.out
        outcome := .ok (reportOf builder layout sortedDuringFinish partitions emitter.pos)
        builder
        overrun :=
          tuplesOverrun layout builder.tuples || recordsOverrun builder layout staging.view }

def finish (builder : Builder) : Finish :=
  if builder.finished then { image := [], outcome := .error .finishCalledTwice, builder }
  else
    -- An empty build never entered a mode, and counts as keyed.
    let builder := { builder with finished := true }.ensureStaging .keyed
    match builder.staging with
    | some owned => finishOwned builder owned
    | none => { image := [], outcome := .error .danglingStaging, builder }

end Mmpack
