/-
This file embeds `finish` with the sink as a parameter. What the writer passes to its
sink, write after write, does not depend on the sink, so it is a list of chunks; the
sink is fed these up to the first it refuses, and what it throws ends `finish`.

The chunks make up the image of the plain writer, which is `finish` into a vector.
-/

import Mmpack.Emission
import Mmpack.Sinks

namespace Mmpack

open ByteList Streaming

/-! ### The chunks of the writer -/

/-- What was passed to the sink so far, and the writer's own 64-bit count of it. -/
structure Trace where
  chunks : List (List UInt8)
  pos : Nat
  small : pos < 2 ^ 64

namespace Trace

def start : Trace where
  chunks := []
  pos := 0
  small := Nat.two_pow_pos 64

/-- Write some chunks, and count `size` bytes. -/
def write (trace : Trace) (chunks : List (List UInt8)) (size : Nat) : Trace where
  chunks := trace.chunks ++ chunks
  pos := (trace.pos + size) % 2 ^ 64
  small := Nat.mod_lt _ (Nat.two_pow_pos 64)

def emit (trace : Trace) (data : List UInt8) : Trace := trace.write [data] data.length

def emitAll (trace : Trace) (blocks : List (List UInt8)) : Trace := blocks.foldl emit trace

/-- Some zeros, at most 64 at a time. -/
def zeroChunks (count : Nat) : List (List UInt8) :=
  List.replicate (count / 64) (List.replicate 64 0) ++
    if count % 64 = 0 then [] else [List.replicate (count % 64) 0]

/-- `pad_to`. -/
def padTo (trace : Trace) (alignment : Nat) : Trace :=
  let count := alignUp trace.pos alignment - trace.pos
  trace.write (zeroChunks count) count

/-- Emit the bytes of a table, unless it is empty. -/
def emitTable (trace : Trace) (rows : List (List UInt8)) : Trace :=
  if rows = [] then trace else trace.emit rows.flatten

/-- What the plain writer has then. -/
def emitter (trace : Trace) : Emitter where
  out := trace.chunks.flatten
  pos := trace.pos

end Trace

/-- The writes of `blob_dictionary_builder::write`. -/
def BlobDictionaryBuilder.writes (dict : BlobDictionaryBuilder) : List (List UInt8) :=
  dict.header.encode :: ((offsetsFrom 0 dict.order).map (leBytes 4)).flatten :: dict.order

def traceTextDictionaries : List BlobDictionaryBuilder → Trace → Trace × List DictEntry
  | [], trace => (trace, [])
  | dict :: rest, trace =>
    let padded := trace.padTo 8
    let (last, entries) :=
      traceTextDictionaries rest (padded.write dict.writes dict.serializedSize)
    (last, { offset := padded.pos, size := dict.serializedSize } :: entries)

/-- The composite dictionary. Nothing of it is written when its header is refused. -/
def traceValueDictionary (layout : Layout) (tuples : List (List UInt64)) (trace : Trace) :
    Trace × Except BuildError DictEntry :=
  let padded := trace.padTo 8
  match writeFixedDictionaryHeader tuples.length layout.valueStride with
  | .error error => (padded, .error error)
  | .ok head =>
    ((padded.write [head] dictHeaderSize).emitAll (tuples.map (encodeTuple layout)),
      .ok { offset := padded.pos, size := fixedDictionarySize tuples.length layout.valueStride })

def traceDictionaries (builder : Builder) (layout : Layout) (trace : Trace) :
    Trace × Except BuildError (List DictEntry × Nat) :=
  let (trace, texts) := traceTextDictionaries builder.textDicts trace
  if layout.interned then
    match traceValueDictionary layout builder.tuples trace with
    | (trace, .ok entry) => (trace, .ok (texts ++ [entry], texts.length % 2 ^ 32))
    | (trace, .error error) => (trace, .error error)
  else (trace, .ok (texts, 0))

/-- The partitions: the entries of a remap table one by one, then the records. -/
def tracePartitions (builder : Builder) (layout : Layout) :
    List (List StagedRow) → List (Nat × Nat) → Trace →
      Trace × Except BuildError (List (DirEntry × PartitionPlan))
  | [], [], trace => (trace, .ok [])
  | run :: runs, stretch :: stretches, trace =>
    let plan := planPartition builder layout run stretch
    let partition := (run.map (·.partition)).headD 0
    let after := (trace.emitAll (plan.remapTable.map (leBytes 4))).emitAll
      (run.map (encodeRecord builder layout plan))
    match tracePartitions builder layout runs stretches after with
    | (last, .ok rest) =>
      (last, .ok ((slotOf plan partition trace.pos run.length, plan) :: rest))
    | (last, .error error) => (last, .error error)
  | _, _, trace => (trace, .error .partitionRangesOutOfStep)

def traceSchema (builder : Builder) (layout : Layout) (dir : DirLayout) (dicts : List DictEntry)
    (valueDict : Nat) (trace : Trace) : Trace :=
  let names := nameBlob builder.schema.fields
  let descs := nameFields builder.schema.fields layout.descs
  let head := schemaHeader builder layout dir dicts.length names.length valueDict
  let trace := ((trace.emit head.encode).emitTable (descs.map FieldDesc.encode)).emitTable
    (dicts.map DictEntry.encode)
  if names = [] then trace else trace.emit names

def traceTail (builder : Builder) (layout : Layout) (dicts : List DictEntry) (valueDict : Nat)
    (directory : List DirEntry) (trace : Trace) : Trace :=
  let trace := trace.padTo 8
  let dirOffset := trace.pos
  let dense := useDense builder.options directory
  let dir := directoryLayoutFor dense layout.addressWidth directory
  let slots := directorySlots dense layout.addressWidth directory
  let trace := (trace.emitAll (slots.map (encodeDirEntry dir))).padTo 8
  let schemaOffset := trace.pos
  let trace := traceSchema builder layout dir dicts valueDict trace
  let foot : Footer :=
    { magic := magic
      formatVersion := formatVersion
      flags := if dense then denseDirectoryFlag else 0
      recordCount := builder.count % 2 ^ 64
      dirOffset
      dirCount := slots.length % 2 ^ 64
      schemaOffset
      schemaSize := (trace.pos + (2 ^ 64 - schemaOffset)) % 2 ^ 64
      imageSize := (trace.pos + footerSize) % 2 ^ 64 }
  trace.emit foot.encode

/-- `write_image`, as the writes it makes. -/
def traceImage (builder : Builder) (layout : Layout) (rows : List StagedRow) :
    Trace × Except BuildError (List (DirEntry × PartitionPlan)) :=
  match traceDictionaries builder layout (Trace.start.emit header.encode) with
  | (trace, .error error) => (trace, .error error)
  | (trace, .ok (dicts, valueDict)) =>
    match tracePartitions builder layout (partitionRuns rows) layout.stretches
        (trace.padTo 8) with
    | (trace, .error error) => (trace, .error error)
    | (trace, .ok partitions) =>
      (traceTail builder layout dicts valueDict (partitions.map Prod.fst) trace, .ok partitions)

/-! ### Finishing into a sink -/

def ownedChunks (builder : Builder) (owned : StagingObject) : List (List UInt8) :=
  let (staging, ordered) := orderStaging builder owned.staging
  let builder := { builder with staging := some { owned with staging } }
  match ordered with
  | .error _ => []
  | .ok _ => (traceImage builder (chooseLayout builder staging.view) staging.view).1.chunks

/-- What `finish` would pass to a sink that refuses nothing. -/
def finishChunks (builder : Builder) : List (List UInt8) :=
  if builder.finished then []
  else
    let builder := { builder with finished := true }.ensureStaging .keyed
    match builder.staging with
    | some owned => ownedChunks builder owned
    | none => []

/-- What ends a `finish`: the builder's own error, or the sink's. -/
inductive Thrown
  | build (error : BuildError)
  | sink (error : SinkError)
  deriving DecidableEq, Repr

/-- What `finish` leaves behind: the sink, the report or what was thrown, and the builder. -/
structure Delivered (State : Type) where
  state : State
  outcome : Except Thrown BuildReport
  builder : Builder

/-- `finish(sink)`. -/
def finishInto {State : Type} (sink : ByteSink State) (state : State) (builder : Builder) :
    Delivered State :=
  let fed := sink.feed state (finishChunks builder)
  { state := fed.2
    outcome := match fed.1 with
      | .ok () => (finish builder).outcome.mapError .build
      | .error error => .error (.sink error)
    builder := (finish builder).builder }

/-! ### The chunks are those of the image -/

namespace Trace

variable (trace : Trace)

theorem write_emitter (chunks : List (List UInt8)) (size : Nat) :
    (trace.write chunks size).emitter = trace.emitter.write chunks.flatten size := by
  rw [emitter, write, List.flatten_append]
  rfl

theorem emit_emitter (data : List UInt8) : (trace.emit data).emitter = trace.emitter.emit data := by
  rw [emit, write_emitter, List.flatten_singleton]
  rfl

theorem emitAll_emitter (blocks : List (List UInt8)) :
    (trace.emitAll blocks).emitter = trace.emitter.emitAll blocks := by
  induction blocks generalizing trace with
  | nil => rfl
  | cons block rest inductionHypothesis =>
    rw [emitAll, List.foldl_cons, ← emitAll, inductionHypothesis, emit_emitter]
    rfl

theorem zeroChunks_flatten (count : Nat) : (zeroChunks count).flatten = List.replicate count 0 := by
  rw [zeroChunks, List.flatten_append, List.flatten_replicate_replicate]
  have parts := Nat.div_add_mod' count 64
  split
  · rename_i whole
    rw [List.flatten_nil, List.append_nil]
    congr 1
    omega
  · rw [List.flatten_singleton, List.replicate_append_replicate, parts]

theorem padTo_emitter (alignment : Nat) :
    (trace.padTo alignment).emitter = trace.emitter.padTo alignment := by
  rw [padTo, write_emitter, zeroChunks_flatten, Emitter.padTo, Emitter.emit,
    List.length_replicate]
  rfl

/-- Emitting nothing changes nothing. -/
theorem emit_nil : trace.emitter.emit [] = trace.emitter := by
  rw [Emitter.emit, Emitter.write, List.append_nil, List.length_nil, Nat.add_zero,
    Nat.mod_eq_of_lt (show trace.emitter.pos < 2 ^ 64 from trace.small)]

theorem emitTable_emitter (rows : List (List UInt8)) :
    (trace.emitTable rows).emitter = trace.emitter.emit rows.flatten := by
  unfold emitTable
  split
  · rename_i empty
    rw [empty, List.flatten_nil, emit_nil]
  · exact trace.emit_emitter _

end Trace

theorem BlobDictionaryBuilder.writes_flatten (dict : BlobDictionaryBuilder) :
    dict.writes.flatten = dict.write := by
  rw [writes, write, List.flatten_cons, List.flatten_cons, List.append_assoc]

open Trace

theorem traceTextDictionaries_emitter (dicts : List BlobDictionaryBuilder) (trace : Trace) :
    ((traceTextDictionaries dicts trace).1.emitter, (traceTextDictionaries dicts trace).2) =
      writeTextDictionaries dicts trace.emitter := by
  induction dicts generalizing trace with
  | nil => rfl
  | cons dict rest inductionHypothesis =>
    have written := inductionHypothesis ((trace.padTo 8).write dict.writes dict.serializedSize)
    rw [write_emitter, BlobDictionaryBuilder.writes_flatten, padTo_emitter] at written
    have same : (trace.padTo 8).pos = (trace.emitter.padTo 8).pos :=
      congrArg Emitter.pos (trace.padTo_emitter 8)
    rw [writeTextDictionaries, ← written, ← same]
    rfl

theorem traceValueDictionary_emitter (layout : Layout) (tuples : List (List UInt64))
    (trace : Trace) :
    ((traceValueDictionary layout tuples trace).1.emitter,
      (traceValueDictionary layout tuples trace).2) =
      writeValueDictionary layout tuples trace.emitter := by
  have same : (trace.padTo 8).pos = (trace.emitter.padTo 8).pos :=
    congrArg Emitter.pos (trace.padTo_emitter 8)
  unfold traceValueDictionary writeValueDictionary
  cases writeFixedDictionaryHeader tuples.length layout.valueStride with
  | error error => simp only [padTo_emitter]
  | ok head =>
    simp only [emitAll_emitter, write_emitter, padTo_emitter, writeTuples_eq, same,
      List.flatten_singleton]

theorem traceDictionaries_emitter (builder : Builder) (layout : Layout) (trace : Trace) :
    ((traceDictionaries builder layout trace).1.emitter,
      (traceDictionaries builder layout trace).2) =
      writeDictionaries builder layout trace.emitter := by
  have texts := traceTextDictionaries_emitter builder.textDicts trace
  unfold traceDictionaries writeDictionaries
  rw [← texts]
  simp only
  split
  · rw [← traceValueDictionary_emitter]
    rcases traceValueDictionary layout builder.tuples
      (traceTextDictionaries builder.textDicts trace).1 with ⟨last, _ | _⟩ <;> rfl
  · rfl

theorem tracePartitions_emitter (builder : Builder) (layout : Layout)
    (runs : List (List StagedRow)) (stretches : List (Nat × Nat)) (trace : Trace) :
    ((tracePartitions builder layout runs stretches trace).1.emitter,
      (tracePartitions builder layout runs stretches trace).2) =
      writePartitions builder layout runs stretches trace.emitter := by
  induction runs generalizing stretches trace with
  | nil => cases stretches <;> rfl
  | cons run runs inductionHypothesis =>
    cases stretches with
    | nil => rfl
    | cons stretch stretches =>
      rw [writePartitions, writeRecords_eq, writeRemapTable_eq, ← emitAll_emitter,
        ← emitAll_emitter, ← inductionHypothesis, tracePartitions]
      rcases tracePartitions builder layout runs stretches ((trace.emitAll
        ((planPartition builder layout run stretch).remapTable.map (leBytes 4))).emitAll
          (run.map (encodeRecord builder layout (planPartition builder layout run stretch))))
        with ⟨last, _ | _⟩ <;> rfl

theorem traceSchema_emitter (builder : Builder) (layout : Layout) (dir : DirLayout)
    (dicts : List DictEntry) (valueDict : Nat) (trace : Trace) :
    (traceSchema builder layout dir dicts valueDict trace).emitter =
      writeSchema builder layout dir dicts valueDict trace.emitter := by
  unfold traceSchema writeSchema
  simp only
  split
  · rename_i empty
    rw [empty, emitTable_emitter, emitTable_emitter, emit_emitter, ← emit_emitter,
      ← emitTable_emitter, ← emitTable_emitter, emit_nil]
  · rw [emit_emitter, emitTable_emitter, emitTable_emitter, emit_emitter]

theorem traceTail_emitter (builder : Builder) (layout : Layout) (dicts : List DictEntry)
    (valueDict : Nat) (directory : List DirEntry) (trace : Trace) :
    (traceTail builder layout dicts valueDict directory trace).emitter =
      writeTail builder layout dicts valueDict directory trace.emitter := by
  have padded : (trace.padTo 8).pos = (trace.emitter.padTo 8).pos :=
    congrArg Emitter.pos (trace.padTo_emitter 8)
  unfold traceTail writeTail
  simp only [padded]
  generalize directoryLayoutFor (useDense builder.options directory) layout.addressWidth
    directory = dir
  generalize directorySlots (useDense builder.options directory) layout.addressWidth
    directory = slots
  have slotted : (((trace.padTo 8).emitAll (slots.map (encodeDirEntry dir))).padTo 8).emitter =
      (writeSlots dir slots (trace.emitter.padTo 8)).padTo 8 := by
    rw [padTo_emitter, emitAll_emitter, padTo_emitter, writeSlots_eq]
  generalize ((trace.padTo 8).emitAll (slots.map (encodeDirEntry dir))).padTo 8 = before at *
  rw [emit_emitter, traceSchema_emitter, slotted]
  have start : before.pos = ((writeSlots dir slots (trace.emitter.padTo 8)).padTo 8).pos :=
    congrArg Emitter.pos slotted
  have finish : (traceSchema builder layout dir dicts valueDict before).pos =
      (writeSchema builder layout dir dicts valueDict
        ((writeSlots dir slots (trace.emitter.padTo 8)).padTo 8)).pos := by
    rw [← slotted]
    exact congrArg Emitter.pos (traceSchema_emitter builder layout dir dicts valueDict before)
  rw [start, finish]

/-- The writer that is told by its writes is the plain one. -/
theorem traceImage_emitter (builder : Builder) (layout : Layout) (rows : List StagedRow) :
    ((traceImage builder layout rows).1.emitter, (traceImage builder layout rows).2) =
      writeImage builder layout rows := by
  unfold traceImage writeImage
  have head : (Trace.start.emit header.encode).emitter = Emitter.start.emit header.encode :=
    emit_emitter _ _
  rw [← head, ← traceDictionaries_emitter]
  rcases traceDictionaries builder layout (Trace.start.emit header.encode) with
    ⟨trace, _ | ⟨dicts, valueDict⟩⟩
  · rfl
  · simp only
    rw [← padTo_emitter, ← tracePartitions_emitter]
    rcases tracePartitions builder layout (partitionRuns rows) layout.stretches (trace.padTo 8)
      with ⟨last, _ | partitions⟩
    · rfl
    · simp only [traceTail_emitter]

/-- What `finish` passes to its sink, put together, is the image. -/
theorem finishChunks_flatten (builder : Builder) :
    (finishChunks builder).flatten = (finish builder).image := by
  unfold finishChunks finish
  split
  · rfl
  · simp only
    cases ({ builder with finished := true }.ensureStaging .keyed).staging with
    | none => rfl
    | some owned =>
      simp only
      unfold ownedChunks finishOwned
      simp only
      generalize { { builder with finished := true }.ensureStaging .keyed with
        staging := some { owned with
          staging := (orderStaging ({ builder with finished := true }.ensureStaging .keyed)
            owned.staging).1 } } = ready
      cases (orderStaging ({ builder with finished := true }.ensureStaging .keyed)
        owned.staging).2 with
      | error error => rfl
      | ok sorted =>
        simp only
        rw [← traceImage_emitter]
        rcases traceImage ready (chooseLayout ready _) _ with ⟨trace, _ | partitions⟩ <;> rfl

end Mmpack
