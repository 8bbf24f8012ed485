/-
This file follows the writer's emissions. Every step appends to the sink, so a
block stays where it was put, and the counter is the number of bytes emitted as
long as that number is a 64-bit one. `Written` collects where the blocks of a
finished image lie.
-/

import Mmpack.Session

namespace Mmpack

open ByteList

namespace Emitter

/-! ### Appending -/

/-- The counter counts the bytes of the sink, while they are less than `2 ^ 64`. -/
def Exact (emitter : Emitter) : Prop :=
  emitter.out.length < 2 ^ 64 → emitter.pos = emitter.out.length

/-- What was emitted stays. -/
def Extends (earlier later : Emitter) : Prop := ∃ more, later.out = earlier.out ++ more

theorem extends_refl (emitter : Emitter) : Extends emitter emitter :=
  ⟨[], (List.append_nil _).symm⟩

theorem Extends.trans {first second third : Emitter} (step : Extends first second)
    (rest : Extends second third) : Extends first third := by
  obtain ⟨more, equation⟩ := step
  obtain ⟨more', equation'⟩ := rest
  exact ⟨more ++ more', by rw [equation', equation, List.append_assoc]⟩

theorem Extends.length_le {earlier later : Emitter} (extends' : Extends earlier later) :
    earlier.out.length ≤ later.out.length := by
  obtain ⟨more, equation⟩ := extends'
  rw [equation, List.length_append]
  omega

theorem Extends.holds {earlier later : Emitter} (extends' : Extends earlier later)
    {position : Nat} {block : List UInt8} (holds : Holds earlier.out position block) :
    Holds later.out position block := by
  obtain ⟨more, equation⟩ := extends'
  rw [equation]
  exact holds.append more

theorem exact_start : start.Exact := fun _ => rfl

theorem write_exact {emitter : Emitter} (exact' : emitter.Exact) (data : List UInt8) (size : Nat)
    (counted : size = data.length) : (emitter.write data size).Exact := by
  intro bounded
  simp only [write, List.length_append] at bounded ⊢
  rw [exact' (by omega), counted, Nat.mod_eq_of_lt bounded]

theorem write_extends (emitter : Emitter) (data : List UInt8) (size : Nat) :
    Extends emitter (emitter.write data size) := ⟨data, rfl⟩

theorem emit_exact {emitter : Emitter} (exact' : emitter.Exact) (data : List UInt8) :
    (emitter.emit data).Exact := write_exact exact' _ _ rfl

theorem emit_extends (emitter : Emitter) (data : List UInt8) :
    Extends emitter (emitter.emit data) := ⟨data, rfl⟩

theorem emit_holds (emitter : Emitter) (data : List UInt8) :
    Holds (emitter.emit data).out emitter.out.length data := holds_end _ _

theorem padTo_exact {emitter : Emitter} (exact' : emitter.Exact) (alignment : Nat) :
    (emitter.padTo alignment).Exact := emit_exact exact' _

theorem padTo_extends (emitter : Emitter) (alignment : Nat) :
    Extends emitter (emitter.padTo alignment) := emit_extends _ _

theorem padTo_length_le (emitter : Emitter) (alignment : Nat) :
    (emitter.padTo alignment).out.length ≤ emitter.out.length + (alignment - 1) := by
  have bound := alignUp_le emitter.pos alignment
  rw [padTo, emit, write, List.length_append, List.length_replicate]
  omega

theorem padTo_length {emitter : Emitter} (exact' : emitter.Exact)
    (short : emitter.out.length + 8 ≤ 2 ^ 64) :
    (emitter.padTo 8).out.length = 8 * ((emitter.out.length + 7) / 8) := by
  have pos := exact' (by omega)
  rw [padTo, emit, write, List.length_append, List.length_replicate, pos, alignUp_eight short]
  omega

/-- Emit the blocks of a list one by one. -/
def emitAll (emitter : Emitter) (blocks : List (List UInt8)) : Emitter :=
  blocks.foldl emit emitter

theorem emitAll_exact {emitter : Emitter} (exact' : emitter.Exact) (blocks : List (List UInt8)) :
    (emitter.emitAll blocks).Exact := by
  induction blocks generalizing emitter with
  | nil => exact exact'
  | cons block rest inductionHypothesis => exact inductionHypothesis (emit_exact exact' block)

theorem emitAll_pos_lt {emitter : Emitter} (bound : emitter.pos < 2 ^ 64)
    (blocks : List (List UInt8)) : (emitter.emitAll blocks).pos < 2 ^ 64 := by
  induction blocks generalizing emitter with
  | nil => exact bound
  | cons block rest inductionHypothesis =>
    exact inductionHypothesis (Nat.mod_lt _ (Nat.two_pow_pos 64))

theorem emitAll_out (emitter : Emitter) (blocks : List (List UInt8)) :
    (emitter.emitAll blocks).out = emitter.out ++ blocks.flatten := by
  induction blocks generalizing emitter with
  | nil => exact (List.append_nil _).symm
  | cons block rest inductionHypothesis =>
    rw [List.flatten_cons, ← List.append_assoc]
    exact inductionHypothesis (emitter.emit block)

theorem emitAll_extends (emitter : Emitter) (blocks : List (List UInt8)) :
    Extends emitter (emitter.emitAll blocks) := ⟨_, emitAll_out emitter blocks⟩

/-- Blocks of one size are found at its multiples. -/
theorem emitAll_holds (emitter : Emitter) {blocks : List (List UInt8)} {size : Nat}
    (uniform : ∀ block ∈ blocks, block.length = size) (index : Nat)
    (bound : index < blocks.length) :
    Holds (emitter.emitAll blocks).out (emitter.out.length + index * size) blocks[index] := by
  rw [emitAll_out]
  exact (holds_end emitter.out blocks.flatten).trans (holds_flatten blocks size index uniform bound)

theorem emitAll_length (emitter : Emitter) {blocks : List (List UInt8)} {size : Nat}
    (uniform : ∀ block ∈ blocks, block.length = size) :
    (emitter.emitAll blocks).out.length = emitter.out.length + blocks.length * size := by
  rw [emitAll_out, List.length_append, flatten_length_of_uniform size uniform]

end Emitter

open Emitter

/-! ### The loops of the writer -/

theorem writeTuples_eq (layout : Layout) (tuples : List (List UInt64)) (emitter : Emitter) :
    writeTuples layout tuples emitter = emitter.emitAll (tuples.map (encodeTuple layout)) := by
  induction tuples generalizing emitter with
  | nil => rfl
  | cons tuple rest inductionHypothesis => exact inductionHypothesis _

theorem writeRemapTable_eq (table : List Nat) (emitter : Emitter) :
    writeRemapTable table emitter = emitter.emitAll (table.map (leBytes 4)) := by
  induction table generalizing emitter with
  | nil => rfl
  | cons global rest inductionHypothesis => exact inductionHypothesis _

theorem writeRecords_eq (builder : Builder) (layout : Layout) (plan : PartitionPlan)
    (rows : List StagedRow) (emitter : Emitter) :
    writeRecords builder layout plan rows emitter =
      emitter.emitAll (rows.map (encodeRecord builder layout plan)) := by
  induction rows generalizing emitter with
  | nil => rfl
  | cons row rest inductionHypothesis => exact inductionHypothesis _

theorem writeSlots_eq (dir : DirLayout) (slots : List DirEntry) (emitter : Emitter) :
    writeSlots dir slots emitter = emitter.emitAll (slots.map (encodeDirEntry dir)) := by
  induction slots generalizing emitter with
  | nil => rfl
  | cons slot rest inductionHypothesis => exact inductionHypothesis _

/-! ### Tuples and records -/

/-- Storing a tuple keeps the memory that was there. -/
theorem encodeTupleInto_length (layout : Layout) (values : List UInt64) (out : Nat)
    (buffer : Buffer) :
    max buffer.bytes.length (out + layout.valueStride) ≤
      (encodeTupleInto layout values out buffer).bytes.length := by
  refine le_trans (Nat.le_of_eq ?_) (Buffer.storeAll_length _ _)
  rw [Buffer.store_length, List.length_replicate]

/-- A tuple is its fields stored over zeros. -/
theorem encodeTuple_eq_foldl (layout : Layout) (values : List UInt64) :
    encodeTuple layout values = (layout.descs.zip values).foldl
      (fun out field => overwrite out field.1.offset (fieldBytes field))
      (List.replicate layout.valueStride 0) := by
  have cleared := @Buffer.take_store_front (.zeros layout.valueStride)
    (List.replicate layout.valueStride 0)
  rw [List.length_replicate] at cleared
  rw [encodeTuple, tupleScratch, encodeTupleInto, Buffer.take_storeAll _
    (by rw [Buffer.store_length, List.length_replicate]; omega), cleared]
  simp only [Nat.zero_add]

@[simp] theorem encodeTuple_length (layout : Layout) (values : List UInt64) :
    (encodeTuple layout values).length = layout.valueStride := by
  have length := encodeTupleInto_length layout values 0 (.zeros layout.valueStride)
  rw [encodeTuple, List.length_take_of_le]
  exact le_trans (by omega) length

/-- In a buffer cut off at the end of the tuple, a tuple is stored as a block. -/
theorem take_encodeTupleInto {layout : Layout} {values : List UInt64} {out count : Nat}
    {buffer : Buffer} (within : count ≤ buffer.bytes.length)
    (reaches : count ≤ out + layout.valueStride) :
    (encodeTupleInto layout values out buffer).bytes.take count =
      overwrite (buffer.bytes.take count) out (encodeTuple layout values) := by
  rw [encodeTupleInto, Buffer.take_storeAll _ (by rw [Buffer.store_length]; omega),
    Buffer.take_store within, encodeTuple_eq_foldl]
  exact foldl_overwrite_block _ (by
    rw [List.length_take_of_le within, List.length_replicate]
    exact reaches)

/-- The value part of a record. -/
def storedValue (builder : Builder) (layout : Layout) (plan : PartitionPlan) (row : StagedRow) :
    List UInt8 :=
  if layout.interned then leBytes (accessWidth (plan.refWidth layout)) (storedReference plan row)
  else encodeTuple layout (builder.tuples.getD row.tuple [])

/-- Whatever the buffer held, a record that is emitted is its parts stored over zeros. -/
theorem take_storeRecord (builder : Builder) (layout : Layout) (plan : PartitionPlan)
    (row : StagedRow) (record : Buffer) :
    (storeRecord builder layout plan row record).bytes.take (plan.stride layout) =
      overwrite (overwrite (List.replicate (plan.stride layout) 0) 0
        (storedAddress builder plan row)) plan.width (storedValue builder layout plan row) := by
  have cleared := @Buffer.take_store_front record (List.replicate (plan.stride layout) 0)
  have length := @Buffer.store_length record 0 (List.replicate (plan.stride layout) 0)
  rw [List.length_replicate] at cleared length
  have addressed : plan.stride layout ≤ ((record.store 0
      (List.replicate (plan.stride layout) 0)).store 0
        (storedAddress builder plan row)).bytes.length := by
    rw [Buffer.store_length]
    omega
  unfold storeRecord storeValue storedValue
  split
  · rw [Buffer.take_store addressed, Buffer.take_store (by omega), cleared]
  · rename_i inline
    rw [take_encodeTupleInto addressed, Buffer.take_store (by omega), cleared]
    rw [PartitionPlan.stride, if_neg inline]
    exact Nat.mod_le _ _

theorem encodeRecord_eq (builder : Builder) (layout : Layout) (plan : PartitionPlan)
    (row : StagedRow) : encodeRecord builder layout plan row =
      overwrite (overwrite (List.replicate (plan.stride layout) 0) 0
        (storedAddress builder plan row)) plan.width (storedValue builder layout plan row) :=
  take_storeRecord builder layout plan row _

@[simp] theorem encodeRecord_length (builder : Builder) (layout : Layout) (plan : PartitionPlan)
    (row : StagedRow) : (encodeRecord builder layout plan row).length = plan.stride layout := by
  rw [encodeRecord_eq, overwrite_length, overwrite_length, List.length_replicate]

/-! ### Dictionaries -/

/-- A text dictionary is written where its entry says. -/
theorem writeTextDictionaries_spec (dicts : List BlobDictionaryBuilder) {emitter : Emitter}
    (exact' : emitter.Exact) :
    (writeTextDictionaries dicts emitter).1.Exact ∧
      Extends emitter (writeTextDictionaries dicts emitter).1 ∧
      (writeTextDictionaries dicts emitter).2.length = dicts.length ∧
      ((writeTextDictionaries dicts emitter).1.out.length < 2 ^ 64 →
        ∀ entry ∈ (writeTextDictionaries dicts emitter).2.zip dicts,
          entry.1.size = entry.2.serializedSize ∧ emitter.out.length ≤ entry.1.offset ∧
            Holds (writeTextDictionaries dicts emitter).1.out entry.1.offset entry.2.write) := by
  induction dicts generalizing emitter with
  | nil => exact ⟨exact', extends_refl _, rfl, fun _ entry member => nomatch member⟩
  | cons dict rest inductionHypothesis =>
    have padded := padTo_exact exact' 8
    have written := write_exact padded dict.write dict.serializedSize
      (BlobDictionaryBuilder.write_length dict).symm
    obtain ⟨restExact, restExtends, restLength, restHolds⟩ := inductionHypothesis written
    have step : Extends (emitter.padTo 8)
        ((emitter.padTo 8).write dict.write dict.serializedSize) := write_extends _ _ _
    have pad := padTo_extends emitter 8
    simp only [writeTextDictionaries]
    refine ⟨restExact, (pad.trans step).trans restExtends, by rw [List.length_cons,
      List.length_cons, restLength], fun bounded entry member => ?_⟩
    rw [List.zip_cons_cons, List.mem_cons] at member
    rcases member with rfl | later
    · have place : (emitter.padTo 8).pos = (emitter.padTo 8).out.length :=
        padded (lt_of_le_of_lt (step.trans restExtends).length_le bounded)
      refine ⟨rfl, ?_, ?_⟩
      · simp only [place]
        exact pad.length_le
      · simp only [place]
        exact restExtends.holds (holds_end _ _)
    · obtain ⟨size, start, holds⟩ := restHolds bounded entry later
      exact ⟨size, le_trans (pad.trans step).length_le start, holds⟩

/-- The composite dictionary is written where its entry says. -/
theorem writeValueDictionary_spec (layout : Layout) (tuples : List (List UInt64))
    {emitter : Emitter} (exact' : emitter.Exact) {entry : DictEntry}
    (accepted : (writeValueDictionary layout tuples emitter).2 = .ok entry) :
    (writeValueDictionary layout tuples emitter).1.Exact ∧
      Extends emitter (writeValueDictionary layout tuples emitter).1 ∧
      tuples.length < 2 ^ 32 ∧
      entry.size = fixedDictionarySize tuples.length layout.valueStride ∧
      ((writeValueDictionary layout tuples emitter).1.out.length < 2 ^ 64 →
        emitter.out.length ≤ entry.offset ∧
        entry.offset + dictHeaderSize + tuples.length * layout.valueStride =
          (writeValueDictionary layout tuples emitter).1.out.length ∧
        Holds (writeValueDictionary layout tuples emitter).1.out entry.offset
          (fixedHeader tuples.length layout.valueStride).encode ∧
        ∀ (t : Nat) (inside : t < tuples.length),
          Holds (writeValueDictionary layout tuples emitter).1.out
            (entry.offset + dictHeaderSize + t * layout.valueStride)
            (encodeTuple layout tuples[t])) := by
  unfold writeValueDictionary writeFixedDictionaryHeader at accepted ⊢
  by_cases many : 2 ^ 32 - 1 < tuples.length
  · simp only [many, if_true] at accepted
    nomatch accepted
  · simp only [many, if_false] at accepted ⊢
    obtain rfl := Except.ok.inj accepted
    have headLength := DictHeader.encode_length (fixedHeader tuples.length layout.valueStride)
    have padded := padTo_exact exact' 8
    have written := write_exact padded _ dictHeaderSize headLength.symm
    have pad := padTo_extends emitter 8
    have step : Extends (emitter.padTo 8) ((emitter.padTo 8).write
        (fixedHeader tuples.length layout.valueStride).encode dictHeaderSize) :=
      write_extends _ _ _
    have uniform : ∀ block ∈ tuples.map (encodeTuple layout),
        block.length = layout.valueStride := by simp
    rw [writeTuples_eq]
    refine ⟨emitAll_exact written _, (pad.trans step).trans (emitAll_extends _ _), by omega, rfl,
      fun bounded => ?_⟩
    have place : (emitter.padTo 8).pos = (emitter.padTo 8).out.length :=
      padded (lt_of_le_of_lt (step.trans (emitAll_extends _ _)).length_le bounded)
    have headEnd : ((emitter.padTo 8).write (fixedHeader tuples.length layout.valueStride).encode
        dictHeaderSize).out.length = (emitter.padTo 8).out.length + dictHeaderSize := by
      rw [write, List.length_append, headLength]
    simp only [place]
    refine ⟨pad.length_le, ?_, (emitAll_extends _ _).holds (holds_end _ _), fun t inside => ?_⟩
    · rw [emitAll_length _ uniform, headEnd, List.length_map]
    · have found := emitAll_holds ((emitter.padTo 8).write
        (fixedHeader tuples.length layout.valueStride).encode dictHeaderSize) uniform t
        (by rwa [List.length_map])
      rwa [headEnd, List.getElem_map] at found

/-! ### Records -/

/-- A partition's rows and how they are written. -/
abbrev Piece := List StagedRow × PartitionPlan

/-- The partitions of an image. -/
def piecesOf (builder : Builder) (layout : Layout) (rows : List StagedRow) : List Piece :=
  ((partitionRuns rows).zip layout.stretches).map fun part =>
    (part.1, planPartition builder layout part.1 part.2)

/-- The bytes of a partition: its remap table, then its records. -/
def pieceBlock (builder : Builder) (layout : Layout) (piece : Piece) : List UInt8 :=
  (piece.2.remapTable.map (leBytes 4)).flatten ++
    (piece.1.map (encodeRecord builder layout piece.2)).flatten

/-- The partition of a run. -/
def partitionOfRun (run : List StagedRow) : UInt64 := (run.map (·.partition)).headD 0

/-- The directory slots of partitions written one after the other from `start` on. -/
def entriesFrom (builder : Builder) (layout : Layout) : Nat → List Piece → List DirEntry
  | _, [] => []
  | start, piece :: rest =>
    slotOf piece.2 (partitionOfRun piece.1) start piece.1.length ::
      entriesFrom builder layout (start + (pieceBlock builder layout piece).length) rest

theorem pieceBlock_length (builder : Builder) (layout : Layout) (piece : Piece) :
    (pieceBlock builder layout piece).length =
      piece.2.remapTable.length * 4 + piece.1.length * piece.2.stride layout := by
  rw [pieceBlock, List.length_append, flatten_length_of_uniform 4 (by simp),
    flatten_length_of_uniform (piece.2.stride layout) (by simp), List.length_map,
    List.length_map]

theorem writePartitions_spec (builder : Builder) (layout : Layout) (runs : List (List StagedRow))
    (stretches : List (Nat × Nat)) {emitter : Emitter} (exact' : emitter.Exact)
    {partitions : List (DirEntry × PartitionPlan)}
    (accepted : (writePartitions builder layout runs stretches emitter).2 = .ok partitions) :
    let pieces := (runs.zip stretches).map fun part =>
      (part.1, planPartition builder layout part.1 part.2)
    let after := (writePartitions builder layout runs stretches emitter).1
    after.Exact ∧ after.out = emitter.out ++ (pieces.map (pieceBlock builder layout)).flatten ∧
      partitions.map Prod.snd = pieces.map Prod.snd ∧
      (after.out.length < 2 ^ 64 →
        partitions.map Prod.fst = entriesFrom builder layout emitter.out.length pieces) := by
  induction runs generalizing stretches emitter partitions with
  | nil =>
    cases stretches with
    | nil =>
      simp only [writePartitions] at accepted ⊢
      obtain rfl := Except.ok.inj accepted
      exact ⟨exact', (List.append_nil _).symm, rfl, fun _ => rfl⟩
    | cons stretch stretches => nomatch accepted
  | cons run runs inductionHypothesis =>
    cases stretches with
    | nil => nomatch accepted
    | cons stretch stretches =>
      simp only [writePartitions] at accepted ⊢
      rw [writeRemapTable_eq, writeRecords_eq] at accepted ⊢
      generalize planned : planPartition builder layout run stretch = plan at accepted ⊢
      have afterExact := emitAll_exact (emitAll_exact exact' (plan.remapTable.map (leBytes 4)))
        (run.map (encodeRecord builder layout plan))
      have afterOut : ((emitter.emitAll (plan.remapTable.map (leBytes 4))).emitAll
          (run.map (encodeRecord builder layout plan))).out =
            emitter.out ++ pieceBlock builder layout (run, plan) := by
        rw [emitAll_out, emitAll_out, pieceBlock, List.append_assoc]
      generalize (emitter.emitAll (plan.remapTable.map (leBytes 4))).emitAll
        (run.map (encodeRecord builder layout plan)) = after at accepted afterExact afterOut ⊢
      cases written : writePartitions builder layout runs stretches after with
      | mk last result =>
        cases result with
        | error error =>
          rw [written] at accepted
          nomatch accepted
        | ok rest =>
          rw [written] at accepted
          obtain rfl := Except.ok.inj accepted
          obtain ⟨lastExact, lastOut, plans, slots⟩ :=
            @inductionHypothesis stretches _ afterExact rest (by rw [written])
          rw [written] at lastExact lastOut slots
          simp only at lastExact lastOut slots
          rw [afterOut] at lastOut
          have tail : last.out = emitter.out ++ (pieceBlock builder layout (run, plan) ++
              (((runs.zip stretches).map fun part =>
                (part.1, planPartition builder layout part.1 part.2)).map
                (pieceBlock builder layout)).flatten) := by
            rw [lastOut, List.append_assoc]
          refine ⟨lastExact, ?_, ?_, fun bounded => ?_⟩
          · rw [List.zip_cons_cons, List.map_cons, List.map_cons, List.flatten_cons, planned]
            exact tail
          · rw [List.zip_cons_cons, List.map_cons, List.map_cons, List.map_cons, plans, planned]
          · have place : emitter.pos = emitter.out.length := exact' (by
              rw [tail, List.length_append] at bounded
              omega)
            rw [List.zip_cons_cons, List.map_cons, List.map_cons, entriesFrom, planned,
              slots bounded, afterOut, List.length_append, place]
            rfl

end Mmpack
