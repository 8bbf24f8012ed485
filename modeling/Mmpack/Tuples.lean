/-
This file identifies the records of an opened table. The record of rank `k` is row
`k` of the build, and the base of its value tuple, whether inline, interned or behind
a partition's own table, is where the tuple of that row was written.
-/

import Mmpack.Records

namespace Mmpack

open ByteList Checked Cursor

/-! ### The bytes of a record -/

section RecordBytes

variable {builder : Builder} {layout : Layout} {plan : PartitionPlan} {row : StagedRow}

theorem accessWidth_le (width : Nat) : accessWidth width ≤ width := by
  unfold accessWidth
  split <;> omega

theorem accessWidth_eq {width : Nat} (narrow : width ≤ 8) : accessWidth width = width :=
  if_neg (by omega)

theorem storedAddress_length_le (builder : Builder) (plan : PartitionPlan) (row : StagedRow) :
    (storedAddress builder plan row).length ≤ plan.width := by
  unfold storedAddress
  split
  · exact List.length_take_le _ _
  · rw [leBytes_length]
    exact accessWidth_le _

theorem storedValue_length_le (builder : Builder) (layout : Layout) (plan : PartitionPlan)
    (row : StagedRow) : (storedValue builder layout plan row).length ≤
    if layout.interned then plan.refWidth layout else layout.valueStride := by
  unfold storedValue
  split
  · rw [leBytes_length]
    exact accessWidth_le _
  · rw [encodeTuple_length]

/-- The value part is found behind the address. -/
theorem encodeRecord_value (builder : Builder) (row : StagedRow)
    (room : plan.stride layout = plan.width +
      if layout.interned then plan.refWidth layout else layout.valueStride) :
    slice (encodeRecord builder layout plan row) plan.width
      (storedValue builder layout plan row).length = storedValue builder layout plan row := by
  have length := storedValue_length_le builder layout plan row
  rw [encodeRecord_eq]
  exact slice_overwrite_self _ _ _ (by rw [overwrite_length, List.length_replicate]; omega)

theorem encodeRecord_address (builder : Builder) (row : StagedRow)
    (room : plan.stride layout = plan.width +
      if layout.interned then plan.refWidth layout else layout.valueStride) :
    slice (encodeRecord builder layout plan row) 0 (storedAddress builder plan row).length =
      storedAddress builder plan row := by
  have length := storedValue_length_le builder layout plan row
  have width := storedAddress_length_le builder plan row
  rw [encodeRecord_eq, slice_overwrite_of_disjoint
    (by rw [overwrite_length, List.length_replicate]; omega) (Or.inl (by omega))]
  exact slice_overwrite_self _ _ _ (by rw [List.length_replicate]; omega)

end RecordBytes

/-! ### Rows -/

/-- The record at a position is a row of a partition. -/
structure RowAt (builder : Builder) (table : Table) (it : Position) (piece : Piece)
    (row : StagedRow) : Prop where
  run : piece.1 ∈ partitionRuns builder.rows
  plan : piece.2 = planPartition builder builder.layout piece.1 (storedStretch builder piece.1)
  member : row ∈ piece.1
  located : builder.rows[rank table.countAt it]? = some row
  partition : (table.entry it.slot).partition = row.partition.toNat
  schemaId : (table.entry it.slot).schemaId = piece.2.schemaId
  remapCount : (table.entry it.slot).remapCount = piece.2.remapTable.length
  addressWidth : (table.entry it.slot).addressWidth = piece.2.width
  addressSkip : (table.entry it.slot).addressSkip = piece.2.skip
  stride : piece.2.stride builder.layout = piece.2.width +
    if builder.layout.interned then piece.2.refWidth builder.layout else builder.layout.valueStride
  record : Holds table.region (table.recordAt it.slot it.index)
    (encodeRecord builder builder.layout piece.2 row)
  remap : Holds table.region (table.entry it.slot).offset
    (piece.2.remapTable.map (leBytes 4)).flatten

namespace Opens

variable {build : Build} {builder : Builder} {places : Places} {table : Table}

theorem piece_run {j : Nat} {piece : Piece} (located : (pieces builder)[j]? = some piece) :
    piece.1 ∈ partitionRuns builder.rows ∧
      piece.2 = planPartition builder builder.layout piece.1 (storedStretch builder piece.1) := by
  obtain ⟨run, stretch, priced, planned⟩ := piecesOf_getElem? located
  rw [layout_stretches, List.getElem?_map, run] at priced
  obtain rfl := Option.some.inj priced
  exact ⟨List.mem_of_getElem? run, planned⟩

/-- The rows of a partition come after those of the partitions before it. -/
theorem rows_getElem? (opens : Opens build builder places table) {j i : Nat} {piece : Piece}
    (located : (pieces builder)[j]? = some piece) (bound : i < piece.1.length) :
    builder.rows[(((pieces builder).take j).map fun other => other.1.length).sum + i]? =
      piece.1[i]? := by
  obtain ⟨inside, rfl⟩ := List.getElem?_eq_some_iff.mp located
  have whole : ((pieces builder).map Prod.fst).flatten = builder.rows := by
    rw [piecesOf_runs opens.written.stretches, partitionRuns_flatten]
  have block := holds_flatten_getElem ((pieces builder).map Prod.fst) j (by rwa [List.length_map])
  rw [List.getElem_map, ← List.map_take, List.map_map, whole] at block
  exact block.getElem? bound

/-- Every record of the table is a row of the build, in the order of the rows. -/
theorem rowAt (opens : Opens build builder places table) {it : Position}
    (names : Names table.countAt table.dirCount it) :
    ∃ piece row, RowAt builder table it piece row := by
  obtain ⟨inside, below⟩ := names
  have occupied : table.countAt it.slot ≠ 0 := Nat.ne_of_gt (Nat.zero_lt_of_lt below)
  obtain ⟨j, piece, located, entry, before⟩ := opens.piece_of_slot inside occupied
  obtain ⟨strideEq, sum⟩ := opens.stride inside occupied located entry
  obtain ⟨run, plan⟩ := piece_run located
  have count : table.countAt it.slot = piece.1.length := by
    rw [Table.countAt, entry]
    rfl
  rw [count] at below
  have kind := planPartition_kind builder builder.layout piece.1 (storedStretch builder piece.1)
  rw [← plan] at kind
  have remapCount : (table.entry it.slot).remapCount = piece.2.remapTable.length := by
    rw [entry]
    exact Nat.mod_eq_of_lt kind.length_lt
  have block := (opens.written.piece located).1
  have offset : (table.entry it.slot).offset =
      pieceStart builder builder.layout builder.rows places j := by
    rw [entry]
    rfl
  rw [← offset] at block
  refine ⟨piece, piece.1[it.index], ?_⟩
  refine
    { run := run
      plan := plan
      member := List.getElem_mem below
      located := ?_
      partition := ?_
      schemaId := by rw [entry]; rfl
      remapCount := remapCount
      addressWidth := by rw [entry]; rfl
      addressSkip := by rw [entry]; rfl
      stride := by rw [← strideEq, sum]
      record := ?_
      remap := block.left }
  · rw [rank, before, opens.rows_getElem? located below, List.getElem?_eq_getElem below]
  · rw [partition_of_run run (List.getElem_mem below), entry]
    rfl
  · have records := holds_flatten (piece.1.map (encodeRecord builder builder.layout piece.2))
      (piece.2.stride builder.layout) it.index (by simp) (by rwa [List.length_map])
    rw [List.getElem_map] at records
    have tail := block.right
    rw [flatten_length_of_uniform 4 (by simp), List.length_map] at tail
    have place : table.recordAt it.slot it.index = (table.entry it.slot).offset +
        piece.2.remapTable.length * 4 + it.index * piece.2.stride builder.layout := by
      rw [Table.recordAt, Table.layout_records opens.valid inside, remapCount, ← strideEq]
      rfl
    rw [place]
    exact tail.trans records

/-! ### The dictionary table -/

theorem fieldCount (opens : Opens build builder places table) :
    table.schema.fieldCount = builder.schema.fields.length := by
  rw [SchemaView.fieldCount, opens.head, headOf, schemaHeader]
  simp only
  rw [descs_length opens.built.statCount]
  exact Nat.mod_eq_of_lt builder.schema.length_lt

theorem textDicts_lt (built : Built build builder) : builder.textDicts.length < 2 ^ 32 := by
  rw [built.dictCount]
  exact lt_of_le_of_lt List.countP_le_length builder.schema.length_lt

theorem dictAt (opens : Opens build builder places table) {j : Nat} {e : DictEntry}
    (located : places.dicts[j]? = some e) (offset : e.offset < 2 ^ 64) (size : e.size < 2 ^ 64) :
    table.schema.dictAt table.region j = e := by
  rw [SchemaView.dictAt, opens.valid.schema.dicts, opens.fields, opens.fieldCount]
  exact opens.written.dict_parse opens.built.statCount located offset size

/-- The composite dictionary is the last one. -/
theorem valueDict_eq (opens : Opens build builder places table)
    (interned : builder.layout.interned = true) :
    table.schema.valueDict = builder.textDicts.length := by
  rw [SchemaView.valueDict, opens.head, headOf, schemaHeader]
  simp only [interned, if_true]
  rw [(opens.written.composite interned).1, Nat.mod_eq_of_lt (textDicts_lt opens.built)]

/-- The number of dictionaries was not cut short, or the composite one would be past the table. -/
theorem dictCount (opens : Opens build builder places table) :
    table.schema.dictCount = places.dicts.length := by
  have total := opens.written.dictCount
  have few := textDicts_lt opens.built
  have count : table.schema.dictCount = places.dicts.length % 2 ^ 32 := by
    rw [SchemaView.dictCount, opens.head]
    rfl
  cases mode : builder.layout.interned with
  | false =>
    rw [mode] at total
    simp only [Bool.false_eq_true, if_false, Nat.add_zero] at total
    rw [count, Nat.mod_eq_of_lt (by omega)]
  | true =>
    have interned : table.schema.interned = true := by
      rw [← opens.valid.interned_eq, opens.interned, mode]
    have inTable := (opens.valid.schema.interned interned).2.1
    rw [opens.valueDict_eq mode] at inTable
    rw [mode] at total
    simp only [if_true] at total
    omega

theorem valueDict_view (opens : Opens build builder places table)
    (interned : builder.layout.interned = true) :
    ∃ e, TuplesWritten builder.layout builder.tuples table.region places.records e ∧
      table.valueDict =
        { elements := e.offset + dictHeaderSize, count := builder.tuples.length
          elemSize := builder.layout.valueStride } := by
  obtain ⟨-, e, located, tuples⟩ := opens.written.composite interned
  have mode : table.schema.interned = true := by
    rw [← opens.valid.interned_eq, opens.interned, interned]
  have short : table.region.length < 2 ^ 64 := table.image.length_lt
  have within := opens.written.records.within
  have finish := tuples.finish
  have size := tuples.size
  have found := opens.dictAt located (by omega) (by omega)
  obtain ⟨-, inTable, -⟩ := opens.valid.schema.interned mode
  obtain ⟨-, composite, -⟩ := opens.valid.dictionaries _ inTable
  obtain ⟨opened, -⟩ := composite mode rfl
  rw [opens.valueDict_eq interned, found, FixedDictionaryView.open_of_holds tuples.count
    (chooseLayout_valueStride_lt builder builder.rows) tuples.head (Nat.le_of_eq size.symm)]
    at opened
  exact ⟨e, tuples, (Except.ok.inj (Except.ok.inj opened)).symm⟩

/-! ### References -/

theorem mem_foldl_appearances (ids seen : List Nat) :
    (∀ id ∈ seen,
      id ∈ ids.foldl (fun seen id => if id ∈ seen then seen else seen ++ [id]) seen) ∧
      ∀ id ∈ ids,
        id ∈ ids.foldl (fun seen id => if id ∈ seen then seen else seen ++ [id]) seen := by
  induction ids generalizing seen with
  | nil => exact ⟨fun id member => member, fun id member => nomatch member⟩
  | cons first rest inductionHypothesis =>
    obtain ⟨kept, added⟩ := inductionHypothesis (if first ∈ seen then seen else seen ++ [first])
    have here : first ∈ if first ∈ seen then seen else seen ++ [first] := by
      split <;> simp_all
    refine ⟨fun id member => kept id ?_, fun id member => ?_⟩
    · split
      · exact member
      · exact List.mem_append_left _ member
    · rcases List.mem_cons.mp member with rfl | later
      · exact kept _ here
      · exact added id later

theorem mem_distinctTuples {run : List StagedRow} {row : StagedRow} (member : row ∈ run) :
    row.tuple ∈ distinctTuples run :=
  (mem_foldl_appearances _ []).2 _ (List.mem_map_of_mem member)

/-- The tuple a row names. -/
theorem tuple_of_row (built : Built build builder) {k : Nat} {row : StagedRow}
    (located : builder.rows[k]? = some row) : ∃ entry values, build.log.sorted[k]? = some entry ∧
      builder.Stages row entry ∧ builder.tuples[row.tuple]? = some values ∧
        builder.Fills entry.sets values := by
  obtain ⟨inside, rfl⟩ := List.getElem?_eq_some_iff.mp located
  obtain ⟨lengths, stages⟩ := List.forall₂_iff_get.mp built.stages
  have staged := stages k inside (lengths ▸ inside)
  obtain ⟨values, found, fills⟩ := staged.tuple
  exact ⟨_, values, List.getElem?_eq_getElem (lengths ▸ inside), staged, found, fills⟩

/-- The reference of a record leads to the tuple of its row. -/
theorem referenceOf_eq (opens : Opens build builder places table) {it : Position} {piece : Piece}
    {row : StagedRow} (rowAt : RowAt builder table it piece row)
    (interned : builder.layout.interned = true) (few : builder.tuples.length < 2 ^ 32)
    (inTable : row.tuple < builder.tuples.length) :
    table.referenceOf it.slot it.index = some row.tuple := by
  have kind := planPartition_kind builder builder.layout piece.1 (storedStretch builder piece.1)
  rw [← rowAt.plan] at kind
  have room := rowAt.stride
  have width : (table.layout it.slot).refWidth = piece.2.refWidth builder.layout := by
    rw [Table.layout, PartitionPlan.refWidth, rowAt.schemaId, opens.refWidth interned]
  have narrow : piece.2.refWidth builder.layout ≤ 8 := by
    unfold PartitionPlan.refWidth
    split
    · cases kind with
      | plain schemaId => omega
      | remapped _ _ small => exact le_trans small (by decide)
    · exact refWidth_le builder
  have fits : storedReference piece.2 row < 256 ^ piece.2.refWidth builder.layout := by
    unfold storedReference PartitionPlan.refWidth
    cases kind with
    | plain schemaId =>
      rw [if_neg (not_not.mpr schemaId), if_neg (not_not.mpr schemaId)]
      have most : builder.layout.refWidth = widthFor (builder.tuples.length - 1) := by
        simp only [chooseLayout]
        rw [if_neg (by omega)]
      rw [most]
      exact lt_pow_widthFor (by omega) (by omega)
    | remapped _ positive _ remapTable _ fits =>
      rw [if_pos (Nat.ne_of_gt positive), if_pos (Nat.ne_of_gt positive), remapTable]
      exact lt_of_lt_of_le (List.idxOf_lt_length_of_mem (mem_distinctTuples rowAt.member)) fits
  have stored : storedValue builder builder.layout piece.2 row =
      leBytes (piece.2.refWidth builder.layout) (storedReference piece.2 row) := by
    rw [storedValue, if_pos interned, accessWidth_eq narrow]
  have value := encodeRecord_value builder row room
  rw [stored, leBytes_length] at value
  have read : valueAt table.region (table.recordAt it.slot it.index + piece.2.width)
      (piece.2.refWidth builder.layout) = storedReference piece.2 row := by
    rw [interned, if_pos rfl] at room
    rw [valueAt, rowAt.record.slice _ _ (by rw [encodeRecord_length]; omega), value,
      leNat_leBytes_of_lt fits]
  unfold Table.referenceOf
  simp only
  rw [width, rowAt.addressWidth, read, rowAt.schemaId, rowAt.remapCount]
  unfold storedReference
  cases kind with
  | plain schemaId => rw [if_neg (not_not.mpr schemaId), if_neg (not_not.mpr schemaId)]
  | remapped _ positive _ remapTable _ _ =>
    have member := mem_distinctTuples rowAt.member
    rw [← remapTable] at member
    have inRemap := List.idxOf_lt_length_of_mem member
    rw [if_pos (Nat.ne_of_gt positive), if_pos (Nat.ne_of_gt positive), if_neg (by omega)]
    have cut := holds_flatten (piece.2.remapTable.map (leBytes 4)) 4
      (piece.2.remapTable.idxOf row.tuple) (by simp) (by rwa [List.length_map])
    rw [List.getElem_map, List.getElem_idxOf] at cut
    rw [valueAt_of_holds_of_lt (rowAt.remap.trans cut) (by omega)]

/-- The base of a record's value tuple is where the tuple of its row was written. -/
theorem tuple (opens : Opens build builder places table) {it : Position} {piece : Piece}
    {row : StagedRow} (rowAt : RowAt builder table it piece row) {values : List UInt64}
    (found : builder.tuples[row.tuple]? = some values) :
    ∃ base, table.tupleBase it.slot it.index = some base ∧
      slice table.region base builder.layout.valueStride = encodeTuple builder.layout values := by
  obtain ⟨inTable, rfl⟩ := List.getElem?_eq_some_iff.mp found
  unfold Table.tupleBase
  rw [opens.interned]
  cases mode : builder.layout.interned with
  | false =>
    refine ⟨_, if_pos rfl, ?_⟩
    have room := rowAt.stride
    have value := encodeRecord_value builder row room
    have stored : storedValue builder builder.layout piece.2 row =
        encodeTuple builder.layout builder.tuples[row.tuple] := by
      rw [storedValue, if_neg (by simp [mode]), List.getD_eq_getElem?_getD, found]
      rfl
    rw [stored, encodeTuple_length] at value
    rw [mode, if_neg (by decide)] at room
    rw [rowAt.addressWidth, rowAt.record.slice _ _ (by rw [encodeRecord_length]; omega), value]
  | true =>
    obtain ⟨e, tuples, view⟩ := opens.valueDict_view mode
    rw [if_neg (by decide), opens.referenceOf_eq rowAt mode tuples.count inTable, view]
    refine ⟨e.offset + dictHeaderSize + row.tuple * builder.layout.valueStride, ?_, ?_⟩
    · exact if_neg (Nat.not_le.mpr inTable)
    · have stored := (tuples.tuple row.tuple inTable).slice_eq
      rwa [encodeTuple_length] at stored

end Opens

end Mmpack
