/-
This file finds the partitions of a finished build in the table opened from its
image. Every slot with records is the slot of one partition, the records before it
are the rows before the partition, and the records of the partition lie as far apart
as the writer put them.
-/

import Mmpack.Stretches

namespace Mmpack

open ByteList Checked Cursor

/-! ### Kept items -/

section Kept

variable {Item : Type} {items : List Item}

/-- An item that is kept comes after the kept ones before it. -/
theorem filter_getElem? (keep : Item → Bool) {index : Nat} {item : Item}
    (located : items[index]? = some item) (kept : keep item = true) :
    (items.filter keep)[((items.take index).filter keep).length]? = some item ∧
      (items.filter keep).take ((items.take index).filter keep).length =
        (items.take index).filter keep := by
  obtain ⟨inside, rfl⟩ := List.getElem?_eq_some_iff.mp located
  have split : items.filter keep = (items.take index).filter keep ++
      items[index] :: (items.drop (index + 1)).filter keep := by
    conv_lhs => rw [← List.take_append_drop index items, List.filter_append,
      List.drop_eq_getElem_cons inside, List.filter_cons_of_pos kept]
  constructor
  · rw [split, List.getElem?_append_right (Nat.le_refl _), Nat.sub_self, List.getElem?_cons_zero]
  · rw [split, List.take_left]

theorem sum_filter_count (slots : List DirEntry) :
    ((slots.filter (fun d => d.count ≠ 0)).map (·.count)).sum = (slots.map (·.count)).sum := by
  induction slots with
  | nil => rfl
  | cons d rest inductionHypothesis =>
    by_cases empty : d.count = 0
    · rw [List.filter_cons_of_neg (by simpa using empty), inductionHypothesis, List.map_cons,
        List.sum_cons, empty, Nat.zero_add]
    · rw [List.filter_cons_of_pos (by simpa using empty), List.map_cons, List.sum_cons,
        inductionHypothesis, List.map_cons, List.sum_cons]

end Kept

namespace Opens

variable {build : Build} {builder : Builder} {places : Places} {table : Table}

/-! ### Slots and partitions -/

/-- The partitions of a build. -/
abbrev pieces (builder : Builder) : List Piece := piecesOf builder builder.layout builder.rows

/-- The slot of a partition. -/
abbrev slotOfPiece (builder : Builder) (places : Places) (j : Nat) (piece : Piece) : DirEntry :=
  slotOf piece.2 (partitionOfRun piece.1) (pieceStart builder builder.layout builder.rows places j)
    piece.1.length

theorem entry_of_slot (opens : Opens build builder places table) {s j : Nat} {piece : Piece}
    (located : (pieces builder)[j]? = some piece)
    (packed : (slotsOf builder builder.layout builder.rows places)[s]? =
      some (slotOfPiece builder places j piece)) :
    table.entry s = slotOfPiece builder places j piece := by
  have member : slotOfPiece builder places j piece ∈
      directoryOf builder builder.layout builder.rows places :=
    List.mem_of_getElem? ((directoryOf_getElem? j).trans (congrArg _ located))
  have small := opens.written.entry_small table.image.length_lt opens.built.few
    (chooseLayout_stretch_lt builder builder.rows) member
  rw [opens.entry packed, DirEntry.stored, Nat.mod_eq_of_lt small.addressWidth]

theorem countAt_eq (opens : Opens build builder places table) {s : Nat} {d : DirEntry}
    (packed : (slotsOf builder builder.layout builder.rows places)[s]? = some d) :
    table.countAt s = d.count := by
  rw [Table.countAt, opens.entry packed]
  rfl

/-- The records before a slot are those of the slots written before it. -/
theorem itemsBefore_slot (opens : Opens build builder places table) {s : Nat}
    (bound : s ≤ table.dirCount) :
    itemsBefore table.countAt s =
      (((slotsOf builder builder.layout builder.rows places).take s).map (·.count)).sum := by
  rw [List.map_take]
  refine itemsBefore_eq_sum (fun slot inside => ?_) (by rwa [List.length_map, ← opens.dirCount])
  rw [List.length_map] at inside
  rw [opens.countAt_eq (List.getElem?_eq_getElem inside), List.getElem_map]

theorem directoryOf_counts (places : Places) (j : Nat) :
    (((directoryOf builder builder.layout builder.rows places).take j).map (·.count)).sum =
      (((pieces builder).take j).map fun piece => piece.1.length).sum := by
  have counts (start : Nat) (list : List Piece) :
      (entriesFrom builder builder.layout start list).map (·.count) =
        list.map fun piece => piece.1.length := by
    induction list generalizing start with
    | nil => rfl
    | cons piece rest inductionHypothesis =>
      rw [entriesFrom, List.map_cons, inductionHypothesis]
      rfl
  rw [List.map_take, List.map_take, directoryOf, counts]

/-- A slot with records is that of a partition. -/
theorem piece_of_slot (opens : Opens build builder places table) {s : Nat}
    (inside : s < table.dirCount) (occupied : table.countAt s ≠ 0) :
    ∃ j piece, (pieces builder)[j]? = some piece ∧
      table.entry s = slotOfPiece builder places j piece ∧
      itemsBefore table.countAt s =
        (((pieces builder).take j).map fun piece => piece.1.length).sum := by
  rw [opens.dirCount] at inside
  have packed := List.getElem?_eq_getElem inside
  rw [opens.countAt_eq packed] at occupied
  obtain ⟨kept, before⟩ := filter_getElem? (fun d : DirEntry => d.count ≠ 0) packed
    (by simpa using occupied)
  rw [slotsOf_filter] at kept before
  rw [directoryOf_getElem?] at kept
  obtain ⟨piece, located, same⟩ := Option.map_eq_some_iff.mp kept
  refine ⟨_, piece, located,
    opens.entry_of_slot located (packed.trans (congrArg some same.symm)), ?_⟩
  rw [← directoryOf_counts places, before, sum_filter_count]
  exact opens.itemsBefore_slot (by rw [opens.dirCount]; exact Nat.le_of_lt inside)

/-- Every partition has its slot. -/
theorem slot_of_piece (opens : Opens build builder places table) {j : Nat} {piece : Piece}
    (located : (pieces builder)[j]? = some piece) :
    ∃ s < table.dirCount, table.entry s = slotOfPiece builder places j piece := by
  have member : slotOfPiece builder places j piece ∈
      directoryOf builder builder.layout builder.rows places :=
    List.mem_of_getElem? ((directoryOf_getElem? j).trans (congrArg _ located))
  rw [← slotsOf_filter] at member
  obtain ⟨s, packed⟩ := List.mem_iff_getElem?.mp (List.mem_filter.mp member).1
  refine ⟨s, ?_, opens.entry_of_slot located packed⟩
  rw [opens.dirCount]
  exact (List.getElem?_eq_some_iff.mp packed).1

/-! ### Strides -/

/-- What follows the address of a record, unless its partition is remapped. -/
def payload (layout : Layout) : Nat :=
  if layout.interned then layout.refWidth else layout.valueStride

theorem layout_addressWidth_lt (built : Built build builder) :
    builder.layout.addressWidth < 2 ^ 32 := by
  cases wide : builder.blob.isSome with
  | true =>
    rw [wide_layout wide]
    exact built.width
  | false =>
    rw [narrow_layout wide]
    exact lt_of_le_of_lt (exactWidthFor_le _) (by decide)

theorem payload_lt (builder : Builder) : payload builder.layout < 2 ^ 32 := by
  unfold payload
  split
  · exact lt_of_le_of_lt (widthFor_le _) (by decide)
  · exact chooseLayout_valueStride_lt builder builder.rows

theorem refWidth_le (builder : Builder) : builder.layout.refWidth ≤ 8 := widthFor_le _

/-- An accepted record stride was not cut short. -/
theorem valuePart (opens : Opens build builder places table) :
    builder.layout.addressWidth + payload builder.layout < 2 ^ 32 ∧
      table.valuePart + table.addressWidth =
        builder.layout.addressWidth + payload builder.layout := by
  have width := layout_addressWidth_lt opens.built
  have small := payload_lt builder
  have stride : table.schema.recordStride =
      (builder.layout.addressWidth + payload builder.layout) % 2 ^ 32 := by
    rw [SchemaView.recordStride, opens.head]
    rfl
  have least : table.addressWidth + payload builder.layout ≤ table.schema.recordStride := by
    rw [opens.valid.addressWidth_eq, payload]
    cases mode : builder.layout.interned with
    | true =>
      have interned : table.schema.interned = true := by
        rw [← opens.valid.interned_eq, opens.interned, mode]
      have bound := (opens.valid.schema.interned interned).2.2
      rw [← opens.valid.refWidth_eq, opens.refWidth mode] at bound
      exact bound
    | false =>
      have inline : table.schema.interned = false := by
        rw [← opens.valid.interned_eq, opens.interned, mode]
      have bound := opens.valid.schema.inline inline
      have same : table.schema.valueStride = builder.layout.valueStride := by
        rw [SchemaView.valueStride, opens.head]
        rfl
      rwa [same] at bound
  have split := opens.valid.stride_split
  rw [opens.addressWidth] at least split ⊢
  omega

theorem pieceBlock_length_le {piece : Piece} (plain : piece.2.schemaId = 0)
    (kind : PlanKind builder.layout piece.1 piece.2) :
    (pieceBlock builder builder.layout piece).length ≤
      piece.1.length * (piece.2.width + payload builder.layout) := by
  have table : piece.2.remapTable = [] := by
    cases kind with
    | plain _ remapTable => exact remapTable
    | remapped _ positive => exact absurd plain (Nat.ne_of_gt positive)
  have stride : piece.2.stride builder.layout ≤ piece.2.width + payload builder.layout := by
    rw [PartitionPlan.stride, PartitionPlan.refWidth, if_neg (not_not.mpr plain), payload]
    exact Nat.mod_le _ _
  rw [pieceBlock_length, table, List.length_nil, Nat.zero_mul, Nat.zero_add]
  exact Nat.mul_le_mul_left _ stride

theorem pieceStart_succ {j : Nat} {piece : Piece} (located : (pieces builder)[j]? = some piece) :
    pieceStart builder builder.layout builder.rows places (j + 1) =
      pieceStart builder builder.layout builder.rows places j +
        (pieceBlock builder builder.layout piece).length := by
  obtain ⟨inside, rfl⟩ := List.getElem?_eq_some_iff.mp located
  rw [pieceStart, pieceStart, List.take_succ_eq_append_getElem inside, List.map_append,
    List.sum_append, List.map_singleton, List.sum_singleton, Nat.add_assoc]

/-- Less than eight bytes lie between the end of a partition and what comes next. -/
theorem blockEnd_lt (opens : Opens build builder places table) {s j : Nat} {piece : Piece}
    (inside : s < table.dirCount) (occupied : table.countAt s ≠ 0)
    (located : (pieces builder)[j]? = some piece)
    (entry : table.entry s = slotOfPiece builder places j piece) :
    table.blockEnd (table.entry s) <
      pieceStart builder builder.layout builder.rows places (j + 1) + 8 := by
  by_cases last : j + 1 = (pieces builder).length
  · have within := ((opens.valid.slot inside).block occupied).2
    have close := opens.written.directoryClose
    have finish : pieceStart builder builder.layout builder.rows places (j + 1) =
        places.records + (recordBlock builder builder.layout builder.rows).length := by
      rw [pieceStart, last, List.take_length, recordBlock, List.length_flatten, List.map_map]
      rfl
    rw [opens.directory] at within
    omega
  · have inPieces : j + 1 < (pieces builder).length := by
      have bound := (List.getElem?_eq_some_iff.mp located).1
      omega
    have next := List.getElem?_eq_getElem inPieces
    obtain ⟨t, tInside, tEntry⟩ := opens.slot_of_piece next
    have increasing := List.pairwise_iff_getElem.mp (directoryOf_increasing builder places
      opens.written.stretches opens.built.ordered)
    have ordered : (table.entry s).partition < (table.entry t).partition := by
      have here : (directoryOf builder builder.layout builder.rows places)[j]? =
          some (slotOfPiece builder places j piece) :=
        (directoryOf_getElem? j).trans (congrArg _ located)
      have after : (directoryOf builder builder.layout builder.rows places)[j + 1]? =
          some (slotOfPiece builder places (j + 1) (pieces builder)[j + 1]) :=
        (directoryOf_getElem? (j + 1)).trans (congrArg _ next)
      obtain ⟨inside', same⟩ := List.getElem?_eq_some_iff.mp here
      obtain ⟨inside'', same'⟩ := List.getElem?_eq_some_iff.mp after
      have step := increasing j (j + 1) inside' inside'' (Nat.lt_succ_self j)
      rwa [same, same', ← entry, ← tEntry] at step
    have later := opens.valid.slot_lt_of_partition_lt ordered inside
    have ends := opens.valid.blockEnd_le_blocksEnd later (Nat.le_of_lt tInside) occupied
    have tOccupied : (table.entry t).count ≠ 0 := by
      rw [tEntry]
      exact Nat.ne_of_gt (List.length_pos_iff.mpr
        (partitionRuns_ne_nil (List.mem_of_getElem? (piecesOf_getElem? next).1)))
    have start := ((opens.valid.slot tInside).block tOccupied).1
    have place : (table.entry t).offset =
        pieceStart builder builder.layout builder.rows places (j + 1) := by
      rw [tEntry]
      rfl
    omega

/-- The reader's stride of a partition is the writer's. Addresses too long for their byte occur
only where all partitions are remapped. -/
theorem stride (opens : Opens build builder places table) {s j : Nat} {piece : Piece}
    (inside : s < table.dirCount) (occupied : table.countAt s ≠ 0)
    (located : (pieces builder)[j]? = some piece)
    (entry : table.entry s = slotOfPiece builder places j piece) :
    table.strideOf (table.entry s) = piece.2.stride builder.layout ∧
      table.strideOf (table.entry s) = piece.2.width +
        (if builder.layout.interned then piece.2.refWidth builder.layout
          else builder.layout.valueStride) := by
  obtain ⟨run, stretch, priced, planned⟩ := piecesOf_getElem? located
  have kind := planPartition_kind builder builder.layout piece.1 stretch
  rw [← planned] at kind
  obtain ⟨noWrap, part⟩ := opens.valuePart
  have byte := opens.valid.addressWidth_lt
  have bound := Table.strideOf_lt opens.valid inside
  suffices whole : table.strideOf (table.entry s) = piece.2.width +
      (if builder.layout.interned then piece.2.refWidth builder.layout
        else builder.layout.valueStride) by
    refine ⟨?_, whole⟩
    rw [PartitionPlan.stride, ← whole, Nat.mod_eq_of_lt bound]
  by_cases remapped : piece.2.schemaId = 0
  · have tail : (if builder.layout.interned then piece.2.refWidth builder.layout
        else builder.layout.valueStride) = payload builder.layout := by
      rw [PartitionPlan.refWidth, if_neg (not_not.mpr remapped), payload]
    have read : table.strideOf (table.entry s) = piece.2.width + table.valuePart := by
      rw [Table.strideOf, entry]
      simp only [slotOf, remapped, ne_eq, not_true_eq_false, if_false]
    rw [tail, read]
    by_contra different
    -- The reader's records would reach past the end of the partition.
    have excess : payload builder.layout + 2 ^ 8 ≤ table.valuePart := by
      rw [opens.addressWidth] at part byte
      omega
    have finish := opens.blockEnd_lt inside occupied located entry
    have short := pieceBlock_length_le remapped kind
    rw [pieceStart_succ located, Table.blockEnd, read, entry] at finish
    simp only [slotOf] at finish
    have rows : 0 < piece.1.length := by
      have count : table.countAt s = piece.1.length := by
        rw [Table.countAt, entry]
        rfl
      omega
    have grows : piece.1.length * (piece.2.width + payload builder.layout) +
        piece.1.length * 2 ^ 8 ≤ piece.1.length * (piece.2.width + table.valuePart) := by
      rw [← Nat.mul_add]
      exact Nat.mul_le_mul_left _ (by omega)
    omega
  · have interned : builder.layout.interned = true := by
      cases kind with
      | plain schemaId => exact absurd schemaId remapped
      | remapped interned => exact interned
    rw [Table.strideOf, entry]
    simp only [slotOf, PartitionPlan.refWidth, interned, ne_eq, remapped, not_false_eq_true,
      if_true]

end Opens

end Mmpack
