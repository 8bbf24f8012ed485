/-
This file shows that the reader accepts what the builder writes. Of the numbers an
image stores only three can outgrow their fields while the addresses are short: the
size of the names, the size of a value tuple and, where tuples are stored inline, the
stride of a record. As long as these stay below 4 GiB every test of the validator is
passed, whatever the layout.
-/

import Mmpack.Acceptance
import Mmpack.Contents
import Mmpack.Narrowing

namespace Mmpack

open ByteList Checked Cursor

/-- The widths of a directory's fields are legal ones. -/
theorem directoryLayoutFor_widths (dense : Bool) (addressWidth : Nat) (directory : List DirEntry) :
    let dir := directoryLayoutFor dense addressWidth directory
    (dir.partitionWidth = 0 ∨ isValidWidth dir.partitionWidth = true) ∧
      isValidWidth dir.offsetWidth = true ∧ isValidWidth dir.countWidth = true ∧
      (dir.remapWidth = 0 ∨ isValidWidth dir.remapWidth = true) ∧ dir.addrWidth ≤ 1 ∧
      dir.skipWidth ≤ 1 := by
  simp only [directoryLayoutFor, makeDirLayout]
  refine ⟨?_, widthFor_valid _, widthFor_valid _, ?_, ?_, ?_⟩
  · split
    · exact Or.inl rfl
    · exact Or.inr (widthFor_valid _)
  · split
    · exact Or.inr (widthFor_valid _)
    · exact Or.inl rfl
  · split <;> omega
  · split <;> omega

/-- The partitions of a dense directory are left out, and those of another are not. -/
theorem directoryLayoutFor_dense (dense : Bool) (addressWidth : Nat) (directory : List DirEntry) :
    decide ((directoryLayoutFor dense addressWidth directory).partitionWidth = 0) = dense := by
  simp only [directoryLayoutFor, makeDirLayout]
  cases dense with
  | true => rfl
  | false => exact decide_eq_false (Nat.ne_of_gt (widthFor_pos _))

/-- The image of a finished build whose numbers fit their fields. -/
structure Fitting (build : Build) (builder : Builder) (image : Image) (places : Places) : Prop where
  built : Built build builder
  written : Written builder builder.layout builder.rows image.bytes places
  names : (nameBlob builder.schema.fields).length < 2 ^ 32
  tuple : tupleSize builder < 2 ^ 32
  inline : builder.layout.interned = false →
    builder.layout.addressWidth + tupleSize builder < 2 ^ 32
  positive : 0 < builder.layout.addressWidth
  byte : builder.layout.addressWidth < 2 ^ 8

/-- The schema of an image as its builder left it. -/
def schemaView (builder : Builder) (places : Places) : SchemaView where
  head := headOf builder builder.layout builder.rows places
  fields := places.schema + schemaHeaderSize
  dicts := dictTable builder places
  names := dictTable builder places + places.dicts.length * dictEntrySize

/-- The footer of an image. -/
abbrev footer (builder : Builder) (places : Places) : Footer :=
  footOf builder builder.layout builder.rows places

namespace Fitting

variable {build : Build} {builder : Builder} {image : Image} {places : Places}

/-! ### Sizes -/

theorem few_fields (fitting : Fitting build builder image places) :
    8 * builder.schema.fields.length + 16 < 2 ^ 33 := builder.schema.few_fields fitting.names

theorem valueStride (fitting : Fitting build builder image places) :
    builder.layout.valueStride = tupleSize builder := by
  have few := fitting.few_fields
  have count := shapeFields_length fitting.built.statCount
  exact (placeFields_spec fitting.built.shape_narrow fitting.tuple (by omega) (by decide)).1

theorem dicts_length (fitting : Fitting build builder image places) :
    places.dicts.length ≤ builder.schema.fields.length + 1 := by
  have count := fitting.written.dictCount
  have texts := fitting.built.dictCount
  have most := @List.countP_le_length _ (fun decl : FieldDecl => decide (decl.kind = .text))
    builder.schema.fields
  split at count <;> omega

theorem fieldCount (fitting : Fitting build builder image places) :
    (schemaView builder places).fieldCount = builder.schema.fields.length := by
  have few := fitting.few_fields
  have length := descs_length fitting.built.statCount builder.rows
  exact (Nat.mod_eq_of_lt (by rw [length]; omega)).trans length

theorem dictCount (fitting : Fitting build builder image places) :
    (schemaView builder places).dictCount = places.dicts.length := by
  have few := fitting.few_fields
  have most := fitting.dicts_length
  exact Nat.mod_eq_of_lt (by omega)

theorem addressWidth (fitting : Fitting build builder image places) :
    (schemaView builder places).addressWidth = builder.layout.addressWidth :=
  Nat.mod_eq_of_lt fitting.byte

theorem nameBytes (fitting : Fitting build builder image places) :
    (schemaView builder places).head.nameBytes = (nameBlob builder.schema.fields).length :=
  Nat.mod_eq_of_lt fitting.names

theorem interned_iff : (schemaView builder places).interned = builder.layout.interned := by
  rw [SchemaView.interned, schemaView, headOf, schemaHeader]
  cases builder.layout.interned <;> rfl

/-- The record stride did not wrap around. -/
theorem record_lt (fitting : Fitting build builder image places) :
    builder.layout.addressWidth + Opens.payload builder.layout < 2 ^ 32 := by
  unfold Opens.payload
  split
  · have byte := fitting.byte
    have reference := Opens.refWidth_le builder
    omega
  · rename_i inline
    rw [fitting.valueStride]
    exact fitting.inline (Bool.not_eq_true _ ▸ inline)

theorem recordStride (fitting : Fitting build builder image places) :
    (schemaView builder places).recordStride =
      builder.layout.addressWidth + Opens.payload builder.layout := by
  have stored : (schemaView builder places).recordStride =
    (builder.layout.addressWidth + Opens.payload builder.layout) % 2 ^ 32 := rfl
  rw [stored, Nat.mod_eq_of_lt fitting.record_lt]

theorem valueStride_pos (fitting : Fitting build builder image places) :
    0 < builder.layout.valueStride := by
  have narrow := fitting.built.shape_narrow
  have count := shapeFields_length fitting.built.statCount
  have few := fitting.few_fields
  have some := List.length_pos_iff.mpr fitting.built.fields
  rw [fitting.valueStride, tupleSize]
  cases shape : shapeFields builder with
  | nil =>
    rw [shape, List.length_nil] at count
    omega
  | cons d rest =>
    rw [shape] at narrow count
    rw [List.length_cons] at count
    obtain ⟨least, small⟩ := narrow.head
    have start := (fieldStart_spec builder.options.alignFields 0 least small (by decide))
    have grows := (le_tupleEnd builder.options.alignFields
      (fieldStart builder.options.alignFields 0 d.width + d.width) narrow.tail (by omega)).1
    rw [tupleEnd]
    omega

theorem payload_pos (fitting : Fitting build builder image places) :
    0 < Opens.payload builder.layout := by
  unfold Opens.payload
  split
  · exact widthFor_pos _
  · exact fitting.valueStride_pos

/-! ### The schema -/

theorem schemaBlock_length (fitting : Fitting build builder image places) :
    (schemaBlock builder builder.layout builder.rows places).length =
      schemaHeaderSize + builder.schema.fields.length * fieldDescSize +
        places.dicts.length * dictEntrySize + (nameBlob builder.schema.fields).length := by
  rw [schemaBlock, List.length_append, List.length_append, List.length_append,
    SchemaHeader.encode_length, descBlock_length fitting.built.statCount,
    flatten_length_of_uniform dictEntrySize (by simp), List.length_map]

theorem header_valid (fitting : Fitting build builder image places) :
    SchemaView.HeaderValid (schemaView builder places).head := by
  have wellFormed : (dirLayoutOf builder builder.layout builder.rows places).WellFormed :=
    directoryLayoutFor_wellFormed _ _ _
  obtain ⟨partition, offset, count, remap, addr, skip⟩ := dirLayout_narrow wellFormed
  obtain ⟨partitionWidth, offsetWidth, countWidth, remapWidth, addrWidth, skipWidth⟩ :=
    directoryLayoutFor_widths (denseOf builder builder.layout builder.rows places)
      builder.layout.addressWidth (directoryOf builder builder.layout builder.rows places)
  have bits := fitting.built.addressBits
  have width : (schemaView builder places).head.addressWidth = builder.layout.addressWidth :=
    fitting.addressWidth
  have positive := fitting.positive
  have legal {stored width : Nat} (same : stored = width)
      (either : width = 0 ∨ isValidWidth width = true) :
      stored = 0 ∨ isValidWidth stored = true := same ▸ either
  have valid {stored width : Nat} (same : stored = width) (holds : isValidWidth width = true) :
      isValidWidth stored = true := same ▸ holds
  refine
    { addressWidth := by omega
      addressBits := ?_
      dirPartitionWidth := legal partition partitionWidth
      dirOffsetWidth := valid offset offsetWidth
      dirCountWidth := valid count countWidth
      dirRemapWidth := legal remap remapWidth
      dirAddrWidth := le_trans (Nat.le_of_eq addr) addrWidth
      dirSkipWidth := le_trans (Nat.le_of_eq skip) skipWidth
      mode := ?_
      valueStride := Or.inl (Nat.ne_of_gt fitting.valueStride_pos) }
  · simp only [schemaView, headOf, schemaHeader]
    split
    · exact Or.inr rfl
    · rw [Nat.mod_eq_of_lt (by omega)]
      exact Or.inl bits
  · simp only [schemaView, headOf, schemaHeader]
    split <;> decide

theorem descAt (fitting : Fitting build builder image places) {i : Nat} {decl : FieldDecl}
    (declared : builder.schema.fields[i]? = some decl) :
    ∃ place < 2 ^ 32, builder.layout.descs[i]? =
        some { fieldShape builder i decl with offset := place } ∧
      (schemaView builder places).descAt image.bytes i = writtenDesc builder i decl place :=
  fitting.written.desc_parse fitting.built.statCount declared

/-- The dictionary of a text field comes before the composite one, also where its index is cut
short. -/
theorem dictIndex_lt (fitting : Fitting build builder image places) {i : Nat} {decl : FieldDecl}
    (declared : builder.schema.fields[i]? = some decl) (isText : decl.kind = .text) {place : Nat} :
    (writtenDesc builder i decl place).dictIndex < builder.textDicts.length := by
  have slot := Builder.textSlot_lt fitting.built.dictCount declared isText
  have shape : (writtenDesc builder i decl place).dictIndex =
      Builder.textSlot builder.schema i % 2 ^ 16 := by
    simp only [writtenDesc, fieldShape, shapeField]
    rw [isText]
  rw [shape]
  exact lt_of_le_of_lt (Nat.mod_le _ _) slot

/-- The names of an image lie behind its dictionary table. -/
theorem holds_names (fitting : Fitting build builder image places) :
    Holds image.bytes (schemaView builder places).names (nameBlob builder.schema.fields) :=
  fitting.written.names fitting.built.statCount

theorem field_valid (fitting : Fitting build builder image places) {i : Nat} {decl : FieldDecl}
    (declared : builder.schema.fields[i]? = some decl) :
    SchemaView.FieldValid image.bytes (schemaView builder places)
      ((schemaView builder places).descAt image.bytes i) := by
  obtain ⟨place, -, located, desc⟩ := fitting.descAt declared
  have few := fitting.few_fields
  have count := shapeFields_length fitting.built.statCount
  have inside := placeFields_spec fitting.built.shape_narrow fitting.tuple (by omega) (by decide)
  have inTuple := inside.2.2 _ (List.mem_of_getElem? located)
  have succ := nameBlob_take_succ declared
  have whole := (holds_name declared).within
  have small : (nameBlob (builder.schema.fields.take i)).length < 2 ^ 32 := by
    have names := fitting.names
    rw [List.length_append, List.length_singleton] at whole
    omega
  have offset : (writtenDesc builder i decl place).nameOffset =
      (nameBlob (builder.schema.fields.take i)).length := Nat.mod_eq_of_lt small
  have code : (writtenDesc builder i decl place).kind = decl.kind.code :=
    fieldShape_kind builder i decl
  rw [List.length_append, List.length_singleton] at whole
  rw [desc]
  refine ⟨?_, ?_, ?_, fun isText => ?_, ?_, ?_⟩
  · rw [code]
    cases decl.kind <;> decide
  · rw [code]
    exact fieldShape_width builder i (builder.schema.declared _ (List.mem_of_getElem? declared))
  · exact le_trans inTuple.2 (Nat.le_of_eq fitting.valueStride.symm)
  · rw [code] at isText
    rw [fitting.dictCount]
    exact lt_of_lt_of_le (fitting.dictIndex_lt declared (FieldKind.code_injective isText))
      (Nat.le_of_lt_succ (by
      rw [fitting.written.dictCount]
      split <;> omega))
  · rw [fitting.nameBytes, offset]
    omega
  · rw [fitting.nameBytes, offset]
    refine (fitting.holds_names.trans (holds_name declared)).mem_slice ?_
      (List.mem_append_right _ (List.mem_singleton_self _))
    rw [List.length_append, List.length_singleton]
    omega

theorem schema_valid (fitting : Fitting build builder image places) :
    (schemaView builder places).Valid image.bytes places.schema
      (schemaBlock builder builder.layout builder.rows places).length := by
  have length := fitting.schemaBlock_length
  have names := fitting.nameBytes
  have namesAt : (schemaView builder places).names = places.schema + schemaHeaderSize +
      builder.schema.fields.length * fieldDescSize + places.dicts.length * dictEntrySize := rfl
  refine
    { large := by omega
      head := fitting.written.head_parse.symm
      magic := rfl
      fields := rfl
      dicts := by rw [fitting.fieldCount]; rfl
      names := by rw [fitting.dictCount]; rfl
      within := by omega
      header := fitting.header_valid
      interned := fun mode => ?_
      inline := fun mode => ?_
      field := fun i inside => ?_ }
  · rw [interned_iff] at mode
    have reference : (schemaView builder places).refWidth = builder.layout.refWidth := by
      simp only [SchemaView.refWidth, schemaView, headOf, schemaHeader, mode, if_true]
      exact Nat.mod_eq_of_lt (lt_of_le_of_lt (Opens.refWidth_le builder) (by decide))
    have index : (schemaView builder places).valueDict = places.valueDict := by
      simp only [SchemaView.valueDict, schemaView, headOf, schemaHeader, mode, if_true]
    have count := fitting.written.dictCount
    rw [if_pos mode] at count
    rw [reference, index, (fitting.written.composite mode).1, fitting.dictCount, count,
      fitting.addressWidth, fitting.recordStride, Opens.payload, if_pos mode]
    exact ⟨widthFor_valid _, Nat.lt_succ_of_le (Nat.mod_le _ _), Nat.le_refl _⟩
  · rw [interned_iff] at mode
    rw [fitting.addressWidth, fitting.recordStride, Opens.payload,
      if_neg (by rw [mode]; exact Bool.false_ne_true)]
    exact Nat.le_refl _
  · rw [fitting.fieldCount] at inside
    exact fitting.field_valid (List.getElem?_eq_getElem inside)

/-- A keyed build has integer addresses. -/
theorem keyed_narrow (fitting : Fitting build builder image places)
    (keyed : (schemaView builder places).hasKeyMapping = true) :
    (schemaView builder places).narrowAddress = true := by
  have narrow : builder.blob.isSome = false := by
    refine Bool.eq_false_iff.mpr fun wide => ?_
    have mode := fitting.built.wide.mp wide
    simp [SchemaView.hasKeyMapping, schemaView, headOf, schemaHeader, mode] at keyed
  have width := fitting.addressWidth
  rw [narrow_layout narrow] at width
  rw [SchemaView.addressWidth] at width
  rw [SchemaView.narrowAddress, width]
  exact decide_eq_true (exactWidthFor_le _)

theorem framed (fitting : Fitting build builder image places) :
    Table.Framed image (footer builder places) := by
  have short := image.length_lt
  have size : image.size = image.bytes.length := rfl
  have length := fitting.written.length
  have slots := fitting.written.slotsEnd
  have start := fitting.written.recordsStart
  have records := fitting.written.recordsEnd
  have parsed : Header.parse (slice image.bytes 0 headerSize) = header := by
    rw [← @Header.encode_length header rfl, fitting.written.header.slice_eq]
    exact Header.parse_encode rfl (by decide) (by decide)
  refine ⟨by omega, by rw [parsed]; rfl, by rw [parsed]; rfl,
    fitting.written.footer_parse short, rfl, rfl, ?_⟩
  rw [size, length]
  rfl

/-! ### The directory -/

/-- The table over an image before its directory is checked. -/
abbrev attached (builder : Builder) (image : Image) (places : Places) : Table :=
  Table.attach image (footer builder places) (schemaView builder places)
    ((schemaView builder places).recordStride - (schemaView builder places).addressWidth)

theorem attached_dir :
    (attached builder image places).dir = dirLayoutOf builder builder.layout builder.rows places :=
  directoryLayout_of_head rfl

theorem attached_dirCount (fitting : Fitting build builder image places) :
    (attached builder image places).dirCount =
      (slotsOf builder builder.layout builder.rows places).length :=
  Nat.mod_eq_of_lt (fitting.written.slots_lt image.length_lt)

theorem attached_valuePart (fitting : Fitting build builder image places) :
    (attached builder image places).valuePart = Opens.payload builder.layout := by
  have part : (attached builder image places).valuePart =
    (schemaView builder places).recordStride - (schemaView builder places).addressWidth := rfl
  rw [part, fitting.recordStride, fitting.addressWidth, Nat.add_sub_cancel_left]

theorem attached_entry (fitting : Fitting build builder image places) {k : Nat} {d : DirEntry}
    (located : (slotsOf builder builder.layout builder.rows places)[k]? = some d) :
    (attached builder image places).entry k = d.stored := by
  have parsed := fitting.written.entry_parse image.length_lt fitting.built.few
    fitting.built.ordered located
  rw [Table.entry, Table.slotBytes, attached_dir]
  exact parsed

/-- The slot of a partition with records is stored as it is. -/
theorem stored_eq (fitting : Fitting build builder image places) {j : Nat} {piece : Piece}
    (located : (Opens.pieces builder)[j]? = some piece) :
    (Opens.slotOfPiece builder places j piece).stored =
      Opens.slotOfPiece builder places j piece := by
  have member : Opens.slotOfPiece builder places j piece ∈
      directoryOf builder builder.layout builder.rows places :=
    List.mem_of_getElem? ((directoryOf_getElem? j).trans (congrArg _ located))
  have small := fitting.written.entry_small image.length_lt fitting.built.few
    (chooseLayout_stretch_lt builder builder.rows) member
  rw [DirEntry.stored, Nat.mod_eq_of_lt small.addressWidth]

/-- The stretch of a partition lies inside the address field. -/
theorem stretch_le (fitting : Fitting build builder image places) {j : Nat} {piece : Piece}
    (located : (Opens.pieces builder)[j]? = some piece) :
    piece.2.skip + piece.2.width ≤ builder.layout.addressWidth := by
  obtain ⟨run, stretch, priced, planned⟩ := piecesOf_getElem? located
  have cut := planPartition_stretch builder builder.layout piece.1 stretch
  rw [← planned] at cut
  rw [layout_stretches, List.getElem?_map, run] at priced
  obtain rfl := Option.some.inj priced
  have within := fitting.built.derivedStretch_le (List.mem_of_getElem? run)
  have byte := fitting.byte
  rw [storedStretch_eq, Prod.mk.injEq] at cut
  rw [cut.1, cut.2, Nat.mod_eq_of_lt (by omega), Nat.mod_eq_of_lt (by omega)]
  exact within

/-- The reader's stride of a partition is the writer's. -/
theorem strideOf_eq (fitting : Fitting build builder image places) {j : Nat} {piece : Piece}
    (located : (Opens.pieces builder)[j]? = some piece) :
    (attached builder image places).strideOf (Opens.slotOfPiece builder places j piece) =
      piece.2.stride builder.layout := by
  obtain ⟨run, stretch, priced, planned⟩ := piecesOf_getElem? located
  have kind := planPartition_kind builder builder.layout piece.1 stretch
  rw [← planned] at kind
  have within := fitting.stretch_le located
  have record := fitting.record_lt
  have byte := fitting.byte
  have part := fitting.attached_valuePart
  rw [PartitionPlan.stride, PartitionPlan.refWidth, Table.strideOf, part]
  cases kind with
  | plain schemaId _ =>
    simp only [slotOf, schemaId, ne_eq, not_true_eq_false, if_false]
    rw [Opens.payload] at record ⊢
    exact (Nat.mod_eq_of_lt (by omega)).symm
  | remapped interned positive small _ _ _ =>
    have bound : piece.2.schemaId ≤ 2 := small
    simp only [slotOf, interned, ne_eq, Nat.ne_of_gt positive, not_false_eq_true, if_true]
    exact (Nat.mod_eq_of_lt (by omega)).symm

/-- The bytes of a partition end where those of the next one start. -/
theorem blockEnd_eq (fitting : Fitting build builder image places) {j : Nat} {piece : Piece}
    (located : (Opens.pieces builder)[j]? = some piece) :
    (attached builder image places).blockEnd (Opens.slotOfPiece builder places j piece) =
      pieceStart builder builder.layout builder.rows places (j + 1) := by
  obtain ⟨run, stretch, priced, planned⟩ := piecesOf_getElem? located
  have kind := planPartition_kind builder builder.layout piece.1 stretch
  rw [← planned] at kind
  have few := kind.length_lt
  rw [Opens.pieceStart_succ located, pieceBlock_length, Table.blockEnd, fitting.strideOf_eq located]
  simp only [slotOf]
  rw [Nat.mod_eq_of_lt few, Nat.add_assoc]

theorem piece_valid (fitting : Fitting build builder image places) {j floor : Nat} {piece : Piece}
    (located : (Opens.pieces builder)[j]? = some piece)
    (after : floor ≤ pieceStart builder builder.layout builder.rows places j) :
    (attached builder image places).SlotValid floor (Opens.slotOfPiece builder places j piece) := by
  obtain ⟨run, stretch, priced, planned⟩ := piecesOf_getElem? located
  have kind := planPartition_kind builder builder.layout piece.1 stretch
  rw [← planned] at kind
  have few := kind.length_lt
  have stretchLe := fitting.stretch_le located
  have rows := List.length_pos_iff.mpr (partitionRuns_ne_nil (List.mem_of_getElem? run))
  have width : (attached builder image places).addressWidth = builder.layout.addressWidth :=
    fitting.addressWidth
  have payload := fitting.payload_pos
  refine ⟨?_, fun remapped => ?_, fun plain => ?_, ?_, fun _ => ⟨after, ?_⟩⟩
  · rw [width]
    exact stretchLe
  · cases kind with
    | plain schemaId _ => exact absurd schemaId remapped
    | remapped interned _ small remapTable some _ =>
      refine ⟨small, ?_, ?_, Nat.ne_of_gt rows⟩
      · exact interned_iff.trans interned
      · simp only [slotOf]
        rw [Nat.mod_eq_of_lt few, remapTable]
        exact Nat.ne_of_gt (List.length_pos_iff.mpr some)
  · cases kind with
    | plain _ remapTable =>
      simp only [slotOf, remapTable]
      rfl
    | remapped _ positive => exact absurd plain (Nat.ne_of_gt positive)
  · rw [Table.strideOf, fitting.attached_valuePart]
    split <;> omega
  · rw [fitting.blockEnd_eq located]
    have finish := (fitting.written.piece located).2
    have next := @Opens.pieceStart_succ builder places j piece located
    have directory := fitting.written.recordsEnd
    exact le_trans (Nat.le_of_eq next) (le_trans finish directory)

theorem gap_valid (fitting : Fitting build builder image places) (floor k : Nat) :
    (attached builder image places).SlotValid floor
      (gapSlot builder.layout.addressWidth k).stored := by
  have payload := fitting.payload_pos
  have width : (attached builder image places).addressWidth = builder.layout.addressWidth :=
    fitting.addressWidth
  refine ⟨?_, fun other => absurd rfl other, fun _ => rfl, ?_, fun other => absurd rfl other⟩
  · rw [width]
    simp only [DirEntry.stored, gapSlot]
    have byte := fitting.byte
    omega
  · have plain : (gapSlot builder.layout.addressWidth k).stored.schemaId = 0 := rfl
    rw [Table.strideOf, fitting.attached_valuePart, if_neg (not_not.mpr plain)]
    omega

/-- The partitions with records before a slot. -/
def piecesBefore (builder : Builder) (places : Places) (k : Nat) : Nat :=
  (((slotsOf builder builder.layout builder.rows places).take k).filter
    fun d => d.count ≠ 0).length

/-- A slot is that of the next partition, or a gap. -/
theorem slot_cases (fitting : Fitting build builder image places) {k : Nat}
    (inside : k < (attached builder image places).dirCount) :
    (∃ piece, (Opens.pieces builder)[piecesBefore builder places k]? = some piece ∧
        (attached builder image places).entry k =
          Opens.slotOfPiece builder places (piecesBefore builder places k) piece ∧
        piecesBefore builder places (k + 1) = piecesBefore builder places k + 1) ∨
      (attached builder image places).entry k = (gapSlot builder.layout.addressWidth k).stored ∧
        piecesBefore builder places (k + 1) = piecesBefore builder places k := by
  rw [fitting.attached_dirCount] at inside
  have packed := List.getElem?_eq_getElem inside
  have entry := fitting.attached_entry packed
  have next : (slotsOf builder builder.layout builder.rows places).take (k + 1) =
      (slotsOf builder builder.layout builder.rows places).take k ++
        [(slotsOf builder builder.layout builder.rows places)[k]] :=
    List.take_succ_eq_append_getElem inside
  by_cases empty : ((slotsOf builder builder.layout builder.rows places)[k]).count = 0
  · obtain ⟨-, member | ⟨-, gap⟩⟩ := slotsOf_getElem? fitting.written.stretches
      fitting.built.ordered packed
    · exact absurd empty (directoryOf_count_ne_zero member)
    · refine Or.inr ⟨by rw [entry, gap], ?_⟩
      rw [piecesBefore, piecesBefore, next, List.filter_append,
        List.filter_cons_of_neg (by simpa using empty), List.filter_nil, List.append_nil]
  · obtain ⟨kept, -⟩ := filter_getElem? (fun d : DirEntry => d.count ≠ 0) packed
      (by simpa using empty)
    rw [slotsOf_filter, directoryOf_getElem?] at kept
    obtain ⟨piece, located, same⟩ := Option.map_eq_some_iff.mp kept
    refine Or.inl ⟨piece, located, ?_, ?_⟩
    · rw [entry, ← same]
      exact fitting.stored_eq located
    · rw [piecesBefore, piecesBefore, next, List.filter_append,
        List.filter_cons_of_pos (by simpa using empty), List.filter_nil, List.length_append,
        List.length_singleton]

/-- Before a slot end the bytes of the partitions before it. -/
theorem blocksEnd_le (fitting : Fitting build builder image places) {k : Nat}
    (inside : k ≤ (attached builder image places).dirCount) :
    (attached builder image places).blocksEnd k ≤
      pieceStart builder builder.layout builder.rows places (piecesBefore builder places k) := by
  induction k with
  | zero =>
    have start := fitting.written.recordsStart
    rw [Table.blocksEnd, pieceStart]
    omega
  | succ k inductionHypothesis =>
    rw [Table.blocksEnd]
    rcases fitting.slot_cases inside with ⟨piece, located, entry, next⟩ | ⟨entry, same⟩
    · have occupied : (Opens.slotOfPiece builder places (piecesBefore builder places k)
          piece).count ≠ 0 := Nat.ne_of_gt (List.length_pos_iff.mpr
        (partitionRuns_ne_nil (List.mem_of_getElem? (piecesOf_getElem? located).1)))
      rw [entry, if_pos occupied, fitting.blockEnd_eq located, next]
    · have empty : (gapSlot builder.layout.addressWidth k).stored.count = 0 := rfl
      rw [entry, if_neg (not_not.mpr empty), same]
      exact inductionHypothesis (Nat.le_of_lt inside)

theorem slot_valid (fitting : Fitting build builder image places) {k : Nat}
    (inside : k < (attached builder image places).dirCount) :
    (attached builder image places).SlotValid ((attached builder image places).blocksEnd k)
      ((attached builder image places).entry k) := by
  have floor := fitting.blocksEnd_le (Nat.le_of_lt inside)
  rcases fitting.slot_cases inside with ⟨piece, located, entry, -⟩ | ⟨entry, -⟩
  · rw [entry]
    exact fitting.piece_valid located floor
  · rw [entry]
    exact fitting.gap_valid _ k

theorem slots_increasing (fitting : Fitting build builder image places) {k : Nat}
    (inside : k + 1 < (attached builder image places).dirCount) :
    ((attached builder image places).entry k).partition <
      ((attached builder image places).entry (k + 1)).partition := by
  rw [fitting.attached_dirCount] at inside
  have here := List.getElem?_eq_getElem (Nat.lt_of_succ_lt inside)
  have next := List.getElem?_eq_getElem inside
  rw [fitting.attached_entry here, fitting.attached_entry next]
  change ((slotsOf builder builder.layout builder.rows places)[k]).partition <
    ((slotsOf builder builder.layout builder.rows places)[k + 1]).partition
  cases dense : denseOf builder builder.layout builder.rows places with
  | true =>
    have index := (slotsOf_getElem? fitting.written.stretches fitting.built.ordered here).1 dense
    have index' := (slotsOf_getElem? fitting.written.stretches fitting.built.ordered next).1 dense
    omega
  | false =>
    have increasing := List.pairwise_iff_getElem.mp (directoryOf_increasing builder places
      fitting.written.stretches fitting.built.ordered)
    have sparse : slotsOf builder builder.layout builder.rows places =
        directoryOf builder builder.layout builder.rows places := by
      rw [slotsOf, directorySlots, dense, if_neg Bool.false_ne_true]
    simp only [sparse] at inside ⊢
    exact increasing k (k + 1) (Nat.lt_of_succ_lt inside) inside (Nat.lt_succ_self k)

/-- The slots count the rows. -/
theorem slots_total (fitting : Fitting build builder image places) :
    itemsBefore (fun k => ((attached builder image places).entry k).count)
        (attached builder image places).dirCount =
      (attached builder image places).recordCount := by
  have told (k : Nat) (inside : k <
      ((slotsOf builder builder.layout builder.rows places).map (·.count)).length) :
      ((attached builder image places).entry k).count =
        ((slotsOf builder builder.layout builder.rows places).map (·.count))[k] := by
    have packed := inside
    rw [List.length_map] at packed
    rw [fitting.attached_entry (List.getElem?_eq_getElem packed), List.getElem_map]
    rfl
  have pieces : (directoryOf builder builder.layout builder.rows places).length ≤
      (Opens.pieces builder).length := by
    refine List.getElem?_eq_none_iff.mp ((directoryOf_getElem? _).trans ?_)
    rw [List.getElem?_eq_none (Nat.le_refl _), Option.map_none]
  have counts := @Opens.directoryOf_counts builder places (Opens.pieces builder).length
  rw [List.take_of_length_le pieces, List.take_length] at counts
  have runs : (Opens.pieces builder).map (fun piece => piece.1.length) =
      (partitionRuns builder.rows).map List.length := by
    rw [← piecesOf_runs fitting.written.stretches, List.map_map]
    rfl
  have records : (attached builder image places).recordCount = builder.rows.length := by
    have stored : (attached builder image places).recordCount = builder.count % 2 ^ 64 := rfl
    rw [stored, fitting.built.count, Nat.mod_eq_of_lt fitting.built.few]
  rw [itemsBefore_eq_sum told (by rw [fitting.attached_dirCount, List.length_map]),
    List.take_of_length_le (by rw [fitting.attached_dirCount, List.length_map]),
    ← sum_filter_count, slotsOf_filter, counts, runs, ← List.length_flatten,
    partitionRuns_flatten, records]

theorem directory_valid (fitting : Fitting build builder image places) :
    (attached builder image places).DirectoryValid where
  dense := by
    have told : (attached builder image places).dense =
        decide ((footer builder places).flags &&& denseDirectoryFlag ≠ 0) := rfl
    have flags : (footer builder places).flags =
      if denseOf builder builder.layout builder.rows places then denseDirectoryFlag else 0 := rfl
    rw [attached_dir, dirLayoutOf, directoryLayoutFor_dense, told, flags]
    cases denseOf builder builder.layout builder.rows places <;> rfl
  start := le_trans fitting.written.recordsStart
    (le_trans (Nat.le_add_right _ _) fitting.written.recordsEnd)
  room := by
    have slots := fitting.written.slotsEnd
    have length := fitting.written.length
    have size : (attached builder image places).image.size = image.bytes.length := rfl
    have start : (attached builder image places).directory = places.directory := rfl
    rw [slotBlock_length] at slots
    rw [fitting.attached_dirCount, attached_dir, size, start]
    omega
  increasing k inside := fitting.slots_increasing inside
  slots k inside := fitting.slot_valid inside
  total := fitting.slots_total

/-! ### The dictionaries -/

theorem valueDict_eq (fitting : Fitting build builder image places)
    (interned : builder.layout.interned = true) :
    (schemaView builder places).valueDict = builder.textDicts.length := by
  have few := fitting.few_fields
  have count := fitting.written.dictCount
  have most := fitting.dicts_length
  have index : (schemaView builder places).valueDict = places.valueDict := by
    simp only [SchemaView.valueDict, schemaView, headOf, schemaHeader, interned, if_true]
  rw [index, (fitting.written.composite interned).1, Nat.mod_eq_of_lt (by omega)]

/-- A dictionary behind the header and before the directory lies before the footer. -/
theorem before_tail (fitting : Fitting build builder image places) {finish : Nat}
    (bound : finish ≤ places.records) : finish + footerSize ≤ image.size := by
  have records := fitting.written.recordsEnd
  have slots := fitting.written.slotsEnd
  have length := fitting.written.length
  have size : image.size = image.bytes.length := rfl
  omega

theorem dict_ready (fitting : Fitting build builder image places) {i : Nat}
    (inside : i < places.dicts.length) :
    Table.DictReady image.bytes (schemaView builder places) (image.size - footerSize) i := by
  have short := image.length_lt
  have size : image.size = image.bytes.length := rfl
  have count := fitting.written.dictCount
  have parsed {entry : DictEntry} (located : places.dicts[i]? = some entry)
      (before : entry.offset + entry.size ≤ places.records) :
      (schemaView builder places).dictAt image.bytes i = entry := by
    have tail := fitting.before_tail before
    exact fitting.written.dict_parse fitting.built.statCount located (by omega) (by omega)
  by_cases isText : i < builder.textDicts.length
  · obtain ⟨entry, located, stored, start, finish, holds⟩ := fitting.written.text i isText
    have before : entry.offset + entry.size ≤ places.records := by rwa [stored]
    have tail := fitting.before_tail before
    rw [← parsed located before] at stored start tail holds
    refine ⟨start, by omega, fun interned last => ?_, fun _ => ⟨_,
      BlobDictionaryBuilder.open_of_holds holds (Nat.le_of_eq stored.symm)⟩⟩
    rw [fitting.valueDict_eq (interned_iff ▸ interned)] at last
    exact absurd isText (by rw [last]; exact Nat.lt_irrefl _)
  · have interned : builder.layout.interned = true := by
      by_contra inline
      rw [if_neg inline] at count
      omega
    rw [if_pos interned] at count
    obtain rfl : i = builder.textDicts.length := by omega
    obtain ⟨-, entry, located, few, stored, start, finish, head, -⟩ :=
      fitting.written.composite interned
    have before : entry.offset + entry.size ≤ places.records := by
      rw [stored, ← Nat.add_assoc]
      exact finish
    have tail := fitting.before_tail before
    rw [← parsed located before] at stored start tail head
    have strideFits := chooseLayout_valueStride_lt builder builder.rows
    refine ⟨start, by omega, fun _ _ => ⟨_, FixedDictionaryView.open_of_holds few strideFits head
      (Nat.le_of_eq stored.symm), rfl⟩, fun other => absurd ⟨?_, ?_⟩ other⟩
    · exact interned_iff.trans interned
    · exact (fitting.valueDict_eq interned).symm

theorem texts_apart (fitting : Fitting build builder image places) {i : Nat} {decl : FieldDecl}
    (declared : builder.schema.fields[i]? = some decl)
    (isText : ((schemaView builder places).descAt image.bytes i).kind = FieldKind.text.code)
    (interned : builder.layout.interned = true) :
    ((schemaView builder places).descAt image.bytes i).dictIndex ≠
      (schemaView builder places).valueDict := by
  obtain ⟨place, -, -, desc⟩ := fitting.descAt declared
  rw [desc] at isText ⊢
  have code : (writtenDesc builder i decl place).kind = decl.kind.code :=
    fieldShape_kind builder i decl
  rw [fitting.valueDict_eq interned]
  exact Nat.ne_of_lt
    (fitting.dictIndex_lt declared (FieldKind.code_injective (code.symm.trans isText)))

/-! ### The whole image -/

theorem wellFormed (fitting : Fitting build builder image places) :
    Table.WellFormed image (footer builder places) (schemaView builder places) where
  framed := fitting.framed
  schemaWithin := by
    have length := fitting.written.length
    have size : image.size = image.bytes.length := rfl
    rw [size, length]
    exact Nat.le_refl _
  described := fitting.schema_valid
  recordStride := by
    have payload := fitting.payload_pos
    rw [fitting.recordStride]
    omega
  keyed := fitting.keyed_narrow
  directory := fitting.directory_valid
  dictionaries i inside := fitting.dict_ready (by rwa [fitting.dictCount] at inside)
  texts i inside isText interned := by
    rw [fitting.fieldCount] at inside
    exact fitting.texts_apart (List.getElem?_eq_getElem inside) isText (interned_iff ▸ interned)

end Fitting

end Mmpack
