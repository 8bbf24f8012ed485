/-
This file says what the fixed parts of a finished image parse to: the footer, the
schema header, the descriptors and the dictionary table, and the slots of the
directory. Each is what the writer put there, which does not depend on the reader
accepting the image.
-/

import Mmpack.Directory
import Mmpack.Fields

namespace Mmpack

open ByteList Checked

/-- The layout a builder settles on for its rows. -/
abbrev Builder.layout (builder : Builder) : Layout := chooseLayout builder builder.rows

/-! ### The layout -/

theorem chooseLayout_stretch_lt (builder : Builder) (rows : List StagedRow) :
    ∀ stretch ∈ (chooseLayout builder rows).stretches, stretch.1 < 2 ^ 8 ∧ stretch.2 < 2 ^ 8 := by
  intro stretch member
  obtain ⟨run, -, rfl⟩ := List.mem_map.mp member
  split
  · exact ⟨Nat.mod_lt _ (by decide), Nat.mod_lt _ (by decide)⟩
  · exact ⟨Nat.two_pow_pos 8, Nat.mod_lt _ (by decide)⟩

theorem chooseLayout_valueStride_lt (builder : Builder) (rows : List StagedRow) :
    (chooseLayout builder rows).valueStride < 2 ^ 32 := by
  rw [chooseLayout_valueStride]
  exact placeFields_stride_lt _ _ (by decide)

theorem chooseLayout_recordStride_lt (builder : Builder) (rows : List StagedRow) :
    (chooseLayout builder rows).recordStride < 2 ^ 32 := Nat.mod_lt _ (by decide)

/-- The widths of a packed directory are bytes. -/
theorem dirLayout_narrow {layout : DirLayout} (wellFormed : layout.WellFormed) :
    layout.partitionWidth % 2 ^ 8 = layout.partitionWidth ∧
      layout.offsetWidth % 2 ^ 8 = layout.offsetWidth ∧
      layout.countWidth % 2 ^ 8 = layout.countWidth ∧
      layout.remapWidth % 2 ^ 8 = layout.remapWidth ∧
      layout.addrWidth % 2 ^ 8 = layout.addrWidth ∧
      layout.skipWidth % 2 ^ 8 = layout.skipWidth := by
  obtain ⟨-, partition, offset, count, -, remap, addr, skip⟩ := wellFormed
  refine ⟨?_, ?_, ?_, ?_, ?_, ?_⟩ <;> exact Nat.mod_eq_of_lt (by omega)

/-! ### Parsing -/

section Parse

variable {builder : Builder} {rows : List StagedRow} {image : List UInt8} {places : Places}

/-- The last bytes of an image are its footer. -/
theorem Written.footer_parse
    (written : Written builder (chooseLayout builder rows) rows image places)
    (short : image.length < 2 ^ 64) :
    Footer.parse (slice image (image.length - footerSize) footerSize) =
      footOf builder (chooseLayout builder rows) rows places := by
  have length := written.length
  have slots := written.slotsEnd
  have stored := written.footer.slice_eq
  rw [footOf_encode_length] at stored
  rw [length, Nat.add_sub_cancel, stored]
  refine Footer.parse_encode ?_
  exact
    { magic := rfl
      formatVersion := (by decide : 4 < 256 ^ 4)
      flags := by simp only [footOf]; split <;> decide
      recordCount := Nat.mod_lt _ (by decide)
      dirOffset := by simp only [footOf]; omega
      dirCount := Nat.mod_lt _ (by decide)
      schemaOffset := by simp only [footOf]; omega
      schemaSize := by simp only [footOf]; omega
      imageSize := by simp only [footOf]; omega }

theorem Written.headOf_fits
    (written : Written builder (chooseLayout builder rows) rows image places) :
    (headOf builder (chooseLayout builder rows) rows places).Fits where
  magic := (by decide : schemaMagic < 256 ^ 4)
  fieldCount := Nat.mod_lt _ (by decide)
  dictCount := Nat.mod_lt _ (by decide)
  recordStride := chooseLayout_recordStride_lt builder rows
  valueStride := chooseLayout_valueStride_lt builder rows
  nameBytes := Nat.mod_lt _ (by decide)
  addressWidth := Nat.mod_lt _ (by decide)
  addressBits := by
    simp only [headOf, schemaHeader]
    split
    · decide
    · exact Nat.mod_lt _ (by decide)
  mode := by
    simp only [headOf, schemaHeader]
    split <;> decide
  refWidth := by
    simp only [headOf, schemaHeader]
    split
    · exact Nat.mod_lt _ (by decide)
    · decide
  valueDict := by
    simp only [headOf, schemaHeader]
    split
    · rename_i interned
      rw [(written.composite interned).1]
      exact Nat.mod_lt _ (by decide)
    · decide
  dirPartitionWidth := Nat.mod_lt _ (by decide)
  dirOffsetWidth := Nat.mod_lt _ (by decide)
  dirCountWidth := Nat.mod_lt _ (by decide)
  dirRemapWidth := Nat.mod_lt _ (by decide)
  dirAddrWidth := Nat.mod_lt _ (by decide)
  dirSkipWidth := Nat.mod_lt _ (by decide)

/-- The first bytes of the schema block are its header. -/
theorem Written.head_parse
    (written : Written builder (chooseLayout builder rows) rows image places) :
    SchemaHeader.parse (slice image places.schema schemaHeaderSize) =
      headOf builder (chooseLayout builder rows) rows places := by
  have stored := written.schema.left.left.left.slice_eq
  rw [SchemaHeader.encode_length] at stored
  rw [stored]
  exact SchemaHeader.parse_encode written.headOf_fits

/-- The descriptor written for a declared field. -/
def writtenDesc (builder : Builder) (i : Nat) (decl : FieldDecl) (place : Nat) : FieldDesc :=
  { fieldShape builder i decl with
    offset := place
    nameOffset := (nameBlob (builder.schema.fields.take i)).length % 2 ^ 32 }

theorem nameFields_getElem? (rows : List StagedRow)
    (statCount : builder.stats.length = builder.schema.fields.length)
    {i : Nat} {decl : FieldDecl} (declared : builder.schema.fields[i]? = some decl) :
    ∃ place < 2 ^ 32, (chooseLayout builder rows).descs[i]? =
        some { fieldShape builder i decl with offset := place } ∧
      (nameFields builder.schema.fields (chooseLayout builder rows).descs)[i]? =
        some (writtenDesc builder i decl place) := by
  obtain ⟨place, found⟩ := descs_getElem? statCount rows declared
  have bound := placeFields_offset_lt builder.options.alignFields (shapeFields builder)
    (by decide : 0 < 2 ^ 32) _ (List.mem_of_getElem? found)
  refine ⟨place, bound, found, ?_⟩
  rw [nameFields, List.getElem?_mapIdx, found]
  rfl

theorem fieldShape_width_le {i : Nat} {decl : FieldDecl}
    (declared : builder.schema.fields[i]? = some decl) :
    (fieldShape builder i decl).width ≤ 8 :=
  Table.kindAllows_le (fieldShape_width _ _
    (builder.schema.declared _ (List.mem_of_getElem? declared)))

theorem writtenDesc_fits {i place : Nat} {decl : FieldDecl}
    (declared : builder.schema.fields[i]? = some decl) (bound : place < 2 ^ 32) :
    (writtenDesc builder i decl place).Fits where
  offset := bound
  nameOffset := Nat.mod_lt _ (by decide)
  bias := fieldShape_bias_lt builder i decl
  width := lt_of_le_of_lt (fieldShape_width_le declared) (by decide)
  kind := by
    have code : (writtenDesc builder i decl place).kind = decl.kind.code :=
      fieldShape_kind builder i decl
    rw [code]
    cases decl.kind <;> decide
  dictIndex := fieldShape_dictIndex_lt builder i decl

/-- The descriptors follow the header, one after the other. -/
theorem Written.desc_parse
    (written : Written builder (chooseLayout builder rows) rows image places)
    (statCount : builder.stats.length = builder.schema.fields.length) {i : Nat} {decl : FieldDecl}
    (declared : builder.schema.fields[i]? = some decl) :
    ∃ place < 2 ^ 32, (chooseLayout builder rows).descs[i]? =
        some { fieldShape builder i decl with offset := place } ∧
      FieldDesc.parse (slice image (places.schema + schemaHeaderSize + i * fieldDescSize)
        fieldDescSize) = writtenDesc builder i decl place := by
  obtain ⟨place, bound, located, named⟩ := nameFields_getElem? rows statCount declared
  obtain ⟨inside, same⟩ := List.getElem?_eq_some_iff.mp named
  have block := written.schema.left.left.right
  rw [SchemaHeader.encode_length] at block
  have cut := holds_flatten ((nameFields builder.schema.fields
    (chooseLayout builder rows).descs).map FieldDesc.encode) fieldDescSize i (by simp)
    (by rwa [List.length_map])
  rw [List.getElem_map, same] at cut
  have stored := (block.trans cut).slice_eq
  rw [FieldDesc.encode_length] at stored
  refine ⟨place, bound, located, ?_⟩
  rw [stored]
  exact FieldDesc.parse_encode (writtenDesc_fits declared bound)

theorem nameFields_length (decls : List FieldDecl) (descs : List FieldDesc) :
    (nameFields decls descs).length = descs.length := List.length_mapIdx

/-- Where the dictionary table starts. -/
def dictTable (builder : Builder) (places : Places) : Nat :=
  places.schema + schemaHeaderSize + builder.schema.fields.length * fieldDescSize

theorem descBlock_length (statCount : builder.stats.length = builder.schema.fields.length) :
    ((nameFields builder.schema.fields (chooseLayout builder rows).descs).map
      FieldDesc.encode).flatten.length = builder.schema.fields.length * fieldDescSize := by
  rw [flatten_length_of_uniform fieldDescSize (by simp), List.length_map,
    nameFields_length, descs_length statCount]

/-- The dictionary table follows the descriptors. -/
theorem Written.dict_parse
    (written : Written builder (chooseLayout builder rows) rows image places)
    (statCount : builder.stats.length = builder.schema.fields.length)
    {j : Nat} {entry : DictEntry} (located : places.dicts[j]? = some entry)
    (offset : entry.offset < 2 ^ 64) (size : entry.size < 2 ^ 64) :
    DictEntry.parse (slice image (dictTable builder places + j * dictEntrySize) dictEntrySize) =
      entry := by
  obtain ⟨inside, same⟩ := List.getElem?_eq_some_iff.mp located
  have block := written.schema.left.right
  rw [List.length_append, SchemaHeader.encode_length, descBlock_length statCount,
    ← Nat.add_assoc] at block
  have cut := holds_flatten (places.dicts.map DictEntry.encode) dictEntrySize j (by simp)
    (by rwa [List.length_map])
  rw [List.getElem_map, same] at cut
  have stored := (block.trans cut).slice_eq
  rw [DictEntry.encode_length] at stored
  rw [dictTable, stored]
  exact DictEntry.parse_encode offset size

/-- The names follow the dictionary table. -/
theorem Written.names
    (written : Written builder (chooseLayout builder rows) rows image places)
    (statCount : builder.stats.length = builder.schema.fields.length) :
    Holds image (dictTable builder places + places.dicts.length * dictEntrySize)
      (nameBlob builder.schema.fields) := by
  have block := written.schema.right
  rw [List.length_append, List.length_append, SchemaHeader.encode_length,
    descBlock_length statCount, flatten_length_of_uniform dictEntrySize (by simp),
    List.length_map] at block
  rwa [dictTable, Nat.add_assoc, Nat.add_assoc, ← Nat.add_assoc schemaHeaderSize]

theorem slotBlock_length (builder : Builder) (layout : Layout) (rows : List StagedRow)
    (places : Places) : (slotBlock builder layout rows places).length =
      (slotsOf builder layout rows places).length *
        (dirLayoutOf builder layout rows places).stride := by
  rw [slotBlock, flatten_length_of_uniform ((dirLayoutOf builder layout rows places).stride)
    (by simp [encodeDirEntry_length]), List.length_map]

theorem directoryLayoutFor_stride_pos (dense : Bool) (addressWidth : Nat)
    (directory : List DirEntry) : 0 < (directoryLayoutFor dense addressWidth directory).stride := by
  have positive := widthFor_pos (largest (directory.map (·.offset)))
  simp only [directoryLayoutFor, makeDirLayout]
  omega

/-- The slots of the directory decode to the slots the writer packed. -/
theorem Written.entry_parse
    (written : Written builder (chooseLayout builder rows) rows image places)
    (short : image.length < 2 ^ 64) (few : rows.length < 2 ^ 64)
    (ordered : rows.Pairwise StagedRow.Before) {k : Nat} {d : DirEntry}
    (located : (slotsOf builder (chooseLayout builder rows) rows places)[k]? = some d) :
    entryAt image (places.directory + k *
        (dirLayoutOf builder (chooseLayout builder rows) rows places).stride)
      (dirLayoutOf builder (chooseLayout builder rows) rows places) k
      ((chooseLayout builder rows).addressWidth % 2 ^ 8) = d.stored := by
  obtain ⟨inside, same⟩ := List.getElem?_eq_some_iff.mp located
  have wellFormed : (dirLayoutOf builder (chooseLayout builder rows) rows places).WellFormed :=
    directoryLayoutFor_wellFormed _ _ _
  have fits := written.slot_fits short few ordered (chooseLayout_stretch_lt builder rows) located
  have cut := holds_flatten ((slotsOf builder (chooseLayout builder rows) rows places).map
      (encodeDirEntry (dirLayoutOf builder (chooseLayout builder rows) rows places)))
    (dirLayoutOf builder (chooseLayout builder rows) rows places).stride k
    (by simp [encodeDirEntry_length]) (by rwa [List.length_map])
  rw [List.getElem_map, same] at cut
  refine entryAt_of_holds wellFormed fits ?_
  rw [encodeDirEntry_stored wellFormed]
  · exact written.slots.trans cut
  · simp only [dirLayoutOf, directoryLayoutFor, makeDirLayout]
    split <;> decide

/-- The number of slots is a 64-bit number, since each takes a byte of the image. -/
theorem Written.slots_lt
    (written : Written builder (chooseLayout builder rows) rows image places)
    (short : image.length < 2 ^ 64) :
    (slotsOf builder (chooseLayout builder rows) rows places).length < 2 ^ 64 := by
  have positive : 0 < (dirLayoutOf builder (chooseLayout builder rows) rows places).stride :=
    directoryLayoutFor_stride_pos _ _ _
  have least := Nat.le_mul_of_pos_right
    (slotsOf builder (chooseLayout builder rows) rows places).length positive
  have block := written.slots.within
  rw [slotBlock_length] at block
  omega

/-- A schema with the header of an image has the image's directory layout. -/
theorem directoryLayout_of_head {view : SchemaView}
    (head : view.head = headOf builder (chooseLayout builder rows) rows places) :
    view.directoryLayout = dirLayoutOf builder (chooseLayout builder rows) rows places := by
  have wellFormed : (dirLayoutOf builder (chooseLayout builder rows) rows places).WellFormed :=
    directoryLayoutFor_wellFormed _ _ _
  obtain ⟨partition, offset, count, remap, addr, skip⟩ := dirLayout_narrow wellFormed
  have schema : (if (dirLayoutOf builder (chooseLayout builder rows) rows places).remapWidth ≠ 0
      then 1 else 0) =
        (dirLayoutOf builder (chooseLayout builder rows) rows places).schemaWidth := by
    simp only [dirLayoutOf, directoryLayoutFor, makeDirLayout]
    split
    · rw [if_pos (Nat.ne_of_gt (widthFor_pos _))]
    · rw [if_neg (not_not.mpr rfl)]
  rw [SchemaView.directoryLayout, head, wellFormed.made]
  simp only [headOf, schemaHeader, partition, offset, count, remap, addr, skip, schema]

end Parse

end Mmpack
