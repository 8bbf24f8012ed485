/-
This file reads the fields of an opened table. The names of an accepted schema were
not cut short, which leaves too few fields for a value tuple to have wrapped around,
so every field is found in the tuple of its record, where it reads back the raw value
it was stored from, and a text field finds its own dictionary.
-/

import Mmpack.Addresses

namespace Mmpack

open ByteList Checked Cursor

/-! ### Names -/

/-- A sequence that gets past a bound gets past it at one step. -/
theorem exists_crossing (sequence : Nat → Nat) {bound last : Nat} (start : sequence 0 < bound)
    (past : bound ≤ sequence last) :
    ∃ k < last, sequence k < bound ∧ bound ≤ sequence (k + 1) := by
  induction last with
  | zero => exact absurd past (Nat.not_le.mpr start)
  | succ last inductionHypothesis =>
    by_cases earlier : bound ≤ sequence last
    · obtain ⟨k, below, crosses⟩ := inductionHypothesis earlier
      exact ⟨k, Nat.lt_succ_of_lt below, crosses⟩
    · exact ⟨last, Nat.lt_succ_self last, Nat.not_le.mp earlier, past⟩

theorem nameBlob_eq (decls : List FieldDecl) :
    nameBlob decls = (decls.map fun decl => decl.name ++ [0]).flatten := by
  induction decls with
  | nil => rfl
  | cons decl rest inductionHypothesis => rw [nameBlob, inductionHypothesis]; rfl

/-- A name lies where its field says, with its NUL. -/
theorem holds_name {decls : List FieldDecl} {i : Nat} {decl : FieldDecl}
    (declared : decls[i]? = some decl) :
    Holds (nameBlob decls) (nameBlob (decls.take i)).length (decl.name ++ [0]) := by
  obtain ⟨inside, rfl⟩ := List.getElem?_eq_some_iff.mp declared
  have block := holds_flatten_getElem (decls.map fun decl => decl.name ++ [0]) i
    (by rwa [List.length_map])
  rw [List.getElem_map, ← List.map_take, ← List.length_flatten] at block
  rwa [nameBlob_eq, nameBlob_eq]

theorem nameBlob_take_succ {decls : List FieldDecl} {i : Nat} {decl : FieldDecl}
    (declared : decls[i]? = some decl) : (nameBlob (decls.take (i + 1))).length =
      (nameBlob (decls.take i)).length + (decl.name.length + 1) := by
  obtain ⟨inside, rfl⟩ := List.getElem?_eq_some_iff.mp declared
  rw [nameBlob_eq, nameBlob_eq, List.take_succ_eq_append_getElem inside, List.map_append,
    List.flatten_append, List.length_append]
  simp

/-- Names of less than 4 GiB, all different, are too few for a value tuple to reach 8 GiB. -/
theorem SchemaBuilder.few_fields (schema : SchemaBuilder)
    (short : (nameBlob schema.fields).length < 2 ^ 32) :
    8 * schema.fields.length + 16 < 2 ^ 33 := by
  have sizes := distinct_strings_size schema.distinct 3
  have total (decls : List FieldDecl) : (nameBlob decls).length =
      ((decls.map FieldDecl.name).map List.length).sum + decls.length := by
    induction decls with
    | nil => rfl
    | cons decl rest inductionHypothesis =>
      rw [nameBlob, List.length_append, List.length_append, inductionHypothesis, List.map_cons,
        List.map_cons, List.sum_cons, List.length_cons, List.length_cons, List.length_nil]
      omega
  rw [total] at short
  rw [List.length_map] at sizes
  omega

namespace Opens

variable {build : Build} {builder : Builder} {places : Places} {table : Table} {i : Nat}
  {decl : FieldDecl}

/-- The descriptor of a declared field. -/
theorem descAt (opens : Opens build builder places table)
    (declared : builder.schema.fields[i]? = some decl) :
    ∃ place < 2 ^ 32, builder.layout.descs[i]? =
        some { fieldShape builder i decl with offset := place } ∧
      table.schema.descAt table.region i = writtenDesc builder i decl place := by
  rw [SchemaView.descAt, opens.fields]
  exact opens.written.desc_parse opens.built.statCount declared

theorem inside_fieldCount (opens : Opens build builder places table)
    (declared : builder.schema.fields[i]? = some decl) : i < table.schema.fieldCount := by
  rw [opens.fieldCount]
  exact (List.getElem?_eq_some_iff.mp declared).1

theorem names (opens : Opens build builder places table) :
    Holds table.region table.schema.names (nameBlob builder.schema.fields) := by
  rw [opens.valid.schema.names, opens.valid.schema.dicts, opens.fields, opens.fieldCount,
    opens.dictCount]
  exact opens.written.names opens.built.statCount

/-- The names of an accepted image take less than 4 GiB: the name that reached past them would
lack its NUL. -/
theorem names_lt (opens : Opens build builder places table) :
    (nameBlob builder.schema.fields).length < 2 ^ 32 := by
  by_contra long
  obtain ⟨k, inside, low, high⟩ := exists_crossing
    (fun k => (nameBlob (builder.schema.fields.take k)).length) (by simp [nameBlob])
    (show 2 ^ 32 ≤ (nameBlob (builder.schema.fields.take builder.schema.fields.length)).length by
      rw [List.take_length]
      exact Nat.not_lt.mp long)
  have declared := List.getElem?_eq_getElem inside
  obtain ⟨place, -, -, desc⟩ := opens.descAt declared
  have fieldValid := opens.valid.schema.field k (opens.inside_fieldCount declared)
  rw [desc] at fieldValid
  have terminated := fieldValid.terminated
  have offset : (writtenDesc builder k builder.schema.fields[k] place).nameOffset =
      (nameBlob (builder.schema.fields.take k)).length := Nat.mod_eq_of_lt low
  have nameBytes : table.schema.head.nameBytes < 2 ^ 32 := opens.valid.schemaFits.nameBytes
  rw [nameBlob_take_succ declared] at high
  have held := (opens.names.trans (holds_name declared)).left
  rw [offset] at terminated
  have cut := held.slice 0 (table.schema.head.nameBytes -
    (nameBlob (builder.schema.fields.take k)).length) (by omega)
  rw [Nat.add_zero] at cut
  rw [cut] at terminated
  have member : 0 ∈ builder.schema.fields[k].name :=
    List.mem_of_mem_drop (List.mem_of_mem_take terminated)
  exact (builder.schema.named _ (List.getElem_mem inside)).2 member

theorem few_fields (opens : Opens build builder places table) :
    8 * builder.schema.fields.length + 16 < 2 ^ 33 := builder.schema.few_fields opens.names_lt

/-! ### Tuples -/

/-- The tuple of an accepted image did not wrap around. -/
theorem tupleSize_lt (opens : Opens build builder places table) : tupleSize builder < 2 ^ 32 := by
  have few := opens.few_fields
  have narrow := opens.built.shape_narrow
  have count := shapeFields_length opens.built.statCount
  obtain ⟨-, most⟩ := le_tupleEnd builder.options.alignFields 0 narrow
    (by omega)
  have stride := placeFields_snd builder.options.alignFields 0 narrow
    (by omega)
  refine tupleEnd_lt narrow (by decide) (by omega) (by omega) (Nat.zero_le _) fun d member => ?_
  obtain ⟨i, inPlaced, rfl⟩ := List.getElem_of_mem member
  rw [placeFields_length, count] at inPlaced
  have declared := List.getElem?_eq_getElem inPlaced
  obtain ⟨place, -, located, desc⟩ := opens.descAt declared
  have inTuple := (opens.valid.schema.field i (opens.inside_fieldCount declared)).inTuple
  have valueStride : table.schema.valueStride = builder.layout.valueStride := by
    rw [SchemaView.valueStride, opens.head]
    rfl
  rw [desc, valueStride, chooseLayout_valueStride] at inTuple
  rw [chooseLayout_descs] at located
  rw [(List.getElem?_eq_some_iff.mp located).2, ← stride]
  exact inTuple

/-- A field of a tuple is found behind the tuple's base. -/
theorem field_slice (opens : Opens build builder places table) {it : Position} {piece : Piece}
    {row : StagedRow} (rowAt : RowAt builder table it piece row) {values : List UInt64}
    (found : builder.tuples[row.tuple]? = some values)
    (count : values.length = builder.schema.fields.length)
    (declared : builder.schema.fields[i]? = some decl) {raw : UInt64}
    (value : values[i]? = some raw) :
    ∃ base place, table.tupleBase it.slot it.index = some base ∧
      table.schema.descAt table.region i = writtenDesc builder i decl place ∧
      slice table.region (base + place) (fieldShape builder i decl).width =
        leBytes (fieldShape builder i decl).width
          (raw - UInt64.ofNat (fieldShape builder i decl).bias).toNat := by
  obtain ⟨place, -, located, desc⟩ := opens.descAt declared
  obtain ⟨base, atBase, tuple⟩ := opens.tuple rowAt found
  obtain ⟨inside, stored⟩ := opens.built.tuple_field opens.tupleSize_lt builder.schema.length_lt
    builder.rows count located value
  refine ⟨base, place, atBase, desc, ?_⟩
  rw [← slice_slice inside, tuple]
  exact stored

/-! ### Reading a field -/

/-- A field reads back the raw value of the record's tuple. -/
theorem scalarAt_eq (opens : Opens build builder places table) {it : Position} {piece : Piece}
    {row : StagedRow} (rowAt : RowAt builder table it piece row) {values : List UInt64}
    (found : builder.tuples[row.tuple]? = some values)
    (count : values.length = builder.schema.fields.length)
    (declared : builder.schema.fields[i]? = some decl) {raw : UInt64}
    (value : values[i]? = some raw) :
    table.scalarAt (table.tupleBase it.slot it.index) i decl.kind =
      some ((fieldShape builder i decl).readBack raw) := by
  obtain ⟨base, place, atBase, desc, stored⟩ := opens.field_slice rowAt found count declared value
  have inside := opens.inside_fieldCount declared
  have kind : (writtenDesc builder i decl place).kind = decl.kind.code :=
    fieldShape_kind builder i decl
  rw [Table.scalarAt, if_neg (Nat.not_le.mpr inside), desc, if_neg (not_not.mpr kind), atBase,
    Option.map_some, FieldDesc.readBack, valueAt]
  have read := congrArg leNat stored
  rw [leNat_leBytes] at read
  exact congrArg (fun number => some (UInt64.ofNat (number + (fieldShape builder i decl).bias)))
    read

end Opens

end Mmpack
