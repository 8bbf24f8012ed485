/-
This file says what all six readers of a field return on a record of a finished
build. One of them, that of the field's kind, decodes the raw value of the record's
tuple; the other five find nothing. Where the field was set on the record its readings
are the value last set, so they do not depend on the layout, on the tuple table or on
the order in which texts were first seen; where it was not, they depend on the shape
of the field and, for a text, on its dictionary.
-/

import Mmpack.Values

namespace Mmpack

open ByteList Checked Cursor

/-- What the readers of a field return, each by its kind. -/
@[ext] structure Readings where
  uint : Read (Option UInt64)
  sint : Read (Option Int64)
  f32 : Read (Option UInt32)
  f64 : Read (Option UInt64)
  bytes : Read (Option (List UInt8))
  text : Read (Option (List UInt8))

namespace Readings

/-- Nothing is found. -/
def none : Readings where
  uint := .ok .none
  sint := .ok .none
  f32 := .ok .none
  f64 := .ok .none
  bytes := .ok .none
  text := .ok .none

/-- The readings of a value. -/
def ofValue : Builder.FieldValue → Readings
  | .uint value => { none with uint := .ok (some value) }
  | .sint value => { none with sint := .ok (some value) }
  | .f32 bits => { none with f32 := .ok (some bits) }
  | .f64 bits => { none with f64 := .ok (some bits) }
  | .text value => { none with text := .ok (some value) }
  | .bytes value => { none with bytes := .ok (some value) }

/-- The readings of a raw value, in a field of the given shape and dictionary. -/
def ofRaw (kind : FieldKind) (shape : FieldDesc) (order : List (List UInt8)) (raw : UInt64) :
    Readings :=
  match kind with
  | .uint => { none with uint := .ok (some (shape.readBack raw)) }
  | .sint => { none with sint := .ok (some (shape.readBack raw).toInt64) }
  | .f32 => { none with f32 := .ok (some (shape.readBack raw).toUInt32) }
  | .f64 => { none with f64 := .ok (some (shape.readBack raw)) }
  | .bytes => { none with
      bytes := .ok (some (leBytes shape.width (raw - UInt64.ofNat shape.bias).toNat)) }
  | .text => { none with text := .ok order[(shape.readBack raw).toNat]? }

end Readings

namespace Table

variable {table : Table}

def readings (table : Table) (it : Position) (id : Nat) : Readings where
  uint := table.uint it id
  sint := table.sint it id
  f32 := table.f32 it id
  f64 := table.f64 it id
  bytes := table.bytes it id
  text := table.text it id

/-- Past the fields there is nothing to read. -/
theorem readings_past {it : Position} {id : Nat} (past : table.schema.fieldCount ≤ id) :
    table.readings it id = .none := by
  have scalar (expected : FieldKind) : table.readScalar it id expected = .ok none := by
    unfold readScalar
    simp only [past, if_true]
    rfl
  ext1
  · exact scalar .uint
  · exact congrArg (· >>= fun raw => pure (raw.map UInt64.toInt64)) (scalar .sint)
  · exact congrArg (· >>= fun raw => pure (raw.map UInt64.toUInt32)) (scalar .f32)
  · exact scalar .f64
  · show table.bytes it id = .ok none
    unfold bytes
    simp only [past, if_true]
    rfl
  · show table.text it id = .ok none
    unfold text
    rw [scalar]
    rfl

end Table

/-! ### The readings of a record -/

namespace Opens

variable {build : Build} {builder : Builder} {places : Places} {table : Table} {it : Position}
  {i : Nat} {decl : FieldDecl}

/-- A scalar is read back by the reader of its kind. -/
theorem scalarAt_kind (opens : Opens build builder places table) {piece : Piece}
    {row : StagedRow} (rowAt : RowAt builder table it piece row) {values : List UInt64}
    (found : builder.tuples[row.tuple]? = some values)
    (count : values.length = builder.schema.fields.length)
    (declared : builder.schema.fields[i]? = some decl) {raw : UInt64}
    (stored : values[i]? = some raw) (expected : FieldKind) :
    table.scalarAt (table.tupleBase it.slot it.index) i expected =
      if decl.kind = expected then some ((fieldShape builder i decl).readBack raw) else none := by
  split
  · rename_i same
    rw [← same]
    exact opens.scalarAt_eq rowAt found count declared stored
  · rename_i other
    obtain ⟨place, -, -, desc⟩ := opens.descAt declared
    have kind : (writtenDesc builder i decl place).kind = decl.kind.code :=
      fieldShape_kind builder i decl
    rw [Table.scalarAt, desc, kind]
    split
    · rfl
    · exact if_pos fun same => other (FieldKind.code_injective same)

/-- A text is looked up in the dictionary of its field. -/
theorem text_kind (opens : Opens build builder places table)
    (texts : build.schema.fields.countP (·.kind = .text) ≤ 2 ^ 16)
    (names : Names table.countAt table.dirCount it) {piece : Piece} {row : StagedRow}
    (rowAt : RowAt builder table it piece row) {values : List UInt64}
    (found : builder.tuples[row.tuple]? = some values)
    (count : values.length = builder.schema.fields.length)
    (declared : builder.schema.fields[i]? = some decl) {raw : UInt64}
    (stored : values[i]? = some raw) : table.text it i =
      .ok (if decl.kind = .text then
        (builder.dictOf i).order[((fieldShape builder i decl).readBack raw).toNat]? else none) := by
  have scalar := opens.scalarAt_kind rowAt found count declared stored .text
  by_cases isText : decl.kind = .text
  · rw [if_pos isText] at scalar ⊢
    obtain ⟨view, located, reads⟩ := opens.text_dictionary texts declared isText
    rw [Table.text_eq opens.valid names scalar located, reads]
  · rw [if_neg isText] at scalar ⊢
    rw [Table.text, Table.readScalar_eq opens.valid names, scalar]
    rfl

/-- The readings of a field are those of the raw value in the record's tuple. -/
theorem readings_eq (opens : Opens build builder places table)
    (texts : build.schema.fields.countP (·.kind = .text) ≤ 2 ^ 16)
    (names : Names table.countAt table.dirCount it) {piece : Piece} {row : StagedRow}
    (rowAt : RowAt builder table it piece row) {values : List UInt64}
    (found : builder.tuples[row.tuple]? = some values)
    (count : values.length = builder.schema.fields.length)
    (declared : builder.schema.fields[i]? = some decl) {raw : UInt64}
    (stored : values[i]? = some raw) :
    table.readings it i =
      .ofRaw decl.kind (fieldShape builder i decl) (builder.dictOf i).order raw := by
  have scalar := opens.scalarAt_kind rowAt found count declared stored
  rw [Table.readings, Table.uint, Table.f64, Table.readScalar_eq opens.valid names,
    Table.readScalar_eq opens.valid names, Table.sint_eq opens.valid names,
    Table.f32_eq opens.valid names, scalar, scalar, scalar, scalar,
    opens.bytes_kind names rowAt found count declared stored,
    opens.text_kind texts names rowAt found count declared stored]
  cases decl.kind <;> rfl

/-- The readings of a value that is kept whole are its own. -/
theorem ofRaw_of_keeps {value : Builder.FieldValue} {raw : UInt64}
    (declared : builder.schema.fields[i]? = some decl) (keeps : builder.Keeps i decl value raw)
    (whole : (fieldShape builder i decl).readBack raw = raw) :
    Readings.ofRaw decl.kind (fieldShape builder i decl) (builder.dictOf i).order raw =
      .ofValue value := by
  cases value with
  | uint v =>
    obtain ⟨kind, rfl⟩ := keeps
    rw [kind, Readings.ofRaw, whole]
    rfl
  | sint v =>
    obtain ⟨kind, rfl⟩ := keeps
    rw [kind, Readings.ofRaw, whole]
    rfl
  | f32 bits =>
    obtain ⟨kind, rfl⟩ := keeps
    rw [kind, Readings.ofRaw, whole, UInt32.toUInt32_toUInt64]
    rfl
  | f64 bits =>
    obtain ⟨kind, rfl⟩ := keeps
    rw [kind, Readings.ofRaw, whole]
    rfl
  | text v =>
    obtain ⟨kind, entry⟩ := keeps
    rw [kind, Readings.ofRaw, whole, entry]
    rfl
  | bytes v =>
    have bytes := leBytes_of_keeps declared keeps
    rw [keeps.1, Readings.ofRaw, bytes]
    rfl

/-- A field of a record reads as the value last set, or as zero in the shape of the field. -/
theorem readings_of_entry (opens : Opens build builder places table)
    (texts : build.schema.fields.countP (·.kind = .text) ≤ 2 ^ 16)
    (names : Names table.countAt table.dirCount it) {entry : Committed}
    (located : build.log.sorted[rank table.countAt it]? = some entry)
    (declared : builder.schema.fields[i]? = some decl) :
    table.readings it i = match lastSet entry.sets i with
      | some value => .ofValue value
      | none => .ofRaw decl.kind (fieldShape builder i decl) (builder.dictOf i).order 0 := by
  obtain ⟨piece, row, values, rowAt, found, count, fills⟩ := opens.tuple_of_entry names located
  have inValues : i < values.length := by
    rw [count]
    exact (List.getElem?_eq_some_iff.mp declared).1
  have stored := List.getElem?_eq_getElem inValues
  have keeps := fills i _ _ declared stored
  rw [opens.readings_eq texts names rowAt found count declared stored]
  cases set : lastSet entry.sets i with
  | some value =>
    rw [set] at keeps
    have observed :=
      opens.built.observed entry (List.mem_of_getElem? located) _ (mem_of_lastSet set)
    exact ofRaw_of_keeps declared keeps (opens.built.readBack_of_keeps declared keeps observed)
  | none =>
    rw [set] at keeps
    rw [keeps]

end Opens

end Mmpack
