/-
This file embeds `schema.hpp`: the declared fields of the build side, the
serialized schema block, and the view the reader opens over it.

A declared schema carries the guarantees of `schema_builder::add` as fields of
the structure: names are distinct, not empty and free of NUL, and every kind has
its declared width. `SchemaView.open` is the validator of the read side, and
`SchemaView.Valid` everything it establishes.
-/

import Mmpack.Errors
import Mmpack.Format

namespace Mmpack

open ByteList Checked

/-! ### Declared fields -/

inductive FieldKind
  | uint
  | sint
  | f32
  | f64
  | bytes
  | text
  deriving DecidableEq, Repr

/-- The value stored for a kind. -/
def FieldKind.code : FieldKind → Nat
  | .uint => 0
  | .sint => 1
  | .f32 => 2
  | .f64 => 3
  | .bytes => 4
  | .text => 5

theorem FieldKind.code_injective {first second : FieldKind} (same : first.code = second.code) :
    first = second := by
  cases first <;> cases second <;> first | rfl | nomatch same

def maxFieldKind : Nat := 5

/-- The widths `schema_builder` declares for a kind; 0 means "choose from data". -/
def FieldKind.Declares (kind : FieldKind) (width : Nat) : Prop :=
  match kind with
  | .uint | .sint | .text => width = 0
  | .f32 => width = 4
  | .f64 => width = 8
  | .bytes => 1 ≤ width ∧ width ≤ 8

structure FieldDecl where
  name : List UInt8
  kind : FieldKind
  fixedWidth : Nat
  deriving DecidableEq, Repr

structure SchemaBuilder where
  fields : List FieldDecl
  named : ∀ field ∈ fields, field.name ≠ [] ∧ 0 ∉ field.name
  distinct : (fields.map FieldDecl.name).Nodup
  declared : ∀ field ∈ fields, field.kind.Declares field.fixedWidth
  /-- A `field_id` is a 32-bit number, and there is one for every field. -/
  length_lt : fields.length < 2 ^ 32

namespace SchemaBuilder

def empty : SchemaBuilder where
  fields := []
  named := by simp
  distinct := by simp
  declared := by simp
  length_lt := by decide

def find (schema : SchemaBuilder) (name : List UInt8) : Option Nat :=
  schema.fields.findIdx? (·.name == name)

theorem find_eq_none {schema : SchemaBuilder} {name : List UInt8} :
    schema.find name = none ↔ name ∉ schema.fields.map FieldDecl.name := by
  rw [find, List.findIdx?_eq_none_iff]
  simp

/-- `schema_builder::add`, with the id of the new field. -/
def add (schema : SchemaBuilder) (name : List UInt8) (kind : FieldKind) (width : Nat)
    (declares : kind.Declares width) : Except BuildError (SchemaBuilder × Nat) :=
  if empty : name = [] then .error .emptyFieldName
  else if nul : 0 ∈ name then .error (.fieldNameContainsNul name)
  else if fresh : schema.find name = none then
    if room : schema.fields.length + 1 < 2 ^ 32 then
      .ok ({ fields := schema.fields ++ [{ name, kind, fixedWidth := width }]
             named := by
              intro field member
              rcases List.mem_append.mp member with old | new
              · exact schema.named field old
              · rw [List.mem_singleton.mp new]
                exact ⟨empty, nul⟩
             distinct := by
              rw [List.map_append, List.nodup_append]
              refine ⟨schema.distinct, by simp, ?_⟩
              intro old member new last same
              rw [List.map_singleton, List.mem_singleton] at last
              exact find_eq_none.mp fresh (by rwa [same, last] at member)
             declared := by
              intro field member
              rcases List.mem_append.mp member with old | new
              · exact schema.declared field old
              · rw [List.mem_singleton.mp new]
                exact declares
             length_lt := by rwa [List.length_append, List.length_singleton] },
        schema.fields.length)
    else .error .outOfMemory
  else .error (.duplicateFieldName name)

def addUint (schema : SchemaBuilder) (name : List UInt8) :
    Except BuildError (SchemaBuilder × Nat) :=
  schema.add name .uint 0 rfl

def addSint (schema : SchemaBuilder) (name : List UInt8) :
    Except BuildError (SchemaBuilder × Nat) :=
  schema.add name .sint 0 rfl

def addF32 (schema : SchemaBuilder) (name : List UInt8) :
    Except BuildError (SchemaBuilder × Nat) :=
  schema.add name .f32 4 rfl

def addF64 (schema : SchemaBuilder) (name : List UInt8) :
    Except BuildError (SchemaBuilder × Nat) :=
  schema.add name .f64 8 rfl

def addText (schema : SchemaBuilder) (name : List UInt8) :
    Except BuildError (SchemaBuilder × Nat) :=
  schema.add name .text 0 rfl

def addBytes (schema : SchemaBuilder) (name : List UInt8) (width : Nat) :
    Except BuildError (SchemaBuilder × Nat) :=
  if wide : width = 0 ∨ 8 < width then .error (.bytesFieldWidth name)
  else schema.add name .bytes width (by simp only [FieldKind.Declares]; omega)

end SchemaBuilder

/-! ### The serialized block -/

def schemaMagic : Nat := 0x4d534348

/-- The `address_bits` value of an image without a 64-bit key space. -/
def noKeyMapping : Nat := 0xff

structure SchemaHeader where
  magic : Nat
  fieldCount : Nat
  dictCount : Nat
  recordStride : Nat
  valueStride : Nat
  nameBytes : Nat
  addressWidth : Nat
  addressBits : Nat
  /-- `value_mode`: 0 for inline fields, 1 for interned tuples. -/
  mode : Nat
  refWidth : Nat
  valueDict : Nat
  dirPartitionWidth : Nat
  dirOffsetWidth : Nat
  dirCountWidth : Nat
  dirRemapWidth : Nat
  dirAddrWidth : Nat
  dirSkipWidth : Nat
  deriving DecidableEq, Repr

/-- `sizeof(schema_header)`. -/
def schemaHeaderSize : Nat := 40

def SchemaHeader.parse (bytes : List UInt8) : SchemaHeader where
  magic := valueAt bytes 0 4
  fieldCount := valueAt bytes 4 4
  dictCount := valueAt bytes 8 4
  recordStride := valueAt bytes 12 4
  valueStride := valueAt bytes 16 4
  nameBytes := valueAt bytes 20 4
  addressWidth := valueAt bytes 24 1
  addressBits := valueAt bytes 25 1
  mode := valueAt bytes 26 1
  refWidth := valueAt bytes 27 1
  valueDict := valueAt bytes 28 4
  dirPartitionWidth := valueAt bytes 32 1
  dirOffsetWidth := valueAt bytes 33 1
  dirCountWidth := valueAt bytes 34 1
  dirRemapWidth := valueAt bytes 35 1
  dirAddrWidth := valueAt bytes 36 1
  dirSkipWidth := valueAt bytes 37 1

def SchemaHeader.load (region : List UInt8) (position : Nat) : Read SchemaHeader :=
  loadStruct SchemaHeader.parse schemaHeaderSize region position

def SchemaHeader.encode (head : SchemaHeader) : List UInt8 :=
  pack [(4, head.magic), (4, head.fieldCount), (4, head.dictCount), (4, head.recordStride),
    (4, head.valueStride), (4, head.nameBytes), (1, head.addressWidth), (1, head.addressBits),
    (1, head.mode), (1, head.refWidth), (4, head.valueDict), (1, head.dirPartitionWidth),
    (1, head.dirOffsetWidth), (1, head.dirCountWidth), (1, head.dirRemapWidth),
    (1, head.dirAddrWidth), (1, head.dirSkipWidth), (2, 0)]

structure FieldDesc where
  offset : Nat
  nameOffset : Nat
  /-- stored = actual - bias, wrapping. -/
  bias : Nat
  width : Nat
  kind : Nat
  dictIndex : Nat
  deriving DecidableEq, Repr

/-- `sizeof(field_desc)`. -/
def fieldDescSize : Nat := 24

def FieldDesc.parse (bytes : List UInt8) : FieldDesc where
  offset := valueAt bytes 0 4
  nameOffset := valueAt bytes 4 4
  bias := valueAt bytes 8 8
  width := valueAt bytes 16 4
  kind := valueAt bytes 20 1
  dictIndex := valueAt bytes 22 2

def FieldDesc.encode (desc : FieldDesc) : List UInt8 :=
  pack [(4, desc.offset), (4, desc.nameOffset), (8, desc.bias), (4, desc.width), (1, desc.kind),
    (1, 0), (2, desc.dictIndex)]

structure DictEntry where
  offset : Nat
  size : Nat
  deriving DecidableEq, Repr

/-- `sizeof(dict_entry)`. -/
def dictEntrySize : Nat := 16

def DictEntry.parse (bytes : List UInt8) : DictEntry where
  offset := valueAt bytes 0 8
  size := valueAt bytes 8 8

def DictEntry.encode (entry : DictEntry) : List UInt8 :=
  pack [(8, entry.offset), (8, entry.size)]

/-- The numbers of a schema header fit their fields. -/
structure SchemaHeader.Fits (head : SchemaHeader) : Prop where
  magic : head.magic < 256 ^ 4
  fieldCount : head.fieldCount < 256 ^ 4
  dictCount : head.dictCount < 256 ^ 4
  recordStride : head.recordStride < 256 ^ 4
  valueStride : head.valueStride < 256 ^ 4
  nameBytes : head.nameBytes < 256 ^ 4
  addressWidth : head.addressWidth < 256 ^ 1
  addressBits : head.addressBits < 256 ^ 1
  mode : head.mode < 256 ^ 1
  refWidth : head.refWidth < 256 ^ 1
  valueDict : head.valueDict < 256 ^ 4
  dirPartitionWidth : head.dirPartitionWidth < 256 ^ 1
  dirOffsetWidth : head.dirOffsetWidth < 256 ^ 1
  dirCountWidth : head.dirCountWidth < 256 ^ 1
  dirRemapWidth : head.dirRemapWidth < 256 ^ 1
  dirAddrWidth : head.dirAddrWidth < 256 ^ 1
  dirSkipWidth : head.dirSkipWidth < 256 ^ 1

structure FieldDesc.Fits (desc : FieldDesc) : Prop where
  offset : desc.offset < 256 ^ 4
  nameOffset : desc.nameOffset < 256 ^ 4
  bias : desc.bias < 256 ^ 8
  width : desc.width < 256 ^ 4
  kind : desc.kind < 256 ^ 1
  dictIndex : desc.dictIndex < 256 ^ 2

@[simp] theorem SchemaHeader.encode_length (head : SchemaHeader) :
    head.encode.length = schemaHeaderSize := by
  simp [encode, schemaHeaderSize]

@[simp] theorem FieldDesc.encode_length (desc : FieldDesc) :
    desc.encode.length = fieldDescSize := by
  simp [encode, fieldDescSize]

@[simp] theorem DictEntry.encode_length (entry : DictEntry) :
    entry.encode.length = dictEntrySize := by
  simp [encode, dictEntrySize]

theorem SchemaHeader.parse_encode {head : SchemaHeader} (fits : head.Fits) :
    parse head.encode = head := by
  simp only [parse, encode, pack_cons, pack_nil, List.append_nil, valueAt_append_skip,
    leBytes_length, Nat.reduceLeDiff, Nat.le_refl, Nat.reduceSub, Nat.sub_self,
    valueAt_leBytes_append, Nat.mod_eq_of_lt fits.magic,
    Nat.mod_eq_of_lt fits.fieldCount, Nat.mod_eq_of_lt fits.dictCount,
    Nat.mod_eq_of_lt fits.recordStride, Nat.mod_eq_of_lt fits.valueStride,
    Nat.mod_eq_of_lt fits.nameBytes, Nat.mod_eq_of_lt fits.addressWidth,
    Nat.mod_eq_of_lt fits.addressBits, Nat.mod_eq_of_lt fits.mode,
    Nat.mod_eq_of_lt fits.refWidth, Nat.mod_eq_of_lt fits.valueDict,
    Nat.mod_eq_of_lt fits.dirPartitionWidth, Nat.mod_eq_of_lt fits.dirOffsetWidth,
    Nat.mod_eq_of_lt fits.dirCountWidth, Nat.mod_eq_of_lt fits.dirRemapWidth,
    Nat.mod_eq_of_lt fits.dirAddrWidth, Nat.mod_eq_of_lt fits.dirSkipWidth]

theorem FieldDesc.parse_encode {desc : FieldDesc} (fits : desc.Fits) :
    parse desc.encode = desc := by
  simp only [parse, encode, pack_cons, pack_nil, List.append_nil, valueAt_append_skip,
    leBytes_length, Nat.reduceLeDiff, Nat.le_refl, Nat.reduceSub, Nat.sub_self,
    valueAt_leBytes_append, valueAt_leBytes, Nat.mod_eq_of_lt fits.offset,
    Nat.mod_eq_of_lt fits.nameOffset, Nat.mod_eq_of_lt fits.bias, Nat.mod_eq_of_lt fits.width,
    Nat.mod_eq_of_lt fits.kind, Nat.mod_eq_of_lt fits.dictIndex]

theorem DictEntry.parse_encode {entry : DictEntry} (offset : entry.offset < 256 ^ 8)
    (size : entry.size < 256 ^ 8) : parse entry.encode = entry := by
  simp only [parse, encode, pack_cons, pack_nil, List.append_nil, valueAt_append_skip,
    leBytes_length, Nat.le_refl, Nat.sub_self,
    valueAt_leBytes_append, valueAt_leBytes, Nat.mod_eq_of_lt offset, Nat.mod_eq_of_lt size]

end Mmpack
