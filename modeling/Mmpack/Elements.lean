/-
This file computes what an opened table reads through an iterator on a record:
the address parts, the base of the value tuple through the references of the
partition and the composite dictionary, the values of the fields and the texts.
None of these reads leaves the image.
-/

import Mmpack.Geometry

namespace Mmpack

open ByteList Checked Cursor

namespace Table

variable {table : Table}

/-! ### Names -/

/-- The name of a field. -/
def nameAt (table : Table) (id : Nat) : List UInt8 :=
  let desc := table.schema.descAt table.region id
  (slice table.region (table.schema.names + desc.nameOffset)
    (table.schema.head.nameBytes - desc.nameOffset)).takeWhile (· ≠ 0)

theorem desc_within (valid : table.Valid) {id : Nat} (inside : id < table.schema.fieldCount) :
    table.schema.fields + id * fieldDescSize + fieldDescSize ≤ table.region.length := by
  have names := valid.schema.names
  have dicts := valid.schema.dicts
  have within := valid.schema.within
  have room := valid.schemaWithin
  have size : table.image.size = table.region.length := rfl
  have scaled : (id + 1) * fieldDescSize ≤ table.schema.fieldCount * fieldDescSize :=
    Nat.mul_le_mul_right _ inside
  rw [Nat.succ_mul] at scaled
  omega

theorem desc_eq (valid : table.Valid) {id : Nat} (inside : id < table.schema.fieldCount) :
    table.schema.field table.region id = .ok (table.schema.descAt table.region id) :=
  SchemaView.field_eq (desc_within valid inside)

theorem name_eq (valid : table.Valid) {id : Nat} (inside : id < table.schema.fieldCount) :
    table.schema.name table.region id = .ok (table.nameAt id) := by
  have fieldValid := valid.schema.field id inside
  have within := valid.schema.within
  have room := valid.schemaWithin
  have size : table.image.size = table.region.length := rfl
  have offset := fieldValid.nameOffset
  rw [SchemaView.name, desc_eq valid inside, ok_bind]
  exact SchemaView.readCString_eq (by omega) (by omega) fieldValid.terminated

theorem findFrom_eq (valid : table.Valid) (wanted : List UInt8) {remaining id : Nat}
    (exact : id + remaining = table.schema.fieldCount) :
    table.schema.findFrom table.region wanted remaining id =
      .ok ((List.range' id remaining).find? (table.nameAt · = wanted)) := by
  induction remaining generalizing id with
  | zero => rfl
  | succ remaining inductionHypothesis =>
    rw [SchemaView.findFrom, name_eq valid (by omega), ok_bind, List.range'_succ]
    by_cases found : table.nameAt id = wanted
    · rw [if_pos found, List.find?_cons_of_pos (by simpa using found)]
      rfl
    · rw [if_neg found, List.find?_cons_of_neg (by simpa using found)]
      exact inductionHypothesis (by omega)

theorem field_eq (valid : table.Valid) (wanted : List UInt8) :
    table.field wanted =
      .ok ((List.range table.schema.fieldCount).find? (table.nameAt · = wanted)) := by
  rw [List.range_eq_range']
  exact findFrom_eq valid wanted (Nat.zero_add _)

/-! ### Addresses -/

theorem partition_eq (valid : table.Valid) {it : Position}
    (names : Names table.countAt table.dirCount it) :
    table.partition it = .ok (table.entry it.slot).partition :=
  slotPartition_eq valid names.1

/-- The address of a record as an integer. -/
def addressValue (table : Table) (s i : Nat) : Nat :=
  if 8 ≤ (table.entry s).addressSkip then 0
  else leNat (table.storedBytes s i) <<< (8 * (table.entry s).addressSkip) % 2 ^ 64

theorem addressOfRecord_eq (valid : table.Valid) (narrow : table.narrowAddress = true) {s i : Nat}
    (inside : s < table.dirCount) (below : i < table.countAt s) :
    table.addressOfRecord s i = .ok (table.addressValue s i) := by
  have stored := loadStored_eq valid narrow inside below
  simp only [recordAt] at stored
  rw [addressOfRecord, layoutOf_eq valid inside, ok_bind]
  simp only [layout] at stored ⊢
  rw [stored]
  rfl

theorem address_eq (valid : table.Valid) {it : Position}
    (names : Names table.countAt table.dirCount it) :
    table.address it = .ok (if table.narrowAddress = false then none
      else some (table.addressValue it.slot it.index)) := by
  unfold address
  split
  · rfl
  · rename_i narrow
    rw [addressOfRecord_eq valid (by simpa using narrow) names.1 names.2]
    rfl

theorem addressBytes_eq (valid : table.Valid) {it : Position}
    (names : Names table.countAt table.dirCount it) :
    table.addressBytes it = .ok (table.storedBytes it.slot it.index) := by
  have stored := readStored_eq valid names.1 names.2
  rw [addressBytes, layoutOf_eq valid names.1, ok_bind]
  exact stored

theorem addressSkip_eq (valid : table.Valid) {it : Position}
    (names : Names table.countAt table.dirCount it) :
    table.addressSkip it = .ok (table.entry it.slot).addressSkip := by
  rw [addressSkip, layoutOf_eq valid names.1]
  rfl

/-- The full address field of a record, rebuilt. -/
def fullAddress (table : Table) (s i : Nat) : List UInt8 :=
  overwrite (List.replicate table.addressWidth 0) (table.entry s).addressSkip
    (table.storedBytes s i)

theorem addressInto_eq (valid : table.Valid) {it : Position}
    (names : Names table.countAt table.dirCount it) (out : List UInt8) :
    table.addressInto it out =
      .ok (if out.length ≠ table.addressWidth then none
        else some (table.fullAddress it.slot it.index)) := by
  unfold addressInto
  split
  · rfl
  · rename_i width
    have inField := (valid.slot names.1).inField
    have stored := readStored_eq valid names.1 names.2
    rw [not_not] at width
    have fits : ¬ out.length < (table.layout it.slot).addressSkip +
        (table.layout it.slot).addressWidth := by
      simp only [layout]
      omega
    rw [layoutOf_eq valid names.1, ok_bind]
    simp only [recordAt] at stored
    rw [show (table.layout it.slot).addressWidth = (table.entry it.slot).addressWidth from rfl]
      at fits ⊢
    rw [stored, ok_bind, if_neg fits, width]
    rfl

/-- The key of a record. -/
def keyValue (table : Table) (s i : Nat) : Nat :=
  if 64 ≤ table.schema.addressBits then table.addressValue s i
  else (table.entry s).partition <<< table.schema.addressBits % 2 ^ 64 ||| table.addressValue s i

theorem key_eq (valid : table.Valid) {it : Position}
    (names : Names table.countAt table.dirCount it) :
    table.key it = .ok (if table.hasKeyMapping = false then none
      else some (table.keyValue it.slot it.index)) := by
  unfold key
  split
  · rfl
  · rename_i mapped
    have narrow := valid.keyed (by simpa [hasKeyMapping] using mapped)
    rw [keyOfRecord, slotPartition_eq valid names.1]
    simp only [ok_bind]
    rw [addressOfRecord_eq valid narrow names.1 names.2]
    rfl

/-! ### Value tuples -/

theorem valueStride_le_valuePart (valid : table.Valid) (inline : table.interned = false) :
    table.schema.valueStride ≤ table.valuePart := by
  have bound := valid.schema.inline (by rw [← valid.interned_eq]; exact inline)
  have split := valid.stride_split
  have width := valid.addressWidth_eq
  omega

/-- The width of a record's reference, and that it lies in the record. -/
theorem refWidth_spec (valid : table.Valid) (interned : table.interned = true) {s : Nat}
    (inside : s < table.dirCount) :
    (table.layout s).refWidth ≤ 8 ∧
      (table.entry s).addressWidth + (table.layout s).refWidth ≤
        table.strideOf (table.entry s) := by
  have slot := valid.slot inside
  obtain ⟨legal, -, bound⟩ := valid.schema.interned (by rw [← valid.interned_eq]; exact interned)
  have split := valid.stride_split
  have width := valid.addressWidth_eq
  have refs := valid.refWidth_eq
  simp only [layout, strideOf]
  split
  · rename_i remapped
    have small := (slot.remapped remapped).1
    simp only [maxLocalWidth] at small
    omega
  · have narrow := isValidWidth_le legal
    omega

/-- The reference of a record into the composite dictionary. -/
def referenceOf (table : Table) (s i : Nat) : Option Nat :=
  let ref := valueAt table.region (table.recordAt s i + (table.entry s).addressWidth)
    (table.layout s).refWidth
  if (table.entry s).schemaId ≠ 0 then
    if (table.entry s).remapCount ≤ ref then none
    else some (valueAt table.region ((table.entry s).offset + ref * 4) 4)
  else some ref

theorem reference_eq (valid : table.Valid) (interned : table.interned = true) {s i : Nat}
    (inside : s < table.dirCount) (below : i < table.countAt s) :
    table.reference (table.layout s) (table.recordAt s i) = .ok (table.referenceOf s i) := by
  obtain ⟨narrow, inRecord⟩ := refWidth_spec valid interned inside
  have room := record_room valid inside below
  have occupied : (table.entry s).count ≠ 0 := Nat.ne_of_gt (Nat.zero_lt_of_lt below)
  have block := ((valid.slot inside).block occupied).2
  have tail := directory_room valid
  simp only [blockEnd] at block
  simp only [footerSize] at tail
  unfold reference referenceOf
  rw [show (table.layout s).addressWidth = (table.entry s).addressWidth from rfl,
    loadUint_eq narrow (by omega), ok_bind]
  generalize valueAt table.region (table.recordAt s i + (table.entry s).addressWidth)
    (table.layout s).refWidth = ref
  by_cases remapped : (table.entry s).schemaId ≠ 0
  · simp only [layout, remapped, ne_eq, not_false_eq_true, decide_true, if_true]
    split
    · rfl
    · rw [load_eq (by omega)]
      rfl
  · simp only [layout, remapped, decide_false, Bool.false_eq_true, if_false]
    rfl

/-- Base of the value tuple of a record. -/
def tupleBase (table : Table) (s i : Nat) : Option Nat :=
  if table.interned = false then some (table.recordAt s i + (table.entry s).addressWidth)
  else (table.referenceOf s i).bind table.valueDict.element

theorem valueBase_eq (valid : table.Valid) {it : Position}
    (names : Names table.countAt table.dirCount it) :
    table.valueBase it = .ok (table.tupleBase it.slot it.index) := by
  unfold valueBase tupleBase
  rw [if_neg (Nat.not_le.mpr names.1), layoutOf_eq valid names.1, ok_bind]
  split
  · rfl
  · rename_i mode
    have interned : table.interned = true := by simpa using mode
    have found := reference_eq valid interned names.1 names.2
    simp only [recordAt] at found ⊢
    rw [found, ok_bind]
    cases table.referenceOf it.slot it.index <;> rfl

theorem valueBase_end (table : Table) : table.valueBase table.end = .ok none := by
  unfold valueBase
  exact if_pos (Nat.le_refl table.dirCount)

theorem valueDict_valid (valid : table.Valid) (interned : table.interned = true) :
    table.valueDict.Valid (table.schema.dictAt table.region table.schema.valueDict).offset
        (table.schema.dictAt table.region table.schema.valueDict).size ∧
      (table.schema.dictAt table.region table.schema.valueDict).offset +
        (table.schema.dictAt table.region table.schema.valueDict).size ≤ table.region.length ∧
      table.valueDict.elemSize = table.schema.valueStride := by
  have mode : table.schema.interned = true := by rw [← valid.interned_eq]; exact interned
  obtain ⟨-, inTable, -⟩ := valid.schema.interned mode
  obtain ⟨within, composite, -⟩ := valid.dictionaries _ inTable
  obtain ⟨opened, elemSize⟩ := composite mode rfl
  exact ⟨(FixedDictionaryView.open_ensures within).of_accepts opened, within, elemSize⟩

/-- A value tuple lies in the image. -/
theorem tuple_within (valid : table.Valid) {s i base : Nat} (inside : s < table.dirCount)
    (below : i < table.countAt s) (found : table.tupleBase s i = some base) :
    base + table.schema.valueStride ≤ table.region.length := by
  unfold tupleBase at found
  split at found
  · rename_i inline
    obtain rfl := Option.some.inj found
    have room := record_room valid inside below
    have part := valueStride_le_valuePart valid inline
    have plain : (table.entry s).schemaId = 0 := by
      by_contra remapped
      rw [((valid.slot inside).remapped remapped).2.1] at inline
      cases inline
    rw [strideOf, plain] at room
    simp only [ne_eq, not_true_eq_false, if_false] at room
    omega
  · rename_i mode
    obtain ⟨dictValid, within, elemSize⟩ := valueDict_valid valid (by simpa using mode)
    obtain ⟨ref, -, inDict⟩ := Option.bind_eq_some_iff.mp found
    unfold FixedDictionaryView.element at inDict
    split at inDict
    · cases inDict
    · rename_i bound
      obtain rfl := Option.some.inj inDict
      have room := dictValid.within
      have scaled : (ref + 1) * table.valueDict.elemSize ≤
          table.valueDict.count * table.valueDict.elemSize :=
        Nat.mul_le_mul_right _ (Nat.not_le.mp bound)
      rw [Nat.succ_mul] at scaled
      omega

/-! ### Fields -/

/-- The raw value of a field of the given kind in the tuple at a base. -/
def scalarAt (table : Table) (base : Option Nat) (id : Nat) (expected : FieldKind) :
    Option UInt64 :=
  let d := table.schema.descAt table.region id
  if table.schema.fieldCount ≤ id then none
  else if d.kind ≠ expected.code then none
  else base.map fun start =>
    UInt64.ofNat (valueAt table.region (start + d.offset) d.width + d.bias)

theorem kindAllows_le {kind width : Nat} (allowed : SchemaView.kindAllows kind width = true) :
    width ≤ 8 := by
  unfold SchemaView.kindAllows at allowed
  split at allowed
  · rw [beq_iff_eq.mp allowed]
    decide
  · split at allowed
    · rw [beq_iff_eq.mp allowed]
    · split at allowed
      · simp only [ne_eq, decide_not, Bool.and_eq_true, Bool.not_eq_eq_eq_not, Bool.not_true,
          decide_eq_false_iff_not, decide_eq_true_eq] at allowed
        exact allowed.2
      · exact isValidWidth_le allowed

/-- A field read on a record reads the record's tuple. -/
theorem readScalar_eq (valid : table.Valid) {it : Position}
    (names : Names table.countAt table.dirCount it) (id : Nat) (expected : FieldKind) :
    table.readScalar it id expected =
      .ok (table.scalarAt (table.tupleBase it.slot it.index) id expected) := by
  unfold readScalar scalarAt
  by_cases past : table.schema.fieldCount ≤ id
  · simp only [past, if_true]
    rfl
  · have inside := Nat.not_le.mp past
    have fieldValid := valid.schema.field id inside
    simp only [past, if_false]
    rw [desc_eq valid inside, ok_bind]
    split
    · rfl
    · rw [valueBase_eq valid names, ok_bind]
      cases found : table.tupleBase it.slot it.index with
      | none => rfl
      | some base =>
        have tuple := tuple_within valid names.1 names.2 found
        have inTuple := fieldValid.inTuple
        simp only
        rw [loadUint_eq (kindAllows_le fieldValid.width) (by omega)]
        rfl

/-- Nothing is read through the end. -/
theorem readScalar_end (valid : table.Valid) (id : Nat) (expected : FieldKind) :
    table.readScalar table.end id expected = .ok none := by
  unfold readScalar
  by_cases past : table.schema.fieldCount ≤ id
  · simp only [past, if_true]
    rfl
  · simp only [past, if_false]
    rw [desc_eq valid (Nat.not_le.mp past), ok_bind, valueBase_end]
    split <;> rfl

/-- The bytes of a `bytes` field in the tuple at a base. -/
def bytesAt (table : Table) (base : Option Nat) (id : Nat) : Option (List UInt8) :=
  let d := table.schema.descAt table.region id
  if table.schema.fieldCount ≤ id then none
  else if d.kind ≠ FieldKind.bytes.code then none
  else base.map fun start => slice table.region (start + d.offset) d.width

theorem bytes_eq (valid : table.Valid) {it : Position}
    (names : Names table.countAt table.dirCount it) (id : Nat) :
    table.bytes it id = .ok (table.bytesAt (table.tupleBase it.slot it.index) id) := by
  unfold bytes bytesAt
  by_cases past : table.schema.fieldCount ≤ id
  · simp only [past, if_true]
    rfl
  · have inside := Nat.not_le.mp past
    simp only [past, if_false]
    rw [desc_eq valid inside, ok_bind]
    split
    · rfl
    · rw [valueBase_eq valid names, ok_bind]
      cases found : table.tupleBase it.slot it.index with
      | none => rfl
      | some base =>
        have tuple := tuple_within valid names.1 names.2 found
        have inTuple := (valid.schema.field id inside).inTuple
        simp only
        rw [readBytes_eq (by omega)]
        rfl

theorem bytes_end (valid : table.Valid) (id : Nat) : table.bytes table.end id = .ok none := by
  unfold bytes
  by_cases past : table.schema.fieldCount ≤ id
  · simp only [past, if_true]
    rfl
  · simp only [past, if_false]
    rw [desc_eq valid (Nat.not_le.mp past), ok_bind, valueBase_end]
    split <;> rfl

/-- The dictionary of a text field is an opened blob dictionary. -/
theorem textDictionary (valid : table.Valid) {id : Nat} (inside : id < table.schema.fieldCount)
    (isText : (table.schema.descAt table.region id).kind = FieldKind.text.code) :
    ∃ view, table.blobDicts[(table.schema.descAt table.region id).dictIndex]? = some view ∧
      ∃ block size, BlobDictionaryView.open table.region block size = pure view ∧
        block + size ≤ table.region.length := by
  have inTable := (valid.schema.field id inside).dictIndex isText
  obtain ⟨within, -, blob⟩ := valid.dictionaries _ inTable
  obtain ⟨view, found, opened⟩ := blob fun both =>
    valid.texts id inside isText both.1 both.2
  exact ⟨view, found, _, _, opened, within⟩

theorem dictionaryText_runs {region : List UInt8} {view : BlobDictionaryView} {block size : Nat}
    (opened : BlobDictionaryView.open region block size = pure view)
    (within : block + size ≤ region.length) (id : Nat) :
    ∃ result, view.text region id = .ok result :=
  ⟨_, BlobDictionaryView.bytes_eq ((BlobDictionaryView.open_ensures within).of_accepts opened)
    within id⟩

/-- A text read on a record goes through the dictionary of the field. -/
theorem text_eq (valid : table.Valid) {it : Position}
    (names : Names table.countAt table.dirCount it) {id : Nat} {raw : UInt64}
    (found : table.scalarAt (table.tupleBase it.slot it.index) id .text = some raw)
    {view : BlobDictionaryView}
    (located : table.blobDicts[(table.schema.descAt table.region id).dictIndex]? = some view) :
    table.text it id = view.text table.region raw.toNat := by
  have inside : id < table.schema.fieldCount := by
    by_contra past
    rw [scalarAt, if_pos (Nat.not_lt.mp past)] at found
    nomatch found
  unfold text
  rw [readScalar_eq valid names, ok_bind, found]
  simp only
  rw [desc_eq valid inside, ok_bind, located]

theorem text_runs (valid : table.Valid) {it : Position}
    (names : Names table.countAt table.dirCount it) (id : Nat) :
    ∃ result, table.text it id = .ok result := by
  cases found : table.scalarAt (table.tupleBase it.slot it.index) id .text with
  | none =>
    unfold text
    rw [readScalar_eq valid names, ok_bind, found]
    exact ⟨none, rfl⟩
  | some raw =>
    have inside : id < table.schema.fieldCount := by
      by_contra past
      rw [scalarAt, if_pos (Nat.not_lt.mp past)] at found
      nomatch found
    have isText : (table.schema.descAt table.region id).kind = FieldKind.text.code := by
      by_contra other
      rw [scalarAt, if_neg (Nat.not_le.mpr inside), if_pos other] at found
      nomatch found
    obtain ⟨view, located, block, size, opened, within⟩ := textDictionary valid inside isText
    rw [text_eq valid names found located]
    exact dictionaryText_runs opened within _

theorem text_end (valid : table.Valid) (id : Nat) : table.text table.end id = .ok none := by
  unfold text
  rw [readScalar_end valid]
  rfl

end Table

end Mmpack
