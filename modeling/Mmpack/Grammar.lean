/-
This file states what an image is, and that the validator accepts these byte strings
and no others: a frame, a schema block, a directory and dictionaries that say of
themselves what they hold, each in its place. Nothing here runs a validator but the
last theorems, which say that running it decides the question.
-/

import Mmpack.Acceptance

namespace Mmpack

open ByteList Checked Cursor

/-! ### Dictionaries -/

/-- The header of a dictionary at its place. -/
def dictHead (region : List UInt8) (block : Nat) : DictHeader :=
  DictHeader.parse (slice region block dictHeaderSize)

/-- An offset of the table behind the header of a blob dictionary. -/
def dictOffset (region : List UInt8) (block index : Nat) : Nat :=
  valueAt region (block + dictHeaderSize + index * 4) 4

/-- A dictionary of elements of one size. -/
structure FixedBlock (region : List UInt8) (block size elemSize : Nat) : Prop where
  large : dictHeaderSize ≤ size
  magic : (dictHead region block).magic = dictionaryMagic
  type : (dictHead region block).type = fixedType
  payload : (dictHead region block).payload = elemSize
  room : dictHeaderSize + (dictHead region block).count * elemSize ≤ size

/-- A dictionary of byte strings: the offsets do not fall, and the last is the size of the
bytes. -/
structure BlobBlock (region : List UInt8) (block size : Nat) : Prop where
  large : dictHeaderSize ≤ size
  magic : (dictHead region block).magic = dictionaryMagic
  type : (dictHead region block).type = blobType
  room : dictHeaderSize + ((dictHead region block).count + 1) * 4 +
    (dictHead region block).payload ≤ size
  ordered : ∀ i < (dictHead region block).count,
    dictOffset region block i ≤ dictOffset region block (i + 1)
  last : dictOffset region block (dictHead region block).count =
    (dictHead region block).payload

theorem dictHead_fits (region : List UInt8) (block : Nat) :
    (dictHead region block).count < 256 ^ 4 ∧ (dictHead region block).payload < 256 ^ 4 :=
  ⟨valueAt_lt _ _ _, valueAt_lt _ _ _⟩

theorem load_ok {region : List UInt8} {position size value : Nat}
    (runs : load region position size = .ok value) : value = valueAt region position size := by
  by_cases within : position + size ≤ region.length
  · rw [load_eq within] at runs
    exact (Except.ok.inj runs).symm
  · rw [load, readBytes, if_neg within] at runs
    cases runs

theorem loadStruct_ok {Struct : Type} {parse : List UInt8 → Struct} {size position : Nat}
    {region : List UInt8} {value : Struct}
    (runs : loadStruct parse size region position = .ok value) :
    position + size ≤ region.length ∧ value = parse (slice region position size) := by
  by_cases within : position + size ≤ region.length
  · rw [loadStruct_eq parse within] at runs
    exact ⟨within, (Except.ok.inj runs).symm⟩
  · rw [loadStruct, readBytes, if_neg within] at runs
    cases runs

section Dictionaries

variable {region : List UInt8} {block size : Nat}

/-- The fixed dictionaries that open, with what their view says of the elements. -/
theorem FixedDictionaryView.open_iff (within : block + size ≤ region.length) {elemSize : Nat} :
    (∃ view, FixedDictionaryView.open region block size = pure view ∧
      view.elemSize = elemSize) ↔ FixedBlock region block size elemSize := by
  constructor
  · rintro ⟨view, opens, rfl⟩
    refine (?_ : Yields (FixedDictionaryView.open region block size) fun view =>
      FixedBlock region block size view.elemSize) view opens
    unfold FixedDictionaryView.open
    refine yields_rejectIf_bind fun small => yields_lift_bind fun head loaded => ?_
    obtain ⟨-, parsed⟩ := loadStruct_ok loaded
    obtain rfl : head = dictHead region block := parsed
    refine yields_rejectIf_bind fun marks => ?_
    refine yields_lift_bind fun bytes product => yields_lift_bind fun total sum =>
      yields_rejectIf_bind fun room => yields_pure ?_
    rw [checkedAdd_ok sum, checkedMul_ok product] at room
    obtain ⟨magic, type⟩ := not_or.mp marks
    exact ⟨Nat.not_lt.mp small, not_not.mp magic, not_not.mp type, rfl, Nat.not_lt.mp room⟩
  · rintro ⟨large, magic, type, rfl, room⟩
    obtain ⟨count, payload⟩ := dictHead_fits region block
    have product : (dictHead region block).count * (dictHead region block).payload ≤
        (256 ^ 4 - 1) * (256 ^ 4 - 1) := Nat.mul_le_mul (by omega) (by omega)
    have loads : DictHeader.load region block = .ok (dictHead region block) :=
      loadStruct_eq _ (by omega)
    refine ⟨⟨block + dictHeaderSize, (dictHead region block).count,
      (dictHead region block).payload⟩, ?_, rfl⟩
    unfold FixedDictionaryView.open
    rw [rejectIf_bind (by omega), lift_bind loads, rejectIf_bind (by simp [magic, type]),
      lift_bind (checkedMul_eq (by omega)),
      lift_bind (checkedAdd_eq (by simp only [dictHeaderSize]; omega)), rejectIf_bind (by omega)]

/-- The loop over the offsets ends on the last one. -/
theorem checkOffsets_yields {offsets payload remaining index previous : Nat} :
    Yields (checkOffsets region offsets payload remaining index previous) fun last =>
      last = if 0 < remaining then valueAt region (offsets + (index + remaining - 1) * 4) 4
        else previous := by
  induction remaining generalizing index previous with
  | zero => exact yields_pure rfl
  | succ remaining inductionHypothesis =>
    unfold checkOffsets
    refine yields_lift_bind fun value loaded => yields_rejectIf_bind fun _ =>
      yields_mono inductionHypothesis fun last same => ?_
    have stored := load_ok loaded
    rw [same, if_pos (Nat.succ_pos remaining)]
    split
    · congr 3
      omega
    · rename_i none
      obtain rfl : remaining = 0 := by omega
      exact stored

/-- No offset is past the last. -/
theorem BlobBlock.bounded (blob : BlobBlock region block size) {i : Nat}
    (inside : i ≤ (dictHead region block).count) :
    dictOffset region block i ≤ (dictHead region block).payload := by
  rw [← blob.last]
  induction inside using Nat.decreasingInduction with
  | self => exact Nat.le_refl _
  | of_succ i below inductionHypothesis =>
    exact Nat.le_trans (blob.ordered i below) inductionHypothesis

/-- The blob dictionaries that open. -/
theorem BlobDictionaryView.open_iff (within : block + size ≤ region.length) :
    (∃ view, BlobDictionaryView.open region block size = pure view) ↔
      BlobBlock region block size := by
  constructor
  · rintro ⟨view, opens⟩
    have valid := (BlobDictionaryView.open_ensures within).of_accepts opens
    have walk : Yields (BlobDictionaryView.open region block size) fun view =>
        (dictHeaderSize ≤ size ∧ (dictHead region block).magic = dictionaryMagic ∧
          (dictHead region block).type = blobType ∧
          dictHeaderSize + ((dictHead region block).count + 1) * 4 +
            (dictHead region block).payload ≤ size) ∧
        view.count = (dictHead region block).count ∧
        dictOffset region block (dictHead region block).count =
          (dictHead region block).payload := by
      unfold BlobDictionaryView.open
      refine yields_rejectIf_bind fun small => yields_lift_bind fun head loaded => ?_
      obtain ⟨-, parsed⟩ := loadStruct_ok loaded
      obtain rfl : head = dictHead region block := parsed
      refine yields_rejectIf_bind fun marks => yields_lift_bind fun entries more =>
        yields_lift_bind fun offsetsBytes product => yields_lift_bind fun offsetsEnd sum =>
        yields_lift_bind fun total sum' => yields_rejectIf_bind fun room => ?_
      refine yields_bind fun last loop => yields_rejectIf_bind fun ends => yields_pure ?_
      rw [checkedAdd_ok sum', checkedAdd_ok sum, checkedMul_ok product, checkedAdd_ok more] at room
      obtain ⟨magic, type⟩ := not_or.mp marks
      refine ⟨⟨Nat.not_lt.mp small, not_not.mp magic, not_not.mp type, Nat.not_lt.mp room⟩, rfl,
        ?_⟩
      have stored := checkOffsets_yields last loop
      rw [if_pos (Nat.succ_pos _), Nat.zero_add, Nat.add_sub_cancel] at stored
      rw [dictOffset, ← stored]
      exact not_not.mp ends
    obtain ⟨⟨large, magic, type, room⟩, count, last⟩ := walk view opens
    refine ⟨large, magic, type, room, fun i inside => ?_, last⟩
    have ordered := valid.ordered i (count ▸ inside)
    rw [offsetAt, offsetAt, valid.offsets] at ordered
    exact ordered
  · intro described
    have bounded (i : Nat) := @BlobBlock.bounded region block size described i
    obtain ⟨large, magic, type, room, ordered, last⟩ := described
    obtain ⟨count, payload⟩ := dictHead_fits region block
    have loads : DictHeader.load region block = .ok (dictHead region block) :=
      loadStruct_eq _ (by omega)
    have offsetsWithin : block + dictHeaderSize + (0 + ((dictHead region block).count + 1)) * 4 ≤
        region.length := by omega
    have loop : checkOffsets region (block + dictHeaderSize) (dictHead region block).payload
        ((dictHead region block).count + 1) 0 0 = pure (dictHead region block).payload := by
      rw [checkOffsets_eq offsetsWithin (fun _ => Nat.zero_le _)
        (fun other _ below => bounded other (by omega))
        (fun other _ below => ordered other (by omega)), if_pos (Nat.succ_pos _), Nat.zero_add,
        Nat.add_sub_cancel]
      exact congrArg pure last
    refine ⟨⟨block + dictHeaderSize,
      block + dictHeaderSize + ((dictHead region block).count + 1) * 4,
      (dictHead region block).count⟩, ?_⟩
    unfold BlobDictionaryView.open
    rw [rejectIf_bind (by omega), lift_bind loads, rejectIf_bind (by simp [magic, type]),
      lift_bind (checkedAdd_eq (by omega)), lift_bind (checkedMul_eq (by omega)),
      lift_bind (checkedAdd_eq (by simp only [dictHeaderSize]; omega)),
      lift_bind (checkedAdd_eq (by simp only [dictHeaderSize]; omega)), rejectIf_bind (by omega),
      loop, pure_bind, rejectIf_bind (not_not.mpr rfl)]

end Dictionaries

/-! ### Images -/

/-- A dictionary of a schema in its place before the footer: the composite one, or one of byte
strings. -/
structure DictPlaced (image : Image) (schema : SchemaView) (i : Nat) : Prop where
  start : headerSize ≤ (schema.dictAt image.bytes i).offset
  finish : (schema.dictAt image.bytes i).offset + (schema.dictAt image.bytes i).size +
    footerSize ≤ image.size
  composite : schema.interned = true → i = schema.valueDict →
    FixedBlock image.bytes (schema.dictAt image.bytes i).offset
      (schema.dictAt image.bytes i).size schema.valueStride
  blob : ¬ (schema.interned = true ∧ i = schema.valueDict) →
    BlobBlock image.bytes (schema.dictAt image.bytes i).offset
      (schema.dictAt image.bytes i).size

/-- A byte string that is an image, with its footer and its schema. -/
structure Image.Conforms (image : Image) (foot : Footer) (schema : SchemaView) : Prop where
  framed : Table.Framed image foot
  schemaWithin : foot.schemaOffset + foot.schemaSize + footerSize ≤ image.size
  described : schema.Valid image.bytes foot.schemaOffset foot.schemaSize
  recordStride : schema.recordStride ≠ 0
  keyed : schema.hasKeyMapping = true → schema.narrowAddress = true
  directory : (Table.attach image foot schema
    (schema.recordStride - schema.addressWidth)).DirectoryValid
  dictionaries : ∀ i < schema.dictCount, DictPlaced image schema i
  texts : ∀ id < schema.fieldCount,
    (schema.descAt image.bytes id).kind = FieldKind.text.code → schema.interned = true →
      (schema.descAt image.bytes id).dictIndex ≠ schema.valueDict

namespace Table

variable {image : Image} {table : Table} {foot : Footer} {tail : Nat}

/-! ### What an accepted image has passed -/

theorem openFrame_yields : Yields (openFrame image) (Framed image) := by
  unfold openFrame
  refine yields_rejectIf_bind fun small => yields_lift_bind fun head loaded => ?_
  obtain ⟨-, rfl⟩ := loadStruct_ok loaded
  refine yields_rejectIf_bind fun magic => yields_rejectIf_bind fun version =>
    yields_lift_bind fun start past => yields_lift_bind fun foot loaded' => ?_
  obtain ⟨-, rfl⟩ := loadStruct_ok loaded'
  obtain ⟨-, rfl⟩ := checkedSub_ok past
  refine yields_rejectIf_bind fun magic' => yields_rejectIf_bind fun version' =>
    yields_rejectIf_bind fun size => yields_pure ?_
  exact ⟨Nat.not_lt.mp small, not_not.mp magic, not_not.mp version, rfl, not_not.mp magic',
    not_not.mp version', not_not.mp size⟩

theorem openSchema_yields : Yields (openSchema image foot tail) fun _ =>
    foot.schemaOffset + foot.schemaSize ≤ tail := by
  unfold openSchema
  refine yields_rejectIf_bind fun start => yields_lift_bind fun room past =>
    yields_rejectIf_bind fun large => ?_
  obtain ⟨inside, rfl⟩ := checkedSub_ok past
  refine yields_bind fun schema _ => yields_rejectIf_bind fun _ => yields_rejectIf_bind fun _ =>
    yields_rejectIf_bind fun _ => yields_pure ?_
  omega

/-- The dictionary loop leaves the schema and the image, and passes dictionaries in place. -/
theorem openDictionary_yields {i : Nat} : Yields (openDictionary tail table i) fun next =>
    next.schema = table.schema ∧ next.image = table.image ∧
      headerSize ≤ (table.schema.dictAt table.region i).offset ∧
      (table.schema.dictAt table.region i).offset + (table.schema.dictAt table.region i).size ≤
        tail := by
  unfold openDictionary
  refine yields_lift_bind fun e loaded => ?_
  obtain ⟨-, parsed⟩ := loadStruct_ok loaded
  obtain rfl : e = table.schema.dictAt table.region i := parsed
  refine yields_rejectIf_bind fun placed => yields_lift_bind fun room past =>
    yields_rejectIf_bind fun large => ?_
  obtain ⟨inside, rfl⟩ := checkedSub_ok past
  by_cases composite : table.schema.interned = true ∧ i = table.schema.valueDict
  · rw [if_pos composite]
    refine yields_bind fun fixed _ => yields_rejectIf_bind fun _ => yields_pure ?_
    exact ⟨rfl, rfl, by omega, by omega⟩
  · rw [if_neg composite]
    exact yields_bind fun blob _ => yields_pure ⟨rfl, rfl, by omega, by omega⟩

theorem openDictionaries_yields {remaining i : Nat} :
    Yields (openDictionaries tail remaining i table) fun last =>
      last.schema = table.schema ∧ last.image = table.image ∧
      ∀ j, i ≤ j → j < i + remaining →
        headerSize ≤ (table.schema.dictAt table.region j).offset ∧
        (table.schema.dictAt table.region j).offset +
          (table.schema.dictAt table.region j).size ≤ tail := by
  induction remaining generalizing i table with
  | zero => exact yields_pure ⟨rfl, rfl, fun j above below => absurd below (by omega)⟩
  | succ remaining inductionHypothesis =>
    unfold openDictionaries
    refine yields_bind fun next opened => ?_
    obtain ⟨schema, image, start, finish⟩ := openDictionary_yields next opened
    refine yields_mono inductionHypothesis fun last held => ?_
    obtain ⟨schema', image', rest⟩ := held
    refine ⟨schema'.trans schema, image'.trans image, fun j above below => ?_⟩
    rcases Nat.eq_or_lt_of_le above with rfl | later
    · exact ⟨start, finish⟩
    · have placed := rest j later (by omega)
      rw [region, schema, image] at placed
      exact placed

theorem tryOpen_yields : Yields (tryOpen (some image)) fun table =>
    ∃ foot, Framed image foot ∧ foot.schemaOffset + foot.schemaSize ≤ image.size - footerSize ∧
      ∀ j < table.schema.dictCount, headerSize ≤ (table.schema.dictAt image.bytes j).offset ∧
        (table.schema.dictAt image.bytes j).offset + (table.schema.dictAt image.bytes j).size ≤
          image.size - footerSize := by
  unfold tryOpen
  refine yields_bind fun foot opened => yields_lift_bind fun tail past => ?_
  obtain ⟨-, rfl⟩ := checkedSub_ok past
  refine yields_bind fun schema described => yields_lift_bind fun valuePart _ => ?_
  refine yields_bind fun _ _ => yields_bind fun last loop => yields_bind fun _ _ => yields_pure ?_
  obtain ⟨schemaEq, imageEq, placed⟩ := openDictionaries_yields last loop
  refine ⟨foot, openFrame_yields foot opened, openSchema_yields schema described,
    fun j inside => ?_⟩
  rw [schemaEq] at inside ⊢
  exact placed j (Nat.zero_le j) (by rwa [Nat.zero_add])

/-! ### The decision -/

/-- An accepted image conforms. -/
theorem conforms_of_accepted (opened : tryOpen (some image) = pure table) :
    image.Conforms table.footer table.schema := by
  obtain ⟨foot, framed, schemaWithin, placed⟩ := tryOpen_yields table opened
  obtain ⟨rfl, valid⟩ := (tryOpen_ensures image).of_accepts opened
  obtain rfl : table.footer = foot := framed.parsed
  have large := framed.large
  refine
    { framed := framed
      schemaWithin := by omega
      described := valid.schema
      recordStride := valid.recordStride
      keyed := valid.keyed
      directory := ?_
      dictionaries := fun i inside => ?_
      texts := valid.texts }
  · refine @DirectoryValid.of_same _ table valid.directory
      (List.replicate table.schema.dictCount .empty) .empty ?_
    rw [valid.attached]
    rfl
  · obtain ⟨start, finish⟩ := placed i inside
    have read := valid.dictionaries i inside
    refine ⟨start, by omega, fun interned last => ?_, fun other => ?_⟩
    · exact (FixedDictionaryView.open_iff read.within).mp
        ⟨table.valueDict, read.composite interned last⟩
    · obtain ⟨view, -, opens⟩ := read.blob other
      exact (BlobDictionaryView.open_iff read.within).mp ⟨view, opens⟩

/-- A dictionary in its place is in order for the validator. -/
theorem dictReady_of_placed {schema : SchemaView} {i : Nat} (large : footerSize ≤ image.size)
    (placed : DictPlaced image schema i) :
    DictReady image.bytes schema (image.size - footerSize) i := by
  obtain ⟨start, finish, composite, blob⟩ := placed
  have size : image.size = image.bytes.length := rfl
  refine ⟨start, by omega, fun interned last => ?_, fun other => ?_⟩
  · exact (FixedDictionaryView.open_iff (by omega)).mpr (composite interned last)
  · exact (BlobDictionaryView.open_iff (by omega)).mpr (blob other)

theorem accepted_of_conforms {schema : SchemaView} (conforms : image.Conforms foot schema) :
    ∃ table, tryOpen (some image) = pure table := by
  obtain ⟨framed, schemaWithin, described, recordStride, keyed, directory, dictionaries, texts⟩ :=
    conforms
  have large := framed.large
  exact tryOpen_of_wellFormed
    ⟨framed, schemaWithin, described, recordStride, keyed, directory,
      fun i inside => dictReady_of_placed (by omega) (dictionaries i inside), texts⟩

/-- For every byte string, opening it comes to an end, and accepts it if and only if it is an
image; otherwise it is rejected with a status. -/
theorem tryOpen_decides (image : Image) :
    ((∃ table, tryOpen (some image) = pure table) ↔
        ∃ foot schema, image.Conforms foot schema) ∧
      ((∃ status, tryOpen (some image) = throw status) ↔
        ∀ foot schema, ¬ image.Conforms foot schema) := by
  have accepts : (∃ table, tryOpen (some image) = pure table) ↔
      ∃ foot schema, image.Conforms foot schema :=
    ⟨fun ⟨table, opened⟩ => ⟨table.footer, table.schema, conforms_of_accepted opened⟩,
      fun ⟨_, _, conforms⟩ => accepted_of_conforms conforms⟩
  refine ⟨accepts, ?_⟩
  obtain ⟨outcome, runs, -⟩ := tryOpen_ensures image
  cases outcome with
  | ok table =>
    have opened : tryOpen (some image) = pure table := runs
    obtain ⟨foot, schema, conforms⟩ := accepts.mp ⟨table, opened⟩
    refine ⟨fun ⟨status, rejected⟩ => ?_, fun none => absurd conforms (none foot schema)⟩
    rw [opened] at rejected
    cases rejected
  | error status =>
    refine ⟨fun _ foot schema conforms => ?_, fun _ => ⟨status, runs⟩⟩
    obtain ⟨table, opened⟩ := accepted_of_conforms conforms
    have rejected : tryOpen (some image) = throw status := runs
    rw [opened] at rejected
    cases rejected

end Table

end Mmpack
