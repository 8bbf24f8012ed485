/-
This file is the converse of the walk along the validator: what opening an image
establishes is also all that opening asks for. A schema block, a directory and a
dictionary table that are valid pass every one of their tests, and an image whose
frame and parts are in order is accepted.
-/

import Mmpack.Opened

namespace Mmpack

open ByteList Checked Cursor

/-! ### The schema -/

namespace SchemaView

variable {region : List UInt8} {view : SchemaView}

/-- A valid field passes its tests. -/
theorem checkField_of_valid {id : Nat}
    (descWithin : view.fields + id * fieldDescSize + fieldDescSize ≤ region.length)
    (namesWithin : view.names + view.head.nameBytes ≤ region.length)
    (valid : FieldValid region view (view.descAt region id)) :
    checkField region view id = pure () := by
  obtain ⟨kind, width, inTuple, dictIndex, nameOffset, terminated⟩ := valid
  unfold checkField
  rw [lift_bind (field_eq descWithin)]
  rw [rejectIf_bind (by omega), rejectIf_bind (by simp [width]), rejectIf_bind (by omega),
    lift_bind (checkedSub_eq (by omega)), rejectIf_bind (by omega),
    rejectIf_bind fun ⟨isText, past⟩ => Nat.not_le.mpr (dictIndex isText) past,
    rejectIf_bind (by omega), lift_bind (hasNul_eq (by omega)), decide_eq_true terminated,
    rejectIf_eq (by simp)]

theorem checkFields_of_valid {remaining id : Nat}
    (descsWithin : view.fields + (id + remaining) * fieldDescSize ≤ region.length)
    (namesWithin : view.names + view.head.nameBytes ≤ region.length)
    (valid : ∀ other, id ≤ other → other < id + remaining →
      FieldValid region view (view.descAt region other)) :
    checkFields region view remaining id = pure () := by
  induction remaining generalizing id with
  | zero => rfl
  | succ remaining inductionHypothesis =>
    have here : view.fields + id * fieldDescSize + fieldDescSize ≤ region.length := by
      simp only [fieldDescSize] at descsWithin ⊢
      omega
    rw [checkFields, checkField_of_valid here namesWithin (valid id (Nat.le_refl _) (by omega)),
      pure_bind]
    refine inductionHypothesis (by rwa [Nat.add_assoc, Nat.add_comm 1]) ?_
    intro other above below
    exact valid other (by omega) (by omega)

theorem checkHeader_of_valid {head : SchemaHeader} (valid : HeaderValid head) :
    checkHeader head = pure () := by
  obtain ⟨addressWidth, addressBits, dirPartitionWidth, dirOffsetWidth, dirCountWidth,
    dirRemapWidth, dirAddrWidth, dirSkipWidth, mode, valueStride⟩ := valid
  have passes {width : Nat} (legal : width = 0 ∨ isValidWidth width = true) :
      ¬ (width ≠ 0 ∧ isValidWidth width = false) := by
    rintro ⟨present, invalid⟩
    rw [legal.resolve_left present] at invalid
    nomatch invalid
  unfold checkHeader
  rw [rejectIf_bind addressWidth, rejectIf_bind (by omega),
    rejectIf_bind (passes dirPartitionWidth), rejectIf_bind (by simp [dirOffsetWidth]),
    rejectIf_bind (by simp [dirCountWidth]), rejectIf_bind (passes dirRemapWidth),
    rejectIf_bind (by omega), rejectIf_bind (by omega), rejectIf_eq (by omega)]

/-- The least stride of a valid header is at most its stride. -/
theorem minimumStride_of_valid {block size : Nat} (valid : view.Valid region block size) :
    ∃ least ≤ view.recordStride, minimumStride view.head = pure least := by
  have fits : view.head.Fits := by
    rw [valid.head]
    exact SchemaHeader.parse_lt _
  have width := fits.addressWidth
  have reference := fits.refWidth
  have tuple := fits.valueStride
  unfold minimumStride
  by_cases mode : view.head.mode = 1
  · obtain ⟨legal, inTable, stride⟩ := valid.interned (by rw [SchemaView.interned, mode]; rfl)
    refine ⟨_, stride, ?_⟩
    unfold refWidth at legal
    unfold valueDict dictCount at inTable
    rw [if_pos mode, rejectIf_bind (by simp [legal]), rejectIf_bind (Nat.not_le.mpr inTable),
      checkedAdd_eq (by omega), lift_ok]
    rfl
  · refine ⟨_, valid.inline (by simpa [SchemaView.interned] using mode), ?_⟩
    rw [if_neg mode, checkedAdd_eq (by omega), lift_ok]
    rfl

/-- A valid block is accepted, as the view it is valid as. -/
theorem open_of_valid {block size : Nat} (within : block + size ≤ region.length)
    (room : block + size < 2 ^ 64) (valid : view.Valid region block size) :
    «open» region block size = pure view := by
  obtain ⟨least, stride, minimum⟩ := minimumStride_of_valid valid
  have large := valid.large
  have inBlock := valid.within
  have namesAt := valid.names
  have dictsAt := valid.dicts
  have fieldsAt := valid.fields
  have parsed : SchemaHeader.load region block = .ok view.head := by
    rw [valid.head]
    exact loadStruct_eq _ (by omega)
  have viewEq : view =
      { head := view.head
        fields := block + schemaHeaderSize
        dicts := block + schemaHeaderSize + view.head.fieldCount * fieldDescSize
        names := block + schemaHeaderSize + view.head.fieldCount * fieldDescSize +
          view.head.dictCount * dictEntrySize } := by
    rw [← fieldsAt]
    rw [fieldCount] at dictsAt
    rw [← dictsAt]
    rw [dictCount] at namesAt
    rw [← namesAt]
  have descsWithin : view.fields + (0 + view.fieldCount) * fieldDescSize ≤ region.length := by
    rw [Nat.zero_add]
    omega
  have fields := checkFields_of_valid descsWithin (by omega) fun other _ below =>
    valid.field other (by rwa [Nat.zero_add] at below)
  have sizes : schemaHeaderSize + view.head.fieldCount * fieldDescSize +
      view.head.dictCount * dictEntrySize + view.head.nameBytes ≤ size := by
    unfold fieldCount at dictsAt
    unfold dictCount at namesAt
    omega
  unfold fieldCount at fields
  unfold recordStride at stride
  unfold «open»
  rw [rejectIf_bind (by omega), lift_bind parsed, rejectIf_bind (by simpa using valid.magic),
    lift_bind (checkedMul_eq (by omega)), lift_bind (checkedMul_eq (by omega)),
    lift_bind (checkedAdd_eq (by omega)), lift_bind (checkedAdd_eq (by omega)),
    lift_bind (checkedAdd_eq (by omega)), rejectIf_bind (by omega),
    checkHeader_of_valid valid.header, pure_bind, minimum, pure_bind,
    rejectIf_bind (Nat.not_lt.mpr stride)]
  simp only
  rw [← viewEq, fields, pure_bind]

end SchemaView

/-! ### The frame and the schema of a table -/

namespace Table

variable {table : Table} {image : Image} {foot : Footer} {schema : SchemaView} {tail : Nat}

/-- A header and a footer that are in order. -/
structure Framed (image : Image) (foot : Footer) : Prop where
  large : headerSize + footerSize ≤ image.size
  headMagic : (Header.parse (slice image.bytes 0 headerSize)).magic = magic
  headVersion : (Header.parse (slice image.bytes 0 headerSize)).formatVersion = formatVersion
  parsed : Footer.parse (slice image.bytes (image.size - footerSize) footerSize) = foot
  footMagic : foot.magic = magic
  footVersion : foot.formatVersion = formatVersion
  imageSize : foot.imageSize = image.size

theorem openFrame_of_framed (framed : Framed image foot) : openFrame image = pure foot := by
  obtain ⟨large, headMagic, headVersion, rfl, footMagic, footVersion, imageSize⟩ := framed
  have size : image.size = image.bytes.length := rfl
  have first : Header.load image.bytes 0 = .ok (Header.parse (slice image.bytes 0 headerSize)) :=
    loadStruct_eq _ (by omega)
  have last : Footer.load image.bytes (image.size - footerSize) =
      .ok (Footer.parse (slice image.bytes (image.size - footerSize) footerSize)) :=
    loadStruct_eq _ (by omega)
  unfold openFrame
  rw [rejectIf_bind (by omega), lift_bind first, rejectIf_bind (not_not.mpr headMagic),
    rejectIf_bind (not_not.mpr headVersion), lift_bind (checkedSub_eq (by omega)), lift_bind last,
    rejectIf_bind (not_not.mpr footMagic), rejectIf_bind (not_not.mpr footVersion),
    rejectIf_bind (not_not.mpr imageSize)]

theorem openSchema_of_valid (within : foot.schemaOffset + foot.schemaSize ≤ tail)
    (tailWithin : tail ≤ image.size)
    (valid : schema.Valid image.bytes foot.schemaOffset foot.schemaSize)
    (stride : schema.recordStride ≠ 0)
    (keyed : schema.hasKeyMapping = true → schema.narrowAddress = true) :
    openSchema image foot tail = pure schema := by
  have size : image.size = image.bytes.length := rfl
  have length := image.length_lt
  have wide := addressWidth_le_recordStride valid
  have opens := SchemaView.open_of_valid (by omega) (by omega) valid
  unfold openSchema
  rw [rejectIf_bind (by omega), lift_bind (checkedSub_eq (by omega)), rejectIf_bind (by omega),
    opens, orReject_pure, pure_bind, rejectIf_bind stride]
  rw [rejectIf_bind (by
      rintro ⟨mapped, other⟩
      rw [keyed mapped] at other
      nomatch other), rejectIf_bind (by omega)]

/-! ### The directory -/

theorem checkStride_of_valid {d : DirEntry} {floor : Nat} (valid : table.SlotValid floor d)
    (narrow : table.addressWidth + table.valuePart < 2 ^ 32) (byte : table.addressWidth < 2 ^ 8) :
    table.checkStride d = pure (table.strideOf d) := by
  have inField := valid.inField
  unfold checkStride strideOf
  rw [lift_bind (checkedAdd_eq (by omega))]
  by_cases remapped : d.schemaId ≠ 0
  · obtain ⟨small, interned, tables, occupied⟩ := valid.remapped remapped
    have bound : d.schemaId ≤ 2 := small
    rw [if_pos remapped, if_pos remapped, rejectIf_bind (by omega),
      rejectIf_bind (by simp [interned]), rejectIf_bind (by omega), checkedAdd_eq (by omega),
      lift_ok]
  · rw [if_neg remapped, if_neg remapped,
      rejectIf_bind (not_not.mpr (valid.plain (not_not.mp remapped)))]

theorem checkBlock_of_valid {d : DirEntry} {floor : Nat} (valid : table.SlotValid floor d)
    (occupied : d.count ≠ 0) (remapCount : d.remapCount < 2 ^ 32)
    (directory : table.directory < 2 ^ 64) :
    table.checkBlock d (table.strideOf d) floor = pure (table.blockEnd d) := by
  obtain ⟨start, finish⟩ := valid.block occupied
  have stride := valid.stride
  unfold blockEnd at finish ⊢
  have most : d.count ≤ (table.directory - d.offset - d.remapCount * 4) / table.strideOf d :=
    (Nat.le_div_iff_mul_le (Nat.pos_of_ne_zero stride)).mpr (by omega)
  unfold checkBlock
  rw [rejectIf_bind (by omega), lift_bind (checkedSub_eq (by omega)),
    lift_bind (checkedMul_eq (by omega)), rejectIf_bind (by omega),
    lift_bind (checkedSub_eq (by omega)), lift_bind (checkedDiv_eq stride),
    rejectIf_bind (Nat.not_lt.mpr most), lift_bind (checkedAdd_eq (by omega)),
    lift_bind (checkedMul_eq (by omega)), checkedAdd_eq (by omega), lift_ok]

theorem checkSlot_of_valid (readable : table.DirectoryReadable) {i previous floor : Nat}
    (inside : i < table.dirCount) (ordered : 0 < i → previous < (table.entry i).partition)
    (valid : table.SlotValid floor (table.entry i)) :
    table.checkSlot i previous floor = pure (table.entry i,
      if (table.entry i).count ≠ 0 then table.blockEnd (table.entry i) else floor) := by
  have directory : table.directory < 2 ^ 64 := by
    have room := readable.room
    have length := table.image.length_lt
    have size : table.image.size = table.image.bytes.length := rfl
    omega
  have remapCount := table.entry_remapCount_lt i
  have inField := valid.inField
  unfold checkSlot
  rw [lift_bind (slot_eq readable inside)]
  generalize table.entry i = d at *
  rw [rejectIf_bind (by omega), rejectIf_bind (by omega), lift_bind (checkedSub_eq (by omega)),
    rejectIf_bind (by omega), checkStride_of_valid valid readable.narrow readable.byte, pure_bind,
    rejectIf_bind valid.stride]
  by_cases occupied : d.count ≠ 0
  · rw [if_pos occupied, if_pos occupied,
      checkBlock_of_valid valid occupied remapCount directory, pure_bind]
  · rw [if_neg occupied, if_neg occupied]

/-- A valid directory passes the loop from any of its slots on. -/
theorem checkSlots_of_valid (readable : table.DirectoryReadable) (valid : table.DirectoryValid)
    {remaining i previous : Nat} (exact : i + remaining = table.dirCount)
    (last : 0 < i → previous = (table.entry (i - 1)).partition) :
    table.checkSlots remaining i previous (table.blocksEnd i)
        (itemsBefore (fun j => (table.entry j).count) i) =
      pure (itemsBefore (fun j => (table.entry j).count) table.dirCount) := by
  induction remaining generalizing i previous with
  | zero =>
    obtain rfl : i = table.dirCount := exact
    rfl
  | succ remaining inductionHypothesis =>
    have inside : i < table.dirCount := by omega
    have ordered (positive : 0 < i) : previous < (table.entry i).partition := by
      have step := valid.increasing (i - 1) (by omega)
      rw [last positive]
      rwa [Nat.sub_add_cancel positive] at step
    have few : itemsBefore (fun j => (table.entry j).count) (i + 1) < 2 ^ 64 := by
      have validThrough (j : Nat) (before : j < i + 1) := valid.slots j (by omega)
      have items := itemsBefore_le_blocksEnd validThrough
      have blocks := blocksEnd_le valid.start validThrough
      have room := readable.room
      have length := table.image.length_lt
      have size : table.image.size = table.image.bytes.length := rfl
      omega
    have next := @inductionHypothesis (i + 1) (table.entry i).partition (by omega) fun _ => rfl
    rw [itemsBefore_succ] at few next
    unfold checkSlots
    rw [checkSlot_of_valid readable inside ordered (valid.slots i inside), pure_bind]
    simp only
    rw [lift_bind (checkedAdd_eq few)]
    exact next

theorem openDirectory_of_valid (readable : table.DirectoryReadable)
    (positive : 0 < table.dir.stride) (valid : table.DirectoryValid)
    (tailSpec : tail + footerSize = table.image.size) : table.openDirectory tail = pure () := by
  have length := table.image.length_lt
  have size : table.image.size = table.image.bytes.length := rfl
  have start := valid.start
  have room := valid.room
  have footer : footerSize = 64 := rfl
  have most : table.dirCount ≤ (tail - table.directory) / table.dir.stride :=
    (Nat.le_div_iff_mul_le positive).mpr (by omega)
  have loop := @checkSlots_of_valid table readable valid table.dirCount 0 0 (Nat.zero_add _)
    fun before => absurd before (Nat.lt_irrefl 0)
  rw [itemsBefore_zero, blocksEnd, valid.total] at loop
  unfold openDirectory
  rw [rejectIf_bind (Nat.ne_of_gt positive), rejectIf_bind (not_not.mpr valid.dense),
    rejectIf_bind (by omega), lift_bind (checkedSub_eq (by omega)),
    lift_bind (checkedDiv_eq (Nat.ne_of_gt positive)), rejectIf_bind (Nat.not_lt.mpr most),
    lift_bind (checkedMul_eq (by omega)), lift_bind (checkedAdd_eq (by omega)),
    lift_bind (checkedAdd_eq (by omega)), rejectIf_bind (by omega), loop, pure_bind,
    rejectIf_eq (by simp)]

/-! ### The dictionaries -/

/-- A dictionary in order, by its place in the table of the schema. -/
structure DictReady (region : List UInt8) (schema : SchemaView) (tail i : Nat) : Prop where
  start : headerSize ≤ (schema.dictAt region i).offset
  finish : (schema.dictAt region i).offset + (schema.dictAt region i).size ≤ tail
  composite : schema.interned = true → i = schema.valueDict → ∃ fixed,
    FixedDictionaryView.open region (schema.dictAt region i).offset (schema.dictAt region i).size =
      pure fixed ∧ fixed.elemSize = schema.valueStride
  blob : ¬ (schema.interned = true ∧ i = schema.valueDict) → ∃ view,
    BlobDictionaryView.open region (schema.dictAt region i).offset (schema.dictAt region i).size =
      pure view

/-- A dictionary in order is opened, and nothing but the dictionaries of the table changes. -/
theorem openDictionary_of_ready {i : Nat}
    (within : table.schema.dicts + i * dictEntrySize + dictEntrySize ≤ table.region.length)
    (ready : DictReady table.region table.schema tail i) :
    ∃ blobDicts valueDict,
      openDictionary tail table i = pure { table with blobDicts, valueDict } := by
  obtain ⟨start, finish, composite, blob⟩ := ready
  unfold openDictionary
  rw [lift_bind (SchemaView.dictionary_eq within), rejectIf_bind (by omega),
    lift_bind (checkedSub_eq (by omega)), rejectIf_bind (by omega)]
  by_cases both : table.schema.interned = true ∧ i = table.schema.valueDict
  · obtain ⟨fixed, opens, elemSize⟩ := composite both.1 both.2
    rw [if_pos both, opens, orReject_pure, pure_bind, rejectIf_bind (not_not.mpr elemSize)]
    exact ⟨table.blobDicts, fixed, rfl⟩
  · obtain ⟨view, opens⟩ := blob both
    rw [if_neg both, opens, orReject_pure, pure_bind]
    exact ⟨table.blobDicts.set i view, table.valueDict, rfl⟩

theorem openDictionaries_of_ready {remaining i : Nat}
    (within : table.schema.dicts + (i + remaining) * dictEntrySize ≤ table.region.length)
    (ready : ∀ j, i ≤ j → j < i + remaining → DictReady table.region table.schema tail j) :
    ∃ blobDicts valueDict,
      openDictionaries tail remaining i table = pure { table with blobDicts, valueDict } := by
  induction remaining generalizing i table with
  | zero => exact ⟨table.blobDicts, table.valueDict, rfl⟩
  | succ remaining inductionHypothesis =>
    have here : table.schema.dicts + i * dictEntrySize + dictEntrySize ≤ table.region.length := by
      simp only [dictEntrySize] at within ⊢
      omega
    obtain ⟨blobDicts, valueDict, opens⟩ :=
      openDictionary_of_ready here (ready i (Nat.le_refl _) (by omega))
    obtain ⟨blobDicts', valueDict', rest⟩ :=
      @inductionHypothesis { table with blobDicts, valueDict } (i + 1)
        (by rwa [Nat.add_assoc, Nat.add_comm 1])
        fun j above below => ready j (by omega) (by omega)
    refine ⟨blobDicts', valueDict', ?_⟩
    rw [openDictionaries, opens, pure_bind, rest]

theorem checkTextFields_of_valid {remaining i : Nat}
    (within : table.schema.fields + (i + remaining) * fieldDescSize ≤ table.region.length)
    (texts : ∀ id, i ≤ id → id < i + remaining →
      (table.schema.descAt table.region id).kind = FieldKind.text.code →
      table.schema.interned = true →
        (table.schema.descAt table.region id).dictIndex ≠ table.schema.valueDict) :
    table.checkTextFields remaining i = pure () := by
  induction remaining generalizing i with
  | zero => rfl
  | succ remaining inductionHypothesis =>
    have here : table.schema.fields + i * fieldDescSize + fieldDescSize ≤ table.region.length := by
      simp only [fieldDescSize] at within ⊢
      omega
    rw [checkTextFields, lift_bind (SchemaView.field_eq here), rejectIf_bind (by
      rintro ⟨isText, interned, same⟩
      exact texts i (Nat.le_refl _) (by omega) isText interned same)]
    exact inductionHypothesis (by rwa [Nat.add_assoc, Nat.add_comm 1])
      fun id above below => texts id (by omega) (by omega)

/-! ### The whole opening -/

/-- An image whose parts are in order, with its footer and its schema. -/
structure WellFormed (image : Image) (foot : Footer) (schema : SchemaView) : Prop where
  framed : Framed image foot
  schemaWithin : foot.schemaOffset + foot.schemaSize + footerSize ≤ image.size
  described : schema.Valid image.bytes foot.schemaOffset foot.schemaSize
  recordStride : schema.recordStride ≠ 0
  keyed : schema.hasKeyMapping = true → schema.narrowAddress = true
  directory :
    (attach image foot schema (schema.recordStride - schema.addressWidth)).DirectoryValid
  dictionaries : ∀ i < schema.dictCount,
    DictReady image.bytes schema (image.size - footerSize) i
  texts : ∀ id < schema.fieldCount,
    (schema.descAt image.bytes id).kind = FieldKind.text.code → schema.interned = true →
      (schema.descAt image.bytes id).dictIndex ≠ schema.valueDict

/-- Such an image is accepted. -/
theorem tryOpen_of_wellFormed (wellFormed : WellFormed image foot schema) :
    ∃ table, tryOpen (some image) = pure table := by
  obtain ⟨framed, schemaWithin, valid, stride, keyed, directory, dictionaries, texts⟩ := wellFormed
  have large := framed.large
  have size : image.size = image.bytes.length := rfl
  have fits := valid.head ▸ SchemaView.SchemaHeader.parse_lt _
  have addressWidth : schema.addressWidth < 2 ^ 8 := fits.addressWidth
  have recordStride : schema.recordStride < 2 ^ 32 := fits.recordStride
  have split := addressWidth_le_recordStride valid
  have blockWithin := valid.within
  have namesAt := valid.names
  have dictsAt := valid.dicts
  have readable : (attach image foot schema
      (schema.recordStride - schema.addressWidth)).DirectoryReadable :=
    ⟨directoryLayout_wellFormed valid.header, directory.room, by simp only [attach]; omega,
      addressWidth⟩
  have opensDirectory := @openDirectory_of_valid _ (image.size - footerSize) readable
    (directoryLayout_stride_pos valid.header) directory (by simp only [attach]; omega)
  obtain ⟨blobDicts, valueDict, opensDictionaries⟩ := @openDictionaries_of_ready
    (attach image foot schema (schema.recordStride - schema.addressWidth))
    (image.size - footerSize) schema.dictCount 0
    (by simp only [attach, region, Nat.zero_add]; omega)
    fun j _ below => dictionaries j (by omega)
  simp only [tryOpen]
  rw [openFrame_of_framed framed, pure_bind, lift_bind (checkedSub_eq (by omega)),
    openSchema_of_valid (by omega) (Nat.sub_le _ _) valid stride keyed, pure_bind,
    lift_bind (checkedSub_eq split), opensDirectory, pure_bind, opensDictionaries,
    pure_bind, checkTextFields_of_valid, pure_bind]
  · exact ⟨_, rfl⟩
  · simp only [attach, region, Nat.zero_add]
    omega
  · intro id _ below
    exact texts id (by omega)

end Table

end Mmpack
