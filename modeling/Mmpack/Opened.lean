/-
This file says what opening an image establishes. `Table.Valid` collects it: the
schema is valid, the directory lies in the image with room behind it, every slot
describes a block of records before the directory, blocks do not overlap, and
every dictionary is well formed.

`tryOpen_ensures` is the walk along the validator, piece by piece: it never reads
outside the image, its arithmetic never wraps, and what it accepts is valid.
-/

import Mmpack.Table

namespace Mmpack

open ByteList Checked Cursor

namespace Table

variable (table : Table)

/-! ### The decoded directory -/

/-- The slot stored at an index. -/
def entry (i : Nat) : DirEntry :=
  entryAt table.region (table.slotBytes i) table.dir i table.addressWidth

/-- The record stride of a partition. -/
def strideOf (d : DirEntry) : Nat :=
  d.addressWidth + if d.schemaId ≠ 0 then d.schemaId else table.valuePart

/-- Where the bytes of a partition end. -/
def blockEnd (d : DirEntry) : Nat := d.offset + d.remapCount * 4 + d.count * table.strideOf d

/-- Where the bytes of the partitions before a slot end. -/
def blocksEnd : Nat → Nat
  | 0 => headerSize
  | i + 1 => if (table.entry i).count ≠ 0 then table.blockEnd (table.entry i) else blocksEnd i

/-- A slot as the validator leaves it, with the end of the blocks before it. -/
structure SlotValid (floor : Nat) (d : DirEntry) : Prop where
  inField : d.addressSkip + d.addressWidth ≤ table.addressWidth
  remapped : d.schemaId ≠ 0 →
    d.schemaId ≤ maxLocalWidth ∧ table.interned = true ∧ d.remapCount ≠ 0 ∧ d.count ≠ 0
  plain : d.schemaId = 0 → d.remapCount = 0
  stride : table.strideOf d ≠ 0
  block : d.count ≠ 0 → floor ≤ d.offset ∧ table.blockEnd d ≤ table.directory

/-- A dictionary as the validator leaves it, by its place in the table of the schema. -/
structure DictOpened (i : Nat) : Prop where
  within : (table.schema.dictAt table.region i).offset +
    (table.schema.dictAt table.region i).size ≤ table.image.size
  composite : table.schema.interned = true → i = table.schema.valueDict →
    FixedDictionaryView.open table.region (table.schema.dictAt table.region i).offset
      (table.schema.dictAt table.region i).size = pure table.valueDict ∧
    table.valueDict.elemSize = table.schema.valueStride
  blob : ¬ (table.schema.interned = true ∧ i = table.schema.valueDict) →
    ∃ view, table.blobDicts[i]? = some view ∧
      BlobDictionaryView.open table.region (table.schema.dictAt table.region i).offset
        (table.schema.dictAt table.region i).size = pure view

/-- The footer of the image. -/
def footer : Footer :=
  Footer.parse (slice table.region (table.image.size - footerSize) footerSize)

/-- The directory as the validator leaves it. -/
structure DirectoryValid : Prop where
  dense : decide (table.dir.partitionWidth = 0) = table.dense
  start : headerSize ≤ table.directory
  room : table.directory + table.dirCount * table.dir.stride + footerSize ≤ table.image.size
  increasing : ∀ i, i + 1 < table.dirCount →
    (table.entry i).partition < (table.entry (i + 1)).partition
  slots : ∀ i < table.dirCount, table.SlotValid (table.blocksEnd i) (table.entry i)
  total : itemsBefore (fun i => (table.entry i).count) table.dirCount = table.recordCount

/-- An opened table. -/
structure Valid : Prop where
  large : headerSize + footerSize ≤ table.image.size
  schemaWithin : table.footer.schemaOffset + table.footer.schemaSize ≤ table.image.size
  schema : table.schema.Valid table.region table.footer.schemaOffset table.footer.schemaSize
  recordStride : table.schema.recordStride ≠ 0
  keyed : table.schema.hasKeyMapping = true → table.schema.narrowAddress = true
  attached : table = { attach table.image table.footer table.schema
      (table.schema.recordStride - table.schema.addressWidth) with
    blobDicts := table.blobDicts, valueDict := table.valueDict }
  directory : table.DirectoryValid
  blobCount : table.blobDicts.length = table.schema.dictCount
  dictionaries : ∀ i < table.schema.dictCount, table.DictOpened i
  texts : ∀ id < table.schema.fieldCount,
    (table.schema.descAt table.region id).kind = FieldKind.text.code →
    table.schema.interned = true →
      (table.schema.descAt table.region id).dictIndex ≠ table.schema.valueDict

/-! ### The frame and the schema -/

theorem openFrame_ensures (image : Image) :
    Ensures (openFrame image) fun foot =>
      headerSize + footerSize ≤ image.size ∧
        foot = Footer.parse (slice image.bytes (image.size - footerSize) footerSize) ∧
        foot.imageSize = image.size := by
  unfold openFrame
  refine ensures_rejectIf_bind fun tooSmall => ?_
  have large : headerSize + footerSize ≤ image.size := Nat.le_of_not_lt tooSmall
  simp only [headerSize, footerSize] at large
  have first : 0 + headerSize ≤ image.bytes.length := by
    simp only [headerSize]
    exact le_trans (by omega) large
  refine ensures_lift_bind (loadStruct_eq _ first) ?_
  refine ensures_rejectIf_bind fun _ => ensures_rejectIf_bind fun _ => ?_
  refine ensures_lift_bind (checkedSub_eq (by simp only [footerSize]; omega)) ?_
  have inside : image.size - footerSize + footerSize ≤ image.bytes.length := by
    rw [Nat.sub_add_cancel (by simp only [footerSize]; omega)]
    exact Nat.le_refl _
  refine ensures_lift_bind (loadStruct_eq _ inside) ?_
  refine ensures_rejectIf_bind fun _ => ensures_rejectIf_bind fun _ =>
    ensures_rejectIf_bind fun size => ensures_pure ⟨?_, rfl, not_not.mp size⟩
  exact Nat.le_of_not_lt tooSmall

theorem openSchema_ensures {image : Image} {foot : Footer} {tail : Nat}
    (tailWithin : tail ≤ image.size) :
    Ensures (openSchema image foot tail) fun schema =>
      foot.schemaOffset + foot.schemaSize ≤ image.size ∧
        schema.Valid image.bytes foot.schemaOffset foot.schemaSize ∧ schema.recordStride ≠ 0 ∧
        (schema.hasKeyMapping = true → schema.narrowAddress = true) := by
  unfold openSchema
  refine ensures_rejectIf_bind fun start => ?_
  refine ensures_lift_bind (checkedSub_eq (by omega)) ?_
  refine ensures_rejectIf_bind fun room => ?_
  have within : foot.schemaOffset + foot.schemaSize ≤ image.size := by omega
  refine ensures_bind (ensures_orReject (SchemaView.open_ensures within)) fun schema valid => ?_
  refine ensures_rejectIf_bind fun stride => ensures_rejectIf_bind fun keyed =>
    ensures_rejectIf_bind fun _ => ensures_pure ⟨within, valid, stride, fun mapped => ?_⟩
  exact Bool.not_eq_false _ |>.mp fun wide => keyed ⟨mapped, wide⟩

/-! ### Dimensions of an attached table -/

theorem optionalWidth_le {width : Nat} (legal : width = 0 ∨ isValidWidth width = true) :
    width ≤ 8 := by
  rcases legal with rfl | valid
  · exact Nat.zero_le _
  · exact isValidWidth_le valid

theorem directoryLayout_wellFormed {schema : SchemaView}
    (header : SchemaView.HeaderValid schema.head) :
    schema.directoryLayout.WellFormed := by
  have addr := header.dirAddrWidth
  have skip := header.dirSkipWidth
  refine makeDirLayout_wellFormed (optionalWidth_le header.dirPartitionWidth)
    (isValidWidth_le header.dirOffsetWidth) (isValidWidth_le header.dirCountWidth) ?_
    (optionalWidth_le header.dirRemapWidth) (by omega) (by omega)
  split <;> omega

theorem directoryLayout_stride_pos {schema : SchemaView}
    (header : SchemaView.HeaderValid schema.head) : 0 < schema.directoryLayout.stride := by
  have positive := isValidWidth_pos header.dirOffsetWidth
  simp only [SchemaView.directoryLayout, makeDirLayout]
  omega

theorem addressWidth_le_recordStride {region : List UInt8} {block size : Nat}
    {schema : SchemaView} (valid : schema.Valid region block size) :
    schema.addressWidth ≤ schema.recordStride := by
  cases mode : schema.interned with
  | true =>
    have bound := (valid.interned mode).2.2
    omega
  | false =>
    have bound := valid.inline mode
    omega

/-! ### The directory -/

theorem checkStride_ensures {d : DirEntry} (inField : d.addressWidth ≤ table.addressWidth)
    (narrow : table.addressWidth + table.valuePart < 2 ^ 32) (byte : table.addressWidth < 2 ^ 8) :
    Ensures (table.checkStride d) fun stride => stride = table.strideOf d ∧
      (d.schemaId ≠ 0 →
        d.schemaId ≤ maxLocalWidth ∧ table.interned = true ∧ d.remapCount ≠ 0 ∧ d.count ≠ 0) ∧
      (d.schemaId = 0 → d.remapCount = 0) := by
  unfold checkStride
  refine ensures_lift_bind (checkedAdd_eq (by omega)) ?_
  by_cases remapped : d.schemaId ≠ 0
  · rw [if_pos remapped]
    refine ensures_rejectIf_bind fun localWidth => ensures_rejectIf_bind fun interned =>
      ensures_rejectIf_bind fun counts => ?_
    simp only [maxLocalWidth] at localWidth
    rw [checkedAdd_eq (by omega), lift_ok]
    refine ensures_pure ⟨by rw [strideOf, if_pos remapped], fun _ => ⟨?_, ?_, ?_, ?_⟩, fun zero =>
      absurd zero remapped⟩
    · simp only [maxLocalWidth]
      omega
    · exact Bool.not_eq_false _ |>.mp interned
    · omega
    · omega
  · rw [if_neg remapped]
    refine ensures_rejectIf_bind fun remapCount => ensures_pure
      ⟨by rw [strideOf, if_neg remapped], fun other => absurd other remapped, fun _ => ?_⟩
    omega

theorem checkBlock_ensures {d : DirEntry} {stride floor : Nat} (positive : stride ≠ 0)
    (remapCount : d.remapCount < 2 ^ 32) (directory : table.directory < 2 ^ 64) :
    Ensures (table.checkBlock d stride floor) fun finish =>
      finish = d.offset + d.remapCount * 4 + d.count * stride ∧ floor ≤ d.offset ∧
        finish ≤ table.directory := by
  unfold checkBlock
  refine ensures_rejectIf_bind fun start => ?_
  refine ensures_lift_bind (checkedSub_eq (by omega)) ?_
  refine ensures_lift_bind (checkedMul_eq (by omega)) ?_
  refine ensures_rejectIf_bind fun tableBytes => ?_
  refine ensures_lift_bind (checkedSub_eq (by omega)) ?_
  refine ensures_lift_bind (checkedDiv_eq positive) ?_
  refine ensures_rejectIf_bind fun most => ?_
  have records : d.count * stride ≤ table.directory - d.offset - d.remapCount * 4 :=
    le_trans (Nat.mul_le_mul_right _ (Nat.le_of_not_lt most)) (Nat.div_mul_le_self _ _)
  refine ensures_lift_bind (checkedAdd_eq (by omega)) ?_
  refine ensures_lift_bind (checkedMul_eq (by omega)) ?_
  rw [checkedAdd_eq (by omega), lift_ok]
  exact ensures_pure ⟨rfl, by omega, by omega⟩

/-- What the loop over the directory relies on before it starts. -/
structure DirectoryReadable : Prop where
  layout : table.dir.WellFormed
  room : table.directory + table.dirCount * table.dir.stride + footerSize ≤ table.image.size
  narrow : table.addressWidth + table.valuePart < 2 ^ 32
  byte : table.addressWidth < 2 ^ 8

variable {table}

theorem slot_within {i : Nat} {room : Nat}
    (bound : table.directory + table.dirCount * table.dir.stride + room ≤ table.image.size)
    (inside : i < table.dirCount) :
    table.slotBytes i + table.dir.stride + room ≤ table.region.length := by
  have scaled : (i + 1) * table.dir.stride ≤ table.dirCount * table.dir.stride :=
    Nat.mul_le_mul_right _ inside
  have size : table.image.size = table.region.length := rfl
  rw [Nat.succ_mul] at scaled
  rw [slotBytes]
  omega

theorem slot_eq (readable : table.DirectoryReadable) {i : Nat} (inside : i < table.dirCount) :
    table.slot i = .ok (table.entry i) :=
  decodeDirEntry_eq readable.layout
    (le_trans (Nat.le_add_right _ _) (slot_within readable.room inside)) _ _

theorem entry_remapCount_lt (i : Nat) : (table.entry i).remapCount < 2 ^ 32 :=
  Nat.mod_lt _ (by decide)

theorem checkSlot_ensures (readable : table.DirectoryReadable) {i previous floor : Nat}
    (inside : i < table.dirCount) :
    Ensures (table.checkSlot i previous floor) fun result =>
      result = (table.entry i,
        if (table.entry i).count ≠ 0 then table.blockEnd (table.entry i) else floor) ∧
      (0 < i → previous < (table.entry i).partition) ∧
      table.SlotValid floor (table.entry i) := by
  have directory : table.directory < 2 ^ 64 := by
    have room := readable.room
    have length := table.image.length_lt
    have size : table.image.size = table.image.bytes.length := rfl
    omega
  unfold checkSlot
  refine ensures_lift_bind (slot_eq readable inside) ?_
  have remapCount := table.entry_remapCount_lt i
  generalize table.entry i = d at remapCount ⊢
  refine ensures_rejectIf_bind fun ordered => ensures_rejectIf_bind fun width => ?_
  refine ensures_lift_bind (checkedSub_eq (by omega)) ?_
  refine ensures_rejectIf_bind fun skip => ?_
  refine ensures_bind (table.checkStride_ensures (by omega) readable.narrow readable.byte)
    fun stride strideSpec => ?_
  obtain ⟨rfl, remapped, plain⟩ := strideSpec
  refine ensures_rejectIf_bind fun positive => ?_
  by_cases occupied : d.count ≠ 0
  · rw [if_pos occupied]
    refine ensures_bind (table.checkBlock_ensures positive remapCount directory)
      fun finish finishSpec => ?_
    obtain ⟨rfl, start, within⟩ := finishSpec
    refine ensures_pure ⟨by rw [if_pos occupied]; rfl, by omega, ?_⟩
    exact ⟨by omega, remapped, plain, positive, fun _ => ⟨start, within⟩⟩
  · rw [if_neg occupied]
    refine ensures_pure ⟨by rw [if_neg occupied], by omega, ?_⟩
    exact ⟨by omega, remapped, plain, positive, fun other => absurd other occupied⟩

/-- Records before a slot never outnumber the bytes before its floor. -/
theorem itemsBefore_le_blocksEnd {slots : Nat}
    (valid : ∀ i < slots, table.SlotValid (table.blocksEnd i) (table.entry i)) :
    itemsBefore (fun i => (table.entry i).count) slots ≤ table.blocksEnd slots := by
  induction slots with
  | zero => exact Nat.zero_le _
  | succ slots inductionHypothesis =>
    have before := inductionHypothesis fun i inside => valid i (by omega)
    have here := valid slots (Nat.lt_succ_self _)
    rw [itemsBefore_succ, blocksEnd]
    by_cases occupied : (table.entry slots).count ≠ 0
    · obtain ⟨start, -⟩ := here.block occupied
      have least := Nat.le_mul_of_pos_right (table.entry slots).count
        (Nat.pos_of_ne_zero here.stride)
      rw [if_pos occupied, blockEnd]
      omega
    · rw [if_neg occupied]
      omega

theorem blocksEnd_le {slots : Nat} (start : headerSize ≤ table.directory)
    (valid : ∀ i < slots, table.SlotValid (table.blocksEnd i) (table.entry i)) :
    table.blocksEnd slots ≤ table.directory := by
  induction slots with
  | zero => exact start
  | succ slots inductionHypothesis =>
    rw [blocksEnd]
    split
    · rename_i occupied
      exact ((valid slots (Nat.lt_succ_self _)).block occupied).2
    · exact inductionHypothesis fun i inside => valid i (by omega)

/-- The loop over the directory, started where the slots before are known valid. -/
theorem checkSlots_ensures (readable : table.DirectoryReadable)
    (start : headerSize ≤ table.directory) {remaining i previous : Nat}
    (exact : i + remaining = table.dirCount)
    (last : 0 < i → previous = (table.entry (i - 1)).partition)
    (increasing : ∀ j, j + 1 < i → (table.entry j).partition < (table.entry (j + 1)).partition)
    (valid : ∀ j < i, table.SlotValid (table.blocksEnd j) (table.entry j)) :
    Ensures (table.checkSlots remaining i previous (table.blocksEnd i)
        (itemsBefore (fun j => (table.entry j).count) i)) fun total =>
      total = itemsBefore (fun j => (table.entry j).count) table.dirCount ∧
      (∀ j, j + 1 < table.dirCount →
        (table.entry j).partition < (table.entry (j + 1)).partition) ∧
      ∀ j < table.dirCount, table.SlotValid (table.blocksEnd j) (table.entry j) := by
  induction remaining generalizing i previous with
  | zero =>
    obtain rfl : i = table.dirCount := exact
    exact ensures_pure ⟨rfl, increasing, valid⟩
  | succ remaining inductionHypothesis =>
    unfold checkSlots
    refine ensures_bind (checkSlot_ensures readable (by omega)) fun result resultSpec => ?_
    obtain ⟨rfl, ordered, here⟩ := resultSpec
    have validThrough (j : Nat) (inside : j < i + 1) :
        table.SlotValid (table.blocksEnd j) (table.entry j) := by
      rcases Nat.lt_succ_iff_lt_or_eq.mp inside with earlier | rfl
      · exact valid j earlier
      · exact here
    have few : itemsBefore (fun j => (table.entry j).count) (i + 1) < 2 ^ 64 := by
      have items := itemsBefore_le_blocksEnd validThrough
      have blocks := blocksEnd_le start validThrough
      have room := readable.room
      have length := table.image.length_lt
      have size : table.image.size = table.image.bytes.length := rfl
      omega
    rw [itemsBefore_succ] at few
    refine ensures_lift_bind (checkedAdd_eq few) ?_
    have next := @inductionHypothesis (i + 1) (table.entry i).partition
      (by omega) (fun _ => rfl)
      (fun j inside => by
        rcases Nat.lt_succ_iff_lt_or_eq.mp inside with earlier | same
        · exact increasing j earlier
        · obtain rfl : j + 1 = i := same
          have step := ordered (by omega)
          rwa [last (by omega), Nat.add_sub_cancel] at step)
      validThrough
    rwa [itemsBefore_succ] at next

theorem openDirectory_ensures {tail : Nat} (layout : table.dir.WellFormed)
    (narrow : table.addressWidth + table.valuePart < 2 ^ 32) (byte : table.addressWidth < 2 ^ 8)
    (tailSpec : tail + footerSize = table.image.size) :
    Ensures (table.openDirectory tail) fun _ => table.DirectoryValid := by
  have length := table.image.length_lt
  have size : table.image.size = table.image.bytes.length := rfl
  unfold openDirectory
  refine ensures_rejectIf_bind fun stride => ensures_rejectIf_bind fun dense =>
    ensures_rejectIf_bind fun start => ?_
  refine ensures_lift_bind (checkedSub_eq (by omega)) ?_
  refine ensures_lift_bind (checkedDiv_eq stride) ?_
  refine ensures_rejectIf_bind fun most => ?_
  have slots : table.dirCount * table.dir.stride ≤ tail - table.directory :=
    le_trans (Nat.mul_le_mul_right _ (Nat.le_of_not_lt most)) (Nat.div_mul_le_self _ _)
  have room : table.directory + table.dirCount * table.dir.stride + footerSize ≤
      table.image.size := by omega
  refine ensures_lift_bind (checkedMul_eq (by omega)) ?_
  refine ensures_lift_bind (checkedAdd_eq (by omega)) ?_
  refine ensures_lift_bind (checkedAdd_eq (by simp only [footerSize] at room; omega)) ?_
  refine ensures_rejectIf_bind fun _ => ?_
  have loop := @checkSlots_ensures table ⟨layout, room, narrow, byte⟩ (by omega) _ 0 0
    (Nat.zero_add table.dirCount) (fun positive => absurd positive (Nat.lt_irrefl _))
    (fun j inside => absurd inside (Nat.not_lt_zero _))
    (fun j inside => absurd inside (Nat.not_lt_zero _))
  rw [itemsBefore_zero, blocksEnd] at loop
  refine ensures_bind loop fun total totalSpec => ?_
  obtain ⟨rfl, increasing, valid⟩ := totalSpec
  refine ensures_mono ensures_rejectIf fun _ totalEq => ?_
  exact ⟨not_not.mp dense, by omega, room, increasing, valid, not_not.mp totalEq⟩

/-- The dictionaries play no part in the directory. -/
theorem DirectoryValid.of_same {base : Table} (valid : base.DirectoryValid)
    {blobDicts : List BlobDictionaryView} {valueDict : FixedDictionaryView}
    (same : table = { base with blobDicts := blobDicts, valueDict := valueDict }) :
    table.DirectoryValid := by
  obtain ⟨dense, start, room, increasing, slots, total⟩ := valid
  subst same
  have blocksEnd_eq (i : Nat) :
      blocksEnd { base with blobDicts := blobDicts, valueDict := valueDict } i =
        base.blocksEnd i := by
    induction i with
    | zero => rfl
    | succ i inductionHypothesis =>
      rw [blocksEnd, blocksEnd, inductionHypothesis]
      rfl
  refine ⟨dense, start, room, increasing, fun i inside => ?_, total⟩
  obtain ⟨inField, remapped, plain, stride, block⟩ := slots i inside
  rw [blocksEnd_eq]
  exact ⟨inField, remapped, plain, stride, block⟩

/-! ### The dictionaries -/

/-- The tables the dictionary loop goes through: those that differ from the first one in the
dictionaries only. -/
structure Loading (base table : Table) (opened : Nat) : Prop where
  same : table = { base with blobDicts := table.blobDicts, valueDict := table.valueDict }
  blobCount : table.blobDicts.length = base.schema.dictCount
  dictionaries : ∀ j < opened, table.DictOpened j

theorem openDictionary_ensures {base table : Table} {tail i : Nat}
    (loading : Loading base table i) (inside : i < base.schema.dictCount)
    (tailWithin : tail ≤ base.image.size)
    (within : base.schema.dicts + base.schema.dictCount * dictEntrySize ≤ base.image.size) :
    Ensures (openDictionary tail table i) fun next => Loading base next (i + 1) := by
  obtain ⟨same, blobCount, dictionaries⟩ := loading
  have schemaEq : table.schema = base.schema := by rw [same]
  have imageEq : table.image = base.image := by rw [same]
  have placed : base.schema.dicts + i * dictEntrySize + dictEntrySize ≤
      base.image.bytes.length := by
    have size : base.image.size = base.image.bytes.length := rfl
    simp only [dictEntrySize] at within ⊢
    omega
  unfold openDictionary
  refine ensures_lift_bind
    (SchemaView.dictionary_eq (by rw [schemaEq, region, imageEq]; exact placed)) ?_
  generalize located : table.schema.dictAt table.region i = e
  refine ensures_rejectIf_bind fun start => ?_
  refine ensures_lift_bind (checkedSub_eq (by omega)) ?_
  refine ensures_rejectIf_bind fun room => ?_
  have size : base.image.size = table.region.length := by rw [region, imageEq]; rfl
  have block : e.offset + e.size ≤ table.region.length := by omega
  by_cases composite : table.schema.interned = true ∧ i = table.schema.valueDict
  · rw [if_pos composite]
    refine ensures_bind (ensures_orReject (FixedDictionaryView.open_ensures block)).accepted
      fun fixed fixedSpec => ?_
    refine ensures_rejectIf_bind fun elemSize => ensures_pure ?_
    refine ⟨by rw [same], blobCount, fun j earlier => ?_⟩
    rcases Nat.lt_succ_iff_lt_or_eq.mp earlier with before | rfl
    · obtain ⟨jWithin, jComposite, jBlob⟩ := dictionaries j before
      refine ⟨jWithin, fun _ last => absurd last ?_, jBlob⟩
      have value := composite.2
      simp only
      omega
    · refine ⟨by simp only [located]; exact block, fun _ _ => ?_, fun other =>
        absurd composite other⟩
      simp only [located]
      exact ⟨orReject_accepts fixedSpec.1, not_not.mp elemSize⟩
  · rw [if_neg composite]
    refine ensures_bind (ensures_orReject (BlobDictionaryView.open_ensures block)).accepted
      fun blob blobSpec => ensures_pure ?_
    refine ⟨by rw [same], by rw [List.length_set, blobCount], fun j earlier => ?_⟩
    rcases Nat.lt_succ_iff_lt_or_eq.mp earlier with before | rfl
    · obtain ⟨jWithin, jComposite, jBlob⟩ := dictionaries j before
      refine ⟨jWithin, jComposite, fun other => ?_⟩
      obtain ⟨view, found, opened⟩ := jBlob other
      exact ⟨view, by rw [List.getElem?_set_ne (by omega), found], opened⟩
    · refine ⟨by simp only [located]; exact block, fun interned last =>
        absurd ⟨interned, last⟩ composite, fun _ => ⟨blob, ?_, ?_⟩⟩
      · exact List.getElem?_set_self (by rw [blobCount]; exact inside)
      · simp only [located]
        exact orReject_accepts blobSpec.1

theorem openDictionaries_ensures {base table : Table} {tail remaining i : Nat}
    (loading : Loading base table i) (exact : i + remaining = base.schema.dictCount)
    (tailWithin : tail ≤ base.image.size)
    (within : base.schema.dicts + base.schema.dictCount * dictEntrySize ≤ base.image.size) :
    Ensures (openDictionaries tail remaining i table) fun result =>
      Loading base result base.schema.dictCount := by
  induction remaining generalizing i table with
  | zero =>
    obtain rfl : i = base.schema.dictCount := exact
    exact ensures_pure loading
  | succ remaining inductionHypothesis =>
    exact ensures_bind (openDictionary_ensures loading (by omega) tailWithin within)
      fun next nextLoading => inductionHypothesis nextLoading (by omega)

theorem checkTextFields_ensures {remaining i : Nat}
    (within : table.schema.fields + (i + remaining) * fieldDescSize ≤ table.region.length) :
    Ensures (table.checkTextFields remaining i) fun _ =>
      ∀ id, i ≤ id → id < i + remaining →
        (table.schema.descAt table.region id).kind = FieldKind.text.code →
        table.schema.interned = true →
          (table.schema.descAt table.region id).dictIndex ≠ table.schema.valueDict := by
  induction remaining generalizing i with
  | zero => exact ensures_pure fun id above below => absurd below (by omega)
  | succ remaining inductionHypothesis =>
    unfold checkTextFields
    have here : table.schema.fields + i * fieldDescSize + fieldDescSize ≤ table.region.length := by
      simp only [fieldDescSize] at within ⊢
      omega
    refine ensures_lift_bind (SchemaView.field_eq here) ?_
    refine ensures_rejectIf_bind fun first => ?_
    refine ensures_mono (inductionHypothesis (by rwa [Nat.add_assoc, Nat.add_comm 1]))
      fun _ rest id above below => ?_
    rcases Nat.eq_or_lt_of_le above with rfl | later
    · exact fun isText interned same => first ⟨isText, interned, same⟩
    · exact rest id later (by omega)

/-! ### The whole opening -/

/-- Opening reads only inside the image, never wraps, and accepts only valid tables. -/
theorem tryOpen_ensures (image : Image) :
    Ensures (tryOpen (some image)) fun table => table.image = image ∧ table.Valid := by
  unfold tryOpen
  refine ensures_bind (openFrame_ensures image) fun foot footSpec => ?_
  obtain ⟨large, footEq, -⟩ := footSpec
  have room : footerSize ≤ image.size := by
    simp only [headerSize, footerSize] at large ⊢
    omega
  refine ensures_lift_bind (checkedSub_eq room) ?_
  refine ensures_bind (openSchema_ensures (Nat.sub_le _ _)) fun schema schemaSpec => ?_
  obtain ⟨schemaWithin, valid, stride, keyed⟩ := schemaSpec
  have fits := valid.head ▸ SchemaView.SchemaHeader.parse_lt _
  have addressWidth : schema.addressWidth < 2 ^ 8 := fits.addressWidth
  have recordStride : schema.recordStride < 2 ^ 32 := fits.recordStride
  have split := addressWidth_le_recordStride valid
  have blockWithin := valid.within
  have namesAt := valid.names
  have dictsAt := valid.dicts
  have size : image.size = image.bytes.length := rfl
  refine ensures_lift_bind (checkedSub_eq split) ?_
  refine ensures_bind (openDirectory_ensures (directoryLayout_wellFormed valid.header)
    (by simp only [attach]; omega) addressWidth (Nat.sub_add_cancel room)) fun _ directory => ?_
  have loading : Loading (attach image foot schema (schema.recordStride - schema.addressWidth))
      (attach image foot schema (schema.recordStride - schema.addressWidth)) 0 :=
    ⟨rfl, by simp [attach], fun j inside => absurd inside (Nat.not_lt_zero _)⟩
  refine ensures_bind (openDictionaries_ensures loading (Nat.zero_add _) (Nat.sub_le _ _)
    (by simp only [attach]; omega)) fun table loaded => ?_
  obtain ⟨same, blobCount, dictionaries⟩ := loaded
  have schemaEq : table.schema = schema := by rw [same]; rfl
  have imageEq : table.image = image := by rw [same]; rfl
  have footerEq : table.footer = foot := by
    rw [footEq, footer, region, imageEq]
  refine ensures_bind (checkTextFields_ensures (by
    rw [schemaEq, region, imageEq, Nat.zero_add]
    omega)) fun _ texts => ensures_pure ⟨imageEq, ?_⟩
  refine
    { large := by rw [imageEq]; exact large
      schemaWithin := by rw [footerEq, imageEq]; exact schemaWithin
      schema := by rw [footerEq, schemaEq, region, imageEq]; exact valid
      recordStride := by rw [schemaEq]; exact stride
      keyed := by rw [schemaEq]; exact keyed
      attached := by rw [footerEq, schemaEq, imageEq]; exact same
      directory := ?_
      blobCount := by rw [schemaEq]; exact blobCount
      dictionaries := fun i inside => dictionaries i (by rwa [schemaEq] at inside)
      texts := fun id inside => texts id (Nat.zero_le _) (by
        rw [schemaEq] at inside
        rwa [Nat.zero_add]) }
  exact directory.of_same same

end Table

end Mmpack
