/-
This file computes what the reads of an opened table yield. On a valid table
every load of the lookups and the iterators stays inside the image, so each
function of the reader equals a pure function of the decoded directory and of the
bytes of the records. All later reasoning about searches is about those pure
functions.
-/

import Mmpack.Opened
import Mmpack.Access

namespace Mmpack

open ByteList Checked Cursor

namespace Table

variable {table : Table}

/-! ### Dimensions -/

theorem Valid.dir_eq (valid : table.Valid) : table.dir = table.schema.directoryLayout :=
  congrArg Table.dir valid.attached

theorem Valid.addressWidth_eq (valid : table.Valid) :
    table.addressWidth = table.schema.addressWidth :=
  congrArg Table.addressWidth valid.attached

theorem Valid.valuePart_eq (valid : table.Valid) :
    table.valuePart = table.schema.recordStride - table.schema.addressWidth :=
  congrArg Table.valuePart valid.attached

theorem Valid.refWidth_eq (valid : table.Valid) : table.refWidth = table.schema.refWidth :=
  congrArg Table.refWidth valid.attached

theorem Valid.interned_eq (valid : table.Valid) : table.interned = table.schema.interned :=
  congrArg Table.interned valid.attached

theorem Valid.directory_eq (valid : table.Valid) : table.directory = table.footer.dirOffset :=
  congrArg Table.directory valid.attached

theorem Valid.dirCount_eq (valid : table.Valid) : table.dirCount = table.footer.dirCount :=
  congrArg Table.dirCount valid.attached

theorem Valid.recordCount_eq (valid : table.Valid) :
    table.recordCount = table.footer.recordCount :=
  congrArg Table.recordCount valid.attached

theorem Valid.schemaFits (valid : table.Valid) : table.schema.head.Fits :=
  valid.schema.head ▸ SchemaView.SchemaHeader.parse_lt _

theorem Valid.addressWidth_lt (valid : table.Valid) : table.addressWidth < 2 ^ 8 := by
  rw [valid.addressWidth_eq]
  exact valid.schemaFits.addressWidth

theorem Valid.stride_split (valid : table.Valid) :
    table.addressWidth + table.valuePart = table.schema.recordStride := by
  rw [valid.addressWidth_eq, valid.valuePart_eq]
  exact Nat.add_sub_cancel' (addressWidth_le_recordStride valid.schema)

theorem Valid.readable (valid : table.Valid) : table.DirectoryReadable where
  layout := by
    rw [valid.dir_eq]
    exact directoryLayout_wellFormed valid.schema.header
  room := valid.directory.room
  narrow := by
    rw [valid.stride_split]
    exact valid.schemaFits.recordStride
  byte := valid.addressWidth_lt

/-- The number of records in a slot. -/
def countAt (table : Table) (i : Nat) : Nat := (table.entry i).count

theorem Valid.slot (valid : table.Valid) {i : Nat} (inside : i < table.dirCount) :
    table.SlotValid (table.blocksEnd i) (table.entry i) :=
  valid.directory.slots i inside

theorem Valid.items (valid : table.Valid) :
    itemsBefore table.countAt table.dirCount = table.recordCount :=
  valid.directory.total

theorem Valid.slot_room (valid : table.Valid) {i : Nat} (inside : i < table.dirCount) :
    table.slotBytes i + table.dir.stride + 8 ≤ table.region.length :=
  le_trans (by simp only [footerSize]; omega) (slot_within valid.directory.room inside)

/-! ### Slots -/

theorem Valid.partition_lt (valid : table.Valid) {first second : Nat} (ordered : first < second)
    (inside : second < table.dirCount) :
    (table.entry first).partition < (table.entry second).partition := by
  induction second with
  | zero => exact absurd ordered (Nat.not_lt_zero _)
  | succ second inductionHypothesis =>
    have step := valid.directory.increasing second inside
    rcases Nat.lt_succ_iff_lt_or_eq.mp ordered with earlier | rfl
    · exact lt_trans (inductionHypothesis earlier (by omega)) step
    · exact step

theorem Valid.slot_lt_of_partition_lt (valid : table.Valid) {first second : Nat}
    (ordered : (table.entry first).partition < (table.entry second).partition)
    (inside : first < table.dirCount) : first < second := by
  by_contra later
  rcases Nat.eq_or_lt_of_le (Nat.not_lt.mp later) with rfl | less
  · exact Nat.lt_irrefl _ ordered
  · exact Nat.lt_asymm ordered (valid.partition_lt less inside)

theorem loadMaskedPresent_eq {region : List UInt8} {position width implied : Nat}
    (narrow : width ≤ 8) (within : position + 8 ≤ region.length) :
    loadMaskedPresent region position width (maskForWidth width) implied =
      .ok (presentAt region position width implied) := by
  unfold loadMaskedPresent presentAt
  split
  · exact loadUintMasked_eq narrow within
  · rfl

/-- The places and masks of a layout, all inside its stride. -/
theorem wellFormed_places {layout : DirLayout} (wellFormed : layout.WellFormed) :
    (layout.partitionAt ≤ layout.stride ∧ layout.offsetAt ≤ layout.stride ∧
      layout.countAt ≤ layout.stride ∧ layout.schemaAt ≤ layout.stride ∧
      layout.remapAt ≤ layout.stride ∧ layout.addrAt ≤ layout.stride ∧
      layout.skipAt ≤ layout.stride) ∧
    layout.partitionMask = maskForWidth layout.partitionWidth ∧
    layout.offsetMask = maskForWidth layout.offsetWidth ∧
    layout.countMask = maskForWidth layout.countWidth ∧
    layout.schemaMask = maskForWidth layout.schemaWidth ∧
    layout.remapMask = maskForWidth layout.remapWidth ∧
    layout.addrMask = maskForWidth layout.addrWidth ∧
    layout.skipMask = maskForWidth layout.skipWidth := by
  obtain ⟨made, -⟩ := wellFormed
  rw [made]
  simp only [makeDirLayout, and_true]
  omega

theorem slotPartition_eq (valid : table.Valid) {i : Nat} (inside : i < table.dirCount) :
    table.slotPartition i = .ok (table.entry i).partition := by
  have layout := valid.readable.layout
  obtain ⟨places, mask, -⟩ := wellFormed_places layout
  have room := valid.slot_room inside
  rw [slotPartition, mask, loadMaskedPresent_eq layout.partitionWidth (by omega)]
  rfl

theorem slotOffset_eq (valid : table.Valid) {i : Nat} (inside : i < table.dirCount) :
    table.slotOffset i = .ok (table.entry i).offset := by
  have layout := valid.readable.layout
  obtain ⟨places, -, mask, -⟩ := wellFormed_places layout
  have room := valid.slot_room inside
  rw [slotOffset, mask, loadUintMasked_eq layout.offsetWidth (by omega)]
  rfl

theorem slotCount_eq (valid : table.Valid) {i : Nat} (inside : i < table.dirCount) :
    table.slotCount i = .ok (table.countAt i) := by
  have layout := valid.readable.layout
  obtain ⟨places, -, -, mask, -⟩ := wellFormed_places layout
  have room := valid.slot_room inside
  rw [slotCount, mask, loadUintMasked_eq layout.countWidth (by omega)]
  rfl

/-- The layout of a partition, from its slot. -/
def layout (table : Table) (s : Nat) : PartitionLayout where
  records := (table.entry s).offset +
    if (table.entry s).schemaId ≠ 0 then (table.entry s).remapCount * 4 else 0
  remap := if (table.entry s).schemaId ≠ 0 then some (table.entry s).offset else none
  count := (table.entry s).count
  remapCount := (table.entry s).remapCount
  stride := table.strideOf (table.entry s)
  refWidth := if (table.entry s).schemaId ≠ 0 then (table.entry s).schemaId else table.refWidth
  addressWidth := (table.entry s).addressWidth
  addressSkip := (table.entry s).addressSkip
  remapped := (table.entry s).schemaId ≠ 0

theorem strideOf_lt (valid : table.Valid) {i : Nat} (inside : i < table.dirCount) :
    table.strideOf (table.entry i) < 2 ^ 32 := by
  have slot := valid.slot inside
  have inField := slot.inField
  have byte := valid.addressWidth_lt
  have narrow := valid.readable.narrow
  rw [strideOf]
  split
  · rename_i remapped
    have small := (slot.remapped remapped).1
    simp only [maxLocalWidth] at small
    omega
  · omega

theorem layoutOf_eq (valid : table.Valid) {s : Nat} (inside : s < table.dirCount) :
    table.layoutOf s = .ok (table.layout s) := by
  have wellFormed := valid.readable.layout
  obtain ⟨places, -, offsetMask, countMask, schemaMask, remapMask, addrMask, skipMask⟩ :=
    wellFormed_places wellFormed
  have room := valid.slot_room inside
  unfold layoutOf
  dsimp only
  rw [offsetMask, countMask, schemaMask, remapMask, addrMask, skipMask,
    loadUintMasked_eq wellFormed.offsetWidth (by omega), ok_bind,
    loadMaskedPresent_eq wellFormed.schemaWidth (by omega), ok_bind,
    loadUintMasked_eq wellFormed.countWidth (by omega), ok_bind,
    loadMaskedPresent_eq wellFormed.remapWidth (by omega), ok_bind,
    loadMaskedPresent_eq wellFormed.addrWidth (by omega), ok_bind,
    loadMaskedPresent_eq wellFormed.skipWidth (by omega), ok_bind]
  refine congrArg Except.ok ?_
  have stride := Nat.mod_eq_of_lt (strideOf_lt valid inside)
  unfold layout
  congr 1

/-! ### Records -/

/-- Where a record starts. -/
def recordAt (table : Table) (s i : Nat) : Nat :=
  (table.layout s).records + i * (table.layout s).stride

theorem layout_records (valid : table.Valid) {s : Nat} (inside : s < table.dirCount) :
    (table.layout s).records = (table.entry s).offset + (table.entry s).remapCount * 4 := by
  simp only [layout]
  split
  · rfl
  · rename_i plain
    rw [(valid.slot inside).plain (not_not.mp plain)]

/-- The bytes of a record lie before the directory. -/
theorem record_within (valid : table.Valid) {s i : Nat} (inside : s < table.dirCount)
    (below : i < table.countAt s) :
    table.recordAt s i + table.strideOf (table.entry s) ≤ table.directory := by
  have occupied : (table.entry s).count ≠ 0 := Nat.ne_of_gt (Nat.zero_lt_of_lt below)
  have finish := ((valid.slot inside).block occupied).2
  have scaled : (i + 1) * table.strideOf (table.entry s) ≤
      (table.entry s).count * table.strideOf (table.entry s) := Nat.mul_le_mul_right _ below
  rw [Nat.succ_mul] at scaled
  rw [blockEnd] at finish
  rw [recordAt, layout_records valid inside]
  simp only [layout]
  omega

theorem directory_room (valid : table.Valid) :
    table.directory + footerSize ≤ table.region.length := by
  have room := valid.directory.room
  have size : table.image.size = table.region.length := rfl
  omega

theorem record_room (valid : table.Valid) {s i : Nat} (inside : s < table.dirCount)
    (below : i < table.countAt s) :
    table.recordAt s i + table.strideOf (table.entry s) + 8 ≤ table.region.length := by
  have record := record_within valid inside below
  have room := directory_room valid
  simp only [footerSize] at room
  omega

theorem loadAddress_eq {region : List UInt8} {position width : Nat} (narrow : width ≤ 8)
    (within : position + 8 ≤ region.length) :
    loadAddress region position width = .ok (valueAt region position width) := by
  unfold loadAddress
  split
  · exact load_eq (by omega)
  · exact loadUintMasked_eq narrow within

/-- The stretch of the address a record stores. -/
def storedBytes (table : Table) (s i : Nat) : List UInt8 :=
  slice table.region (table.recordAt s i) (table.entry s).addressWidth

theorem addressWidth_le_stride (s : Nat) :
    (table.entry s).addressWidth ≤ table.strideOf (table.entry s) := Nat.le_add_right _ _

theorem readStored_eq (valid : table.Valid) {s i : Nat} (inside : s < table.dirCount)
    (below : i < table.countAt s) :
    readBytes table.region (table.recordAt s i) (table.entry s).addressWidth =
      .ok (table.storedBytes s i) := by
  have room := record_room valid inside below
  have width := table.addressWidth_le_stride s
  exact readBytes_eq (by omega)

theorem loadStored_eq (valid : table.Valid) (narrow : table.narrowAddress = true) {s i : Nat}
    (inside : s < table.dirCount) (below : i < table.countAt s) :
    loadAddress table.region (table.recordAt s i) (table.entry s).addressWidth =
      .ok (leNat (table.storedBytes s i)) := by
  have room := record_room valid inside below
  have inField := (valid.slot inside).inField
  have small : table.schema.addressWidth ≤ 8 := of_decide_eq_true narrow
  have width := valid.addressWidth_eq
  exact loadAddress_eq (by omega) (by omega)

/-! ### Iterators -/

theorem normalize_eq (valid : table.Valid) (position : Position)
    (bound : position.slot ≤ table.dirCount) :
    table.normalize position = .ok (settled table.countAt table.dirCount position) :=
  settle_eq (fun _ inside => slotCount_eq valid inside) bound

theorem retreat_eq (valid : table.Valid) {position : Position}
    (bound : position.slot ≤ table.dirCount) :
    table.retreat position = .ok (back table.countAt position) :=
  stepBack_eq (fun _ inside => slotCount_eq valid inside) bound

theorem floorAtOrBefore_eq (valid : table.Valid) {s : Nat} (inside : s < table.dirCount) :
    table.floorAtOrBefore s = .ok (atOrBefore table.countAt table.dirCount s) :=
  lastAtOrBefore_eq (fun _ other => slotCount_eq valid other) inside

/-- The position of the first record, or the end. -/
def first (table : Table) : Position := settled table.countAt table.dirCount ⟨0, 0⟩

theorem begin_eq (valid : table.Valid) : table.begin = .ok table.first :=
  normalize_eq valid _ (Nat.zero_le _)

theorem partitionCountFrom_eq (valid : table.Valid) {remaining i : Nat}
    (exact : i + remaining = table.dirCount) :
    ∃ count, table.partitionCountFrom remaining i = .ok count := by
  induction remaining generalizing i with
  | zero => exact ⟨0, rfl⟩
  | succ remaining inductionHypothesis =>
    obtain ⟨rest, runs⟩ := inductionHypothesis (i := i + 1) (by omega)
    rw [partitionCountFrom, slotCount_eq valid (by omega), ok_bind, runs, ok_bind]
    exact ⟨_, rfl⟩

/-! ### Searching the directory -/

/-- The first slot whose partition is not below one, or the number of slots. -/
def slotLower (table : Table) (p : Nat) : Nat :=
  if table.dense then if p < table.dirCount then p else table.dirCount
  else Bisect.point (fun mid => decide ((table.entry mid).partition < p)) table.dirCount

/-- The last slot whose partition is not above one, or the number of slots. -/
def slotLast (table : Table) (p : Nat) : Nat :=
  if table.dirCount = 0 then 0
  else if table.dense then if p < table.dirCount then p else table.dirCount - 1
  else
    let lo := Bisect.point (fun mid => decide ((table.entry mid).partition ≤ p)) table.dirCount
    if lo = 0 then table.dirCount else lo - 1

theorem slotLowerBound_eq (valid : table.Valid) (p : Nat) :
    table.slotLowerBound p = .ok (table.slotLower p) := by
  unfold slotLowerBound slotLower
  split
  · rfl
  · exact Bisect.search_eq _ fun mid inside => by
      rw [slotPartition_eq valid inside]
      rfl

theorem slotFloor_eq (valid : table.Valid) (p : Nat) :
    table.slotFloor p = .ok (table.slotLast p) := by
  unfold slotFloor slotLast
  split
  · rfl
  · split
    · rfl
    · rw [Bisect.search_eq (M := Read) (fun mid => decide ((table.entry mid).partition ≤ p))
        fun mid inside => by
          rw [slotPartition_eq valid inside]
          rfl]
      rfl

theorem slotLower_le (table : Table) (p : Nat) : table.slotLower p ≤ table.dirCount := by
  unfold slotLower
  split
  · split <;> omega
  · exact Bisect.point_le _ _

/-! ### Probes -/

theorem anyNonzero_eq {bytes : List UInt8} {remaining position : Nat}
    (within : position + remaining ≤ bytes.length) :
    anyNonzero bytes remaining position =
      .ok (decide (∃ byte ∈ slice bytes position remaining, byte ≠ 0)) := by
  induction remaining generalizing position with
  | zero =>
    rw [anyNonzero, slice_count_zero]
    rfl
  | succ remaining inductionHypothesis =>
    rw [anyNonzero, SchemaView.load_byte (by omega), ok_bind, SchemaView.slice_succ within]
    by_cases zero : bytes[position] = 0
    · have stays : ¬ bytes[position].toNat ≠ 0 := by simp [zero]
      rw [if_neg stays, inductionHypothesis (by omega)]
      refine congrArg Except.ok (decide_eq_decide.mpr ?_)
      simp [zero]
    · have nonzero : bytes[position].toNat ≠ 0 := fun value => zero (UInt8.toNat_inj.mp value)
      rw [if_pos nonzero, decide_eq_true ⟨_, List.mem_cons_self, zero⟩]
      rfl

/-- A probe the reader can meet on this table. -/
def ProbeFits (table : Table) : Probe → Prop
  | .narrow _ => table.narrowAddress = true
  | .wide bytes => bytes.length = table.addressWidth

/-- Whether a probe has something above the stretch of a slot. -/
def hasHead (table : Table) (s : Nat) : Probe → Bool
  | .narrow _ => false
  | .wide bytes => decide (∃ byte ∈ slice bytes 0 (table.entry s).addressSkip, byte ≠ 0)

/-- Whether a probe has something below the stretch of a slot. -/
def hasTail (table : Table) (s : Nat) : Probe → Bool
  | .narrow value => (probeNarrow (table.layout s) value).tail
  | .wide bytes =>
    let past := (table.entry s).addressSkip + (table.entry s).addressWidth
    decide (∃ byte ∈ slice bytes past (table.addressWidth - past), byte ≠ 0)

/-- Whether a record is below a probe, on the stretch of its slot. A probe with a tail is above
the records equal to it there, which the narrow test folds into the operand. -/
def isBelow (table : Table) (s : Nat) (probe : Probe) (i : Nat) : Bool :=
  match probe with
  | .narrow value =>
    decide (leNat (table.storedBytes s i) < ((probeNarrow (table.layout s) value).value +
      if (probeNarrow (table.layout s) value).tail then 1 else 0) % 2 ^ 64)
  | .wide bytes =>
    table.hasHead s probe || decide (memcmp (table.storedBytes s i)
      (slice bytes (table.entry s).addressSkip (table.entry s).addressWidth) <
        if table.hasTail s probe then 1 else 0)

/-- Whether a record is not above a probe, on the stretch of its slot. -/
def isAtOrBelow (table : Table) (s : Nat) (probe : Probe) (i : Nat) : Bool :=
  match probe with
  | .narrow value =>
    !decide ((probeNarrow (table.layout s) value).value < leNat (table.storedBytes s i))
  | .wide bytes =>
    table.hasHead s probe || decide (memcmp (table.storedBytes s i)
      (slice bytes (table.entry s).addressSkip (table.entry s).addressWidth) < 1)

/-- Whether a record is equal to a probe, on the stretch of its slot. -/
def isEqual (table : Table) (s : Nat) (probe : Probe) (i : Nat) : Bool :=
  match probe with
  | .narrow value => leNat (table.storedBytes s i) == (probeNarrow (table.layout s) value).value
  | .wide bytes => memcmp (table.storedBytes s i)
      (slice bytes (table.entry s).addressSkip (table.entry s).addressWidth) == 0

/-- The wide tests, by whether the probe has a head. -/
theorem isBelow_wide (s : Nat) (bytes : List UInt8) :
    table.isBelow s (.wide bytes) =
      if table.hasHead s (.wide bytes) then fun _ => true
      else fun i => decide (memcmp (table.storedBytes s i)
        (slice bytes (table.entry s).addressSkip (table.entry s).addressWidth) <
          if table.hasTail s (.wide bytes) then 1 else 0) := by
  funext i
  simp only [isBelow]
  cases table.hasHead s (.wide bytes) <;> rfl

theorem isAtOrBelow_wide (s : Nat) (bytes : List UInt8) :
    table.isAtOrBelow s (.wide bytes) =
      if table.hasHead s (.wide bytes) then fun _ => true
      else fun i => decide (memcmp (table.storedBytes s i)
        (slice bytes (table.entry s).addressSkip (table.entry s).addressWidth) < 1) := by
  funext i
  simp only [isAtOrBelow]
  cases table.hasHead s (.wide bytes) <;> rfl

theorem probeWide_eq (valid : table.Valid) {s : Nat} (inside : s < table.dirCount)
    {bytes : List UInt8} (fits : table.ProbeFits (.wide bytes)) :
    table.probeWide (table.layout s) bytes =
      .ok { bytes := (table.entry s).addressSkip, tail := table.hasTail s (.wide bytes)
            head := table.hasHead s (.wide bytes) } := by
  have inField := (valid.slot inside).inField
  have length : bytes.length = table.addressWidth := fits
  unfold probeWide
  simp only [layout]
  rw [anyNonzero_eq (by omega), ok_bind, anyNonzero_eq (by omega), ok_bind]
  rfl

theorem readProbe_eq (valid : table.Valid) {s : Nat} (inside : s < table.dirCount)
    {bytes : List UInt8} (fits : table.ProbeFits (.wide bytes)) :
    readBytes bytes (table.entry s).addressSkip (table.entry s).addressWidth =
      .ok (slice bytes (table.entry s).addressSkip (table.entry s).addressWidth) := by
  have inField := (valid.slot inside).inField
  have length : bytes.length = table.addressWidth := fits
  exact readBytes_eq (by omega)

theorem searchWide_eq (valid : table.Valid) {s : Nat} (inside : s < table.dirCount)
    {bytes : List UInt8} (fits : table.ProbeFits (.wide bytes)) (limit : Int) :
    table.searchWide (table.layout s) bytes (table.entry s).addressSkip limit =
      .ok (Bisect.point (fun i => decide (memcmp (table.storedBytes s i)
        (slice bytes (table.entry s).addressSkip (table.entry s).addressWidth) < limit))
        (table.countAt s)) :=
  Bisect.search_eq _ fun i below => by
    have stored := readStored_eq valid inside below
    simp only [recordAt, layout] at stored
    simp only [layout]
    rw [stored, ok_bind, readProbe_eq valid inside fits]
    rfl

theorem point_true (count : Nat) : Bisect.point (fun _ => true) count = count := by
  obtain ⟨inside, -, right⟩ := Bisect.point_boundary (fun _ => true) count
  by_contra different
  exact absurd (right (by omega)) (by simp)

theorem searchBelow_eq (valid : table.Valid) {s : Nat} (inside : s < table.dirCount)
    {probe : Probe} (fits : table.ProbeFits probe) :
    table.searchBelow (table.layout s) probe =
      .ok (Bisect.point (table.isBelow s probe) (table.countAt s)) := by
  cases probe with
  | narrow value =>
    exact Bisect.search_eq _ fun i below => by
      have stored := loadStored_eq valid fits inside below
      simp only [recordAt, layout] at stored
      simp only [layout]
      rw [stored]
      rfl
  | wide bytes =>
    simp only [searchBelow]
    rw [probeWide_eq valid inside fits, ok_bind, isBelow_wide]
    split
    · rw [point_true]
      rfl
    · exact searchWide_eq valid inside fits _

theorem searchAbove_eq (valid : table.Valid) {s : Nat} (inside : s < table.dirCount)
    {probe : Probe} (fits : table.ProbeFits probe) :
    table.searchAbove (table.layout s) probe =
      .ok (Bisect.point (table.isAtOrBelow s probe) (table.countAt s)) := by
  cases probe with
  | narrow value =>
    exact Bisect.search_eq _ fun i below => by
      have stored := loadStored_eq valid fits inside below
      simp only [recordAt, layout] at stored
      simp only [layout]
      rw [stored]
      rfl
  | wide bytes =>
    simp only [searchAbove]
    rw [probeWide_eq valid inside fits, ok_bind, isAtOrBelow_wide]
    split
    · rw [point_true]
      rfl
    · exact searchWide_eq valid inside fits _

/-- The index `find` settles on: the first record not below the probe, when it is equal to it
and nothing of the probe lies outside the stretch. -/
def equalIndex (table : Table) (s : Nat) (probe : Probe) : Option Nat :=
  if table.hasHead s probe || table.hasTail s probe then none
  else
    let index := Bisect.point (table.isBelow s probe) (table.countAt s)
    if index < table.countAt s ∧ table.isEqual s probe index = true then some index else none

theorem equalIndex_lt {s index : Nat} {probe : Probe}
    (found : table.equalIndex s probe = some index) : index < table.countAt s := by
  unfold equalIndex at found
  split at found
  · nomatch found
  · simp only at found
    split at found
    · rename_i inside
      obtain rfl := Option.some.inj found
      exact inside.1
    · nomatch found

theorem searchLowerNarrow_eq (valid : table.Valid) (narrow : table.narrowAddress = true)
    {s : Nat} (inside : s < table.dirCount) (address : Nat) :
    table.searchLowerNarrow (table.layout s) address =
      .ok (Bisect.point (fun i => decide (leNat (table.storedBytes s i) < address))
        (table.countAt s)) :=
  Bisect.search_eq _ fun i below => by
    have stored := loadStored_eq valid narrow inside below
    simp only [recordAt, layout] at stored
    simp only [layout]
    rw [stored]
    rfl

/-- A probe without a tail is not folded. -/
theorem isBelow_narrow {s value : Nat}
    (noTail : (probeNarrow (table.layout s) value).tail = false) (bound : value < 2 ^ 64) :
    table.isBelow s (.narrow value) = fun i =>
      decide (leNat (table.storedBytes s i) < (probeNarrow (table.layout s) value).value) := by
  have small : (probeNarrow (table.layout s) value).value < 2 ^ 64 := by
    simp only [probeNarrow]
    split
    · decide
    · exact lt_of_le_of_lt (Nat.shiftRight_le _ _) bound
  funext i
  simp only [isBelow, noTail, Bool.false_eq_true, if_false, Nat.add_zero, Nat.mod_eq_of_lt small]

/-- The probes of the interface: an integer is a 64-bit one. -/
def ProbeTyped : Probe → Prop
  | .narrow value => value < 2 ^ 64
  | .wide _ => True

theorem searchEqual_eq (valid : table.Valid) {s : Nat} (inside : s < table.dirCount)
    {probe : Probe} (fits : table.ProbeFits probe) (typed : ProbeTyped probe) :
    table.searchEqual (table.layout s) probe = .ok (table.equalIndex s probe) := by
  cases probe with
  | narrow value =>
    simp only [searchEqual, equalIndex, hasHead, hasTail, Bool.false_or]
    cases tail : (probeNarrow (table.layout s) value).tail with
    | true => rfl
    | false =>
      simp only [Bool.false_eq_true, if_false]
      rw [searchLowerNarrow_eq valid fits inside, ok_bind, isBelow_narrow tail typed]
      generalize Bisect.point _ (table.countAt s) = index
      by_cases below : index < table.countAt s
      · have stored := loadStored_eq valid fits inside below
        simp only [recordAt] at stored
        have counted : ¬ (table.layout s).count ≤ index := Nat.not_le.mpr below
        rw [if_neg counted]
        simp only [layout] at stored ⊢
        rw [stored, ok_bind]
        simp only [isEqual, beq_iff_eq, below, true_and, layout]
        split_ifs <;> first | rfl | contradiction
      · have counted : (table.layout s).count ≤ index := Nat.not_lt.mp below
        rw [if_pos counted, if_neg fun both => below both.1]
        rfl
  | wide bytes =>
    simp only [searchEqual, equalIndex]
    rw [probeWide_eq valid inside fits, ok_bind]
    cases outside : table.hasHead s (.wide bytes) || table.hasTail s (.wide bytes) with
    | true => rfl
    | false =>
      obtain ⟨noHead, noTail⟩ := Bool.or_eq_false_iff.mp outside
      simp only [Bool.false_eq_true, if_false]
      rw [searchWide_eq valid inside fits, ok_bind, isBelow_wide, noHead, noTail]
      simp only [Bool.false_eq_true, if_false]
      generalize Bisect.point _ (table.countAt s) = index
      by_cases below : index < table.countAt s
      · have stored := readStored_eq valid inside below
        have counted : ¬ (table.layout s).count ≤ index := Nat.not_le.mpr below
        have probed := readProbe_eq valid inside fits
        rw [if_neg counted]
        simp only [recordAt, layout] at stored ⊢
        rw [stored, ok_bind, probed, ok_bind]
        simp only [isEqual, beq_iff_eq, below, true_and]
        split_ifs <;> first | rfl | contradiction
      · have counted : (table.layout s).count ≤ index := Nat.not_lt.mp below
        rw [if_pos counted, if_neg fun both => below both.1]
        rfl

/-! ### The lookups -/

/-- Where `lower_bound` and `upper_bound` land, by the test their search makes. -/
def boundPosition (table : Table) (before : Nat → Nat → Bool) (partition : Nat) : Position :=
  let slot := table.slotLower partition
  settled table.countAt table.dirCount
    ⟨slot, if slot < table.dirCount ∧ (table.entry slot).partition = partition then
      Bisect.point (before slot) (table.countAt slot) else 0⟩

/-- The last item before a slot, or the end. -/
def lastBefore (table : Table) (slot : Nat) : Position :=
  if slot = 0 then table.end else atOrBefore table.countAt table.dirCount (slot - 1)

def floorPosition (table : Table) (partition : Nat) (probe : Probe) : Position :=
  let slot := table.slotLast partition
  if table.dirCount ≤ slot then table.end
  else if (table.entry slot).partition = partition then
    let above := Bisect.point (table.isAtOrBelow slot probe) (table.countAt slot)
    if above ≠ 0 then ⟨slot, above - 1⟩ else table.lastBefore slot
  else atOrBefore table.countAt table.dirCount slot

def findPosition (table : Table) (partition : Nat) (probe : Probe) : Position :=
  let slot := table.slotLower partition
  if slot < table.dirCount ∧ (table.entry slot).partition = partition then
    match table.equalIndex slot probe with
    | some index => ⟨slot, index⟩
    | none => table.end
  else table.end

/-- Where a lookup lands. -/
def position (table : Table) (lookup : Lookup) (partition : Nat) (probe : Probe) : Position :=
  match lookup with
  | .find => table.findPosition partition probe
  | .lowerBound | .ceil => table.boundPosition (table.isBelow · probe) partition
  | .upperBound => table.boundPosition (table.isAtOrBelow · probe) partition
  | .floor => table.floorPosition partition probe

theorem boundParts_eq (valid : table.Valid) {search : PartitionLayout → Probe → Read Nat}
    {before : Nat → Nat → Bool} {probe : Probe}
    (runs : ∀ s < table.dirCount, search (table.layout s) probe =
      .ok (Bisect.point (before s) (table.countAt s))) (partition : Nat) :
    table.boundParts search partition probe = .ok (table.boundPosition before partition) := by
  unfold boundParts boundPosition
  rw [slotLowerBound_eq valid, ok_bind]
  have bound := table.slotLower_le partition
  generalize table.slotLower partition = slot at bound
  by_cases inside : slot < table.dirCount
  · rw [if_pos inside, slotPartition_eq valid inside, ok_bind]
    by_cases same : (table.entry slot).partition = partition
    · rw [if_pos same, layoutOf_eq valid inside, ok_bind, runs slot inside, ok_bind,
        normalize_eq valid ⟨slot, _⟩ bound]
      simp only [inside, same, and_self, if_true]
    · rw [if_neg same, normalize_eq valid ⟨slot, 0⟩ bound]
      simp only [same, and_false, if_false]
  · rw [if_neg inside, normalize_eq valid ⟨slot, 0⟩ bound]
    simp only [inside, false_and, if_false]

theorem floorParts_eq (valid : table.Valid) {probe : Probe} (fits : table.ProbeFits probe)
    (partition : Nat) :
    table.floorParts partition probe = .ok (table.floorPosition partition probe) := by
  unfold floorParts floorPosition
  rw [slotFloor_eq valid, ok_bind]
  generalize table.slotLast partition = slot
  by_cases past : table.dirCount ≤ slot
  · simp only [past, if_true]
    rfl
  · have inside := Nat.not_le.mp past
    simp only [past, if_false]
    rw [slotPartition_eq valid inside, ok_bind]
    by_cases same : (table.entry slot).partition = partition
    · have earlier : table.floorBefore slot = .ok (table.lastBefore slot) := by
        unfold floorBefore lastBefore
        split
        · rfl
        · exact floorAtOrBefore_eq valid (by omega)
      simp only [same, if_true]
      rw [layoutOf_eq valid inside, ok_bind]
      by_cases empty : table.countAt slot = 0
      · have none : Bisect.point (table.isAtOrBelow slot probe) 0 = 0 :=
          Nat.le_zero.mp (Bisect.point_le _ _)
        have counted : ¬ (table.layout slot).count ≠ 0 := not_not.mpr empty
        rw [if_neg counted, earlier, empty, none, if_neg (not_not.mpr rfl)]
      · have counted : (table.layout slot).count ≠ 0 := empty
        rw [if_pos counted, searchAbove_eq valid inside fits, ok_bind]
        split
        · rfl
        · rw [earlier]
    · simp only [same, if_false]
      exact floorAtOrBefore_eq valid inside

theorem findParts_eq (valid : table.Valid) {probe : Probe} (fits : table.ProbeFits probe)
    (typed : ProbeTyped probe) (partition : Nat) :
    table.findParts partition probe = .ok (table.findPosition partition probe) := by
  unfold findParts findPosition slotExact
  rw [slotLowerBound_eq valid, ok_bind]
  generalize table.slotLower partition = slot
  by_cases inside : slot < table.dirCount
  · simp only [inside, if_true, true_and]
    rw [slotPartition_eq valid inside, ok_bind]
    by_cases same : (table.entry slot).partition = partition
    · simp only [same, if_true]
      rw [pure_bind, if_neg (Nat.not_le.mpr inside), layoutOf_eq valid inside, ok_bind]
      by_cases empty : table.countAt slot = 0
      · have counted : (table.layout slot).count = 0 := empty
        rw [if_pos counted]
        cases found : table.equalIndex slot probe with
        | none => rfl
        | some index => exact absurd (equalIndex_lt found) (by omega)
      · have counted : ¬ (table.layout slot).count = 0 := empty
        rw [if_neg counted, searchEqual_eq valid inside fits typed, ok_bind]
        cases table.equalIndex slot probe <;> rfl
    · simp only [same, if_false]
      rw [pure_bind, if_pos (Nat.le_refl _)]
      rfl
  · simp only [inside, if_false, false_and]
    rw [pure_bind, if_pos (Nat.le_refl _)]
    rfl

/-- Every lookup runs on an opened table, and lands where the pure one does. -/
theorem parts_eq (valid : table.Valid) {probe : Probe} (fits : table.ProbeFits probe)
    (typed : ProbeTyped probe) (lookup : Lookup) (partition : Nat) :
    table.parts lookup partition probe = .ok (table.position lookup partition probe) := by
  cases lookup with
  | find => exact findParts_eq valid fits typed partition
  | lowerBound => exact boundParts_eq valid (fun s inside => searchBelow_eq valid inside fits) _
  | upperBound => exact boundParts_eq valid (fun s inside => searchAbove_eq valid inside fits) _
  | floor => exact floorParts_eq valid fits partition
  | ceil => exact boundParts_eq valid (fun s inside => searchBelow_eq valid inside fits) _

/-! ### Where lookups land -/

theorem end_settled (table : Table) : Settled table.countAt table.dirCount table.end := Or.inr rfl

theorem boundPosition_settled (before : Nat → Nat → Bool) (partition : Nat) :
    Settled table.countAt table.dirCount (table.boundPosition before partition) :=
  settled_settled (table.slotLower_le partition)

theorem atOrBefore_settled {slot : Nat} (inside : slot < table.dirCount) :
    Settled table.countAt table.dirCount (atOrBefore table.countAt table.dirCount slot) := by
  rw [atOrBefore_eq]
  split
  · rename_i some
    exact Or.inl (below_spec inside some).1
  · exact table.end_settled

theorem lastBefore_settled {slot : Nat} (inside : slot < table.dirCount) :
    Settled table.countAt table.dirCount (table.lastBefore slot) := by
  unfold lastBefore
  split
  · exact table.end_settled
  · exact atOrBefore_settled (by omega)

theorem floorPosition_settled (partition : Nat) (probe : Probe) :
    Settled table.countAt table.dirCount (table.floorPosition partition probe) := by
  unfold floorPosition
  generalize table.slotLast partition = slot
  by_cases past : table.dirCount ≤ slot
  · simp only [past, if_true]
    exact table.end_settled
  · simp only [past, if_false]
    split
    · have bound := Bisect.point_le (table.isAtOrBelow slot probe) (table.countAt slot)
      split
      · rename_i some
        exact Or.inl ⟨Nat.not_le.mp past, by simp only; omega⟩
      · exact lastBefore_settled (Nat.not_le.mp past)
    · exact atOrBefore_settled (Nat.not_le.mp past)

theorem findPosition_settled (partition : Nat) (probe : Probe) :
    Settled table.countAt table.dirCount (table.findPosition partition probe) := by
  unfold findPosition
  simp only
  split
  · rename_i inside
    cases found : table.equalIndex (table.slotLower partition) probe with
    | none => exact table.end_settled
    | some index => exact Or.inl ⟨inside.1, equalIndex_lt found⟩
  · exact table.end_settled

/-- A lookup lands on a record or on the end. -/
theorem position_settled (lookup : Lookup) (partition : Nat) (probe : Probe) :
    Settled table.countAt table.dirCount (table.position lookup partition probe) := by
  cases lookup with
  | find => exact findPosition_settled partition probe
  | lowerBound => exact boundPosition_settled _ partition
  | upperBound => exact boundPosition_settled _ partition
  | floor => exact floorPosition_settled partition probe
  | ceil => exact boundPosition_settled _ partition

end Table

end Mmpack
