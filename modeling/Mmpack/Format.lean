/-
This file embeds `format.hpp`: the header and the footer of an image, and the
directory, whose slots are packed field by field at widths derived from the data.

A directory field may be absent. Its width is then zero and the reader supplies
an implied value: the slot's own index for the partition of a dense directory,
the full width for the address, zero for the others. `SlotFits` says when a slot
survives being packed under a layout, and `entryAt_of_holds` that it then reads
back unchanged.
-/

import Mmpack.Bits

namespace Mmpack

open ByteList Checked

/-! ### Header and footer -/

/-- `"MMPACK01"`. -/
def magic : List UInt8 := [0x4d, 0x4d, 0x50, 0x41, 0x43, 0x4b, 0x30, 0x31]

def formatVersion : Nat := 4

/-- `flags::dense_directory`. -/
def denseDirectoryFlag : Nat := 1

structure Header where
  magic : List UInt8
  formatVersion : Nat
  reserved : Nat
  deriving DecidableEq, Repr

/-- `sizeof(header)`. -/
def headerSize : Nat := 16

def Header.parse (bytes : List UInt8) : Header where
  magic := slice bytes 0 8
  formatVersion := valueAt bytes 8 4
  reserved := valueAt bytes 12 4

def Header.load (region : List UInt8) (position : Nat) : Read Header :=
  loadStruct Header.parse headerSize region position

def Header.encode (header : Header) : List UInt8 :=
  header.magic ++ pack [(4, header.formatVersion), (4, header.reserved)]

structure Footer where
  magic : List UInt8
  formatVersion : Nat
  flags : Nat
  recordCount : Nat
  dirOffset : Nat
  dirCount : Nat
  schemaOffset : Nat
  schemaSize : Nat
  imageSize : Nat
  deriving DecidableEq, Repr

/-- `sizeof(footer)`. -/
def footerSize : Nat := 64

def Footer.parse (bytes : List UInt8) : Footer where
  magic := slice bytes 0 8
  formatVersion := valueAt bytes 8 4
  flags := valueAt bytes 12 4
  recordCount := valueAt bytes 16 8
  dirOffset := valueAt bytes 24 8
  dirCount := valueAt bytes 32 8
  schemaOffset := valueAt bytes 40 8
  schemaSize := valueAt bytes 48 8
  imageSize := valueAt bytes 56 8

def Footer.load (region : List UInt8) (position : Nat) : Read Footer :=
  loadStruct Footer.parse footerSize region position

def Footer.encode (footer : Footer) : List UInt8 :=
  footer.magic ++ pack [(4, footer.formatVersion), (4, footer.flags), (8, footer.recordCount),
    (8, footer.dirOffset), (8, footer.dirCount), (8, footer.schemaOffset),
    (8, footer.schemaSize), (8, footer.imageSize)]

@[simp] theorem magic_length : magic.length = 8 := rfl

theorem Header.encode_length {header : Header} (tagged : header.magic.length = 8) :
    header.encode.length = headerSize := by
  simp [encode, tagged, headerSize]

theorem Header.parse_encode {header : Header} (tagged : header.magic.length = 8)
    (version : header.formatVersion < 256 ^ 4) (reserved : header.reserved < 256 ^ 4) :
    parse header.encode = header := by
  have cut : slice header.encode 0 8 = header.magic := by
    rw [encode, slice_append_left (by omega), ← tagged, slice_zero_length]
  rw [parse, cut]
  simp only [encode, pack_cons, pack_nil, List.append_nil, valueAt_append_skip, tagged,
    leBytes_length, Nat.reduceLeDiff, Nat.le_refl, Nat.reduceSub, Nat.sub_self,
    valueAt_leBytes_append, valueAt_leBytes, Nat.mod_eq_of_lt version, Nat.mod_eq_of_lt reserved]

theorem Footer.encode_length {footer : Footer} (tagged : footer.magic.length = 8) :
    footer.encode.length = footerSize := by
  simp [encode, tagged, footerSize]

/-- The numbers of a footer fit their fields. -/
structure Footer.Fits (footer : Footer) : Prop where
  magic : footer.magic.length = 8
  formatVersion : footer.formatVersion < 256 ^ 4
  flags : footer.flags < 256 ^ 4
  recordCount : footer.recordCount < 256 ^ 8
  dirOffset : footer.dirOffset < 256 ^ 8
  dirCount : footer.dirCount < 256 ^ 8
  schemaOffset : footer.schemaOffset < 256 ^ 8
  schemaSize : footer.schemaSize < 256 ^ 8
  imageSize : footer.imageSize < 256 ^ 8

theorem Footer.parse_encode {footer : Footer} (fits : footer.Fits) :
    parse footer.encode = footer := by
  have cut : slice footer.encode 0 8 = footer.magic := by
    rw [encode, slice_append_left (by rw [fits.magic]), ← fits.magic, slice_zero_length]
  rw [parse, cut]
  simp only [encode, pack_cons, pack_nil, List.append_nil, valueAt_append_skip, fits.magic,
    leBytes_length, Nat.reduceLeDiff, Nat.le_refl, Nat.reduceSub, Nat.sub_self,
    valueAt_leBytes_append, valueAt_leBytes, Nat.mod_eq_of_lt fits.formatVersion,
    Nat.mod_eq_of_lt fits.flags, Nat.mod_eq_of_lt fits.recordCount,
    Nat.mod_eq_of_lt fits.dirOffset, Nat.mod_eq_of_lt fits.dirCount,
    Nat.mod_eq_of_lt fits.schemaOffset, Nat.mod_eq_of_lt fits.schemaSize,
    Nat.mod_eq_of_lt fits.imageSize]

/-- The last bytes of an image are read as the footer they were written from. -/
theorem Footer.parse_end {foot : Footer} (fits : foot.Fits) (before : List UInt8) :
    Footer.parse (slice (before ++ foot.encode) ((before ++ foot.encode).length - footerSize)
      footerSize) = foot := by
  have length := Footer.encode_length fits.magic
  have stored := (holds_end before foot.encode).slice_eq
  rw [length] at stored
  rw [List.length_append, length, Nat.add_sub_cancel, stored]
  exact Footer.parse_encode fits

/-! ### Directory slots -/

/-- `remap::max_local_width`. -/
def maxLocalWidth : Nat := 2

/-- One directory slot in its decoded form. -/
structure DirEntry where
  partition : Nat
  offset : Nat
  count : Nat
  /-- 0 for a global reference, else the local reference width. -/
  schemaId : Nat
  remapCount : Nat
  addressWidth : Nat
  addressSkip : Nat
  deriving DecidableEq, Repr

/-- How a directory slot is packed. A width of zero means the field is absent. -/
structure DirLayout where
  partitionWidth : Nat
  offsetWidth : Nat
  countWidth : Nat
  schemaWidth : Nat
  remapWidth : Nat
  addrWidth : Nat
  skipWidth : Nat
  partitionAt : Nat
  offsetAt : Nat
  countAt : Nat
  schemaAt : Nat
  remapAt : Nat
  addrAt : Nat
  skipAt : Nat
  stride : Nat
  partitionMask : Nat
  offsetMask : Nat
  countMask : Nat
  schemaMask : Nat
  remapMask : Nat
  addrMask : Nat
  skipMask : Nat
  deriving DecidableEq, Repr

def makeDirLayout (partitionWidth offsetWidth countWidth schemaWidth remapWidth addrWidth
    skipWidth : Nat) : DirLayout where
  partitionWidth := partitionWidth
  offsetWidth := offsetWidth
  countWidth := countWidth
  schemaWidth := schemaWidth
  remapWidth := remapWidth
  addrWidth := addrWidth
  skipWidth := skipWidth
  partitionAt := 0
  offsetAt := partitionWidth
  countAt := partitionWidth + offsetWidth
  schemaAt := partitionWidth + offsetWidth + countWidth
  remapAt := partitionWidth + offsetWidth + countWidth + schemaWidth
  addrAt := partitionWidth + offsetWidth + countWidth + schemaWidth + remapWidth
  skipAt := partitionWidth + offsetWidth + countWidth + schemaWidth + remapWidth + addrWidth
  stride := partitionWidth + offsetWidth + countWidth + schemaWidth + remapWidth + addrWidth +
    skipWidth
  partitionMask := maskForWidth partitionWidth
  offsetMask := maskForWidth offsetWidth
  countMask := maskForWidth countWidth
  schemaMask := maskForWidth schemaWidth
  remapMask := maskForWidth remapWidth
  addrMask := maskForWidth addrWidth
  skipMask := maskForWidth skipWidth

/-- Store a field unless the layout leaves it out. -/
def storePresent (buffer : List UInt8) (position width value : Nat) : List UInt8 :=
  if width ≠ 0 then storeUint buffer position width value else buffer

def encodeDirEntry (layout : DirLayout) (d : DirEntry) : List UInt8 :=
  let out := List.replicate layout.stride 0
  let out := storePresent out layout.partitionAt layout.partitionWidth d.partition
  let out := storeUint out layout.offsetAt layout.offsetWidth d.offset
  let out := storeUint out layout.countAt layout.countWidth d.count
  let out := storePresent out layout.schemaAt layout.schemaWidth d.schemaId
  let out := storePresent out layout.remapAt layout.remapWidth d.remapCount
  let out := storePresent out layout.addrAt layout.addrWidth d.addressWidth
  storePresent out layout.skipAt layout.skipWidth d.addressSkip

/-- Load a field, or take the value its absence implies. -/
def loadPresent (region : List UInt8) (position width implied : Nat) : Read Nat :=
  if width ≠ 0 then loadUint region position width else pure implied

def decodeDirEntry (region : List UInt8) (position : Nat) (layout : DirLayout)
    (index fullAddressWidth : Nat) : Read DirEntry := do
  let partition ← loadPresent region (position + layout.partitionAt) layout.partitionWidth index
  let offset ← loadUint region (position + layout.offsetAt) layout.offsetWidth
  let count ← loadUint region (position + layout.countAt) layout.countWidth
  let schemaId ← loadPresent region (position + layout.schemaAt) layout.schemaWidth 0
  let remapCount ← loadPresent region (position + layout.remapAt) layout.remapWidth 0
  let addressWidth ←
    loadPresent region (position + layout.addrAt) layout.addrWidth fullAddressWidth
  let addressSkip ← loadPresent region (position + layout.skipAt) layout.skipWidth 0
  return { partition, offset, count
           schemaId := schemaId % 2 ^ 32
           remapCount := remapCount % 2 ^ 32
           addressWidth := addressWidth % 2 ^ 32
           addressSkip := addressSkip % 2 ^ 32 }

/-! ### What a slot decodes to -/

/-- The value of a field that may be absent. -/
def presentAt (region : List UInt8) (position width implied : Nat) : Nat :=
  if width ≠ 0 then valueAt region position width else implied

/-- The slot found at a position, when the position is inside the region. -/
def entryAt (region : List UInt8) (position : Nat) (layout : DirLayout)
    (index fullAddressWidth : Nat) : DirEntry where
  partition := presentAt region (position + layout.partitionAt) layout.partitionWidth index
  offset := valueAt region (position + layout.offsetAt) layout.offsetWidth
  count := valueAt region (position + layout.countAt) layout.countWidth
  schemaId := presentAt region (position + layout.schemaAt) layout.schemaWidth 0 % 2 ^ 32
  remapCount := presentAt region (position + layout.remapAt) layout.remapWidth 0 % 2 ^ 32
  addressWidth :=
    presentAt region (position + layout.addrAt) layout.addrWidth fullAddressWidth % 2 ^ 32
  addressSkip := presentAt region (position + layout.skipAt) layout.skipWidth 0 % 2 ^ 32

/-- A layout as `makeDirLayout` derives it from legal widths. -/
structure DirLayout.WellFormed (layout : DirLayout) : Prop where
  made : layout = makeDirLayout layout.partitionWidth layout.offsetWidth layout.countWidth
    layout.schemaWidth layout.remapWidth layout.addrWidth layout.skipWidth
  partitionWidth : layout.partitionWidth ≤ 8
  offsetWidth : layout.offsetWidth ≤ 8
  countWidth : layout.countWidth ≤ 8
  schemaWidth : layout.schemaWidth ≤ 8
  remapWidth : layout.remapWidth ≤ 8
  addrWidth : layout.addrWidth ≤ 8
  skipWidth : layout.skipWidth ≤ 8

theorem makeDirLayout_wellFormed {pw ow cw sw rw aw kw : Nat} (partition : pw ≤ 8)
    (offset : ow ≤ 8) (count : cw ≤ 8) (schema : sw ≤ 8) (remap : rw ≤ 8) (addr : aw ≤ 8)
    (skip : kw ≤ 8) : (makeDirLayout pw ow cw sw rw aw kw).WellFormed :=
  ⟨rfl, partition, offset, count, schema, remap, addr, skip⟩

theorem loadPresent_eq {region : List UInt8} {position width implied : Nat} (narrow : width ≤ 8)
    (within : position + width ≤ region.length) :
    loadPresent region position width implied =
      .ok (presentAt region position width implied) := by
  unfold loadPresent presentAt
  split
  · exact loadUint_eq narrow within
  · rfl

theorem decodeDirEntry_eq {region : List UInt8} {position : Nat} {layout : DirLayout}
    (wellFormed : layout.WellFormed) (within : position + layout.stride ≤ region.length)
    (index fullAddressWidth : Nat) :
    decodeDirEntry region position layout index fullAddressWidth =
      .ok (entryAt region position layout index fullAddressWidth) := by
  obtain ⟨made, partitionWidth, offsetWidth, countWidth, schemaWidth, remapWidth, addrWidth,
    skipWidth⟩ := wellFormed
  rw [made] at within ⊢
  simp only [makeDirLayout] at within
  unfold decodeDirEntry
  simp only [makeDirLayout]
  rw [loadPresent_eq partitionWidth (by omega), ok_bind,
    loadUint_eq offsetWidth (by omega), ok_bind,
    loadUint_eq countWidth (by omega), ok_bind,
    loadPresent_eq schemaWidth (by omega), ok_bind,
    loadPresent_eq remapWidth (by omega), ok_bind,
    loadPresent_eq addrWidth (by omega), ok_bind,
    loadPresent_eq skipWidth (by omega), ok_bind]
  rfl

/-! ### Packing a slot -/

/-- Storing into the zeroed rest of a buffer appends. -/
theorem storeUint_append_zeros (stored : List UInt8) (rest : Nat) {width : Nat} (value : Nat)
    (narrow : width ≤ 8) (room : width ≤ rest) :
    storeUint (stored ++ List.replicate rest 0) stored.length width value =
      stored ++ leBytes width value ++ List.replicate (rest - width) 0 := by
  have access : accessWidth width = width := if_neg (by omega)
  rw [storeUint, access, overwrite, List.take_left, leBytes_length,
    List.drop_append, List.drop_eq_nil_of_le (by omega), List.nil_append,
    Nat.add_sub_cancel_left, List.drop_replicate, List.take_of_length_le]
  simp only [List.length_append, leBytes_length, List.length_replicate]
  omega

theorem storePresent_append_zeros (stored : List UInt8) (rest : Nat) {width : Nat} (value : Nat)
    (narrow : width ≤ 8) (room : width ≤ rest) :
    storePresent (stored ++ List.replicate rest 0) stored.length width value =
      stored ++ leBytes width value ++ List.replicate (rest - width) 0 := by
  unfold storePresent
  split
  · exact storeUint_append_zeros stored rest value narrow room
  · rename_i absent
    obtain rfl : width = 0 := by omega
    rw [leBytes, List.append_nil, Nat.sub_zero]

/-- A packed slot is its fields in order, with nothing between them. -/
theorem encodeDirEntry_eq {layout : DirLayout} (wellFormed : layout.WellFormed) (d : DirEntry) :
    encodeDirEntry layout d =
      pack [(layout.partitionWidth, d.partition), (layout.offsetWidth, d.offset),
        (layout.countWidth, d.count), (layout.schemaWidth, d.schemaId),
        (layout.remapWidth, d.remapCount), (layout.addrWidth, d.addressWidth),
        (layout.skipWidth, d.addressSkip)] := by
  obtain ⟨made, partitionWidth, offsetWidth, countWidth, schemaWidth, remapWidth, addrWidth,
    skipWidth⟩ := wellFormed
  rw [made]
  simp only [encodeDirEntry, makeDirLayout]
  generalize layout.partitionWidth = pw at *
  generalize layout.offsetWidth = ow at *
  generalize layout.countWidth = cw at *
  generalize layout.schemaWidth = sw at *
  generalize layout.remapWidth = rw at *
  generalize layout.addrWidth = aw at *
  generalize layout.skipWidth = kw at *
  have first := storePresent_append_zeros [] (pw + ow + cw + sw + rw + aw + kw)
    d.partition partitionWidth (by omega)
  have second := storeUint_append_zeros (leBytes pw d.partition)
    (pw + ow + cw + sw + rw + aw + kw - pw) d.offset offsetWidth (by omega)
  have third := storeUint_append_zeros (leBytes pw d.partition ++ leBytes ow d.offset)
    (pw + ow + cw + sw + rw + aw + kw - pw - ow) d.count countWidth (by omega)
  have fourth := storePresent_append_zeros
    (leBytes pw d.partition ++ leBytes ow d.offset ++ leBytes cw d.count)
    (pw + ow + cw + sw + rw + aw + kw - pw - ow - cw) d.schemaId schemaWidth (by omega)
  have fifth := storePresent_append_zeros
    (leBytes pw d.partition ++ leBytes ow d.offset ++ leBytes cw d.count ++
      leBytes sw d.schemaId)
    (pw + ow + cw + sw + rw + aw + kw - pw - ow - cw - sw) d.remapCount remapWidth
    (by omega)
  have sixth := storePresent_append_zeros
    (leBytes pw d.partition ++ leBytes ow d.offset ++ leBytes cw d.count ++
      leBytes sw d.schemaId ++ leBytes rw d.remapCount)
    (pw + ow + cw + sw + rw + aw + kw - pw - ow - cw - sw - rw) d.addressWidth addrWidth
    (by omega)
  have seventh := storePresent_append_zeros
    (leBytes pw d.partition ++ leBytes ow d.offset ++ leBytes cw d.count ++
      leBytes sw d.schemaId ++ leBytes rw d.remapCount ++ leBytes aw d.addressWidth)
    (pw + ow + cw + sw + rw + aw + kw - pw - ow - cw - sw - rw - aw) d.addressSkip
    skipWidth (by omega)
  simp only [List.nil_append, List.length_nil, List.length_append, leBytes_length] at *
  rw [first, second, third, fourth, fifth, sixth, seventh]
  have spent : pw + ow + cw + sw + rw + aw + kw - pw - ow - cw - sw - rw - aw - kw = 0 := by omega
  rw [spent]
  simp only [List.replicate_zero, List.append_nil, List.append_assoc, pack_cons, pack_nil]

theorem encodeDirEntry_length (layout : DirLayout) (d : DirEntry) :
    (encodeDirEntry layout d).length = layout.stride := by
  have keep (buffer : List UInt8) (position width value : Nat) :
      (storePresent buffer position width value).length = buffer.length := by
    unfold storePresent
    split <;> simp [storeUint]
  simp [encodeDirEntry, keep, storeUint]

/-- A field's value survives its width: it fits a present field, or is what the absence of the
field implies. -/
def FieldFits (width implied value : Nat) : Prop :=
  if width ≠ 0 then value < 256 ^ width else value = implied

/-- A slot survives being packed under the layout, as slot `index` of a directory whose full
address width is given. -/
structure SlotFits (layout : DirLayout) (index fullAddressWidth : Nat) (d : DirEntry) : Prop where
  partition : FieldFits layout.partitionWidth index d.partition
  offset : d.offset < 256 ^ layout.offsetWidth
  count : d.count < 256 ^ layout.countWidth
  schemaId : FieldFits layout.schemaWidth 0 d.schemaId
  remapCount : FieldFits layout.remapWidth 0 d.remapCount
  addressWidth : FieldFits layout.addrWidth fullAddressWidth d.addressWidth
  addressSkip : FieldFits layout.skipWidth 0 d.addressSkip
  schemaId_lt : d.schemaId < 2 ^ 32
  remapCount_lt : d.remapCount < 2 ^ 32
  addressWidth_lt : d.addressWidth < 2 ^ 32
  addressSkip_lt : d.addressSkip < 2 ^ 32

theorem presentAt_of_holds {region : List UInt8} {position width implied value : Nat}
    (holds : Holds region position (leBytes width value)) (fits : FieldFits width implied value) :
    presentAt region position width implied = value := by
  unfold FieldFits at fits
  unfold presentAt
  split at fits
  · rename_i present
    rw [if_pos present, valueAt_of_holds_of_lt holds fits]
  · rename_i absent
    rw [if_neg absent, fits]

/-- A packed slot reads back as the slot it was packed from. -/
theorem entryAt_of_holds {region : List UInt8} {position index fullAddressWidth : Nat}
    {layout : DirLayout} (wellFormed : layout.WellFormed) {d : DirEntry}
    (fits : SlotFits layout index fullAddressWidth d)
    (holds : Holds region position (encodeDirEntry layout d)) :
    entryAt region position layout index fullAddressWidth = d := by
  rw [encodeDirEntry_eq wellFormed] at holds
  simp only [pack_cons, pack_nil] at holds
  have partition := holds.left
  have offset := holds.right.left
  have count := holds.right.right.left
  have schemaId := holds.right.right.right.left
  have remapCount := holds.right.right.right.right.left
  have addressWidth := holds.right.right.right.right.right.left
  have addressSkip := holds.right.right.right.right.right.right.left
  simp only [leBytes_length] at offset count schemaId remapCount addressWidth addressSkip
  obtain ⟨made, -⟩ := wellFormed
  have places : layout.partitionAt = 0 ∧ layout.offsetAt = layout.partitionWidth ∧
      layout.countAt = layout.partitionWidth + layout.offsetWidth ∧
      layout.schemaAt = layout.partitionWidth + layout.offsetWidth + layout.countWidth ∧
      layout.remapAt = layout.partitionWidth + layout.offsetWidth + layout.countWidth +
        layout.schemaWidth ∧
      layout.addrAt = layout.partitionWidth + layout.offsetWidth + layout.countWidth +
        layout.schemaWidth + layout.remapWidth ∧
      layout.skipAt = layout.partitionWidth + layout.offsetWidth + layout.countWidth +
        layout.schemaWidth + layout.remapWidth + layout.addrWidth := by
    rw [made]
    exact ⟨rfl, rfl, rfl, rfl, rfl, rfl, rfl⟩
  obtain ⟨partitionAt, offsetAt, countAt, schemaAt, remapAt, addrAt, skipAt⟩ := places
  unfold entryAt
  rw [partitionAt, offsetAt, countAt, schemaAt, remapAt, addrAt, skipAt]
  simp only [← Nat.add_assoc, Nat.add_zero]
  rw [presentAt_of_holds partition fits.partition, valueAt_of_holds_of_lt offset fits.offset,
    valueAt_of_holds_of_lt count fits.count, presentAt_of_holds schemaId fits.schemaId,
    presentAt_of_holds remapCount fits.remapCount,
    presentAt_of_holds addressWidth fits.addressWidth,
    presentAt_of_holds addressSkip fits.addressSkip, Nat.mod_eq_of_lt fits.schemaId_lt,
    Nat.mod_eq_of_lt fits.remapCount_lt, Nat.mod_eq_of_lt fits.addressWidth_lt,
    Nat.mod_eq_of_lt fits.addressSkip_lt]

end Mmpack
