/-
This file is about the codec of the directory. A slot is packed under widths that the
directory as a whole decides, with fields left out where all slots agree on what their
absence implies; it reads back as the slot it was. In an accepted image the slot the
validator decodes, field by field at its exact width, is the one the lookups load with
wide reads and masks.
-/

import Mmpack.Maps
import Mmpack.Pricing
import Mmpack.Acceptance

namespace Mmpack

open ByteList Checked Cursor Emitter

/-! ### Slots read back -/

/-- A directory the writer can produce. -/
structure Writable (directory : List DirEntry) : Prop where
  ascending : Ascending 0 directory
  small : ∀ d ∈ directory, EntrySmall d

/-- Each slot of a directory is read back from wherever its bytes lie. -/
def ReadsBack (dense : Bool) (addressWidth : Nat) (directory : List DirEntry) : Prop :=
  let layout := directoryLayoutFor dense addressWidth directory
  ∀ k d, (directorySlots dense addressWidth directory)[k]? = some d →
    ∀ region position, Holds region position (encodeDirEntry layout d) →
      decodeDirEntry region position layout k addressWidth = .ok d

section ReadsBack

variable {dense : Bool} {addressWidth : Nat} {directory : List DirEntry}

/-- An address width of one byte is stored as it is. -/
theorem DirEntry.stored_eq {d : DirEntry} (byte : d.addressWidth < 2 ^ 8) : d.stored = d := by
  rw [stored, Nat.mod_eq_of_lt byte]

theorem Writable.fits (writable : Writable directory) (byte : addressWidth < 2 ^ 8) {k : Nat}
    {d : DirEntry} (located : (directorySlots dense addressWidth directory)[k]? = some d) :
    SlotFits (directoryLayoutFor dense addressWidth directory) k addressWidth d := by
  have fits := directorySlots_fits writable.ascending writable.small located
  have whole : d.addressWidth < 2 ^ 8 := by
    obtain ⟨-, member | ⟨-, rfl⟩⟩ := directorySlots_getElem? writable.ascending located
    · exact (writable.small d member).addressWidth
    · exact byte
  rwa [Nat.mod_eq_of_lt byte, DirEntry.stored_eq whole] at fits

/-- What a slot is packed to, the slot is read back from. -/
theorem Writable.readsBack (writable : Writable directory) (dense : Bool)
    (byte : addressWidth < 2 ^ 8) : ReadsBack dense addressWidth directory := by
  intro k d located region position holds
  have wellFormed := directoryLayoutFor_wellFormed dense addressWidth directory
  have within := holds.within
  rw [encodeDirEntry_length] at within
  rw [decodeDirEntry_eq wellFormed within,
    entryAt_of_holds wellFormed (writable.fits byte located) holds]

end ReadsBack

/-! ### Directories of builds -/

/-- The directory of a finished build is one the codec is made for. -/
theorem Build.directory_writable {build : Build} {report : BuildReport}
    (returned : build.finished.outcome = .ok report) : Writable build.directory where
  ascending := (build.directory_spec returned).1
  small := by
    intro d member
    obtain ⟨partitions, finishes, built⟩ := build.finishes returned
    have walked := build.walked finishes
    rw [walked.directory] at member
    obtain ⟨-, places⟩ := writePartitions_places _ _ (Nat.mod_lt _ (Nat.two_pow_pos 64))
      walked.recorded
    obtain ⟨i, inside, rfl⟩ := List.getElem_of_mem member
    have inside' := places.length_eq ▸ inside
    obtain ⟨place, bound, same⟩ := places.get inside inside'
    generalize located : ((partitionRuns build.finished.builder.rows).zip
      build.finished.builder.layout.stretches).get ⟨i, inside'⟩ = part at same
    obtain ⟨run, stretch⟩ := part
    obtain ⟨inRuns, priced⟩ := List.of_mem_zip (located ▸ List.get_mem _ _)
    have cut := planPartition_stretch build.finished.builder build.finished.builder.layout run
      stretch
    obtain ⟨skip, width⟩ := chooseLayout_stretch_lt _ _ stretch priced
    rw [← cut] at skip width
    rw [List.get_eq_getElem] at same
    rw [same]
    exact (planPartition_kind _ _ run stretch).slotOf_small skip width _ bound
      (lt_of_le_of_lt (length_le_of_mem_runs inRuns) built.few)

/-! ### The two readers -/

namespace Table

variable {table : Table}

/-- The validator decodes `d` of a slot, and the lookups load its fields as `p`. -/
structure SlotRead (table : Table) (s : Nat) (d : DirEntry) (p : PartitionLayout) : Prop where
  decoded : decodeDirEntry table.region (table.slotBytes s) table.dir s table.addressWidth = .ok d
  checked : ∀ previous, (0 < s → previous < d.partition) →
    table.checkSlot s previous (table.blocksEnd s) = pure (d, table.blocksEnd (s + 1))
  loaded : table.layoutOf s = .ok p
  partition : table.slotPartition s = .ok d.partition
  offset : table.slotOffset s = .ok d.offset
  count : table.slotCount s = .ok d.count ∧ p.count = d.count
  remapped : p.remapped = decide (d.schemaId ≠ 0)
  refWidth : p.refWidth = if d.schemaId ≠ 0 then d.schemaId else table.refWidth
  remap : p.remap = if d.schemaId ≠ 0 then some d.offset else none
  remapCount : p.remapCount = d.remapCount
  addressWidth : p.addressWidth = d.addressWidth
  addressSkip : p.addressSkip = d.addressSkip
  stride : table.checkStride d = pure p.stride
  records : (checkedMul 64 d.remapCount 4 >>= checkedAdd 64 d.offset) = .ok p.records
  block : d.count ≠ 0 → table.checkBlock d p.stride (table.blocksEnd s) =
    pure (p.records + p.count * p.stride)

theorem entry_offset_lt (valid : table.Valid) (s : Nat) : (table.entry s).offset < 2 ^ 64 := by
  have narrow : 256 ^ table.dir.offsetWidth ≤ 256 ^ 8 :=
    Nat.pow_le_pow_right (by decide) valid.readable.layout.offsetWidth
  exact lt_of_lt_of_le (valueAt_lt _ _ _) narrow

/-- Where the records of a slot start does not wrap around. -/
theorem records_lt (valid : table.Valid) {s : Nat} (inside : s < table.dirCount) :
    (table.entry s).offset + (table.entry s).remapCount * 4 < 2 ^ 64 := by
  have slot := valid.slot inside
  by_cases occupied : (table.entry s).count = 0
  · have plain : (table.entry s).schemaId = 0 := by
      by_contra remapped
      exact (slot.remapped remapped).2.2.2 occupied
    rw [slot.plain plain]
    exact entry_offset_lt valid s
  · have finish := (slot.block occupied).2
    have room := directory_room valid
    have length := table.image.length_lt
    have size : table.region.length = table.image.bytes.length := rfl
    rw [blockEnd] at finish
    omega

/-- On a valid table the lookups load of each slot what the validator decodes. -/
theorem Valid.slotRead (valid : table.Valid) {s : Nat} (inside : s < table.dirCount) :
    table.SlotRead s (table.entry s) (table.layout s) := by
  have readable := valid.readable
  have slot := valid.slot inside
  have bound := records_lt valid inside
  have base := layout_records valid inside
  have directory : table.directory < 2 ^ 64 := by
    have room := directory_room valid
    have length := table.image.length_lt
    have size : table.region.length = table.image.bytes.length := rfl
    omega
  exact
    { decoded := slot_eq readable inside
      checked := fun previous ordered => checkSlot_of_valid readable inside ordered slot
      loaded := layoutOf_eq valid inside
      partition := slotPartition_eq valid inside
      offset := slotOffset_eq valid inside
      count := ⟨slotCount_eq valid inside, rfl⟩
      remapped := rfl
      refWidth := rfl
      remap := rfl
      remapCount := rfl
      addressWidth := rfl
      addressSkip := rfl
      stride := checkStride_of_valid slot readable.narrow readable.byte
      records := by
        rw [checkedMul_eq (by omega), ok_bind, checkedAdd_eq bound, base]
      block := fun occupied => by
        rw [base]
        exact checkBlock_of_valid slot occupied (table.entry_remapCount_lt s) directory }

end Table

/-- Directories that the writer can produce read back, the directories of builds are such, and in
every accepted image both readers find the same slots. -/
theorem directory_codec :
    (∀ (dense : Bool) (addressWidth : Nat) (directory : List DirEntry), addressWidth < 2 ^ 8 →
      Writable directory → ReadsBack dense addressWidth directory) ∧
    (∀ (build : Build) (report : BuildReport), build.finished.outcome = .ok report →
      Writable build.directory ∧ (build.finished.builder.layout.addressWidth < 2 ^ 8 →
        ReadsBack (useDense build.options build.directory)
          build.finished.builder.layout.addressWidth build.directory)) ∧
    ∀ (image : Image) (table : Table), Table.tryOpen (some image) = pure table →
      ∀ s < table.dirCount, ∃ d p, table.SlotRead s d p := by
  refine ⟨fun dense addressWidth directory byte writable => writable.readsBack dense byte,
    fun build report returned => ?_, fun image table opened s inside => ?_⟩
  · have writable := Build.directory_writable returned
    exact ⟨writable, writable.readsBack _⟩
  · have valid := ((Table.tryOpen_ensures image).of_accepts opened).2
    exact ⟨_, _, valid.slotRead inside⟩

/-- Six slots, four of them gaps, and the slots of the sample image. -/
theorem sample_directory_codec :
    (denseSample.slots.length = 6 ∧ ReadsBack true 1 denseSample.directory) ∧
      ∃ table, Table.tryOpen (some sampleImage) = pure table ∧ table.dirCount = 3 ∧
        ∀ s < 3, ∃ d p, table.SlotRead s d p := by
  obtain ⟨general, builds, images⟩ := directory_codec
  obtain ⟨report, returned⟩ := denseSample.exists_report (by decide +kernel)
  obtain ⟨table, opened, count⟩ : ∃ table, Table.tryOpen (some sampleImage) = pure table ∧
      decide (table.dirCount = 3) = true := exists_of_acceptsWith (by decide +kernel)
  refine ⟨⟨by decide +kernel, general true 1 _ (by decide) (builds denseSample report returned).1⟩,
    table, opened, of_decide_eq_true count, fun s inside => images sampleImage table opened s ?_⟩
  rw [of_decide_eq_true count]
  exact inside

end Mmpack
