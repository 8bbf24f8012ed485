/-
This file states the geometry of an accepted image. Its slots describe partitions in
increasing order, the stretch of every slot lies in the address field, and the bytes
of the slots with records are blocks between the header and the directory that
neither overlap nor leave the order of the slots. The arithmetic that establishes
this never wraps, whatever the bytes are.

A position of a load is a natural number here, and a load outside the image is a
fault, so that an attempt without faults computes no position that wraps either.
-/

import Mmpack.Attached
import Mmpack.Maps

namespace Mmpack

open ByteList Checked Cursor

namespace Table

/-- The decoded directory. -/
def entries (table : Table) : List DirEntry := (List.range table.dirCount).map table.entry

/-- The bytes of a slot: its remap table, then its records. -/
def blockSize (table : Table) (d : DirEntry) : Nat := d.remapCount * 4 + d.count * table.strideOf d

/-- The geometry of a directory. -/
structure Laid (table : Table) : Prop where
  length : table.entries.length = table.directorySlots
  decoded : ∀ i d, table.entries[i]? = some d → table.slot i = .ok d
  increasing : table.entries.Pairwise (·.partition < ·.partition)
  inField : ∀ d ∈ table.entries, d.addressSkip + d.addressWidth ≤ table.schema.addressWidth
  within : ∀ d ∈ table.entries, d.count ≠ 0 →
    headerSize ≤ d.offset ∧ d.offset + table.blockSize d ≤ table.directory
  apart : (table.entries.filter (·.count ≠ 0)).Pairwise fun first second =>
    first.offset + table.blockSize first ≤ second.offset
  total : (table.entries.map (·.count)).sum = table.size

variable {table : Table}

theorem entries_getElem? (table : Table) (i : Nat) : table.entries[i]? =
    if i < table.dirCount then some (table.entry i) else none := by
  rw [entries, List.getElem?_map]
  by_cases inside : i < table.dirCount
  · rw [List.getElem?_range inside, if_pos inside, Option.map_some]
  · rw [List.getElem?_eq_none (by rw [List.length_range]; omega), if_neg inside, Option.map_none]

theorem mem_entries {d : DirEntry} :
    d ∈ table.entries ↔ ∃ i < table.dirCount, table.entry i = d := by
  simp only [entries, List.mem_map, List.mem_range]

/-- What holds of any two slots in order holds along the directory. -/
theorem entries_pairwise {related : DirEntry → DirEntry → Prop}
    (holds : ∀ first second, first < second → second < table.dirCount →
      related (table.entry first) (table.entry second)) : table.entries.Pairwise related := by
  refine List.pairwise_map.mpr ?_
  refine List.pairwise_lt_range.imp_of_mem fun _ second less => ?_
  exact holds _ _ less (List.mem_range.mp second)

theorem blockEnd_eq (table : Table) (d : DirEntry) :
    table.blockEnd d = d.offset + table.blockSize d := by
  rw [blockEnd, blockSize, Nat.add_assoc]

/-- The header lies before every block. -/
theorem headerSize_le_blocksEnd (valid : table.Valid) {slots : Nat}
    (bound : slots ≤ table.dirCount) :
    headerSize ≤ table.blocksEnd slots := by
  induction slots with
  | zero => exact Nat.le_refl _
  | succ slots inductionHypothesis =>
    have before := inductionHypothesis (Nat.le_of_succ_le bound)
    rw [blocksEnd]
    split
    · rename_i occupied
      have start := ((valid.slot bound).block occupied).1
      rw [blockEnd]
      omega
    · exact before

theorem Valid.laid (valid : table.Valid) : table.Laid where
  length := by rw [entries, List.length_map, List.length_range, directorySlots]
  decoded i d found := by
    rw [entries_getElem?] at found
    split at found
    · rename_i inside
      rw [← Option.some.inj found]
      exact slot_eq valid.readable inside
    · nomatch found
  increasing := entries_pairwise fun _ _ less inside => valid.partition_lt less inside
  inField d member := by
    obtain ⟨i, inside, rfl⟩ := mem_entries.mp member
    rw [← valid.addressWidth_eq]
    exact (valid.slot inside).inField
  within d member occupied := by
    obtain ⟨i, inside, rfl⟩ := mem_entries.mp member
    obtain ⟨start, finish⟩ := (valid.slot inside).block occupied
    rw [← blockEnd_eq]
    exact ⟨(headerSize_le_blocksEnd valid (Nat.le_of_lt inside)).trans start, finish⟩
  apart := by
    rw [List.pairwise_filter]
    refine entries_pairwise fun first second less inside firstSome secondSome => ?_
    rw [decide_eq_true_eq] at firstSome secondSome
    rw [← blockEnd_eq]
    exact (valid.blockEnd_le_blocksEnd less (Nat.le_of_lt inside) firstSome).trans
      ((valid.slot inside).block secondSome).1
  total := by
    have items : itemsBefore table.countAt table.dirCount = table.recordCount := valid.items
    rw [size, ← items, entries, List.map_map]
    rfl

/-- For every byte string, no operation of the opening wraps, underflows or divides by zero, and
an accepted one is laid out slot after slot. -/
theorem tryOpen_laid (base : Option Image) :
    (∀ fault, (tryOpen base).run ≠ .error fault) ∧
      ∀ table, tryOpen base = pure table → table.Laid := by
  cases base with
  | none => exact ⟨fun fault => nofun, fun table => nofun⟩
  | some image =>
    have ensures := tryOpen_ensures image
    exact ⟨ensures.no_fault, fun table accepted => (ensures.of_accepts accepted).2.laid⟩

theorem sampleImage_laid : ∃ table, tryOpen (some sampleImage) = pure table ∧ table.Laid := by
  obtain ⟨table, opened, -⟩ : ∃ table, tryOpen (some sampleImage) = pure table ∧ true = true :=
    exists_of_acceptsWith (by decide +kernel)
  exact ⟨table, opened, (tryOpen_laid (some sampleImage)).2 table opened⟩

end Table

end Mmpack
