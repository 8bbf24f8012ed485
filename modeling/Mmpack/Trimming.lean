/-
This file says that trimming leaves nothing over. The stretch of a partition begins
and ends at a byte that is not zero in some record, so no shorter one holds them all.

The source trims twice, an integer by shifting it down and a byte string by looking
at its ends. On the bytes of an integer both come to the same stretch.
-/

import Mmpack.Pricing

namespace ByteList

/-! ### The ends of a stretch -/

/-- There is a byte at a place, and it is not zero. -/
def Marked (bytes : List UInt8) (i : Nat) : Prop := ∃ byte, bytes[i]? = some byte ∧ byte ≠ 0

/-- Nothing is marked outside a stretch, so it goes at least from one mark to another. -/
theorem Confined.of_marked {bytes : List UInt8} {skip width i : Nat}
    (confined : Confined bytes skip width) (marked : Marked bytes i) :
    skip ≤ i ∧ i < skip + width := by
  obtain ⟨byte, found, nonzero⟩ := marked
  exact confined i byte found nonzero

/-- Two stretches that are marked at both ends are the same. -/
theorem Confined.unique {bytes : List UInt8} {skip width skip' width' : Nat}
    (confined : Confined bytes skip width) (confined' : Confined bytes skip' width')
    (ends : Marked bytes skip ∧ Marked bytes (skip + width - 1))
    (ends' : Marked bytes skip' ∧ Marked bytes (skip' + width' - 1)) :
    (skip, width) = (skip', width') := by
  have low := confined.of_marked ends'.1
  have low' := confined'.of_marked ends.1
  have high := confined.of_marked ends'.2
  have high' := confined'.of_marked ends.2
  exact Prod.ext (by simp only; omega) (by simp only; omega)

/-- What is written into zeros is confined to its place. -/
theorem confined_overwrite {size skip : Nat} {data : List UInt8}
    (fits : skip + data.length ≤ size) :
    Confined (overwrite (List.replicate size 0) skip data) skip data.length := by
  have apart := confined_append (List.replicate skip 0) data
    (List.replicate (size - skip - data.length) 0)
    (fun byte member => (List.mem_replicate.mp member).2)
    (fun byte member => (List.mem_replicate.mp member).2)
  rwa [List.length_replicate, ← overwrite_zeros fits] at apart

theorem leBytes_getElem? {width i : Nat} (value : Nat) (inside : i < width) :
    (leBytes width value)[i]? = some (UInt8.ofNat (value / 256 ^ i)) := by
  induction width generalizing value i with
  | zero => nomatch inside
  | succ width inductionHypothesis =>
    cases i with
    | zero => rw [leBytes, List.getElem?_cons_zero, Nat.pow_zero, Nat.div_one]
    | succ i =>
      rw [leBytes, List.getElem?_cons_succ, inductionHypothesis _ (by omega),
        Nat.div_div_eq_div_mul, ← Nat.pow_succ']

/-- The bytes of an integer are marked where a digit is not zero. -/
theorem marked_leBytes_iff {width value i : Nat} :
    Marked (leBytes width value) i ↔ i < width ∧ value / 256 ^ i % 256 ≠ 0 := by
  have digit (number : Nat) : UInt8.ofNat number ≠ 0 ↔ number % 256 ≠ 0 := by
    rw [ne_eq, ← UInt8.toNat_inj, UInt8.toNat_ofNat', UInt8.toNat_zero]
  constructor
  · rintro ⟨byte, found, nonzero⟩
    have inside := (List.getElem?_eq_some_iff.mp found).1
    rw [leBytes_length] at inside
    rw [leBytes_getElem? value inside] at found
    obtain rfl := Option.some.inj found
    exact ⟨inside, (digit _).mp nonzero⟩
  · rintro ⟨inside, nonzero⟩
    exact ⟨_, leBytes_getElem? value inside, (digit _).mpr nonzero⟩

/-- The zeros in front of a string end at a mark. -/
theorem marked_takeWhile {bytes : List UInt8}
    (other : (bytes.takeWhile (· = 0)).length ≠ bytes.length) :
    Marked bytes (bytes.takeWhile (· = 0)).length := by
  induction bytes with
  | nil => exact absurd rfl other
  | cons byte rest inductionHypothesis =>
    by_cases zero : byte = 0
    · rw [List.takeWhile_cons_of_pos (by simpa using zero), List.length_cons] at other ⊢
      obtain ⟨found, at_, nonzero⟩ := inductionHypothesis (by
        rw [List.length_cons] at other
        omega)
      exact ⟨found, by rw [List.getElem?_cons_succ, at_], nonzero⟩
    · rw [List.takeWhile_cons_of_neg (by simpa using zero)]
      exact ⟨byte, rfl, zero⟩

end ByteList

namespace Mmpack

open ByteList Checked Cursor

/-! ### Both ways of trimming -/

/-- The stretch of a byte string is marked at both ends. -/
theorem trimBytes_marked {bytes : List UInt8} (some : (trimBytes bytes).2 ≠ 0) :
    Marked bytes (trimBytes bytes).1 ∧
      Marked bytes ((trimBytes bytes).1 + (trimBytes bytes).2 - 1) := by
  unfold trimBytes at some ⊢
  simp only at some ⊢
  by_cases all : (bytes.takeWhile (· = 0)).length = bytes.length
  · rw [if_pos all] at some
    exact absurd rfl some
  · rw [if_neg all] at some ⊢
    have first := marked_takeWhile all
    generalize (bytes.takeWhile (· = 0)).length = lo at *
    have length : (bytes.drop lo).reverse.length = bytes.length - lo := by
      rw [List.length_reverse, List.length_drop]
    have least := (List.takeWhile_prefix (l := (bytes.drop lo).reverse) (· = 0)).length_le
    obtain ⟨byte, found, nonzero⟩ := @marked_takeWhile (bytes.drop lo).reverse (by
      intro whole
      rw [whole, length] at some
      simp only at some
      omega)
    generalize ((bytes.drop lo).reverse.takeWhile (· = 0)).length = after at *
    have inside := (List.getElem?_eq_some_iff.mp found).1
    rw [List.getElem?_reverse (by simpa using inside), List.getElem?_drop,
      List.length_drop] at found
    refine ⟨first, byte, ?_, nonzero⟩
    rw [← found]
    congr 1
    simp only
    omega

/-- The low byte that trimming stops at is not zero. -/
theorem trimLow_digit {steps bits skip : Nat} (nonzero : bits ≠ 0) (bound : bits < 256 ^ steps) :
    (trimLow steps bits skip).1 % 256 ≠ 0 := by
  induction steps generalizing bits skip with
  | zero => exact absurd (Nat.lt_one_iff.mp bound) nonzero
  | succ steps inductionHypothesis =>
    rw [trimLow, Nat.and_two_pow_sub_one_eq_mod bits 8]
    split
    · rename_i low
      rw [Nat.shiftRight_eq_div_pow]
      rw [Nat.pow_succ] at bound
      exact inductionHypothesis (by omega) (by omega)
    · rename_i low
      exact low

/-- The stretch of an integer is marked at both ends. -/
theorem trimBits_marked {bits width : Nat} (narrow : width ≤ 8) (bound : bits < 256 ^ width)
    (nonzero : bits ≠ 0) :
    Marked (leBytes width bits) (trimBits bits).1 ∧
      Marked (leBytes width bits) ((trimBits bits).1 + (trimBits bits).2 - 1) := by
  obtain ⟨within, divides, fits⟩ := trimBits_spec narrow bound
  have large : bits < 256 ^ 8 := lt_of_lt_of_le bound (Nat.pow_le_pow_right (by decide) narrow)
  have digit := @trimLow_digit 8 bits 0 nonzero large
  obtain ⟨dropped, trimmed, -⟩ := trimLow_spec 8 bits 0
  have stretch : trimBits bits = (dropped, exactWidthFor (bits / 256 ^ dropped)) := by
    rw [trimBits, if_neg nonzero, trimmed, Nat.zero_add]
  rw [trimmed] at digit
  rw [stretch] at within fits ⊢
  simp only at digit within fits ⊢
  have positive := exactWidthFor_pos (bits / 256 ^ dropped)
  have least (width : Nat) (positive : 0 < width) :=
    @exactWidthFor_least (bits / 256 ^ dropped) width positive
  generalize exactWidthFor (bits / 256 ^ dropped) = size at *
  refine ⟨marked_leBytes_iff.mpr ⟨by omega, digit⟩, marked_leBytes_iff.mpr ⟨by omega, ?_⟩⟩
  obtain ⟨high, rfl⟩ := Nat.exists_eq_succ_of_ne_zero (Nat.ne_of_gt positive)
  rw [Nat.add_sub_assoc positive, Nat.succ_sub_one, Nat.pow_add, ← Nat.div_div_eq_div_mul]
  have top : bits / 256 ^ dropped / 256 ^ high < 256 := by
    rwa [Nat.div_lt_iff_lt_mul (by positivity), ← Nat.pow_succ']
  rw [Nat.mod_eq_of_lt top]
  intro zero
  have smaller : bits / 256 ^ dropped < 256 ^ high :=
    (Nat.div_eq_zero_iff.mp zero).resolve_left (by positivity)
  cases high with
  | zero =>
    rw [Nat.pow_zero, Nat.lt_one_iff] at smaller
    rw [smaller] at digit
    exact digit rfl
  | succ high => exact absurd (least _ (Nat.succ_pos high) smaller) (by omega)

/-- An integer is trimmed as its bytes are. -/
theorem trimBits_eq {bits width : Nat} (narrow : width ≤ 8) (bound : bits < 256 ^ width) :
    trimBits bits = trimBytes (leBytes width bits) := by
  by_cases zero : bits = 0
  · rw [zero, leBytes_zero, trimBits, if_pos rfl, trimBytes]
    simp
  · obtain ⟨within, divides, fits⟩ := trimBits_spec narrow bound
    obtain ⟨-, confined⟩ := trimBytes_spec (leBytes width bits)
    have ends := trimBits_marked narrow bound zero
    have inside := confined.of_marked ends.1
    have ends' := @trimBytes_marked (leBytes width bits) (by omega)
    have confined' := @confined_overwrite width (trimBits bits).1
      (leBytes (trimBits bits).2 (bits / 256 ^ (trimBits bits).1)) (by rwa [leBytes_length])
    rw [overwrite_leBytes within divides fits bound, leBytes_length] at confined'
    exact confined'.unique confined ends ends'

/-! ### The OR of a partition -/

/-- A mark of a joined string is a mark of one of the two. -/
theorem marked_or {first second : List UInt8} {i : Nat}
    (marked : Marked (List.zipWith (· ||| ·) first second) i) :
    Marked first i ∨ Marked second i := by
  obtain ⟨byte, found, nonzero⟩ := marked
  obtain ⟨one, other, here, there, rfl⟩ := List.getElem?_zipWith_eq_some.mp found
  by_cases zero : one = 0
  · refine Or.inr ⟨other, there, fun zero' => nonzero ?_⟩
    rw [zero, zero']
    rfl
  · exact Or.inl ⟨one, here, zero⟩

theorem foldl_or_marked {run : List StagedRow} {start : List UInt8} {i : Nat}
    (marked : Marked (run.foldl (fun bytes row =>
      List.zipWith (· ||| ·) bytes row.addressBytes) start) i) :
    Marked start i ∨ ∃ row ∈ run, Marked row.addressBytes i := by
  induction run generalizing start with
  | nil => exact Or.inl marked
  | cons first rest inductionHypothesis =>
    rcases inductionHypothesis marked with joined | ⟨row, member, found⟩
    · exact (marked_or joined).imp_right fun found => ⟨first, List.mem_cons_self, found⟩
    · exact Or.inr ⟨row, List.mem_cons_of_mem _ member, found⟩

theorem orBytes_marked {width : Nat} {run : List StagedRow} {i : Nat}
    (marked : Marked (orBytes width run) i) : ∃ row ∈ run, Marked row.addressBytes i := by
  refine (foldl_or_marked marked).resolve_left ?_
  rintro ⟨byte, found, nonzero⟩
  exact nonzero (List.mem_replicate.mp (List.mem_of_getElem? found)).2

/-- A digit of joined integers is that of one of the two. -/
theorem digit_or {first second i : Nat} (nonzero : (first ||| second) / 256 ^ i % 256 ≠ 0) :
    first / 256 ^ i % 256 ≠ 0 ∨ second / 256 ^ i % 256 ≠ 0 := by
  have split : (first ||| second) / 256 ^ i % 256 =
      first / 256 ^ i % 256 ||| second / 256 ^ i % 256 := by
    simp only [pow_256, ← Nat.shiftRight_eq_div_pow, Nat.shiftRight_or_distrib]
    exact @Nat.or_mod_two_pow _ _ 8
  rw [split, ne_eq, Nat.or_eq_zero_iff, not_and_or] at nonzero
  exact nonzero

theorem foldl_bits_marked {run : List StagedRow} {start : UInt64} {i : Nat}
    (nonzero : (run.foldl (fun bits row => bits ||| row.address) start).toNat /
      256 ^ i % 256 ≠ 0) :
    start.toNat / 256 ^ i % 256 ≠ 0 ∨ ∃ row ∈ run, row.address.toNat / 256 ^ i % 256 ≠ 0 := by
  induction run generalizing start with
  | nil => exact Or.inl nonzero
  | cons first rest inductionHypothesis =>
    rcases inductionHypothesis nonzero with joined | ⟨row, member, found⟩
    · rw [UInt64.toNat_or] at joined
      exact (digit_or joined).imp_right fun found => ⟨first, List.mem_cons_self, found⟩
    · exact Or.inr ⟨row, List.mem_cons_of_mem _ member, found⟩

theorem orBits_marked {width : Nat} {run : List StagedRow} {i : Nat}
    (marked : Marked (leBytes width (orBits run).toNat) i) :
    ∃ row ∈ run, Marked (leBytes width row.address.toNat) i := by
  obtain ⟨inside, nonzero⟩ := marked_leBytes_iff.mp marked
  rcases foldl_bits_marked nonzero with none | ⟨row, member, found⟩
  · exact absurd (by rw [UInt64.toNat_zero, Nat.zero_div]) none
  · exact ⟨row, member, marked_leBytes_iff.mpr ⟨inside, found⟩⟩

section Runs

variable {build : Build} {builder : Builder}

/-- A stretch is marked at both ends by some rows of its partition. -/
theorem Built.stretchOf_marked {run : List StagedRow}
    (member : run ∈ partitionRuns builder.rows) (some : (stretchOf builder run).2 ≠ 0) :
    (∃ row ∈ run, Marked (fullBytes builder row) (stretchOf builder run).1) ∧
      ∃ row ∈ run, Marked (fullBytes builder row)
        ((stretchOf builder run).1 + (stretchOf builder run).2 - 1) := by
  unfold stretchOf fullBytes at *
  cases wide : builder.blob.isSome with
  | true =>
    simp only [wide, if_true] at some ⊢
    obtain ⟨first, last⟩ := trimBytes_marked some
    exact ⟨orBytes_marked first, orBytes_marked last⟩
  | false =>
    simp only [wide, Bool.false_eq_true, if_false] at some ⊢
    have narrow : builder.layout.addressWidth ≤ 8 := by
      rw [narrow_layout wide]
      exact exactWidthFor_le _
    have bound : (orBits run).toNat < 256 ^ builder.layout.addressWidth := by
      rw [pow_256]
      refine foldl_or_lt (fun row inside => ?_) (Nat.two_pow_pos _)
      rw [← pow_256]
      exact address_lt wide (mem_rows_of_mem_run member inside)
    rw [trimBits_eq narrow bound] at some ⊢
    obtain ⟨first, last⟩ := trimBytes_marked some
    exact ⟨orBits_marked first, orBits_marked last⟩

/-- The rows of a partition are those of its run. -/
theorem Built.mem_run (built : Built build builder) {run : List StagedRow}
    (member : run ∈ partitionRuns builder.rows) {row : StagedRow} (inRows : row ∈ builder.rows)
    (same : row.partition = partitionOfRun run) : row ∈ run := by
  rw [← partitionRuns_flatten builder.rows] at inRows
  obtain ⟨other, inRuns, inside⟩ := List.mem_flatten.mp inRows
  have partition := same.symm.trans (partition_of_run inRuns inside)
  rwa [List.inj_on_of_nodup_map (built.runs_nodup build) member inRuns partition]

/-- Every row stages a committed record. -/
theorem Built.entry_of_row (built : Built build builder) {row : StagedRow}
    (member : row ∈ builder.rows) :
    ∃ entry ∈ build.log.committed, builder.Stages row entry := by
  obtain ⟨k, inside, rfl⟩ := List.mem_iff_getElem.mp member
  obtain ⟨lengths, stages⟩ := List.forall₂_iff_get.mp built.stages
  exact ⟨_, Log.mem_sorted.mp (List.getElem_mem (lengths ▸ inside)),
    stages k inside (lengths ▸ inside)⟩

end Runs

/-! ### The stretches of a log -/

/-- A stretch of the address field is inside the field, and the addresses committed to a partition
are zero outside it. -/
structure Log.Enclosed (log : Log) (field partition skip width : Nat) : Prop where
  within : skip + width ≤ field
  confined : ∀ entry ∈ log.committed, entry.partition.toNat = partition →
    Confined (entry.addressField field) skip width

/-- A stretch that is not empty begins and ends at a byte that some address of the partition
marks. -/
structure Log.Snug (log : Log) (field partition skip width : Nat) : Prop where
  first : width ≠ 0 → ∃ entry ∈ log.committed, entry.partition.toNat = partition ∧
    Marked (entry.addressField field) skip
  last : width ≠ 0 → ∃ entry ∈ log.committed, entry.partition.toNat = partition ∧
    Marked (entry.addressField field) (skip + width - 1)

/-- No other stretch that the addresses are confined to leaves out a byte of such a one. -/
theorem Log.Snug.least {log : Log} {field partition skip width skip' width' : Nat}
    (snug : log.Snug field partition skip width) (some : width ≠ 0)
    (other : log.Enclosed field partition skip' width') :
    skip' ≤ skip ∧ skip + width ≤ skip' + width' := by
  obtain ⟨entry, member, same, marked⟩ := snug.first some
  obtain ⟨entry', member', same', marked'⟩ := snug.last some
  have low := (other.confined entry member same).of_marked marked
  have high := (other.confined entry' member' same').of_marked marked'
  omega

section Slots

variable {build : Build} {builder : Builder} {report : BuildReport}

/-- Every address of a run is confined to the stretch derived for it. -/
theorem Built.confined (built : Built build builder) {run : List StagedRow}
    (member : run ∈ partitionRuns builder.rows) {row : StagedRow} (inside : row ∈ run) :
    Confined (fullBytes builder row) (derivedStretch builder run).1
      (derivedStretch builder run).2 := by
  have length := built.fullBytes_length (mem_rows_of_mem_run member inside)
  obtain ⟨within, whole⟩ := built.stretchOf_spec member inside
  unfold derivedStretch
  split
  · have cut := slice_length (length.symm ▸ within)
    have confined := @confined_overwrite builder.layout.addressWidth (stretchOf builder run).1
      (slice (fullBytes builder row) (stretchOf builder run).1 (stretchOf builder run).2)
      (by rwa [cut])
    rwa [whole, cut] at confined
  · intro i byte found nonzero
    have bound := (List.getElem?_eq_some_iff.mp found).1
    simp only
    omega

/-- The stretch that a run is stored by. -/
theorem Built.run_stretch (built : Built build builder)
    (spans : ∀ entry ∈ build.log.committed, entry.addressBytes.length ≤ 255)
    {run : List StagedRow} (member : run ∈ partitionRuns builder.rows) :
    build.log.Enclosed builder.layout.addressWidth (partitionOfRun run).toNat
        (planOf builder run).skip (planOf builder run).width ∧
      (builder.options.partitionAddressWidth = true →
        build.log.Snug builder.layout.addressWidth (partitionOfRun run).toNat
          (planOf builder run).skip (planOf builder run).width) := by
  have stretch := built.planOf_stretch spans member
  have skip : (planOf builder run).skip = (derivedStretch builder run).1 :=
    congrArg Prod.fst stretch
  have width : (planOf builder run).width = (derivedStretch builder run).2 :=
    congrArg Prod.snd stretch
  rw [skip, width]
  refine ⟨⟨built.derivedStretch_le member, fun entry inLog same => ?_⟩, fun trims => ?_⟩
  · obtain ⟨row, inRows, stages⟩ := built.row_of_entry inLog
    rw [← stages.partition, UInt64.toNat_inj] at same
    rw [← built.fullBytes_eq inRows stages]
    exact built.confined member (built.mem_run member inRows same)
  · have marked {i : Nat} (found : ∃ row ∈ run, Marked (fullBytes builder row) i) :
        ∃ entry ∈ build.log.committed, entry.partition.toNat = (partitionOfRun run).toNat ∧
          Marked (entry.addressField builder.layout.addressWidth) i := by
      obtain ⟨row, inside, marked⟩ := found
      have inRows := mem_rows_of_mem_run member inside
      obtain ⟨entry, inLog, stages⟩ := built.entry_of_row inRows
      rw [built.fullBytes_eq inRows stages] at marked
      exact ⟨entry, inLog, by rw [← stages.partition, partition_of_run member inside], marked⟩
    rw [derivedStretch, if_pos trims]
    exact ⟨fun some => marked (Built.stretchOf_marked member some).1,
      fun some => marked (Built.stretchOf_marked member some).2⟩

/-! ### Slots and records -/

/-- The stretch of a slot, as it must be. -/
structure Build.Stretches (build : Build) (field : Nat) (slot : DirEntry) : Prop where
  enclosed : build.log.Enclosed field slot.partition slot.addressSkip slot.addressWidth
  snug : build.options.partitionAddressWidth = true →
    build.log.Snug field slot.partition slot.addressSkip slot.addressWidth
  least : build.options.partitionAddressWidth = true → slot.addressWidth ≠ 0 → ∀ skip width,
    build.log.Enclosed field slot.partition skip width →
      skip ≤ slot.addressSkip ∧ slot.addressSkip + slot.addressWidth ≤ skip + width

/-- The slots of a build have the stretches of their runs. -/
theorem Build.directory_stretches (returned : build.finished.outcome = .ok report)
    (spans : ∀ entry ∈ build.log.committed, entry.addressBytes.length ≤ 255) {slot : DirEntry}
    (member : slot ∈ build.directory) : build.Stretches report.addressWidth slot := by
  obtain ⟨-, -, built⟩ := build.finishes returned
  obtain ⟨run, inRuns, same⟩ := Build.run_of_slot returned member
  obtain ⟨enclosed, snug⟩ := built.run_stretch spans inRuns
  have partition : (partitionOfRun run).toNat = slot.partition := congrArg DirEntry.partition same
  have skip : (planOf build.finished.builder run).skip = slot.addressSkip :=
    congrArg DirEntry.addressSkip same
  have width : (planOf build.finished.builder run).width = slot.addressWidth :=
    congrArg DirEntry.addressWidth same
  rw [partition, skip, width, ← (build.report_layout returned).2] at enclosed snug
  rw [built.options] at snug
  exact ⟨enclosed, snug, fun trims some skip width other => (snug trims).least some other⟩

/-- A record's address reads back whole. -/
structure Restores (build : Build) (report : BuildReport) (table : Table) (it : Position)
    (entry : Committed) : Prop where
  width : table.addressWidth = report.addressWidth
  /-- What is stored is the stretch of the partition's slot. -/
  stored : ∃ slot ∈ build.directory, slot.partition = entry.partition.toNat ∧
    table.addressSkip it = .ok slot.addressSkip ∧
    table.addressBytes it =
      .ok (slice (entry.addressField table.addressWidth) slot.addressSkip slot.addressWidth)
  integer : entry.addressBytes = [] → table.address it = .ok (some entry.address.toNat) ∧
    ∀ out, out.length = table.addressWidth → ∃ bytes, table.addressInto it out = .ok (some bytes) ∧
      bytes.length = table.addressWidth ∧ leNat bytes = entry.address.toNat
  bytes : entry.addressBytes ≠ [] → ∀ out, out.length = table.addressWidth →
    table.addressInto it out = .ok (some entry.addressBytes)
  key : build.Keyed → ∃ key, entry.partition = partitionOf build.options.addressBits key ∧
    entry.address = addressOf build.options.addressBits key ∧
      table.key it = .ok (some key.toNat)

/-- A record stores the stretch of its address that a slot of the directory names. -/
theorem Opens.stored_slot {places : Places} {table : Table} {it : Position}
    (opens : Opens build build.finished.builder places table)
    (returned : build.finished.outcome = .ok report)
    (small : build.finished.builder.layout.addressWidth < 2 ^ 8)
    (names : Names table.countAt table.dirCount it) :
    ∃ slot ∈ build.directory, slot.partition = (table.entry it.slot).partition ∧
      (table.entry it.slot).addressSkip = slot.addressSkip ∧
        table.storedBytes it.slot it.index = slice (table.fullAddress it.slot it.index)
          slot.addressSkip slot.addressWidth := by
  obtain ⟨piece, row, rowAt⟩ := opens.rowAt names
  have plan : piece.2 = planOf build.finished.builder piece.1 := rowAt.plan
  obtain ⟨slot, member, same⟩ := Build.slot_of_run returned rowAt.run
  rw [← plan] at same
  have skip : slot.addressSkip = piece.2.skip := congrArg DirEntry.addressSkip same
  have width : slot.addressWidth = piece.2.width := congrArg DirEntry.addressWidth same
  refine ⟨slot, member, ?_, rowAt.addressSkip.trans skip.symm, ?_⟩
  · rw [rowAt.partition, partition_of_run rowAt.run rowAt.member]
    exact congrArg DirEntry.partition same
  · rw [skip, width, opens.fullAddress_eq small rowAt]
    exact opens.storedBytes_eq small rowAt

/-- Every partition stores the smallest stretch that holds its addresses, and from the opened
image every record's address and key read back as they were committed. -/
theorem Build.trimming_lossless (returned : build.finished.outcome = .ok report)
    (spans : ∀ entry ∈ build.log.committed, entry.addressBytes.length ≤ 255) :
    (∀ slot ∈ build.directory, build.Stretches report.addressWidth slot) ∧
      ∀ (image : Image) (table : Table), image.bytes = build.finished.image →
        Table.tryOpen (some image) = pure table → ∀ n entry, build.log.sorted[n]? = some entry →
          ∃ it, table.nth n = .ok it ∧ Restores build report table it entry := by
  refine ⟨fun slot member => Build.directory_stretches returned spans member,
    fun image table same opened n entry located => ?_⟩
  obtain ⟨places, opens⟩ := build.opens returned same opened
  have short (entry : Committed) (member : entry ∈ build.log.committed) :
      entry.addressBytes.length < 2 ^ 8 := Nat.lt_succ_of_le (spans entry member)
  obtain ⟨it, runs, names, -, entryAt⟩ := opens.record short located
  have member := Log.mem_sorted.mp (List.mem_of_getElem? located)
  have small := opens.addressWidth_small short names
  have width := opens.addressWidth_eq small
  obtain ⟨row, inRows, stages⟩ := opens.built.row_of_entry member
  have shaped := opens.built.entry_shaped member
  have into (out : List UInt8) (length : out.length = table.addressWidth) :
      table.addressInto it out = .ok (some (entry.addressField table.addressWidth)) := by
    rw [Table.addressInto_eq opens.valid names, if_neg (not_not.mpr length), entryAt.field]
  -- An integer has no bytes of its own, so the build is one of integers.
  have integers (integer : entry.addressBytes = []) :
      build.finished.builder.blob.isSome = false := by
    cases wide : build.finished.builder.blob.isSome with
    | false => rfl
    | true =>
      rw [wide, integer] at shaped
      exact absurd shaped.2.2 (Nat.not_lt.mpr (Nat.le_of_eq shaped.2.1.symm))
  refine ⟨it, runs,
    { width := width.trans (build.report_layout returned).2.symm
      stored := ?_
      integer := fun integer => ⟨?_, fun out length => ⟨_, into out length, ?_, ?_⟩⟩
      bytes := fun nonempty out length => ?_
      key := fun keyed => ?_ }⟩
  · obtain ⟨slot, inDirectory, partition, skip, stored⟩ := opens.stored_slot returned small names
    refine ⟨slot, inDirectory, partition.trans entryAt.partition, ?_, ?_⟩
    · rw [Table.addressSkip_eq opens.valid names, skip]
    · rw [Table.addressBytes_eq opens.valid names, stored, entryAt.field]
  · have narrow : table.narrowAddress = true := by
      rw [opens.narrowAddress small, narrow_layout (integers integer)]
      exact decide_eq_true (exactWidthFor_le _)
    rw [opens.address_eq narrow names entryAt, Committed.number, integer]
    rfl
  · rw [Committed.addressField, if_pos integer, leBytes_length]
  · rw [Committed.addressField, if_pos integer, width, ← stages.address]
    exact leNat_leBytes_of_lt (address_lt (integers integer) inRows)
  · rw [into out length, Committed.addressField, if_neg nonempty]
  · obtain ⟨key, partition, address⟩ := opens.keyed_row keyed inRows
    have bound := opens.built.addressBits
    rw [opens.built.options] at bound
    refine ⟨key, stages.partition.symm.trans partition, stages.address.symm.trans address, ?_⟩
    rw [opens.key_eq keyed names entryAt, ← stages.partition, ← stages.address, partition, address,
      packKey_split bound]

theorem sample_trimming_lossless : ∃ report table,
    trimmedSample.finished.outcome = .ok report ∧
    Table.tryOpen (some trimmedImage) = pure table ∧
    (trimmedSample.directory.map fun slot => (slot.addressSkip, slot.addressWidth)) =
      [(2, 2), (0, 0)] ∧
    (∀ slot ∈ trimmedSample.directory, trimmedSample.Stretches report.addressWidth slot) ∧
    ∀ n entry, trimmedSample.log.sorted[n]? = some entry →
      ∃ it, table.nth n = .ok it ∧ Restores trimmedSample report table it entry := by
  obtain ⟨report, returned⟩ := trimmedSample.exists_report (by decide +kernel)
  obtain ⟨table, opened, -⟩ : ∃ table, Table.tryOpen (some trimmedImage) = pure table ∧
      true = true := exists_of_acceptsWith (by decide +kernel)
  obtain ⟨stretches, restores⟩ := Build.trimming_lossless returned (by decide +kernel)
  exact ⟨report, table, returned, opened, by decide +kernel, stretches, restores _ _ rfl opened⟩

end Slots

end Mmpack
