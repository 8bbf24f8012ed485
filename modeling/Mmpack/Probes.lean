/-
This file reads the searches of a partition as comparisons of numbers. Each record
stands for the number its whole address spells, and a probe for the number it
spells; what a lookup compares, the stored stretch with the probe cut to the same
stretch, with what hangs over on either side told apart, orders the record and the
probe as their numbers do.
-/

import Mmpack.Safety
import Mmpack.Windows

namespace Mmpack

open ByteList Checked Cursor

/-- The number a probe spells. -/
def Probe.number : Probe → Nat
  | .narrow value => value
  | .wide bytes => beNat bytes

namespace Table

variable {table : Table}

/-- A probe of the regime of a table. -/
def Suits (table : Table) : Probe → Prop
  | .narrow value => table.narrowAddress = true ∧ value < 2 ^ 64
  | .wide bytes => table.narrowAddress = false ∧ bytes.length = table.addressWidth

/-- The number the whole address of a record spells, in the regime of the table. -/
def recordNumber (table : Table) (s i : Nat) : Nat :=
  if table.narrowAddress = true then leNat (table.fullAddress s i)
  else beNat (table.fullAddress s i)

theorem storedBytes_length (valid : table.Valid) {s i : Nat} (inside : s < table.dirCount)
    (below : i < table.countAt s) :
    (table.storedBytes s i).length = (table.entry s).addressWidth := by
  have room := record_room valid inside below
  have width := table.addressWidth_le_stride s
  exact slice_length (by omega)

theorem fullAddress_length (valid : table.Valid) {s i : Nat} (inside : s < table.dirCount)
    (below : i < table.countAt s) : (table.fullAddress s i).length = table.addressWidth := by
  have inField := (valid.slot inside).inField
  have size := storedBytes_length valid inside below
  rw [fullAddress, overwrite_length, List.length_replicate]

/-- Where narrow addresses are stored, the number is the stretch shifted up. -/
theorem recordNumber_narrow (valid : table.Valid) (narrow : table.narrowAddress = true) {s i : Nat}
    (inside : s < table.dirCount) (below : i < table.countAt s) :
    table.recordNumber s i =
      leNat (table.storedBytes s i) * 256 ^ (table.entry s).addressSkip := by
  have inField := (valid.slot inside).inField
  have size := storedBytes_length valid inside below
  rw [recordNumber, if_pos narrow, fullAddress, leNat_overwrite_zeros (by omega)]

/-- What follows the stretch of a slot. -/
def slack (table : Table) (s : Nat) : Nat :=
  table.addressWidth - ((table.entry s).addressSkip + (table.entry s).addressWidth)

theorem recordNumber_wide (valid : table.Valid) (wide : table.narrowAddress = false) {s i : Nat}
    (inside : s < table.dirCount) (below : i < table.countAt s) :
    table.recordNumber s i = beNat (table.storedBytes s i) * 256 ^ table.slack s := by
  have inField := (valid.slot inside).inField
  have size := storedBytes_length valid inside below
  rw [recordNumber, if_neg (by simp [wide]), fullAddress, beNat_overwrite_zeros (by omega), size,
    slack, Nat.sub_add_eq]

theorem probeNarrow_eq (p : PartitionLayout) {value : Nat} (bound : value < 2 ^ 64) :
    (probeNarrow p value).value = value / 256 ^ p.addressSkip ∧
      ((probeNarrow p value).tail = true ↔ value % 256 ^ p.addressSkip ≠ 0) := by
  simp only [probeNarrow, pow_256]
  by_cases far : 64 ≤ 8 * p.addressSkip
  · have power : 2 ^ 64 ≤ 2 ^ (8 * p.addressSkip) := Nat.pow_le_pow_right (by decide) far
    rw [Nat.div_eq_of_lt (by omega), Nat.mod_eq_of_lt (by omega)]
    simp [far]
  · rw [if_neg far, Nat.shiftRight_eq_div_pow]
    simp [far, Nat.and_two_pow_sub_one_eq_mod]

/-- A narrow probe cut to the stretch of a slot. -/
theorem cutNarrow (table : Table) (s : Nat) {value : Nat} (bound : value < 2 ^ 64) :
    (probeNarrow (table.layout s) value).value = value / 256 ^ (table.entry s).addressSkip ∧
      (table.hasTail s (.narrow value) = true ↔
        value % 256 ^ (table.entry s).addressSkip ≠ 0) :=
  probeNarrow_eq (table.layout s) bound

/-- Rounding a cut probe up does not wrap. -/
theorem roundUp_lt {value skip : Nat} (bound : value < 2 ^ 64) :
    (value / 256 ^ skip + if value % 256 ^ skip ≠ 0 then 1 else 0) < 2 ^ 64 := by
  cases skip with
  | zero => simpa [Nat.mod_one] using bound
  | succ skip =>
    have power : 256 ^ 1 ≤ 256 ^ (skip + 1) := Nat.pow_le_pow_right (by decide) (by omega)
    have quotient : value / 256 ^ (skip + 1) ≤ value / 256 :=
      Nat.div_le_div_left (by omega) (by decide)
    split <;> omega

/-- A wide probe cut to the stretch of a slot: what comes before, the stretch, and what
follows. -/
theorem cutWide (valid : table.Valid) {s : Nat} (inside : s < table.dirCount)
    {bytes : List UInt8} (length : bytes.length = table.addressWidth) :
    ∃ head, (table.hasHead s (.wide bytes) = true ↔ head ≠ 0) ∧
      beNat bytes / 256 ^ table.slack s = head * 256 ^ (table.entry s).addressWidth +
        beNat (slice bytes (table.entry s).addressSkip (table.entry s).addressWidth) ∧
      (table.hasTail s (.wide bytes) = true ↔ beNat bytes % 256 ^ table.slack s ≠ 0) := by
  have inField := (valid.slot inside).inField
  have cut : slice bytes 0 (table.entry s).addressSkip ++
      slice bytes (table.entry s).addressSkip (table.entry s).addressWidth ++
        slice bytes ((table.entry s).addressSkip + (table.entry s).addressWidth)
          (table.slack s) = bytes := by
    have first := slice_append_slice bytes 0 (table.entry s).addressSkip
      (table.entry s).addressWidth
    have second := slice_append_slice bytes 0
      ((table.entry s).addressSkip + (table.entry s).addressWidth) (table.slack s)
    rw [Nat.zero_add] at first second
    rw [first, second, slack, Nat.add_sub_cancel' inField, ← length, slice_zero_length]
  have middleLength := @slice_length _ bytes (table.entry s).addressSkip
    (table.entry s).addressWidth (by omega)
  have tailLength := @slice_length _ bytes
    ((table.entry s).addressSkip + (table.entry s).addressWidth) (table.slack s)
    (by rw [slack]; omega)
  have small := beNat_lt (slice bytes
    ((table.entry s).addressSkip + (table.entry s).addressWidth) (table.slack s))
  have number := congrArg beNat cut
  rw [beNat_append, beNat_append, middleLength, tailLength] at number
  rw [tailLength] at small
  refine ⟨beNat (slice bytes 0 (table.entry s).addressSkip), ?_, ?_, ?_⟩
  · rw [hasHead, decide_eq_true_iff, exists_ne_zero_iff]
  · rw [← number, Nat.add_comm, Nat.add_mul_div_right _ _ (Nat.pow_pos (by decide)),
      Nat.div_eq_of_lt small, Nat.zero_add]
  · rw [← number, Nat.add_comm, Nat.add_mul_mod_self_right, Nat.mod_eq_of_lt small, hasTail,
      decide_eq_true_iff, exists_ne_zero_iff]
    rfl

/-- What a stretch spells is less than a probe that has something before it. -/
theorem stored_lt_head (valid : table.Valid) {s i head : Nat} (rest : Nat)
    (inside : s < table.dirCount) (below : i < table.countAt s) (nonzero : head ≠ 0) :
    beNat (table.storedBytes s i) < head * 256 ^ (table.entry s).addressWidth + rest := by
  have small := beNat_lt (table.storedBytes s i)
  rw [storedBytes_length valid inside below] at small
  have large := Nat.le_mul_of_pos_left (256 ^ (table.entry s).addressWidth)
    (Nat.pos_of_ne_zero nonzero)
  omega

theorem probe_slice_length (valid : table.Valid) {s i : Nat} (inside : s < table.dirCount)
    (below : i < table.countAt s) {bytes : List UInt8}
    (length : bytes.length = table.addressWidth) :
    (table.storedBytes s i).length =
      (slice bytes (table.entry s).addressSkip (table.entry s).addressWidth).length := by
  have inField := (valid.slot inside).inField
  rw [storedBytes_length valid inside below, slice_length (by omega)]

/-- A record is below a probe when its number is. -/
theorem isBelow_iff (valid : table.Valid) {probe : Probe} (suits : table.Suits probe) {s i : Nat}
    (inside : s < table.dirCount) (below : i < table.countAt s) :
    table.isBelow s probe i = true ↔ table.recordNumber s i < probe.number := by
  cases probe with
  | narrow value =>
    obtain ⟨narrow, bound⟩ := suits
    obtain ⟨cut, tail⟩ := cutNarrow table s bound
    rw [hasTail] at tail
    rw [recordNumber_narrow valid narrow inside below, Probe.number,
      mul_lt_iff (Nat.pow_pos (by decide))]
    simp only [isBelow, decide_eq_true_eq, cut, tail]
    rw [Nat.mod_eq_of_lt (roundUp_lt bound)]
  | wide bytes =>
    obtain ⟨wide, length⟩ := suits
    obtain ⟨head, hasHead, quotient, hasTail⟩ := cutWide valid inside length
    have sameLength := probe_slice_length valid inside below length
    rw [recordNumber_wide valid wide inside below, Probe.number,
      mul_lt_iff (Nat.pow_pos (by decide)), quotient]
    simp only [isBelow, Bool.or_eq_true, decide_eq_true_eq, hasHead, hasTail]
    by_cases above : head = 0
    · rw [or_iff_right (not_not.mpr above), above, Nat.zero_mul, Nat.zero_add]
      split
      · rw [Nat.lt_succ_iff]
        exact memcmp_lt_one sameLength
      · exact memcmp_lt_zero sameLength
    · have less := stored_lt_head valid
        (beNat (slice bytes (table.entry s).addressSkip (table.entry s).addressWidth)) inside below
        above
      exact iff_of_true (Or.inl above) (by omega)

/-- A record is not above a probe when its number is not. -/
theorem isAtOrBelow_iff (valid : table.Valid) {probe : Probe} (suits : table.Suits probe)
    {s i : Nat} (inside : s < table.dirCount) (below : i < table.countAt s) :
    table.isAtOrBelow s probe i = true ↔ table.recordNumber s i ≤ probe.number := by
  cases probe with
  | narrow value =>
    obtain ⟨narrow, bound⟩ := suits
    rw [recordNumber_narrow valid narrow inside below, Probe.number,
      ← Nat.le_div_iff_mul_le (Nat.pow_pos (by decide)), ← (cutNarrow table s bound).1]
    simp only [isAtOrBelow, Bool.not_eq_true', decide_eq_false_iff_not, Nat.not_lt]
  | wide bytes =>
    obtain ⟨wide, length⟩ := suits
    obtain ⟨head, hasHead, quotient, -⟩ := cutWide valid inside length
    have sameLength := probe_slice_length valid inside below length
    rw [recordNumber_wide valid wide inside below, Probe.number,
      ← Nat.le_div_iff_mul_le (Nat.pow_pos (by decide)), quotient]
    simp only [isAtOrBelow, Bool.or_eq_true, decide_eq_true_eq, hasHead]
    by_cases above : head = 0
    · rw [or_iff_right (not_not.mpr above), above, Nat.zero_mul, Nat.zero_add]
      exact memcmp_lt_one sameLength
    · exact iff_of_true (Or.inl above) (Nat.le_of_lt (stored_lt_head valid _ inside below above))

/-- A record is equal to a probe when its number is, which takes a probe with nothing outside
the stretch. -/
theorem isEqual_iff (valid : table.Valid) {probe : Probe} (suits : table.Suits probe) {s i : Nat}
    (inside : s < table.dirCount) (below : i < table.countAt s) :
    (table.hasHead s probe || table.hasTail s probe) = false ∧ table.isEqual s probe i = true ↔
      table.recordNumber s i = probe.number := by
  rw [Bool.or_eq_false_iff]
  cases probe with
  | narrow value =>
    obtain ⟨narrow, bound⟩ := suits
    obtain ⟨cut, tail⟩ := cutNarrow table s bound
    rw [recordNumber_narrow valid narrow inside below, Probe.number,
      mul_eq_iff (Nat.pow_pos (by decide)), ← cut, ← Bool.not_eq_true (table.hasTail _ _), tail,
      not_not, isEqual, beq_iff_eq]
    simp only [hasHead, true_and]
  | wide bytes =>
    obtain ⟨wide, length⟩ := suits
    obtain ⟨head, hasHead, quotient, hasTail⟩ := cutWide valid inside length
    have sameLength := probe_slice_length valid inside below length
    rw [recordNumber_wide valid wide inside below, Probe.number,
      mul_eq_iff (Nat.pow_pos (by decide)), quotient, ← Bool.not_eq_true (table.hasHead _ _),
      hasHead, ← Bool.not_eq_true (table.hasTail _ _), hasTail, not_not, not_not, isEqual,
      beq_iff_eq, memcmp_eq_zero sameLength]
    constructor
    · rintro ⟨⟨noHead, noTail⟩, same⟩
      rw [noHead, same, Nat.zero_mul, Nat.zero_add]
      exact ⟨noTail, rfl⟩
    · rintro ⟨noTail, same⟩
      have noHead : head = 0 := by
        by_contra above
        exact Nat.ne_of_lt (stored_lt_head valid _ inside below above) same
      rw [noHead, Nat.zero_mul, Nat.zero_add] at same
      exact ⟨⟨noHead, noTail⟩, beNat_inj sameLength same⟩

end Table

end Mmpack
