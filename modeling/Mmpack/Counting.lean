/-
This file is a small library on how much room distinct byte strings take: only
few of them are short, so many distinct strings have many bytes in all.
-/

import Mmpack.Bytes
import Mathlib.Algebra.Order.BigOperators.Group.List
import Mathlib.Data.Finset.Card
import Mathlib.Data.List.Nodup

namespace ByteList

/-- A number that determines a string: its value with a one written past its end. -/
def marked (bytes : List UInt8) : Nat := leNat (bytes ++ [1])

theorem marked_eq (bytes : List UInt8) : marked bytes = leNat bytes + 256 ^ bytes.length := by
  rw [marked, leNat_append, leNat, leNat]
  simp

theorem marked_lt {bytes : List UInt8} {limit : Nat} (short : bytes.length ≤ limit) :
    marked bytes < 2 * 256 ^ limit := by
  have bound := leNat_lt bytes
  have power : 256 ^ bytes.length ≤ 256 ^ limit := Nat.pow_le_pow_right (by decide) short
  rw [marked_eq]
  omega

theorem marked_injective : Function.Injective marked := by
  intro first second same
  rw [marked_eq, marked_eq] at same
  have firstBound := leNat_lt first
  have secondBound := leNat_lt second
  have lengths : first.length = second.length := by
    by_contra different
    rcases Nat.lt_or_gt_of_ne different with shorter | longer
    · have power : 256 ^ (first.length + 1) ≤ 256 ^ second.length :=
        Nat.pow_le_pow_right (by decide) shorter
      rw [Nat.pow_succ] at power
      omega
    · have power : 256 ^ (second.length + 1) ≤ 256 ^ first.length :=
        Nat.pow_le_pow_right (by decide) longer
      rw [Nat.pow_succ] at power
      omega
  rw [lengths] at same
  exact leNat_inj lengths (Nat.add_right_cancel same)

/-- Distinct numbers below a bound are at most as many as the bound. -/
theorem length_le_of_nodup {numbers : List Nat} {bound : Nat} (distinct : numbers.Nodup)
    (below : ∀ number ∈ numbers, number < bound) : numbers.length ≤ bound := by
  have subset : numbers.toFinset ⊆ Finset.range bound := fun number member =>
    Finset.mem_range.mpr (below number (List.mem_toFinset.mp member))
  have card := Finset.card_le_card subset
  rwa [Finset.card_range, List.toFinset_card_of_nodup distinct] at card

/-- Distinct strings of at most `limit` bytes are at most `2 * 256 ^ limit`. -/
theorem length_le_of_short {strings : List (List UInt8)} {limit : Nat} (distinct : strings.Nodup)
    (short : ∀ string ∈ strings, string.length ≤ limit) :
    strings.length ≤ 2 * 256 ^ limit := by
  rw [← List.length_map marked]
  refine length_le_of_nodup (distinct.map marked_injective) fun number member => ?_
  obtain ⟨string, inside, rfl⟩ := List.mem_map.mp member
  exact marked_lt (short string inside)

/-- Distinct strings take at least `limit + 1` bytes each, but for the few short ones. -/
theorem distinct_strings_size {strings : List (List UInt8)} (distinct : strings.Nodup)
    (limit : Nat) :
    (limit + 1) * strings.length ≤
      (strings.map List.length).sum + (limit + 1) * (2 * 256 ^ limit) := by
  let short := strings.filter (·.length ≤ limit)
  let long := strings.filter fun string => !decide (string.length ≤ limit)
  have split : (short ++ long).Perm strings := List.filter_append_perm _ strings
  have lengths := split.length_eq
  have sums := (split.map List.length).sum_nat
  rw [List.length_append] at lengths
  rw [List.map_append, List.sum_append] at sums
  have few : short.length ≤ 2 * 256 ^ limit :=
    length_le_of_short (distinct.filter _) fun string member => by
      simpa using (List.mem_filter.mp member).2
  have many := List.card_nsmul_le_sum (long.map List.length) (limit + 1) fun length member => by
    obtain ⟨string, inside, rfl⟩ := List.mem_map.mp member
    have past := (List.mem_filter.mp inside).2
    simp only [Bool.not_eq_true', decide_eq_false_iff_not] at past
    omega
  rw [List.length_map, Nat.nsmul_eq_mul, Nat.mul_comm] at many
  have scaled := Nat.mul_le_mul_left (limit + 1) few
  rw [← lengths, ← sums, Nat.mul_add]
  omega

end ByteList
