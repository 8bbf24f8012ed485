/-
This file is a small library about a byte string that is a window among zeros: the
numbers it spells, when a string is no more than its window, and what joining
strings bit by bit does to their windows. Cutting a number to the window divides it
by a power of the byte, so comparing scaled numbers is comparing cut ones.
-/

import Mmpack.Bytes
import Mmpack.Slices

namespace ByteList

/-! ### A stretch among zeros -/

/-- Writing into zeros leaves zeros on both sides. -/
theorem overwrite_zeros {size skip : Nat} {data : List UInt8} (fits : skip + data.length ≤ size) :
    overwrite (List.replicate size 0) skip data =
      List.replicate skip 0 ++ data ++ List.replicate (size - skip - data.length) 0 := by
  rw [overwrite, List.take_replicate, Nat.min_eq_left (by omega), List.drop_replicate,
    Nat.sub_add_eq, List.take_of_length_le]
  simp only [List.length_append, List.length_replicate]
  omega

theorem leNat_overwrite_zeros {size skip : Nat} {data : List UInt8}
    (fits : skip + data.length ≤ size) :
    leNat (overwrite (List.replicate size 0) skip data) = leNat data * 256 ^ skip := by
  rw [overwrite_zeros fits, leNat_append, leNat_append, leNat_replicate_zero,
    leNat_replicate_zero, List.length_replicate, Nat.mul_zero, Nat.add_zero, Nat.zero_add,
    Nat.mul_comm]

theorem beNat_overwrite_zeros {size skip : Nat} {data : List UInt8}
    (fits : skip + data.length ≤ size) :
    beNat (overwrite (List.replicate size 0) skip data) =
      beNat data * 256 ^ (size - skip - data.length) := by
  rw [overwrite_zeros fits, beNat_append, beNat_append, beNat_replicate_zero,
    beNat_replicate_zero, List.length_replicate, Nat.zero_mul, Nat.add_zero, Nat.zero_add]

/-- A slice of a stored integer is the integer shifted down. -/
theorem slice_leBytes {size skip width : Nat} (value : Nat) (fits : skip + width ≤ size) :
    slice (leBytes size value) skip width = leBytes width (value / 256 ^ skip) := by
  refine leNat_inj ?_ ?_
  · rw [slice_length (by rwa [leBytes_length]), leBytes_length]
  · obtain ⟨rest, rfl⟩ := Nat.exists_eq_add_of_le fits
    rw [slice, leNat_take, leNat_drop, leNat_leBytes, leNat_leBytes, Nat.add_assoc, Nat.pow_add,
      Nat.mod_mul_right_div_self, Nat.pow_add,
      Nat.mod_mod_of_dvd _ (Nat.dvd_mul_right _ _)]

/-- Nothing but zeros outside a stretch. -/
def Confined (bytes : List UInt8) (skip width : Nat) : Prop :=
  ∀ (i : Nat) (byte : UInt8), bytes[i]? = some byte → byte ≠ 0 → skip ≤ i ∧ i < skip + width

/-- A confined string is its stretch among zeros. -/
theorem Confined.overwrite_slice {bytes : List UInt8} {skip width : Nat}
    (confined : Confined bytes skip width) (within : skip + width ≤ bytes.length) :
    overwrite (List.replicate bytes.length 0) skip (slice bytes skip width) = bytes := by
  have size := slice_length within
  refine List.ext_getElem? fun i => ?_
  rw [overwrite_getElem? (by rw [size, List.length_replicate]; exact within), size,
    slice_getElem?, List.getElem?_replicate]
  by_cases inside : skip ≤ i ∧ i < skip + width
  · rw [if_pos inside, if_pos (by omega), Nat.add_sub_cancel' inside.1]
  · rw [if_neg inside]
    split
    · rename_i bound
      rw [List.getElem?_eq_getElem bound]
      refine congrArg some (Eq.symm ?_)
      by_contra nonzero
      exact inside (confined i _ (List.getElem?_eq_getElem bound) nonzero)
    · rw [List.getElem?_eq_none (by omega)]

theorem confined_append (before middle after : List UInt8) (zeros : ∀ byte ∈ before, byte = 0)
    (zeros' : ∀ byte ∈ after, byte = 0) :
    Confined (before ++ middle ++ after) before.length middle.length := by
  intro i byte found nonzero
  constructor
  · by_contra early
    rw [List.append_assoc, List.getElem?_append_left (by omega)] at found
    exact nonzero (zeros byte (List.mem_of_getElem? found))
  · by_contra late
    rw [List.getElem?_append_right (by rw [List.length_append]; omega)] at found
    exact nonzero (zeros' byte (List.mem_of_getElem? found))

/-- One string has a nonzero byte wherever the other does. -/
def Covers (bytes other : List UInt8) : Prop :=
  bytes.length = other.length ∧ ∀ (i : Nat) (byte : UInt8), other[i]? = some byte → byte ≠ 0 →
    ∃ cover, bytes[i]? = some cover ∧ cover ≠ 0

theorem covers_refl (bytes : List UInt8) : Covers bytes bytes :=
  ⟨rfl, fun _ byte found nonzero => ⟨byte, found, nonzero⟩⟩

theorem Covers.trans {first second third : List UInt8} (covers : Covers first second)
    (covers' : Covers second third) : Covers first third := by
  refine ⟨covers.1.trans covers'.1, fun i byte found nonzero => ?_⟩
  obtain ⟨middle, found', nonzero'⟩ := covers'.2 i byte found nonzero
  exact covers.2 i middle found' nonzero'

theorem Covers.confined {bytes other : List UInt8} (covers : Covers bytes other)
    {skip width : Nat} (confined : Confined bytes skip width) : Confined other skip width := by
  intro i byte found nonzero
  obtain ⟨cover, found', nonzero'⟩ := covers.2 i byte found nonzero
  exact confined i cover found' nonzero'

theorem or_ne_zero {first second : UInt8} (nonzero : first ≠ 0 ∨ second ≠ 0) :
    first ||| second ≠ 0 := by
  intro zero
  have both := congrArg UInt8.toNat zero
  rw [UInt8.toNat_or, UInt8.toNat_zero, Nat.or_eq_zero_iff] at both
  exact nonzero.elim (fun other => other (UInt8.toNat_inj.mp both.1)) fun other =>
    other (UInt8.toNat_inj.mp both.2)

theorem covers_or {first second : List UInt8} (sameLength : first.length = second.length) :
    Covers (List.zipWith (· ||| ·) first second) first ∧
      Covers (List.zipWith (· ||| ·) first second) second := by
  have length : (List.zipWith (· ||| ·) first second).length = first.length := by
    rw [List.length_zipWith, sameLength, Nat.min_self]
  have joined (i : Nat) (inside : i < first.length) (inside' : i < second.length) :
      (List.zipWith (· ||| ·) first second)[i]? = some (first[i] ||| second[i]) := by
    rw [List.getElem?_eq_getElem (by omega), List.getElem_zipWith]
  refine ⟨⟨length, fun i byte found nonzero => ?_⟩, length.trans sameLength,
    fun i byte found nonzero => ?_⟩
  · obtain ⟨inside, rfl⟩ := List.getElem?_eq_some_iff.mp found
    exact ⟨_, joined i inside (sameLength ▸ inside), or_ne_zero (Or.inl nonzero)⟩
  · obtain ⟨inside, rfl⟩ := List.getElem?_eq_some_iff.mp found
    exact ⟨_, joined i (sameLength ▸ inside) inside, or_ne_zero (Or.inr nonzero)⟩

/-! ### Scaled numbers -/

theorem beNat_eq_zero_iff (bytes : List UInt8) : beNat bytes = 0 ↔ ∀ byte ∈ bytes, byte = 0 := by
  constructor
  · intro zero byte member
    have same : bytes = List.replicate bytes.length 0 :=
      beNat_inj (by simp) (by rw [zero, beNat_replicate_zero])
    rw [same] at member
    exact List.eq_of_mem_replicate member
  · intro zeros
    rw [List.eq_replicate_of_mem zeros, beNat_replicate_zero]

theorem exists_ne_zero_iff (bytes : List UInt8) :
    (∃ byte ∈ bytes, byte ≠ 0) ↔ beNat bytes ≠ 0 := by
  rw [ne_eq, beNat_eq_zero_iff]
  push Not
  rfl

/-- A scaled value is below a bound when the value is below the bound scaled down and rounded
up. -/
theorem mul_lt_iff {value bound scale : Nat} (positive : 0 < scale) :
    value * scale < bound ↔ value < bound / scale + if bound % scale ≠ 0 then 1 else 0 := by
  have split := Nat.div_add_mod bound scale
  have small := Nat.mod_lt bound positive
  generalize bound / scale = high at *
  generalize bound % scale = low at *
  subst split
  rw [Nat.mul_comm scale]
  by_cases exact' : low = 0
  · rw [exact', if_neg (not_not.mpr rfl), Nat.add_zero, Nat.add_zero]
    exact Nat.mul_lt_mul_right positive
  · rw [if_pos exact', Nat.lt_succ_iff]
    constructor
    · intro less
      by_contra above
      have scaled := Nat.mul_le_mul_right scale (Nat.succ_le_of_lt (Nat.not_le.mp above))
      rw [Nat.succ_mul] at scaled
      omega
    · intro least
      have scaled := Nat.mul_le_mul_right scale least
      omega

theorem mul_eq_iff {value bound scale : Nat} (positive : 0 < scale) :
    value * scale = bound ↔ bound % scale = 0 ∧ value = bound / scale := by
  constructor
  · rintro rfl
    exact ⟨Nat.mul_mod_left _ _, (Nat.mul_div_cancel _ positive).symm⟩
  · rintro ⟨divides, rfl⟩
    exact Nat.div_mul_cancel (Nat.dvd_of_mod_eq_zero divides)

end ByteList
