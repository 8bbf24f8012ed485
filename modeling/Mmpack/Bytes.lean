/-
This file is a small library of byte strings, kept as lists. It names nothing of
the image format: it reads and writes fixed-width integers in both byte orders,
cuts slices out of a string, overwrites a stretch of a buffer, and says where a
block of bytes lies inside a longer string.

The last notion, `Holds`, is what a writer that only ever appends establishes
about each block the moment it is emitted, and what a reader needs about that
block at the end. It is kept by every later append, so the two never have to
agree on the shape of the whole string.
-/

import Mathlib.Data.List.Basic
import Mathlib.Tactic.Ring
import Mathlib.Tactic.Linarith

namespace ByteList

/-! ### Integers of a given width -/

/-- The value of a byte string read least significant byte first. -/
def leNat : List UInt8 → Nat
  | [] => 0
  | byte :: rest => byte.toNat + 256 * leNat rest

/-- The low `width` bytes of a value, least significant byte first. -/
def leBytes : Nat → Nat → List UInt8
  | 0, _ => []
  | width + 1, value => UInt8.ofNat value :: leBytes width (value / 256)

/-- The value of a byte string read most significant byte first. -/
def beNat : List UInt8 → Nat
  | [] => 0
  | byte :: rest => byte.toNat * 256 ^ rest.length + beNat rest

@[simp] theorem leBytes_length (width value : Nat) : (leBytes width value).length = width := by
  induction width generalizing value with
  | zero => rfl
  | succ width inductionHypothesis => rw [leBytes, List.length_cons, inductionHypothesis]

theorem leNat_lt (bytes : List UInt8) : leNat bytes < 256 ^ bytes.length := by
  induction bytes with
  | nil => decide
  | cons byte rest inductionHypothesis =>
    have small := byte.toNat_lt
    rw [leNat, List.length_cons, Nat.pow_succ]
    omega

theorem beNat_lt (bytes : List UInt8) : beNat bytes < 256 ^ bytes.length := by
  induction bytes with
  | nil => decide
  | cons byte rest inductionHypothesis =>
    have small : byte.toNat + 1 ≤ 256 := byte.toNat_lt
    have scaled := Nat.mul_le_mul_right (256 ^ rest.length) small
    rw [beNat, List.length_cons, Nat.pow_succ]
    rw [Nat.add_mul, Nat.one_mul] at scaled
    omega

/-- Reading back a stored integer keeps exactly its low bytes. -/
theorem leNat_leBytes (width value : Nat) : leNat (leBytes width value) = value % 256 ^ width := by
  induction width generalizing value with
  | zero => simp only [leBytes, leNat, Nat.pow_zero, Nat.mod_one]
  | succ width inductionHypothesis =>
    have low : (UInt8.ofNat value).toNat = value % 256 := UInt8.toNat_ofNat'
    rw [leBytes, leNat, inductionHypothesis, low, Nat.pow_succ', Nat.mod_mul]

theorem leNat_leBytes_of_lt {width value : Nat} (fits : value < 256 ^ width) :
    leNat (leBytes width value) = value := by
  rw [leNat_leBytes, Nat.mod_eq_of_lt fits]

/-- Storing the value of a string in its own width gives the string back. -/
theorem leBytes_leNat (bytes : List UInt8) : leBytes bytes.length (leNat bytes) = bytes := by
  induction bytes with
  | nil => rfl
  | cons byte rest inductionHypothesis =>
    have small := byte.toNat_lt
    have low : UInt8.ofNat (byte.toNat + 256 * leNat rest) = byte := by
      apply UInt8.toNat_inj.mp
      rw [UInt8.toNat_ofNat']
      omega
    have high : (byte.toNat + 256 * leNat rest) / 256 = leNat rest := by omega
    rw [List.length_cons, leNat, leBytes, low, high, inductionHypothesis]

theorem leNat_append (first second : List UInt8) :
    leNat (first ++ second) = leNat first + 256 ^ first.length * leNat second := by
  induction first with
  | nil => simp only [List.nil_append, leNat, List.length_nil, Nat.pow_zero, Nat.one_mul,
      Nat.zero_add]
  | cons byte rest inductionHypothesis =>
    rw [List.cons_append, leNat, leNat, inductionHypothesis, List.length_cons, Nat.pow_succ]
    ring

theorem beNat_append (first second : List UInt8) :
    beNat (first ++ second) = beNat first * 256 ^ second.length + beNat second := by
  induction first with
  | nil => simp only [List.nil_append, beNat, Nat.zero_mul, Nat.zero_add]
  | cons byte rest inductionHypothesis =>
    rw [List.cons_append, beNat, beNat, inductionHypothesis, List.length_append, Nat.pow_add]
    ring

/-- A big-endian integer is a little-endian one read from the other end. -/
theorem beNat_reverse (bytes : List UInt8) : beNat bytes.reverse = leNat bytes := by
  induction bytes with
  | nil => rfl
  | cons byte rest inductionHypothesis =>
    rw [List.reverse_cons, beNat_append, inductionHypothesis, leNat]
    simp [beNat]
    ring

/-- The low bytes of a little-endian integer are its residue. -/
theorem leNat_take (bytes : List UInt8) (width : Nat) :
    leNat (bytes.take width) = leNat bytes % 256 ^ width := by
  rcases Nat.le_total width bytes.length with short | long
  · have split := leNat_append (bytes.take width) (bytes.drop width)
    have bound := leNat_lt (bytes.take width)
    rw [List.take_append_drop, List.length_take_of_le short] at split
    rw [List.length_take_of_le short] at bound
    rw [split, Nat.add_mul_mod_self_left, Nat.mod_eq_of_lt bound]
  · have bound : leNat bytes < 256 ^ width :=
      lt_of_lt_of_le (leNat_lt bytes) (Nat.pow_le_pow_right (by decide) long)
    rw [List.take_of_length_le long, Nat.mod_eq_of_lt bound]

/-- Dropping the low bytes of a little-endian integer shifts it down. -/
theorem leNat_drop (bytes : List UInt8) (skip : Nat) :
    leNat (bytes.drop skip) = leNat bytes / 256 ^ skip := by
  rcases Nat.le_total skip bytes.length with short | long
  · have split := leNat_append (bytes.take skip) (bytes.drop skip)
    have bound := leNat_lt (bytes.take skip)
    rw [List.take_append_drop, List.length_take_of_le short] at split
    rw [List.length_take_of_le short] at bound
    rw [split, Nat.add_mul_div_left _ _ (Nat.pow_pos (by decide)), Nat.div_eq_of_lt bound,
      Nat.zero_add]
  · have bound : leNat bytes < 256 ^ skip :=
      lt_of_lt_of_le (leNat_lt bytes) (Nat.pow_le_pow_right (by decide) long)
    rw [List.drop_eq_nil_of_le long, Nat.div_eq_of_lt bound, leNat]

theorem leNat_inj {first second : List UInt8} (sameLength : first.length = second.length)
    (same : leNat first = leNat second) : first = second := by
  rw [← leBytes_leNat first, ← leBytes_leNat second, sameLength, same]

@[simp] theorem leNat_replicate_zero (count : Nat) : leNat (List.replicate count 0) = 0 := by
  induction count with
  | zero => rfl
  | succ count inductionHypothesis =>
    rw [List.replicate_succ, leNat, inductionHypothesis]
    rfl

theorem beNat_replicate_zero (count : Nat) : beNat (List.replicate count 0) = 0 := by
  induction count with
  | zero => rfl
  | succ count inductionHypothesis =>
    rw [List.replicate_succ, beNat, inductionHypothesis]
    simp

theorem leBytes_zero (width : Nat) : leBytes width 0 = List.replicate width 0 := by
  refine leNat_inj (by simp) ?_
  rw [leNat_leBytes, leNat_replicate_zero, Nat.zero_mod]

theorem beNat_inj {first second : List UInt8} (sameLength : first.length = second.length)
    (same : beNat first = beNat second) : first = second := by
  induction first generalizing second with
  | nil => exact (List.length_eq_zero_iff.mp sameLength.symm).symm
  | cons byte rest inductionHypothesis =>
    obtain _ | ⟨byte', rest'⟩ := second
    · simp at sameLength
    have lengths : rest.length = rest'.length := by simpa using sameLength
    have firstLow := beNat_lt rest
    have secondLow := beNat_lt rest'
    rw [beNat, beNat, lengths] at same
    rw [lengths] at firstLow
    have heads : byte.toNat = byte'.toNat := by
      have quotient := congrArg (· / 256 ^ rest'.length) same
      simp only [Nat.mul_comm _ (256 ^ rest'.length)] at quotient
      rwa [Nat.mul_add_div (by positivity), Nat.mul_add_div (by positivity),
        Nat.div_eq_of_lt firstLow, Nat.div_eq_of_lt secondLow] at quotient
    rw [heads] at same
    rw [UInt8.toNat_inj.mp heads, inductionHypothesis lengths (Nat.add_left_cancel same)]

/-- Between strings of one length the lexicographic order is the big-endian one. -/
theorem lt_iff_beNat_lt {first second : List UInt8} (sameLength : first.length = second.length) :
    first < second ↔ beNat first < beNat second := by
  induction first generalizing second with
  | nil =>
    rw [List.length_eq_zero_iff.mp sameLength.symm]
    simp [beNat]
  | cons byte rest inductionHypothesis =>
    obtain _ | ⟨byte', rest'⟩ := second
    · simp at sameLength
    have lengths : rest.length = rest'.length := by simpa using sameLength
    have firstLow := beNat_lt rest
    have secondLow := beNat_lt rest'
    rw [lengths] at firstLow
    rw [List.cons_lt_cons_iff, inductionHypothesis lengths, beNat, beNat, lengths,
      UInt8.lt_iff_toNat_lt]
    constructor
    · rintro (less | ⟨rfl, less⟩)
      · have scaled := Nat.mul_le_mul_right (256 ^ rest'.length) (Nat.succ_le_of_lt less)
        rw [Nat.succ_mul] at scaled
        omega
      · omega
    · intro less
      rcases Nat.lt_trichotomy byte.toNat byte'.toNat with lower | same | higher
      · exact Or.inl lower
      · exact Or.inr ⟨UInt8.toNat_inj.mp same, by rw [same] at less; omega⟩
      · have scaled := Nat.mul_le_mul_right (256 ^ rest'.length) (Nat.succ_le_of_lt higher)
        rw [Nat.succ_mul] at scaled
        omega

/-- Between strings of one length the little-endian order is the lexicographic one from the last
byte. -/
theorem reverse_lt_iff_leNat_lt {first second : List UInt8}
    (sameLength : first.length = second.length) :
    first.reverse < second.reverse ↔ leNat first < leNat second := by
  rw [lt_iff_beNat_lt (by rw [List.length_reverse, List.length_reverse, sameLength]),
    beNat_reverse, beNat_reverse]

/-! ### Byte-wise comparison -/

/-- The sign `memcmp` reports: the first differing byte decides. -/
def memcmp : List UInt8 → List UInt8 → Int
  | byte :: rest, byte' :: rest' =>
    if byte < byte' then -1 else if byte' < byte then 1 else memcmp rest rest'
  | _, _ => 0

/-- On strings of one length `memcmp` is the comparison of their big-endian values. -/
theorem memcmp_eq {first second : List UInt8} (sameLength : first.length = second.length) :
    memcmp first second =
      if beNat first < beNat second then -1 else if beNat second < beNat first then 1 else 0 := by
  induction first generalizing second with
  | nil =>
    rw [List.length_eq_zero_iff.mp sameLength.symm]
    simp [memcmp]
  | cons byte rest inductionHypothesis =>
    obtain _ | ⟨byte', rest'⟩ := second
    · simp at sameLength
    have lengths : rest.length = rest'.length := by simpa using sameLength
    have forward : byte :: rest < byte' :: rest' ↔ _ := lt_iff_beNat_lt sameLength
    have backward : byte' :: rest' < byte :: rest ↔ _ := lt_iff_beNat_lt sameLength.symm
    rw [List.cons_lt_cons_iff, lt_iff_beNat_lt lengths] at forward
    rw [List.cons_lt_cons_iff, lt_iff_beNat_lt lengths.symm] at backward
    simp only [← forward, ← backward]
    rw [memcmp, inductionHypothesis lengths]
    rcases Nat.lt_trichotomy byte.toNat byte'.toNat with lower | same | higher
    · rw [if_pos (UInt8.lt_iff_toNat_lt.mpr lower),
        if_pos (Or.inl (UInt8.lt_iff_toNat_lt.mpr lower))]
    · obtain rfl := UInt8.toNat_inj.mp same
      simp only [UInt8.lt_irrefl, if_false, false_or, true_and]
    · have notLower : ¬ byte < byte' := by rw [UInt8.lt_iff_toNat_lt]; omega
      have different : byte ≠ byte' := by rintro rfl; omega
      rw [if_neg notLower, if_pos (UInt8.lt_iff_toNat_lt.mpr higher),
        if_neg (by rintro (less | ⟨equal, -⟩); exacts [notLower less, different equal]),
        if_pos (Or.inl (UInt8.lt_iff_toNat_lt.mpr higher))]

theorem memcmp_lt_zero {first second : List UInt8} (sameLength : first.length = second.length) :
    memcmp first second < 0 ↔ beNat first < beNat second := by
  rw [memcmp_eq sameLength]
  split_ifs <;> simp_all

theorem memcmp_lt_one {first second : List UInt8} (sameLength : first.length = second.length) :
    memcmp first second < 1 ↔ beNat first ≤ beNat second := by
  rw [memcmp_eq sameLength]
  split_ifs <;> simp <;> omega

theorem memcmp_eq_zero {first second : List UInt8} (sameLength : first.length = second.length) :
    memcmp first second = 0 ↔ first = second := by
  constructor
  · intro zero
    rw [memcmp_eq sameLength] at zero
    refine beNat_inj sameLength ?_
    split_ifs at zero <;> omega
  · rintro rfl
    rw [memcmp_eq rfl, if_neg (Nat.lt_irrefl _), if_neg (Nat.lt_irrefl _)]

end ByteList
