/-
This file embeds `detail/bits.hpp`: loads and stores of integers at a width known
only at run time, the two rules that choose a width for a value, and the masks of
the over-wide loads.

Loads address a region by offset, the region being the mapped image. A load is a
`Read`, which faults when it leaves the region.
-/

import Mmpack.Checked
import Mathlib.Tactic.IntervalCases

namespace Mmpack

open ByteList Checked

/-! ### Loads and stores -/

/-- `load<T>` of a `size`-byte unsigned integer. -/
def load (region : List UInt8) (position size : Nat) : Read Nat := do
  return leNat (← readBytes region position size)

/-- The number of bytes a runtime-width access touches. The switch of the source lists 1, 2, 4
and 8, its default case copies `width` bytes, capped at eight. -/
def accessWidth (width : Nat) : Nat := if 8 < width then 8 else width

def loadUint (region : List UInt8) (position width : Nat) : Read Nat :=
  load region position (accessWidth width)

/-- `store_uint`: the low bytes of the value land at `position` of the buffer. -/
def storeUint (buffer : List UInt8) (position width value : Nat) : List UInt8 :=
  overwrite buffer position (leBytes (accessWidth width) value)

/-- Mask selecting the low `width` bytes. -/
def maskForWidth (width : Nat) : Nat :=
  if 8 ≤ width then 2 ^ 64 - 1 else 2 ^ (8 * width) - 1

/-- One wide load plus a mask: eight bytes are read whatever the width. -/
def loadUintMasked (region : List UInt8) (position mask : Nat) : Read Nat := do
  return (← load region position 8) &&& mask

/-- The value a load yields when it stays inside the region. -/
def valueAt (region : List UInt8) (position size : Nat) : Nat := leNat (slice region position size)

theorem load_eq {region : List UInt8} {position size : Nat}
    (within : position + size ≤ region.length) :
    load region position size = .ok (valueAt region position size) := by
  rw [load, readBytes_eq within]
  rfl

theorem loadUint_eq {region : List UInt8} {position width : Nat} (narrow : width ≤ 8)
    (within : position + width ≤ region.length) :
    loadUint region position width = .ok (valueAt region position width) := by
  have access : accessWidth width = width := if_neg (by omega)
  rw [loadUint, access, load_eq within]

/-- A value is bounded by its width even where the region ends early. -/
theorem valueAt_lt (region : List UInt8) (position size : Nat) :
    valueAt region position size < 256 ^ size := by
  refine lt_of_lt_of_le (leNat_lt _) (Nat.pow_le_pow_right (by decide) ?_)
  rw [slice, List.length_take]
  omega

theorem pow_256 (width : Nat) : 256 ^ width = 2 ^ (8 * width) := by
  rw [Nat.pow_mul]

/-- The masked wide load reads the same value as an exact one, as long as eight bytes are
there to be read. -/
theorem loadUintMasked_eq {region : List UInt8} {position width : Nat} (narrow : width ≤ 8)
    (within : position + 8 ≤ region.length) :
    loadUintMasked region position (maskForWidth width) =
      .ok (valueAt region position width) := by
  rw [loadUintMasked, load_eq within, ok_bind]
  refine congrArg Except.ok ?_
  have low : valueAt region position width = valueAt region position 8 % 256 ^ width := by
    have cut : slice region position width = (slice region position 8).take width := by
      rw [slice, slice, List.take_take, Nat.min_eq_left narrow]
    rw [valueAt, cut, leNat_take, valueAt]
  rw [low]
  by_cases full : 8 ≤ width
  · obtain rfl : width = 8 := by omega
    rw [maskForWidth, if_pos full, Nat.and_two_pow_sub_one_eq_mod]
    rfl
  · rw [maskForWidth, if_neg full, Nat.and_two_pow_sub_one_eq_mod, pow_256]

/-! ### Structures of fixed-width fields -/

/-- Fields laid end to end, each a width and a value. -/
def pack : List (Nat × Nat) → List UInt8
  | [] => []
  | (width, value) :: rest => leBytes width value ++ pack rest

@[simp] theorem pack_nil : pack [] = [] := rfl

@[simp] theorem pack_cons (width value : Nat) (rest : List (Nat × Nat)) :
    pack ((width, value) :: rest) = leBytes width value ++ pack rest := rfl

theorem valueAt_append_skip {first rest : List UInt8} {position size : Nat}
    (past : first.length ≤ position) :
    valueAt (first ++ rest) position size = valueAt rest (position - first.length) size := by
  obtain ⟨inner, rfl⟩ := Nat.exists_eq_add_of_le past
  rw [valueAt, slice_append_right, Nat.add_sub_cancel_left, valueAt]

theorem valueAt_leBytes_append (width value : Nat) (rest : List UInt8) :
    valueAt (leBytes width value ++ rest) 0 width = value % 256 ^ width := by
  have cut : slice (leBytes width value ++ rest) 0 width = leBytes width value := by
    rw [slice_append_left (by simp)]
    have whole := slice_zero_length (leBytes width value)
    rwa [leBytes_length] at whole
  rw [valueAt, cut, leNat_leBytes]

theorem valueAt_leBytes (width value : Nat) :
    valueAt (leBytes width value) 0 width = value % 256 ^ width := by
  have appended := valueAt_leBytes_append width value []
  rwa [List.append_nil] at appended

/-- A stored integer is read back at the place that holds it. -/
theorem valueAt_of_holds {region : List UInt8} {position width value : Nat}
    (holds : Holds region position (leBytes width value)) :
    valueAt region position width = value % 256 ^ width := by
  have cut := holds.slice_eq
  rw [leBytes_length] at cut
  rw [valueAt, cut, leNat_leBytes]

theorem valueAt_of_holds_of_lt {region : List UInt8} {position width value : Nat}
    (holds : Holds region position (leBytes width value)) (fits : value < 256 ^ width) :
    valueAt region position width = value := by
  rw [valueAt_of_holds holds, Nat.mod_eq_of_lt fits]

/-- Read a structure of `size` bytes and take it apart. -/
def loadStruct {Struct : Type} (parse : List UInt8 → Struct) (size : Nat) (region : List UInt8)
    (position : Nat) : Read Struct := do
  return parse (← readBytes region position size)

theorem loadStruct_eq {Struct : Type} (parse : List UInt8 → Struct) {size : Nat}
    {region : List UInt8} {position : Nat} (within : position + size ≤ region.length) :
    loadStruct parse size region position = .ok (parse (slice region position size)) := by
  rw [loadStruct, readBytes_eq within]
  rfl

/-! ### Choosing a width -/

/-- Exact bytes needed to hold `maxValue`, 1 to 8. `width` counts up from 1 while the rest of
the value does not fit. -/
def exactWidthFrom (maxValue : Nat) : Nat → Nat → Nat
  | 0, width => width
  | steps + 1, width =>
    if maxValue >>> (8 * width) ≠ 0 then exactWidthFrom maxValue steps (width + 1) else width

def exactWidthFor (maxValue : Nat) : Nat := exactWidthFrom maxValue 7 1

/-- Narrowest of 1, 2, 4, 8 that holds `maxValue`. -/
def widthFor (maxValue : Nat) : Nat :=
  if maxValue ≤ 0xff then 1
  else if maxValue ≤ 0xffff then 2
  else if maxValue ≤ 0xffffffff then 4
  else 8

def isValidWidth (width : Nat) : Bool := width == 1 || width == 2 || width == 4 || width == 8

theorem isValidWidth_iff (width : Nat) :
    isValidWidth width = true ↔ width = 1 ∨ width = 2 ∨ width = 4 ∨ width = 8 := by
  simp only [isValidWidth, Bool.or_eq_true, beq_iff_eq, or_assoc]

theorem isValidWidth_pos {width : Nat} (valid : isValidWidth width = true) : 0 < width := by
  rw [isValidWidth_iff] at valid
  omega

theorem isValidWidth_le {width : Nat} (valid : isValidWidth width = true) : width ≤ 8 := by
  rw [isValidWidth_iff] at valid
  omega

theorem widthFor_cases (maxValue : Nat) :
    widthFor maxValue = 1 ∨ widthFor maxValue = 2 ∨ widthFor maxValue = 4 ∨
      widthFor maxValue = 8 := by
  unfold widthFor
  split_ifs <;> simp

theorem widthFor_valid (maxValue : Nat) : isValidWidth (widthFor maxValue) = true :=
  (isValidWidth_iff _).mpr (widthFor_cases maxValue)

theorem widthFor_pos (maxValue : Nat) : 0 < widthFor maxValue :=
  isValidWidth_pos (widthFor_valid maxValue)

theorem widthFor_le (maxValue : Nat) : widthFor maxValue ≤ 8 :=
  isValidWidth_le (widthFor_valid maxValue)

/-- A 64-bit value fits the width chosen for anything at least as large. -/
theorem lt_pow_widthFor {value maxValue : Nat} (below : value ≤ maxValue)
    (bound : maxValue < 2 ^ 64) : value < 256 ^ widthFor maxValue := by
  unfold widthFor
  split_ifs <;> norm_num <;> omega

theorem exactWidthFrom_ge (maxValue steps width : Nat) :
    width ≤ exactWidthFrom maxValue steps width := by
  induction steps generalizing width with
  | zero => exact Nat.le_refl _
  | succ steps inductionHypothesis =>
    rw [exactWidthFrom]
    split
    · exact Nat.le_trans (Nat.le_succ _) (inductionHypothesis (width + 1))
    · exact Nat.le_refl _

theorem exactWidthFrom_le (maxValue steps width : Nat) :
    exactWidthFrom maxValue steps width ≤ width + steps := by
  induction steps generalizing width with
  | zero => exact Nat.le_refl _
  | succ steps inductionHypothesis =>
    rw [exactWidthFrom]
    split
    · exact Nat.le_trans (inductionHypothesis (width + 1)) (by omega)
    · omega

theorem lt_pow_exactWidthFrom (maxValue steps width : Nat)
    (bound : maxValue < 256 ^ (width + steps)) :
    maxValue < 256 ^ exactWidthFrom maxValue steps width := by
  induction steps generalizing width with
  | zero => exact bound
  | succ steps inductionHypothesis =>
    rw [exactWidthFrom]
    split
    · exact inductionHypothesis (width + 1) (by rwa [Nat.succ_add_eq_add_succ])
    · rename_i done
      rw [not_not, Nat.shiftRight_eq_div_pow, ← pow_256] at done
      exact Nat.lt_of_div_eq_zero (by positivity) done

/-- Any width that holds the value is at least the one found, unless it is below the start. -/
theorem exactWidthFrom_least {maxValue steps width other : Nat} (from_width : width ≤ other)
    (holds : maxValue < 256 ^ other) : exactWidthFrom maxValue steps width ≤ other := by
  induction steps generalizing width with
  | zero => exact from_width
  | succ steps inductionHypothesis =>
    rw [exactWidthFrom]
    split
    · rename_i more
      refine inductionHypothesis (Nat.lt_of_le_of_ne from_width ?_)
      rintro rfl
      rw [Nat.shiftRight_eq_div_pow, ← pow_256] at more
      exact more (Nat.div_eq_of_lt holds)
    · exact from_width

theorem exactWidthFor_pos (maxValue : Nat) : 0 < exactWidthFor maxValue :=
  exactWidthFrom_ge maxValue 7 1

theorem exactWidthFor_le (maxValue : Nat) : exactWidthFor maxValue ≤ 8 :=
  exactWidthFrom_le maxValue 7 1

theorem lt_pow_exactWidthFor {maxValue : Nat} (bound : maxValue < 2 ^ 64) :
    maxValue < 256 ^ exactWidthFor maxValue :=
  lt_pow_exactWidthFrom maxValue 7 1 (by norm_num; omega)

theorem exactWidthFor_least {maxValue width : Nat} (positive : 0 < width)
    (holds : maxValue < 256 ^ width) : exactWidthFor maxValue ≤ width :=
  exactWidthFrom_least positive holds

/-! ### Alignment -/

/-- `(v + (a - 1)) & ~(a - 1)` in 64 bits. -/
def alignUp (value alignment : Nat) : Nat :=
  (value + (alignment - 1)) % 2 ^ 64 &&& (2 ^ 64 - 1 - (alignment - 1))

/-- Rounding by a mask works within one group of eight: the group is the one the sum falls in,
and the place inside it is masked. -/
theorem alignUp_eq {value alignment : Nat} (positive : 0 < alignment) (small : alignment ≤ 8)
    (bound : value + 8 ≤ 2 ^ 64) :
    alignUp value alignment =
      8 * ((value + (alignment - 1)) / 8) +
        ((value + (alignment - 1)) % 8 &&& (8 - alignment)) := by
  have noWrap : (value + (alignment - 1)) % 2 ^ 64 = value + (alignment - 1) :=
    Nat.mod_eq_of_lt (by omega)
  rw [alignUp, noWrap]
  generalize sum : value + (alignment - 1) = total
  have totalBound : total < 2 ^ 64 := by omega
  have high : (total &&& (2 ^ 64 - 1 - (alignment - 1))) / 8 = total / 8 := by
    have group : (2 ^ 64 - 1 - (alignment - 1)) / 2 ^ 3 = 2 ^ 61 - 1 := by omega
    rw [show (8 : Nat) = 2 ^ 3 from rfl, Nat.and_div_two_pow, group,
      Nat.and_two_pow_sub_one_eq_mod, Nat.mod_eq_of_lt (by omega)]
  have low : (total &&& (2 ^ 64 - 1 - (alignment - 1))) % 8 = total % 8 &&& (8 - alignment) := by
    have place : (2 ^ 64 - 1 - (alignment - 1)) % 2 ^ 3 = 8 - alignment := by omega
    rw [show (8 : Nat) = 2 ^ 3 from rfl, Nat.and_mod_two_pow, place]
    rfl
  rw [← high, ← low]
  exact (Nat.div_add_mod _ 8).symm

/-- The place inside a group loses at most the mask. -/
theorem sub_le_and_mask {place alignment : Nat} (inGroup : place < 8) (positive : 0 < alignment)
    (small : alignment ≤ 8) : place ≤ (place &&& (8 - alignment)) + (alignment - 1) := by
  have finite : ∀ place : Fin 8, ∀ alignment : Fin 9, 0 < alignment.val →
      place.val ≤ (place.val &&& (8 - alignment.val)) + (alignment.val - 1) := by decide
  exact finite ⟨place, inGroup⟩ ⟨alignment, by omega⟩ positive

theorem le_alignUp {value alignment : Nat} (positive : 0 < alignment) (small : alignment ≤ 8)
    (bound : value + 8 ≤ 2 ^ 64) : value ≤ alignUp value alignment := by
  have place := sub_le_and_mask (Nat.mod_lt (value + (alignment - 1)) (by decide : 0 < 8))
    positive small
  rw [alignUp_eq positive small bound]
  omega

/-- An aligned field of at most eight bytes ends inside its group of eight. -/
theorem alignUp_add_le {value alignment : Nat} (positive : 0 < alignment) (small : alignment ≤ 8)
    (bound : value + 8 ≤ 2 ^ 64) :
    alignUp value alignment + alignment ≤ 8 * ((value + (alignment - 1)) / 8) + 8 := by
  have place : (value + (alignment - 1)) % 8 &&& (8 - alignment) ≤ 8 - alignment :=
    Nat.and_le_right
  rw [alignUp_eq positive small bound]
  omega

theorem alignUp_le (value alignment : Nat) :
    alignUp value alignment ≤ value + (alignment - 1) :=
  le_trans Nat.and_le_left (Nat.mod_le _ _)

theorem alignUp_eight {value : Nat} (bound : value + 8 ≤ 2 ^ 64) :
    alignUp value 8 = 8 * ((value + 7) / 8) := by
  rw [alignUp_eq (by decide) (by decide) bound]
  simp

end Mmpack
