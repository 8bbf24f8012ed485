/-
This file follows a value tuple into its bytes. Fields are placed one after the
other, in 32 bits; while the tuple is shorter than 4 GiB no two fields meet, and
each is found again where it was stored. A schema that passes the validator is
never one whose tuple wrapped around.
-/

import Mmpack.Finished

namespace Mmpack

open ByteList

/-! ### Places -/

/-- Where a field starts, in natural numbers. -/
def fieldStart (align : Bool) (offset width : Nat) : Nat :=
  if align then alignUp offset width else offset

/-- Where a tuple ends, in natural numbers. -/
def tupleEnd (align : Bool) : Nat → List FieldDesc → Nat
  | offset, [] => offset
  | offset, d :: rest => tupleEnd align (fieldStart align offset d.width + d.width) rest

/-- Every field has one to eight bytes. -/
def Narrow (descs : List FieldDesc) : Prop := ∀ d ∈ descs, 0 < d.width ∧ d.width ≤ 8

section Places

variable {align : Bool} {offset : Nat} {d : FieldDesc} {descs rest : List FieldDesc}

theorem Narrow.head (narrow : Narrow (d :: rest)) : 0 < d.width ∧ d.width ≤ 8 :=
  narrow d List.mem_cons_self

theorem Narrow.tail (narrow : Narrow (d :: rest)) : Narrow rest :=
  fun other member => narrow other (List.mem_cons_of_mem _ member)

theorem Narrow.positive (narrow : Narrow descs) : ∀ d ∈ descs, 0 < d.width :=
  fun d member => (narrow d member).1

/-- A field starts at or just after the end of the one before. -/
theorem fieldStart_spec (align : Bool) (offset : Nat) {width : Nat} (positive : 0 < width)
    (small : width ≤ 8) (bound : offset + 8 ≤ 2 ^ 64) :
    offset ≤ fieldStart align offset width ∧ fieldStart align offset width < offset + 8 ∧
      fieldStart align offset width + width ≤ 8 * ((offset + 7) / 8) + 8 := by
  unfold fieldStart
  split
  · have low := le_alignUp positive small bound
    have high := alignUp_add_le positive small bound
    have group : (offset + (width - 1)) / 8 ≤ (offset + 7) / 8 := Nat.div_le_div_right (by omega)
    refine ⟨low, ?_, by omega⟩
    have place : (offset + (width - 1)) % 8 &&& (8 - width) ≤ (offset + (width - 1)) % 8 :=
      Nat.and_le_left
    rw [alignUp_eq positive small bound]
    omega
  · omega

/-- A start below 4 GiB is the one `placeFields` takes. -/
theorem start_eq {width : Nat} (start : fieldStart align offset width < 2 ^ 32) :
    (if align then alignUp offset width % 2 ^ 32 else offset) =
      fieldStart align offset width := by
  unfold fieldStart at start ⊢
  split
  · rename_i aligned
    rw [if_pos aligned] at start
    exact Nat.mod_eq_of_lt start
  · rfl

/-- Placing does not notice whole multiples of 4 GiB. -/
theorem fieldStart_mod (align : Bool) (offset : Nat) {width : Nat} (positive : 0 < width)
    (small : width ≤ 8) (bound : offset + 8 ≤ 2 ^ 64) :
    fieldStart align (offset % 2 ^ 32) width % 2 ^ 32 = fieldStart align offset width % 2 ^ 32 := by
  unfold fieldStart
  split
  · rw [alignUp_eq positive small bound, alignUp_eq positive small (by omega)]
    have place : (offset % 2 ^ 32 + (width - 1)) % 8 = (offset + (width - 1)) % 8 := by omega
    rw [place]
    generalize (offset + (width - 1)) % 8 &&& (8 - width) = low
    omega
  · exact Nat.mod_mod _ _

theorem le_tupleEnd (align : Bool) (offset : Nat) (narrow : Narrow descs)
    (bound : offset + 8 * descs.length + 16 ≤ 2 ^ 64) :
    offset ≤ tupleEnd align offset descs ∧
      tupleEnd align offset descs ≤ 8 * ((offset + 7) / 8) + 8 * descs.length := by
  induction descs generalizing offset with
  | nil => exact ⟨Nat.le_refl _, by simp only [tupleEnd, List.length_nil]; omega⟩
  | cons d rest inductionHypothesis =>
    obtain ⟨positive, small⟩ := narrow.head
    rw [List.length_cons] at bound ⊢
    obtain ⟨low, -, high⟩ := fieldStart_spec align offset positive small (by omega)
    obtain ⟨restLow, restHigh⟩ := inductionHypothesis
      (fieldStart align offset d.width + d.width) narrow.tail (by omega)
    rw [tupleEnd]
    omega

/-- From a 32-bit offset on, a field is placed where it starts, cut to 32 bits. -/
theorem placeFields_cons (align : Bool) (offset : Nat) (positive : 0 < d.width)
    (small : d.width ≤ 8) (bound : offset + 8 ≤ 2 ^ 64) :
    placeFields align (offset % 2 ^ 32) (d :: rest) =
      ({ d with offset := fieldStart align offset d.width % 2 ^ 32 } ::
        (placeFields align ((fieldStart align offset d.width + d.width) % 2 ^ 32) rest).1,
        (placeFields align ((fieldStart align offset d.width + d.width) % 2 ^ 32) rest).2) := by
  have start : (if align then alignUp (offset % 2 ^ 32) d.width % 2 ^ 32 else offset % 2 ^ 32) =
      fieldStart align offset d.width % 2 ^ 32 := by
    rw [← fieldStart_mod align offset positive small bound]
    unfold fieldStart
    split
    · rfl
    · exact (Nat.mod_mod _ _).symm
  simp only [placeFields, start, Nat.mod_add_mod]

/-- The 32-bit end of a tuple. -/
theorem placeFields_snd (align : Bool) (offset : Nat) (narrow : Narrow descs)
    (bound : offset + 8 * descs.length + 16 ≤ 2 ^ 64) :
    (placeFields align (offset % 2 ^ 32) descs).2 = tupleEnd align offset descs % 2 ^ 32 := by
  induction descs generalizing offset with
  | nil => rfl
  | cons d rest inductionHypothesis =>
    obtain ⟨positive, small⟩ := narrow.head
    rw [List.length_cons] at bound
    obtain ⟨-, -, high⟩ := fieldStart_spec align offset positive small (by omega)
    rw [placeFields_cons align offset positive small (by omega), tupleEnd]
    exact inductionHypothesis _ narrow.tail (by omega)

/-- Placing changes no width. -/
theorem placeFields_widths (align : Bool) (start : Nat) (descs : List FieldDesc) :
    (placeFields align start descs).1.map (·.width) = descs.map (·.width) := by
  induction descs generalizing start with
  | nil => rfl
  | cons d rest inductionHypothesis =>
    rw [placeFields, List.map_cons, List.map_cons, inductionHypothesis]

theorem Narrow.placed (narrow : Narrow descs) (align : Bool) (start : Nat) :
    Narrow (placeFields align start descs).1 := by
  intro d member
  have width : d.width ∈ descs.map (·.width) := by
    rw [← placeFields_widths align start]
    exact List.mem_map_of_mem member
  obtain ⟨original, inside, same⟩ := List.mem_map.mp width
  rw [← same]
  exact narrow original inside

/-- Every placed field lies before the end of the tuple, which itself is a 32-bit number. -/
def InTuple (placed : List FieldDesc) (stride : Nat) : Prop :=
  ∀ d ∈ placed, d.offset + d.width ≤ stride

/-- A tuple that wrapped around has a field past its end. -/
theorem tupleEnd_lt (narrow : Narrow descs) (bound : offset < 2 ^ 32)
    (few : tupleEnd align offset descs < 2 ^ 33 - 16)
    (room : 8 * descs.length + 16 ≤ 2 ^ 63)
    (before : offset ≤ tupleEnd align offset descs % 2 ^ 32)
    (inside : InTuple (placeFields align offset descs).1
      (tupleEnd align offset descs % 2 ^ 32)) :
    tupleEnd align offset descs < 2 ^ 32 := by
  induction descs generalizing offset with
  | nil => exact bound
  | cons d rest inductionHypothesis =>
    obtain ⟨positive, small⟩ := narrow.head
    rw [List.length_cons] at room
    obtain ⟨low, high, -⟩ := fieldStart_spec align offset positive small (by omega)
    obtain ⟨restLow, -⟩ := le_tupleEnd align
      (fieldStart align offset d.width + d.width) narrow.tail (by omega)
    rw [tupleEnd] at few before inside ⊢
    have start : fieldStart align offset d.width < 2 ^ 32 := by omega
    simp only [placeFields, start_eq start] at inside
    have first : fieldStart align offset d.width + d.width ≤ _ := inside _ List.mem_cons_self
    have noWrap : (fieldStart align offset d.width + d.width) % 2 ^ 32 =
        fieldStart align offset d.width + d.width := Nat.mod_eq_of_lt (by omega)
    rw [noWrap] at inside
    exact inductionHypothesis narrow.tail (by omega) few (by omega) first
      fun other member => inside other (List.mem_cons_of_mem _ member)

/-- One field starts at or after the end of the other. -/
def Follows (first second : FieldDesc) : Prop := first.offset + first.width ≤ second.offset

/-- Fields of a tuple shorter than 4 GiB do not meet. -/
theorem placeFields_spec (narrow : Narrow descs) (fits : tupleEnd align offset descs < 2 ^ 32)
    (room : 8 * descs.length + 16 ≤ 2 ^ 63) (bound : offset < 2 ^ 32) :
    (placeFields align offset descs).2 = tupleEnd align offset descs ∧
      (placeFields align offset descs).1.Pairwise Follows ∧
      (∀ placed ∈ (placeFields align offset descs).1,
        offset ≤ placed.offset ∧ placed.offset + placed.width ≤ tupleEnd align offset descs) := by
  induction descs generalizing offset with
  | nil => exact ⟨rfl, List.Pairwise.nil, fun placed member => nomatch member⟩
  | cons d rest inductionHypothesis =>
    obtain ⟨positive, small⟩ := narrow.head
    rw [List.length_cons] at room
    obtain ⟨low, high, -⟩ := fieldStart_spec align offset positive small (by omega)
    obtain ⟨restLow, -⟩ := le_tupleEnd align
      (fieldStart align offset d.width + d.width) narrow.tail (by omega)
    rw [tupleEnd] at fits ⊢
    have start : fieldStart align offset d.width < 2 ^ 32 := by omega
    have noWrap : (fieldStart align offset d.width + d.width) % 2 ^ 32 =
        fieldStart align offset d.width + d.width := Nat.mod_eq_of_lt (by omega)
    obtain ⟨stride, apart, inside⟩ := @inductionHypothesis
      (fieldStart align offset d.width + d.width) narrow.tail fits (by omega) (by omega)
    simp only [placeFields, start_eq start, noWrap]
    refine ⟨stride, List.Pairwise.cons (fun other member => (inside other member).1) apart,
      fun other member => ?_⟩
    rcases List.mem_cons.mp member with rfl | later
    · exact ⟨low, restLow⟩
    · obtain ⟨after, before⟩ := inside other later
      exact ⟨by omega, before⟩

theorem placeFields_getElem? (align : Bool) (offset : Nat) (descs : List FieldDesc) (i : Nat) :
    ∃ place, (placeFields align offset descs).1[i]? =
      descs[i]?.map fun d => { d with offset := place } := by
  induction descs generalizing offset i with
  | nil => exact ⟨0, rfl⟩
  | cons d rest inductionHypothesis =>
    cases i with
    | zero => exact ⟨_, rfl⟩
    | succ i => exact inductionHypothesis _ i

theorem placeFields_length (align : Bool) (offset : Nat) (descs : List FieldDesc) :
    (placeFields align offset descs).1.length = descs.length := by
  induction descs generalizing offset with
  | nil => rfl
  | cons d rest inductionHypothesis =>
    rw [placeFields, List.length_cons, inductionHypothesis, List.length_cons]

theorem placeFields_stride_lt (align : Bool) {offset : Nat} (descs : List FieldDesc)
    (bound : offset < 2 ^ 32) : (placeFields align offset descs).2 < 2 ^ 32 := by
  induction descs generalizing offset with
  | nil => exact bound
  | cons d rest inductionHypothesis => exact inductionHypothesis (Nat.mod_lt _ (by decide))

theorem placeFields_offset_lt (align : Bool) {offset : Nat} (descs : List FieldDesc)
    (bound : offset < 2 ^ 32) :
    ∀ placed ∈ (placeFields align offset descs).1, placed.offset < 2 ^ 32 := by
  induction descs generalizing offset with
  | nil => exact fun placed member => nomatch member
  | cons d rest inductionHypothesis =>
    intro placed member
    rcases List.mem_cons.mp member with rfl | later
    · simp only
      split
      · exact Nat.mod_lt _ (by decide)
      · exact bound
    · exact inductionHypothesis (Nat.mod_lt _ (by decide)) placed later

end Places

/-! ### Storing -/

/-- Store the value of one field. -/
def storeField (out : List UInt8) (field : FieldDesc × UInt64) : List UInt8 :=
  storeUint out field.1.offset field.1.width (field.2 - UInt64.ofNat field.1.bias).toNat

theorem encodeTuple_eq (layout : Layout) (values : List UInt64) :
    encodeTuple layout values =
      (layout.descs.zip values).foldl storeField (List.replicate layout.valueStride 0) :=
  encodeTuple_eq_foldl layout values

theorem storeField_length (out : List UInt8) (field : FieldDesc × UInt64) :
    (storeField out field).length = out.length := overwrite_length _ _ _

theorem storeField_eq {out : List UInt8} {field : FieldDesc × UInt64} (narrow : field.1.width ≤ 8) :
    storeField out field = overwrite out field.1.offset
      (leBytes field.1.width (field.2 - UInt64.ofNat field.1.bias).toNat) := by
  have access : accessWidth field.1.width = field.1.width := if_neg (by omega)
  rw [storeField, storeUint, access]

/-- Storing fields that come later leaves a slice alone. -/
theorem foldl_storeField_keep {fields : List (FieldDesc × UInt64)} {out : List UInt8}
    {position count : Nat} (narrow : ∀ field ∈ fields, field.1.width ≤ 8)
    (inside : ∀ field ∈ fields, field.1.offset + field.1.width ≤ out.length)
    (later : ∀ field ∈ fields, position + count ≤ field.1.offset) :
    slice (fields.foldl storeField out) position count = slice out position count := by
  induction fields generalizing out with
  | nil => rfl
  | cons field rest inductionHypothesis =>
    have fits := inside field List.mem_cons_self
    rw [List.foldl_cons, inductionHypothesis
      (fun other member => narrow other (List.mem_cons_of_mem _ member))
      (fun other member => by
        rw [storeField_length]
        exact inside other (List.mem_cons_of_mem _ member))
      fun other member => later other (List.mem_cons_of_mem _ member),
      storeField_eq (narrow field List.mem_cons_self)]
    exact slice_overwrite_of_disjoint (by rwa [leBytes_length])
      (Or.inl (later field List.mem_cons_self))

/-- Every stored field is found again. -/
theorem foldl_storeField_slice {fields : List (FieldDesc × UInt64)} {out : List UInt8}
    (narrow : ∀ field ∈ fields, field.1.width ≤ 8)
    (inside : ∀ field ∈ fields, field.1.offset + field.1.width ≤ out.length)
    (apart : fields.Pairwise fun first second => Follows first.1 second.1)
    {field : FieldDesc × UInt64} (member : field ∈ fields) :
    slice (fields.foldl storeField out) field.1.offset field.1.width =
      leBytes field.1.width (field.2 - UInt64.ofNat field.1.bias).toNat := by
  induction fields generalizing out with
  | nil => nomatch member
  | cons first rest inductionHypothesis =>
    obtain ⟨follows, restApart⟩ := List.pairwise_cons.mp apart
    have restNarrow (other) (tail : other ∈ rest) := narrow other (List.mem_cons_of_mem _ tail)
    have restInside (other) (tail : other ∈ rest) :
        other.1.offset + other.1.width ≤ (storeField out first).length := by
      rw [storeField_length]
      exact inside other (List.mem_cons_of_mem _ tail)
    rw [List.foldl_cons]
    rcases List.mem_cons.mp member with rfl | later
    · have fits := inside field List.mem_cons_self
      rw [foldl_storeField_keep restNarrow restInside follows,
        storeField_eq (narrow field List.mem_cons_self)]
      have stored := slice_overwrite_self out
        (leBytes field.1.width (field.2 - UInt64.ofNat field.1.bias).toNat) field.1.offset
        (by rwa [leBytes_length])
      rwa [leBytes_length] at stored
    · exact inductionHypothesis restNarrow restInside restApart later

end Mmpack
