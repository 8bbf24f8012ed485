/-
This file is a small library of slices of a list: cutting one out, overwriting
one in a buffer, and knowing that a block sits at a given position of a longer
list.
-/

import Mathlib.Data.List.Basic
import Mathlib.Algebra.GroupWithZero.Nat

namespace ByteList

variable {Item : Type}

/-! ### Slices -/

/-- The `count` items from `start` on. -/
def slice (items : List Item) (start count : Nat) : List Item := (items.drop start).take count

theorem slice_length {items : List Item} {start count : Nat}
    (within : start + count ≤ items.length) : (slice items start count).length = count := by
  rw [slice, List.length_take, List.length_drop]
  omega

theorem slice_getElem? (items : List Item) (start count index : Nat) :
    (slice items start count)[index]? = if index < count then items[start + index]? else none := by
  rw [slice, List.getElem?_take, List.getElem?_drop]

@[simp] theorem slice_zero_length (items : List Item) : slice items 0 items.length = items := by
  rw [slice, List.drop_zero, List.take_length]

@[simp] theorem slice_count_zero (items : List Item) (start : Nat) : slice items start 0 = [] := by
  rw [slice, List.take_zero]

theorem slice_slice {items : List Item} {start count inner size : Nat}
    (within : inner + size ≤ count) :
    slice (slice items start count) inner size = slice items (start + inner) size := by
  refine List.ext_getElem? fun index => ?_
  simp only [slice_getElem?]
  by_cases bound : index < size
  · rw [if_pos bound, if_pos bound, if_pos (by omega), Nat.add_assoc]
  · rw [if_neg bound, if_neg bound]

theorem slice_append_left {items more : List Item} {start count : Nat}
    (within : start + count ≤ items.length) :
    slice (items ++ more) start count = slice items start count := by
  refine List.ext_getElem? fun index => ?_
  simp only [slice_getElem?]
  split_ifs
  · rw [List.getElem?_append_left (by omega)]
  · rfl

theorem slice_append_right (items more : List Item) (start count : Nat) :
    slice (items ++ more) (items.length + start) count = slice more start count := by
  rw [slice, List.drop_append, List.drop_eq_nil_of_le (by omega), List.nil_append,
    Nat.add_sub_cancel_left, slice]

/-- Two neighbouring slices join. -/
theorem slice_append_slice (items : List Item) (start first second : Nat) :
    slice items start first ++ slice items (start + first) second =
      slice items start (first + second) := by
  rw [slice, slice, slice, List.take_add, List.drop_drop]

/-! ### A block inside a longer list -/

/-- `block` occupies `items` from `start` on. -/
def Holds (items : List Item) (start : Nat) (block : List Item) : Prop :=
  ∃ before after, items = before ++ block ++ after ∧ before.length = start

theorem holds_end (items block : List Item) : Holds (items ++ block) items.length block :=
  ⟨items, [], by rw [List.append_nil], rfl⟩

/-- What a list holds, it holds after anything is appended. -/
theorem Holds.append {items block : List Item} {start : Nat} (holds : Holds items start block)
    (more : List Item) : Holds (items ++ more) start block := by
  obtain ⟨before, after, rfl, rfl⟩ := holds
  exact ⟨before, after ++ more, by simp only [List.append_assoc], rfl⟩

theorem Holds.left {items first second : List Item} {start : Nat}
    (holds : Holds items start (first ++ second)) : Holds items start first := by
  obtain ⟨before, after, rfl, rfl⟩ := holds
  exact ⟨before, second ++ after, by simp only [List.append_assoc], rfl⟩

theorem Holds.right {items first second : List Item} {start : Nat}
    (holds : Holds items start (first ++ second)) : Holds items (start + first.length) second := by
  obtain ⟨before, after, rfl, rfl⟩ := holds
  exact ⟨before ++ first, after, by simp only [List.append_assoc], List.length_append⟩

theorem Holds.within {items block : List Item} {start : Nat} (holds : Holds items start block) :
    start + block.length ≤ items.length := by
  obtain ⟨before, after, rfl, rfl⟩ := holds
  simp only [List.length_append]
  omega

/-- A slice inside a held block is the slice of the block. -/
theorem Holds.slice {items block : List Item} {start : Nat} (holds : Holds items start block)
    (inner count : Nat) (within : inner + count ≤ block.length) :
    ByteList.slice items (start + inner) count = ByteList.slice block inner count := by
  obtain ⟨before, after, rfl, rfl⟩ := holds
  rw [List.append_assoc, slice_append_right, slice_append_left within]

theorem Holds.slice_eq {items block : List Item} {start : Nat} (holds : Holds items start block) :
    ByteList.slice items start block.length = block := by
  have whole := holds.slice 0 block.length (by omega)
  rwa [Nat.add_zero, slice_zero_length] at whole

theorem Holds.mem_slice {items block : List Item} {start count : Nat}
    (holds : Holds items start block) (covers : block.length ≤ count) {item : Item}
    (member : item ∈ block) : item ∈ ByteList.slice items start count := by
  obtain ⟨before, after, rfl, rfl⟩ := holds
  rw [ByteList.slice, List.append_assoc, List.drop_left, List.take_append,
    List.take_of_length_le covers]
  exact List.mem_append_left _ member

theorem Holds.getElem? {items block : List Item} {start : Nat} (holds : Holds items start block)
    {index : Nat} (bound : index < block.length) : items[start + index]? = block[index]? := by
  obtain ⟨before, after, rfl, rfl⟩ := holds
  rw [List.append_assoc, List.getElem?_append_right (Nat.le_add_right _ _),
    Nat.add_sub_cancel_left, List.getElem?_append_left bound]

/-- A held block holds in turn what it is made of. -/
theorem Holds.trans {items block inner : List Item} {start offset : Nat}
    (holds : Holds items start block) (within : Holds block offset inner) :
    Holds items (start + offset) inner := by
  obtain ⟨before, after, rfl, rfl⟩ := holds
  obtain ⟨before', after', rfl, rfl⟩ := within
  exact ⟨before ++ before', after' ++ after, by simp only [List.append_assoc],
    List.length_append⟩

/-- Equal-sized blocks laid end to end sit at multiples of their size. -/
theorem holds_flatten (blocks : List (List Item)) (size index : Nat)
    (uniform : ∀ block ∈ blocks, block.length = size) (bound : index < blocks.length) :
    Holds blocks.flatten (index * size) blocks[index] := by
  induction blocks generalizing index with
  | nil => exact absurd bound (Nat.not_lt_zero _)
  | cons block rest inductionHypothesis =>
    rw [List.flatten_cons]
    cases index with
    | zero =>
      rw [Nat.zero_mul]
      exact ⟨[], rest.flatten, rfl, rfl⟩
    | succ index =>
      have tail := inductionHypothesis index (fun other member =>
        uniform other (List.mem_cons_of_mem _ member)) (Nat.lt_of_succ_lt_succ bound)
      have size_eq := uniform block List.mem_cons_self
      have shift : (index + 1) * size = block.length + index * size := by
        rw [Nat.succ_mul, size_eq, Nat.add_comm]
      rw [shift]
      obtain ⟨before, after, shape, position⟩ := tail
      refine ⟨block ++ before, after, ?_, ?_⟩
      · rw [shape]
        simp only [List.append_assoc, List.getElem_cons_succ]
      · rw [List.length_append, position]

/-- Blocks laid end to end sit after everything before them. -/
theorem holds_flatten_getElem (blocks : List (List Item)) (index : Nat)
    (bound : index < blocks.length) :
    Holds blocks.flatten ((blocks.take index).map List.length).sum blocks[index] := by
  have split : blocks.flatten =
      (blocks.take index).flatten ++ blocks[index] ++ (blocks.drop (index + 1)).flatten := by
    rw [← List.flatten_singleton (l := blocks[index])]
    simp only [← List.flatten_append]
    rw [List.append_assoc, List.singleton_append, List.getElem_cons_drop,
      List.take_append_drop]
  exact ⟨_, _, split, List.length_flatten⟩

theorem flatten_length_of_uniform {blocks : List (List Item)} (size : Nat)
    (uniform : ∀ block ∈ blocks, block.length = size) :
    blocks.flatten.length = blocks.length * size := by
  induction blocks with
  | nil => simp
  | cons block rest inductionHypothesis =>
    rw [List.flatten_cons, List.length_append, List.length_cons, Nat.succ_mul,
      uniform block List.mem_cons_self,
      inductionHypothesis fun other member => uniform other (List.mem_cons_of_mem _ member),
      Nat.add_comm]

/-! ### Writing into a buffer -/

/-- Store `data` into `buffer` at `start`. A buffer never grows: what would land past its end
is dropped. -/
def overwrite (buffer : List Item) (start : Nat) (data : List Item) : List Item :=
  (buffer.take start ++ data ++ buffer.drop (start + data.length)).take buffer.length

@[simp] theorem overwrite_length (buffer : List Item) (start : Nat) (data : List Item) :
    (overwrite buffer start data).length = buffer.length := by
  rw [overwrite, List.length_take, List.length_append, List.length_append, List.length_take,
    List.length_drop]
  omega

/-- Inside the buffer, what is read is the data where it was stored. -/
theorem overwrite_getElem?_of_lt {buffer data : List Item} {start index : Nat}
    (inBuffer : index < buffer.length) :
    (overwrite buffer start data)[index]? =
      if start ≤ index ∧ index < start + data.length then data[index - start]?
      else buffer[index]? := by
  rw [overwrite, List.getElem?_take, if_pos inBuffer]
  by_cases before : index < start
  · rw [List.append_assoc, List.getElem?_append_left (by rw [List.length_take]; omega),
      List.getElem?_take, if_pos before, if_neg (by omega)]
  · have prefixLength : (buffer.take start).length = start :=
      List.length_take_of_le (by omega)
    rw [List.append_assoc, List.getElem?_append_right (by omega), prefixLength]
    by_cases inside : index < start + data.length
    · rw [List.getElem?_append_left (by omega), if_pos ⟨by omega, inside⟩]
    · rw [List.getElem?_append_right (by omega), List.getElem?_drop, if_neg (by omega)]
      congr 1
      omega

theorem overwrite_getElem? {buffer data : List Item} {start : Nat}
    (fits : start + data.length ≤ buffer.length) (index : Nat) :
    (overwrite buffer start data)[index]? =
      if start ≤ index ∧ index < start + data.length then data[index - start]?
      else buffer[index]? := by
  by_cases inBuffer : index < buffer.length
  · exact overwrite_getElem?_of_lt inBuffer
  · rw [if_neg (by omega), List.getElem?_eq_none (by rw [overwrite_length]; omega),
      List.getElem?_eq_none (by omega)]

/-- The start of a buffer is stored into as a buffer of its own. -/
theorem take_overwrite {buffer data : List Item} {start count : Nat}
    (within : count ≤ buffer.length) :
    (overwrite buffer start data).take count = overwrite (buffer.take count) start data := by
  have length : (buffer.take count).length = count := List.length_take_of_le within
  refine List.ext_getElem? fun index => ?_
  by_cases inside : index < count
  · rw [List.getElem?_take, if_pos inside, overwrite_getElem?_of_lt (by omega),
      overwrite_getElem?_of_lt (by omega), List.getElem?_take, if_pos inside]
  · rw [List.getElem?_take, if_neg inside,
      List.getElem?_eq_none (by rw [overwrite_length]; omega)]

/-- Storing into a block that was stored is storing that block with the store in it, when the
block reaches to the end of the buffer. -/
theorem overwrite_overwrite {buffer block data : List Item} {base start : Nat}
    (reaches : buffer.length ≤ base + block.length) :
    overwrite (overwrite buffer base block) (base + start) data =
      overwrite buffer base (overwrite block start data) := by
  refine List.ext_getElem? fun index => ?_
  by_cases inBuffer : index < buffer.length
  · rw [overwrite_getElem?_of_lt (by rwa [overwrite_length]), overwrite_getElem?_of_lt inBuffer,
      overwrite_getElem?_of_lt inBuffer, overwrite_length]
    by_cases above : base ≤ index
    · have inBlock : base ≤ index ∧ index < base + block.length := ⟨above, by omega⟩
      rw [if_pos inBlock, if_pos inBlock, overwrite_getElem?_of_lt (by omega)]
      refine ite_congr (propext (by omega)) (fun _ => ?_) fun _ => rfl
      congr 1
      omega
    · have outside (length : Nat) : ¬ (base ≤ index ∧ index < base + length) :=
        fun both => above both.1
      rw [if_neg (by omega), if_neg (outside _), if_neg (outside _)]
  · rw [List.getElem?_eq_none (by rw [overwrite_length, overwrite_length]; omega),
      List.getElem?_eq_none (by rw [overwrite_length]; omega)]

theorem slice_overwrite_self (buffer data : List Item) (start : Nat)
    (fits : start + data.length ≤ buffer.length) :
    slice (overwrite buffer start data) start data.length = data := by
  refine List.ext_getElem? fun index => ?_
  rw [slice_getElem?, overwrite_getElem? fits]
  by_cases bound : index < data.length
  · rw [if_pos bound, if_pos (by omega), Nat.add_sub_cancel_left]
  · rw [if_neg bound, List.getElem?_eq_none (by omega)]

/-- A store leaves every slice it does not meet as it was. -/
theorem slice_overwrite_of_disjoint {buffer data : List Item} {start position count : Nat}
    (fits : start + data.length ≤ buffer.length)
    (disjoint : position + count ≤ start ∨ start + data.length ≤ position) :
    slice (overwrite buffer start data) position count = slice buffer position count := by
  refine List.ext_getElem? fun index => ?_
  rw [slice_getElem?, slice_getElem?, overwrite_getElem? fits]
  by_cases bound : index < count
  · rw [if_pos bound, if_pos bound, if_neg (by omega)]
  · rw [if_neg bound, if_neg bound]

end ByteList
