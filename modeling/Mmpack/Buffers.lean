/-
This file is a small library of buffers that are stored into through bare pointers.
A buffer is a vector of a fixed size and the memory behind it. Nothing keeps a store
within the vector: one that ends past it lands in memory all the same and is noted as
an overrun, after which the language promises nothing.
-/

import Mmpack.Slices

namespace ByteList

/-- A vector of bytes with the memory behind it, as far as anything was stored there. -/
structure Buffer where
  size : Nat
  bytes : List UInt8
  overrun : Bool
  deriving DecidableEq, Repr

namespace Buffer

def zeros (size : Nat) : Buffer where
  size := size
  bytes := List.replicate size 0
  overrun := false

def store (buffer : Buffer) (position : Nat) (data : List UInt8) : Buffer where
  size := buffer.size
  bytes := overwrite
    (buffer.bytes ++ List.replicate (position + data.length - buffer.bytes.length) 0) position data
  overrun := buffer.overrun || decide (buffer.size < position + data.length)

variable {buffer : Buffer} {position count : Nat} {data : List UInt8}

@[simp] theorem zeros_size (size : Nat) : (zeros size).size = size := rfl
@[simp] theorem zeros_overrun (size : Nat) : (zeros size).overrun = false := rfl

@[simp] theorem store_size : (buffer.store position data).size = buffer.size := rfl

/-- A store reaches as far as its data does. -/
theorem store_length : (buffer.store position data).bytes.length =
    max buffer.bytes.length (position + data.length) := by
  rw [store, overwrite_length, List.length_append, List.length_replicate]
  omega

theorem store_overrun : (buffer.store position data).overrun = false ↔
    buffer.overrun = false ∧ position + data.length ≤ buffer.size := by
  rw [store, Bool.or_eq_false_iff, decide_eq_false_iff_not, Nat.not_lt]

/-- In the first bytes of a buffer, a store is a store into these bytes. -/
theorem take_store (within : count ≤ buffer.bytes.length) :
    (buffer.store position data).bytes.take count =
      overwrite (buffer.bytes.take count) position data := by
  rw [store, take_overwrite (by rw [List.length_append]; omega),
    List.take_append_of_le_length within]

/-- Data stored at the front is what the front holds. -/
theorem take_store_front : (buffer.store 0 data).bytes.take data.length = data := by
  have stored := slice_overwrite_self (buffer.bytes ++
    List.replicate (0 + data.length - buffer.bytes.length) 0) data 0
    (by rw [List.length_append, List.length_replicate]; omega)
  rwa [slice, List.drop_zero] at stored

section Loops

variable {Item : Type} {place : Item → Nat} {stored : Item → List UInt8}

/-- Store every item at its place. -/
def storeAll (place : Item → Nat) (stored : Item → List UInt8) (items : List Item)
    (buffer : Buffer) : Buffer :=
  items.foldl (fun buffer item => buffer.store (place item) (stored item)) buffer

theorem storeAll_cons (item : Item) (items : List Item) (buffer : Buffer) :
    buffer.storeAll place stored (item :: items) =
      (buffer.store (place item) (stored item)).storeAll place stored items := rfl

theorem storeAll_overrun (items : List Item) (buffer : Buffer) :
    (buffer.storeAll place stored items).overrun = false ↔ buffer.overrun = false ∧
      ∀ item ∈ items, place item + (stored item).length ≤ buffer.size := by
  induction items generalizing buffer with
  | nil => simp [storeAll]
  | cons item rest inductionHypothesis =>
    rw [storeAll_cons, inductionHypothesis, store_overrun, List.forall_mem_cons, and_assoc,
      store_size]

theorem take_storeAll (items : List Item) {buffer : Buffer}
    (within : count ≤ buffer.bytes.length) :
    (buffer.storeAll place stored items).bytes.take count =
      items.foldl (fun bytes item => overwrite bytes (place item) (stored item))
        (buffer.bytes.take count) := by
  induction items generalizing buffer with
  | nil => rfl
  | cons item rest inductionHypothesis =>
    rw [storeAll_cons, inductionHypothesis (by rw [store_length]; omega), take_store within]
    rfl

theorem storeAll_length (items : List Item) (buffer : Buffer) :
    buffer.bytes.length ≤ (buffer.storeAll place stored items).bytes.length := by
  induction items generalizing buffer with
  | nil => exact Nat.le_refl _
  | cons item rest inductionHypothesis =>
    refine Nat.le_trans ?_ (inductionHypothesis _)
    rw [store_length]
    exact Nat.le_max_left _ _

end Loops

end Buffer

/-- Items stored one by one behind the start of a block are stored in the block. -/
theorem foldl_overwrite_block {Item : Type} {place : Item → Nat} {stored : Item → List UInt8}
    {buffer block : List UInt8} {base : Nat} (items : List Item)
    (reaches : buffer.length ≤ base + block.length) :
    items.foldl (fun bytes item => overwrite bytes (base + place item) (stored item))
        (overwrite buffer base block) =
      overwrite buffer base
        (items.foldl (fun bytes item => overwrite bytes (place item) (stored item)) block) := by
  induction items generalizing block with
  | nil => rfl
  | cons item rest inductionHypothesis =>
    rw [List.foldl_cons, overwrite_overwrite reaches,
      inductionHypothesis (by rwa [overwrite_length])]
    rfl

end ByteList
