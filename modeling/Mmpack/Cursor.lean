/-
This file is a small library of cursors over a sequence cut into slots, some of
which may be empty. A position is a slot and an index in it; it is settled when
it names an item, or is the end. The rank of a position is the number of items
before it, and on settled positions it is injective, so stepping forward and
back, and every search that lands on a settled position, can be described by what
it does to the rank.

The walks are written over any monad, so that a slot's size may have to be read
from somewhere, and each has its pure form beside it.
-/

import Mathlib.Algebra.BigOperators.Group.Finset.Basic
import Mathlib.Algebra.Order.BigOperators.Group.Finset
import Mathlib.Algebra.GroupWithZero.Nat

namespace Cursor

/-- A slot and an index in it. -/
@[ext] structure Position where
  slot : Nat
  index : Nat
  deriving DecidableEq, Repr

/-! ### The walks -/

section Walks

variable {M : Type → Type} [Monad M] (size : Nat → M Nat)

/-- Skip slots that the index is past, at most `remaining` of them, then stop at the end. -/
def settleFrom (slots : Nat) : Nat → Position → M Position
  | 0, _ => pure ⟨slots, 0⟩
  | remaining + 1, position => do
    if (← size position.slot) ≤ position.index then
      settleFrom slots remaining ⟨position.slot + 1, 0⟩
    else
      pure position

/-- Move a position that may lie past its slot's last item to the next item, or to the end. -/
def settle (slots : Nat) (position : Position) : M Position :=
  settleFrom size slots (slots - position.slot) position

/-- The last item of the slots below one, or the very start. -/
def lastBelow : Nat → M Position
  | 0 => pure ⟨0, 0⟩
  | slot + 1 => do
    let count ← size slot
    if count ≠ 0 then pure ⟨slot, count - 1⟩ else lastBelow slot

/-- One item back. -/
def stepBack (position : Position) : M Position :=
  if 0 < position.index then pure ⟨position.slot, position.index - 1⟩
  else lastBelow size position.slot

/-- The last item of a slot or of those before it, or the end when there is none. -/
def lastAtOrBefore (slots : Nat) : Nat → M Position
  | 0 => do
    let count ← size 0
    if count ≠ 0 then pure ⟨0, count - 1⟩ else pure ⟨slots, 0⟩
  | slot + 1 => do
    let count ← size (slot + 1)
    if count ≠ 0 then pure ⟨slot + 1, count - 1⟩ else lastAtOrBefore slots slot

end Walks

/-! ### The walks over known sizes -/

section Pure

variable (size : Nat → Nat) (slots : Nat)

def settledFrom : Nat → Position → Position
  | 0, _ => ⟨slots, 0⟩
  | remaining + 1, position =>
    if size position.slot ≤ position.index then settledFrom remaining ⟨position.slot + 1, 0⟩
    else position

def settled (position : Position) : Position :=
  settledFrom size slots (slots - position.slot) position

def below : Nat → Position
  | 0 => ⟨0, 0⟩
  | slot + 1 => if size slot ≠ 0 then ⟨slot, size slot - 1⟩ else below slot

def back (position : Position) : Position :=
  if 0 < position.index then ⟨position.slot, position.index - 1⟩ else below size position.slot

def atOrBefore : Nat → Position
  | 0 => if size 0 ≠ 0 then ⟨0, size 0 - 1⟩ else ⟨slots, 0⟩
  | slot + 1 => if size (slot + 1) ≠ 0 then ⟨slot + 1, size (slot + 1) - 1⟩ else atOrBefore slot

end Pure

section Agree

variable {M : Type → Type} [Monad M] [LawfulMonad M] {read : Nat → M Nat} {size : Nat → Nat}
  {slots : Nat}

theorem settleFrom_eq (runs : ∀ slot < slots, read slot = pure (size slot)) {remaining : Nat}
    {position : Position} (bound : position.slot + remaining ≤ slots) :
    settleFrom read slots remaining position =
      pure (settledFrom size slots remaining position) := by
  induction remaining generalizing position with
  | zero => rfl
  | succ remaining inductionHypothesis =>
    unfold settleFrom settledFrom
    rw [runs _ (by omega), pure_bind]
    split
    · exact inductionHypothesis (by simp only; omega)
    · rfl

theorem settle_eq (runs : ∀ slot < slots, read slot = pure (size slot)) {position : Position}
    (bound : position.slot ≤ slots) :
    settle read slots position = pure (settled size slots position) :=
  settleFrom_eq runs (by omega)

theorem lastBelow_eq (runs : ∀ slot < slots, read slot = pure (size slot)) {slot : Nat}
    (bound : slot ≤ slots) : lastBelow read slot = pure (below size slot) := by
  induction slot with
  | zero => rfl
  | succ slot inductionHypothesis =>
    unfold lastBelow below
    rw [runs _ (by omega), pure_bind]
    split
    · rfl
    · exact inductionHypothesis (by omega)

theorem stepBack_eq (runs : ∀ slot < slots, read slot = pure (size slot)) {position : Position}
    (bound : position.slot ≤ slots) : stepBack read position = pure (back size position) := by
  unfold stepBack back
  split
  · rfl
  · exact lastBelow_eq runs bound

theorem lastAtOrBefore_eq (runs : ∀ slot < slots, read slot = pure (size slot)) {slot : Nat}
    (bound : slot < slots) :
    lastAtOrBefore read slots slot = pure (atOrBefore size slots slot) := by
  induction slot with
  | zero =>
    unfold lastAtOrBefore atOrBefore
    rw [runs _ bound, pure_bind]
    split <;> rfl
  | succ slot inductionHypothesis =>
    unfold lastAtOrBefore atOrBefore
    rw [runs _ bound, pure_bind]
    split
    · rfl
    · exact inductionHypothesis (by omega)

end Agree

/-! ### Ranks -/

variable {size : Nat → Nat} {slots : Nat}

/-- The number of items in the slots before one. -/
def itemsBefore (size : Nat → Nat) (slot : Nat) : Nat := ∑ other ∈ Finset.range slot, size other

@[simp] theorem itemsBefore_zero : itemsBefore size 0 = 0 := Finset.sum_range_zero size

theorem itemsBefore_succ (size : Nat → Nat) (slot : Nat) :
    itemsBefore size (slot + 1) = itemsBefore size slot + size slot :=
  Finset.sum_range_succ size slot

theorem itemsBefore_mono {lower upper : Nat} (ordered : lower ≤ upper) :
    itemsBefore size lower ≤ itemsBefore size upper :=
  Finset.sum_le_sum_of_subset (Finset.range_mono ordered)

/-- Sizes told by a list add up along it. -/
theorem itemsBefore_eq_sum {counts : List Nat}
    (told : ∀ slot (inside : slot < counts.length), size slot = counts[slot]) {slot : Nat}
    (bound : slot ≤ counts.length) : itemsBefore size slot = (counts.take slot).sum := by
  induction slot with
  | zero => rfl
  | succ slot inductionHypothesis =>
    rw [itemsBefore_succ, inductionHypothesis (by omega), told slot bound,
      List.take_succ_eq_append_getElem bound, List.sum_append, List.sum_singleton]

/-- The number of items before a position. -/
def rank (size : Nat → Nat) (position : Position) : Nat :=
  itemsBefore size position.slot + position.index

/-- A position that names an item. -/
def Names (size : Nat → Nat) (slots : Nat) (position : Position) : Prop :=
  position.slot < slots ∧ position.index < size position.slot

/-- A position that names an item, or is the end. -/
def Settled (size : Nat → Nat) (slots : Nat) (position : Position) : Prop :=
  Names size slots position ∨ position = ⟨slots, 0⟩

theorem rank_end : rank size ⟨slots, 0⟩ = itemsBefore size slots := rfl

theorem Names.rank_lt {position : Position} (names : Names size slots position) {upper : Nat}
    (past : position.slot < upper) : rank size position < itemsBefore size upper := by
  have step := itemsBefore_succ size position.slot
  have mono : itemsBefore size (position.slot + 1) ≤ itemsBefore size upper :=
    itemsBefore_mono past
  have inside := names.2
  rw [rank]
  omega

theorem Settled.slot_le {position : Position} (isSettled : Settled size slots position) :
    position.slot ≤ slots := by
  rcases isSettled with names | rfl
  · exact Nat.le_of_lt names.1
  · exact Nat.le_refl _

theorem Settled.rank_le {position : Position} (isSettled : Settled size slots position) :
    rank size position ≤ itemsBefore size slots := by
  rcases isSettled with names | rfl
  · exact Nat.le_of_lt (names.rank_lt names.1)
  · exact Nat.le_refl _

/-- A settled position names an item exactly when it is not the end. -/
theorem Settled.names_of_rank_lt {position : Position} (isSettled : Settled size slots position)
    (inside : rank size position < itemsBefore size slots) : Names size slots position := by
  rcases isSettled with names | rfl
  · exact names
  · exact absurd inside (Nat.lt_irrefl _)

/-- Two settled positions of one rank are one. -/
theorem Settled.eq_of_rank_eq {first second : Position} (firstSettled : Settled size slots first)
    (secondSettled : Settled size slots second) (same : rank size first = rank size second) :
    first = second := by
  rcases firstSettled with names | rfl <;> rcases secondSettled with names' | rfl
  · rcases Nat.lt_trichotomy first.slot second.slot with lower | equal | higher
    · have bound := names.rank_lt lower
      rw [same, rank] at bound
      omega
    · rw [rank, rank, equal] at same
      exact Position.ext equal (by omega)
    · have bound := names'.rank_lt higher
      rw [← same, rank] at bound
      omega
  · have bound := names.rank_lt names.1
    rw [same, rank_end] at bound
    omega
  · have bound := names'.rank_lt names'.1
    rw [← same, rank_end] at bound
    omega
  · rfl

theorem settledFrom_spec {remaining : Nat} {position : Position}
    (exact : position.slot + remaining = slots)
    (inside : position.slot < slots → position.index ≤ size position.slot)
    (atEnd : position.slot = slots → position.index = 0) :
    Settled size slots (settledFrom size slots remaining position) ∧
      rank size (settledFrom size slots remaining position) = rank size position := by
  induction remaining generalizing position with
  | zero =>
    refine ⟨Or.inr rfl, ?_⟩
    rw [settledFrom, rank, rank, atEnd (by omega), ← exact]
    rfl
  | succ remaining inductionHypothesis =>
    have bound := inside (by omega)
    unfold settledFrom
    split
    · rename_i past
      obtain ⟨isSettled, same⟩ := @inductionHypothesis ⟨position.slot + 1, 0⟩
        (by simp only; omega) (fun _ => Nat.zero_le _) fun _ => rfl
      refine ⟨isSettled, ?_⟩
      rw [same, rank, rank, itemsBefore_succ]
      simp only
      omega
    · exact ⟨Or.inl ⟨by omega, by omega⟩, rfl⟩

/-- Settling keeps the rank of a position at or inside the end of its slot. -/
theorem settled_spec {position : Position} (bound : position.slot ≤ slots)
    (inside : position.slot < slots → position.index ≤ size position.slot)
    (atEnd : position.slot = slots → position.index = 0) :
    Settled size slots (settled size slots position) ∧
      rank size (settled size slots position) = rank size position :=
  settledFrom_spec (by omega) inside atEnd

theorem settled_settled {position : Position} (bound : position.slot ≤ slots) :
    Settled size slots (settled size slots position) := by
  unfold settled
  generalize exact : slots - position.slot = remaining
  induction remaining generalizing position with
  | zero => exact Or.inr rfl
  | succ remaining inductionHypothesis =>
    unfold settledFrom
    split
    · exact @inductionHypothesis ⟨position.slot + 1, 0⟩ (by simp only; omega)
        (by simp only; omega)
    · exact Or.inl ⟨by omega, by omega⟩

/-- Settling a settled position changes nothing. -/
theorem settled_eq_self {position : Position} (isSettled : Settled size slots position) :
    settled size slots position = position := by
  rcases isSettled with names | rfl
  · obtain ⟨inside, below⟩ := names
    unfold settled
    obtain ⟨remaining, gap⟩ := Nat.exists_eq_add_of_lt inside
    rw [show slots - position.slot = remaining + 1 by omega, settledFrom, if_neg (by omega)]
  · unfold settled
    rw [Nat.sub_self, settledFrom]

/-- One step forward from an item raises the rank by one. -/
theorem forward_spec {position : Position} (names : Names size slots position) :
    Settled size slots (settled size slots ⟨position.slot, position.index + 1⟩) ∧
      rank size (settled size slots ⟨position.slot, position.index + 1⟩) =
        rank size position + 1 := by
  obtain ⟨isSettled, same⟩ := @settled_spec size slots
    ⟨position.slot, position.index + 1⟩ (Nat.le_of_lt names.1) (fun _ => names.2)
    fun atEnd => absurd atEnd (Nat.ne_of_lt names.1)
  exact ⟨isSettled, same⟩

theorem below_spec {slot : Nat} (bound : slot ≤ slots) (some : 0 < itemsBefore size slot) :
    Names size slots (below size slot) ∧
      rank size (below size slot) + 1 = itemsBefore size slot := by
  induction slot with
  | zero => exact absurd some (by simp)
  | succ slot inductionHypothesis =>
    have step := itemsBefore_succ size slot
    unfold below
    split
    · rename_i nonempty
      refine ⟨⟨by simp only; omega, by simp only; omega⟩, ?_⟩
      rw [rank]
      simp only
      omega
    · rename_i empty
      have same : itemsBefore size (slot + 1) = itemsBefore size slot := by omega
      rw [same] at some ⊢
      exact inductionHypothesis (by omega) some

/-- One step back from anywhere past the start lowers the rank by one. -/
theorem back_spec {position : Position} (isSettled : Settled size slots position)
    (past : 0 < rank size position) :
    Names size slots (back size position) ∧
      rank size (back size position) + 1 = rank size position := by
  unfold back
  split
  · rename_i positive
    rcases isSettled with names | rfl
    · have inside := names.2
      refine ⟨⟨names.1, by simp only; omega⟩, ?_⟩
      rw [rank, rank]
      simp only
      omega
    · exact absurd positive (Nat.lt_irrefl _)
  · rename_i zero
    have first : rank size position = itemsBefore size position.slot := by
      rw [rank]
      omega
    rw [first] at past ⊢
    exact below_spec isSettled.slot_le past

/-- The last item at or before a slot is the one before the next slot's first. -/
theorem atOrBefore_eq {slot : Nat} :
    atOrBefore size slots slot =
      if 0 < itemsBefore size (slot + 1) then below size (slot + 1) else ⟨slots, 0⟩ := by
  induction slot with
  | zero =>
    rw [atOrBefore, itemsBefore_succ, itemsBefore_zero, Nat.zero_add, below]
    by_cases empty : size 0 = 0
    · simp [empty]
    · simp [empty, Nat.pos_of_ne_zero empty]
  | succ slot inductionHypothesis =>
    rw [atOrBefore, itemsBefore_succ size (slot + 1), below]
    by_cases empty : size (slot + 1) = 0
    · rw [if_neg (not_not.mpr empty), if_neg (not_not.mpr empty), inductionHypothesis, empty]
      rfl
    · rw [if_pos empty, if_pos empty, if_pos (by omega)]

/-- Every rank below the number of items belongs to a position. -/
theorem exists_names_of_lt {goal : Nat} (inside : goal < itemsBefore size slots) :
    ∃ position, Names size slots position ∧ rank size position = goal := by
  induction slots with
  | zero => exact absurd inside (by simp)
  | succ slots inductionHypothesis =>
    rw [itemsBefore_succ] at inside
    by_cases earlier : goal < itemsBefore size slots
    · obtain ⟨position, names, same⟩ := inductionHypothesis earlier
      exact ⟨position, ⟨Nat.lt_succ_of_lt names.1, names.2⟩, same⟩
    · refine ⟨⟨slots, goal - itemsBefore size slots⟩, ⟨Nat.lt_succ_self _, ?_⟩, ?_⟩
      · simp only
        omega
      · rw [rank]
        simp only
        omega

/-! ### All positions -/

/-- The positions of the items, slot after slot. -/
def positions (size : Nat → Nat) (slots : Nat) : List Position :=
  (List.range slots).flatMap fun slot => (List.range (size slot)).map fun index => ⟨slot, index⟩

theorem positions_succ (size : Nat → Nat) (slots : Nat) :
    positions size (slots + 1) =
      positions size slots ++ (List.range (size slots)).map fun index => ⟨slots, index⟩ := by
  rw [positions, positions, List.range_succ, List.flatMap_append, List.flatMap_singleton]

theorem mem_positions {position : Position} :
    position ∈ positions size slots ↔ Names size slots position := by
  simp only [positions, List.mem_flatMap, List.mem_map, List.mem_range, Names]
  constructor
  · rintro ⟨slot, inside, index, below, rfl⟩
    exact ⟨inside, below⟩
  · rintro ⟨inside, below⟩
    exact ⟨position.slot, inside, position.index, below, rfl⟩

@[simp] theorem length_positions : (positions size slots).length = itemsBefore size slots := by
  induction slots with
  | zero => rfl
  | succ slots inductionHypothesis =>
    rw [positions_succ, List.length_append, inductionHypothesis, List.length_map,
      List.length_range, itemsBefore_succ]

/-- The positions come slot after slot, and index after index in each. -/
theorem positions_ordered : (positions size slots).Pairwise fun first second =>
    first.slot < second.slot ∨ first.slot = second.slot ∧ first.index < second.index := by
  induction slots with
  | zero => exact List.Pairwise.nil
  | succ slots inductionHypothesis =>
    rw [positions_succ, List.pairwise_append]
    refine ⟨inductionHypothesis, ?_, fun first before second member => ?_⟩
    · exact List.pairwise_map.mpr (List.pairwise_lt_range.imp fun less => Or.inr ⟨rfl, less⟩)
    · obtain ⟨index, -, rfl⟩ := List.mem_map.mp member
      exact Or.inl (mem_positions.mp before).1

/-- A position stands where its rank says. -/
theorem positions_rank {position : Position} (names : Names size slots position) :
    (positions size slots)[rank size position]? = some position := by
  induction slots with
  | zero => exact absurd names.1 (Nat.not_lt_zero _)
  | succ slots inductionHypothesis =>
    rw [positions_succ]
    by_cases earlier : position.slot < slots
    · have inside : Names size slots position := ⟨earlier, names.2⟩
      rw [List.getElem?_append_left (by rw [length_positions]; exact inside.rank_lt earlier),
        inductionHypothesis inside]
    · have last : position.slot = slots := Nat.le_antisymm (Nat.le_of_lt_succ names.1) (by omega)
      have below := names.2
      rw [last] at below
      rw [rank, last, List.getElem?_append_right (by rw [length_positions]; omega),
        length_positions, Nat.add_sub_cancel_left, List.getElem?_map, List.getElem?_range below,
        Option.map_some, ← last]

theorem names_of_positions {n : Nat} {position : Position}
    (found : (positions size slots)[n]? = some position) :
    Names size slots position ∧ rank size position = n := by
  have inside := (List.getElem?_eq_some_iff.mp found).1
  rw [length_positions] at inside
  obtain ⟨other, names, same⟩ := exists_names_of_lt inside
  have stands := positions_rank names
  rw [same, found] at stands
  obtain rfl := Option.some.inj stands
  exact ⟨names, same⟩

end Cursor
