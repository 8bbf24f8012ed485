/-
This file is a small library about sorted maps, seen as the increasing list of
their keys. What a lookup must answer is stated by the order alone: the least or
the greatest key with a property, or nothing when no key has it. An implementation
that finds the index where the keys stop being below a bound has found the answer,
and an answer carries over along any map of the keys that reflects the order.
-/

import Mathlib.Data.Prod.Lex
import Mathlib.Data.List.Pairwise

namespace SortedMap

/-- Pairs in lexicographic order are ordered one way only when their parts are. -/
instance asymm_lex {First Second : Type} [LT First] [LT Second]
    [Std.Asymm fun first second : First => first < second]
    [Std.Asymm fun first second : Second => first < second] :
    Std.Asymm fun first second : First ×ₗ Second => first < second where
  asymm := by
    intro first second less less'
    rw [Prod.Lex.lt_iff] at less less'
    rcases less with lower | ⟨same, lower⟩ <;> rcases less' with lower' | ⟨same', lower'⟩
    · exact Std.Asymm.asymm (r := fun first second : First => first < second) _ _ lower lower'
    · rw [same'] at lower
      exact Std.Asymm.asymm (r := fun first second : First => first < second) _ _ lower lower
    · rw [same] at lower'
      exact Std.Asymm.asymm (r := fun first second : First => first < second) _ _ lower' lower'
    · exact Std.Asymm.asymm (r := fun first second : Second => first < second) _ _ lower lower'

variable {Key Order : Type} [LT Key] [LT Order]

/-! ### Answers -/

/-- The least key with a property, or nothing when no key has it. -/
def Least (keys : List Key) (wanted : Key → Prop) : Option Key → Prop
  | some key => key ∈ keys ∧ wanted key ∧ ∀ other ∈ keys, wanted other → ¬ other < key
  | none => ∀ key ∈ keys, ¬ wanted key

/-- The greatest key with a property, or nothing when no key has it. -/
def Greatest (keys : List Key) (wanted : Key → Prop) : Option Key → Prop
  | some key => key ∈ keys ∧ wanted key ∧ ∀ other ∈ keys, wanted other → ¬ key < other
  | none => ∀ key ∈ keys, ¬ wanted key

section Indices

variable [Std.Asymm fun first second : Key => first < second] {keys : List Key}
  {wanted : Key → Prop} {index : Nat}

/-- The first index from which the keys have a property answers for the least. -/
theorem least_of_index (sorted : keys.Pairwise (· < ·))
    (from_index : ∀ i (inside : i < keys.length), wanted keys[i] ↔ index ≤ i) :
    Least keys wanted keys[index]? := by
  by_cases inside : index < keys.length
  · rw [List.getElem?_eq_getElem inside]
    refine ⟨List.getElem_mem inside, (from_index index inside).mpr (Nat.le_refl _),
      fun other member has less => ?_⟩
    obtain ⟨i, below, rfl⟩ := List.getElem_of_mem member
    rcases Nat.eq_or_lt_of_le ((from_index i below).mp has) with rfl | later
    · exact Std.Asymm.asymm (r := fun first second : Key => first < second) _ _ less less
    · exact Std.Asymm.asymm (r := fun first second : Key => first < second) _ _ less
        (List.pairwise_iff_getElem.mp sorted index i inside below later)
  · rw [List.getElem?_eq_none (Nat.not_lt.mp inside)]
    intro key member has
    obtain ⟨i, below, rfl⟩ := List.getElem_of_mem member
    have bound := (from_index i below).mp has
    omega

/-- The last index up to which the keys have a property answers for the greatest. -/
theorem greatest_of_index (sorted : keys.Pairwise (· < ·)) (inside : index < keys.length)
    (to_index : ∀ i (below : i < keys.length), wanted keys[i] ↔ i ≤ index) :
    Greatest keys wanted keys[index]? := by
  rw [List.getElem?_eq_getElem inside]
  refine ⟨List.getElem_mem inside, (to_index index inside).mpr (Nat.le_refl _),
    fun other member has less => ?_⟩
  obtain ⟨i, below, rfl⟩ := List.getElem_of_mem member
  rcases Nat.eq_or_lt_of_le ((to_index i below).mp has) with rfl | earlier
  · exact Std.Asymm.asymm (r := fun first second : Key => first < second) _ _ less less
  · exact Std.Asymm.asymm (r := fun first second : Key => first < second) _ _ less
      (List.pairwise_iff_getElem.mp sorted i index below inside earlier)

end Indices

/-- A search from the front stops at the least key with a property. -/
theorem Least.find?_eq {Item : Type} {items : List Item} {key : Item → Key}
    (sorted : (items.map key).Pairwise (· < ·)) {wanted : Key → Prop} [DecidablePred wanted]
    {n : Nat} (least : Least (items.map key) wanted (items.map key)[n]?) :
    items.find? (fun item => decide (wanted (key item))) = items[n]? := by
  rw [List.getElem?_map] at least
  cases found : items[n]? with
  | none =>
    rw [found] at least
    refine List.find?_eq_none.mpr fun item member has => ?_
    exact least (key item) (List.mem_map_of_mem member) (of_decide_eq_true has)
  | some item =>
    rw [found] at least
    obtain ⟨-, has, lowest⟩ := least
    obtain ⟨inside, rfl⟩ := List.getElem?_eq_some_iff.mp found
    refine List.find?_eq_some_iff_append.mpr ⟨decide_eq_true has, items.take n,
      items.drop (n + 1), ?_, fun earlier member => ?_⟩
    · rw [← List.drop_eq_getElem_cons inside, List.take_append_drop]
    · obtain ⟨i, before, rfl⟩ := List.getElem_of_mem member
      rw [List.length_take] at before
      rw [List.getElem_take, Bool.not_eq_true', decide_eq_false_iff_not]
      intro wantedToo
      have less := List.pairwise_iff_getElem.mp (List.pairwise_map.mp sorted) i n (by omega)
        inside (by omega)
      exact lowest _ (List.mem_map_of_mem (List.getElem_mem _)) wantedToo less

/-! ### Carrying answers over -/

section Unique

variable {Key : Type} [LinearOrder Key] {keys : List Key} {wanted : Key → Prop}
  {first second : Option Key}

theorem Least.unique (least : Least keys wanted first) (least' : Least keys wanted second) :
    first = second := by
  cases first with
  | none =>
    cases second with
    | none => rfl
    | some key => exact absurd least'.2.1 (least key least'.1)
  | some key =>
    cases second with
    | none => exact absurd least.2.1 (least' key least.1)
    | some other =>
      have above := not_lt.mp (least.2.2 other least'.1 least'.2.1)
      have below := not_lt.mp (least'.2.2 key least.1 least.2.1)
      rw [le_antisymm above below]

theorem Greatest.unique (greatest : Greatest keys wanted first)
    (greatest' : Greatest keys wanted second) : first = second := by
  cases first with
  | none =>
    cases second with
    | none => rfl
    | some key => exact absurd greatest'.2.1 (greatest key greatest'.1)
  | some key =>
    cases second with
    | none => exact absurd greatest.2.1 (greatest' key greatest.1)
    | some other =>
      have below := not_lt.mp (greatest.2.2 other greatest'.1 greatest'.2.1)
      have above := not_lt.mp (greatest'.2.2 key greatest.1 greatest.2.1)
      rw [le_antisymm above below]

/-- Increasing keys are at one index each, the end included. -/
theorem index_unique (sorted : keys.Pairwise (· < ·)) {first second : Nat}
    (inside : first ≤ keys.length) (inside' : second ≤ keys.length)
    (same : keys[first]? = keys[second]?) : first = second := by
  have distinct : keys.Nodup := sorted.imp fun less => ne_of_lt less
  rcases Nat.lt_or_eq_of_le inside with below | rfl
  · exact (List.getElem?_inj below distinct).mp same
  · rw [List.getElem?_eq_none (Nat.le_refl _)] at same
    exact Nat.le_antisymm (List.getElem?_eq_none_iff.mp same.symm) inside'

end Unique

section Transfer

variable {keys : List Key} {rank : Key → Order} {wanted : Key → Prop} {wantedRank : Order → Prop}
  {index : Nat}

theorem Least.of_map
    (reflects : ∀ first ∈ keys, ∀ second ∈ keys, first < second → rank first < rank second)
    (same : ∀ key ∈ keys, wanted key ↔ wantedRank (rank key))
    (answers : Least (keys.map rank) wantedRank (keys.map rank)[index]?) :
    Least keys wanted keys[index]? := by
  rw [List.getElem?_map] at answers
  cases found : keys[index]? with
  | none =>
    rw [found] at answers
    exact fun key member has => answers _ (List.mem_map_of_mem member) ((same key member).mp has)
  | some key =>
    rw [found] at answers
    have member := List.mem_of_getElem? found
    obtain ⟨-, has, least⟩ := answers
    exact ⟨member, (same key member).mpr has, fun other member' has' less =>
      least _ (List.mem_map_of_mem member') ((same other member').mp has')
        (reflects other member' key member less)⟩

theorem Greatest.of_map
    (reflects : ∀ first ∈ keys, ∀ second ∈ keys, first < second → rank first < rank second)
    (same : ∀ key ∈ keys, wanted key ↔ wantedRank (rank key))
    (answers : Greatest (keys.map rank) wantedRank (keys.map rank)[index]?) :
    Greatest keys wanted keys[index]? := by
  rw [List.getElem?_map] at answers
  cases found : keys[index]? with
  | none =>
    rw [found] at answers
    exact fun key member has => answers _ (List.mem_map_of_mem member) ((same key member).mp has)
  | some key =>
    rw [found] at answers
    have member := List.mem_of_getElem? found
    obtain ⟨-, has, greatest⟩ := answers
    exact ⟨member, (same key member).mpr has, fun other member' has' less =>
      greatest _ (List.mem_map_of_mem member') ((same other member').mp has')
        (reflects key member other member' less)⟩

end Transfer

end SortedMap
