/-
This file follows the ranges the setters observe: the statistics of a field are
the least and the greatest of the values it was given, signed fields in the order
of signed numbers.
-/

import Mmpack.Session

namespace Mmpack

/-! ### The order of a kind -/

/-- Where a raw value stands in the order its kind is observed in. -/
def FieldKind.rank (kind : FieldKind) (raw : UInt64) : Int :=
  if kind = .sint then raw.toInt64.toInt else raw.toNat

theorem FieldKind.rank_lt_iff (kind : FieldKind) (first second : UInt64) :
    kind.rank first < kind.rank second ↔
      if kind = .sint then first.toInt64 < second.toInt64 else first < second := by
  unfold FieldKind.rank
  split
  · exact Int64.lt_iff_toInt_lt.symm
  · rw [UInt64.lt_iff_toNat_lt]
    exact Int.ofNat_lt

theorem FieldKind.rank_injective (kind : FieldKind) : Function.Injective kind.rank := by
  intro first second same
  unfold FieldKind.rank at same
  split at same
  · have equal := Int64.toInt_inj.mp same
    rw [← UInt64.toUInt64_toInt64 first, equal, UInt64.toUInt64_toInt64]
  · exact UInt64.toNat_inj.mp (Int.ofNat_inj.mp same)

/-! ### Observing -/

namespace FieldStats

variable {stats : FieldStats} {kind : FieldKind} {values : List UInt64}

/-- What observing a value does to statistics that have seen one. -/
theorem observe_of_seen (seen : stats.seen = true) (kind : FieldKind) (raw : UInt64) :
    stats.observe kind raw =
      { min := if kind.rank raw < kind.rank stats.min then raw else stats.min
        max := if kind.rank stats.max < kind.rank raw then raw else stats.max
        seen := true } := by
  simp only [observe, seen, FieldKind.rank_lt_iff, Bool.true_eq_false, if_false]
  split <;> rfl

/-- The statistics of a field that was given some values: whether there is one, the least and
the greatest. -/
structure Spans (stats : FieldStats) (kind : FieldKind) (values : List UInt64) : Prop where
  seen : stats.seen = true ↔ values ≠ []
  min : values ≠ [] → stats.min ∈ values ∧ ∀ value ∈ values, kind.rank stats.min ≤ kind.rank value
  max : values ≠ [] → stats.max ∈ values ∧ ∀ value ∈ values, kind.rank value ≤ kind.rank stats.max

theorem spans_empty (kind : FieldKind) : FieldStats.empty.Spans kind [] where
  seen := by simp [FieldStats.empty]
  min none := absurd rfl none
  max none := absurd rfl none

/-- Observing a value adds it to the values spanned. -/
theorem Spans.observe (spans : stats.Spans kind values) (raw : UInt64) :
    (stats.observe kind raw).Spans kind (values ++ [raw]) := by
  by_cases fresh : values = []
  · have unseen : stats.seen = false := by simpa [fresh] using spans.seen
    subst fresh
    have observed : stats.observe kind raw = { min := raw, max := raw, seen := true } :=
      if_pos unseen
    rw [observed]
    exact ⟨by simp, fun _ => by simp, fun _ => by simp⟩
  · obtain ⟨minMember, least⟩ := spans.min fresh
    obtain ⟨maxMember, greatest⟩ := spans.max fresh
    rw [observe_of_seen (spans.seen.mpr fresh)]
    refine ⟨by simp, fun _ => ⟨?_, fun value member => ?_⟩, fun _ => ⟨?_, fun value member => ?_⟩⟩
    · simp only
      split
      · exact List.mem_append_right _ (List.mem_singleton_self raw)
      · exact List.mem_append_left _ minMember
    · rcases List.mem_append.mp member with old | new
      · have bound := least value old
        simp only
        split <;> omega
      · obtain rfl := List.mem_singleton.mp new
        simp only
        split <;> omega
    · simp only
      split
      · exact List.mem_append_right _ (List.mem_singleton_self raw)
      · exact List.mem_append_left _ maxMember
    · rcases List.mem_append.mp member with old | new
      · have bound := greatest value old
        simp only
        split <;> omega
      · obtain rfl := List.mem_singleton.mp new
        simp only
        split <;> omega

end FieldStats

/-! ### The values of a log -/

/-- The raw value of a setter call that is observed. -/
def Builder.FieldValue.observed : Builder.FieldValue → Option UInt64
  | .uint value => some value
  | .sint value => some value.toUInt64
  | _ => none

/-- The values observed for a field. -/
def observedAt (sets : List (Nat × Builder.FieldValue)) (id : Nat) : List UInt64 :=
  sets.filterMap fun set => if set.1 = id then set.2.observed else none

theorem observedAt_append (sets : List (Nat × Builder.FieldValue)) (id other : Nat)
    (value : Builder.FieldValue) :
    observedAt (sets ++ [(id, value)]) other = observedAt sets other ++
      if id = other then value.observed.toList else [] := by
  rw [observedAt, List.filterMap_append]
  refine congrArg _ ?_
  by_cases same : id = other
  · rw [if_pos same]
    cases observed : value.observed <;> simp [same, observed]
  · simp [same]

theorem mem_observedAt {sets : List (Nat × Builder.FieldValue)} {id : Nat}
    {value : Builder.FieldValue} {raw : UInt64} (member : (id, value) ∈ sets)
    (observed : value.observed = some raw) : raw ∈ observedAt sets id :=
  List.mem_filterMap.mpr ⟨(id, value), member, by rw [if_pos rfl, observed]⟩

end Mmpack
