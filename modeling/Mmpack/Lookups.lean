/-
This file proves that the lookups of a table are those of a sorted map. A record
stands at the place given by its partition and the number its address spells. When
the places increase along the table, every lookup lands on the iterator that many
steps from the start as the map answers, for every probe and over all forms of the
directory, empty slots included.
-/

import Mmpack.Probes
import Mmpack.SortedMap

namespace Mmpack

open ByteList Checked Cursor SortedMap

/-- What a lookup answers on the sorted map with the given keys. -/
def Lookup.Answers {Key : Type} [LT Key] (lookup : Lookup) (keys : List Key) (probe : Key) :
    Option Key → Prop :=
  match lookup with
  | .find => Least keys fun key => key = probe
  | .lowerBound | .ceil => Least keys fun key => ¬ key < probe
  | .upperBound => Least keys fun key => probe < key
  | .floor => Greatest keys fun key => ¬ probe < key

/-- A lookup has one answer. -/
theorem Lookup.Answers.unique {Key : Type} [LinearOrder Key] {lookup : Lookup} {keys : List Key}
    {probe : Key} {first second : Option Key} (answers : lookup.Answers keys probe first)
    (answers' : lookup.Answers keys probe second) : first = second := by
  cases lookup with
  | find | lowerBound | upperBound | ceil => exact Least.unique answers answers'
  | floor => exact Greatest.unique answers answers'

namespace Table

/-! ### Places -/

/-- The iterator a number of steps from the start. -/
def nth (table : Table) : Nat → Read Position
  | 0 => table.begin
  | n + 1 => do table.next (← nth table n)

/-- Where a record stands: its partition, then the number of its address. -/
def placeAt (table : Table) (it : Position) : ℕ ×ₗ ℕ :=
  toLex ((table.entry it.slot).partition, table.recordNumber it.slot it.index)

/-- The places of the records, in the order of the table. -/
structure Lists (table : Table) (places : List (ℕ ×ₗ ℕ)) : Prop where
  length : places.length = table.recordCount
  place : ∀ it, Names table.countAt table.dirCount it →
    places[rank table.countAt it]? = some (table.placeAt it)

/-- In every slot the numbers of the records increase. -/
def Increasing (table : Table) : Prop :=
  ∀ s < table.dirCount, ∀ i j, i < j → j < table.countAt s →
    table.recordNumber s i < table.recordNumber s j

variable {table : Table}

theorem nth_spec (valid : table.Valid) {n : Nat} (bound : n ≤ table.recordCount) :
    ∃ it, table.nth n = .ok it ∧ Settled table.countAt table.dirCount it ∧
      rank table.countAt it = n := by
  have items : itemsBefore table.countAt table.dirCount = table.recordCount := valid.items
  induction n with
  | zero => exact ⟨_, begin_eq valid, first_spec⟩
  | succ n inductionHypothesis =>
    obtain ⟨it, runs, isSettled, same⟩ := inductionHypothesis (Nat.le_of_succ_le bound)
    have names := isSettled.names_of_rank_lt (by omega)
    obtain ⟨nextSettled, nextRank⟩ := forward_spec names
    refine ⟨_, ?_, nextSettled, by rw [nextRank, same]⟩
    rw [nth, runs, ok_bind, next_eq valid isSettled]

/-- An iterator is as many steps from the start as there are records before it. -/
theorem nth_rank (valid : table.Valid) {it : Position}
    (isSettled : Settled table.countAt table.dirCount it) :
    table.nth (rank table.countAt it) = .ok it := by
  have items : itemsBefore table.countAt table.dirCount = table.recordCount := valid.items
  obtain ⟨other, runs, otherSettled, same⟩ := nth_spec valid (items ▸ isSettled.rank_le)
  rw [runs, otherSettled.eq_of_rank_eq isSettled same]

theorem nth_end (valid : table.Valid) : table.nth table.recordCount = .ok table.end := by
  have items : itemsBefore table.countAt table.dirCount = table.recordCount := valid.items
  rw [← items]
  exact nth_rank valid table.end_settled

/-- The record at an index of the table. -/
theorem nth_names (valid : table.Valid) {n : Nat} (inside : n < table.recordCount) :
    ∃ it, table.nth n = .ok it ∧ Names table.countAt table.dirCount it ∧
      rank table.countAt it = n := by
  have items : itemsBefore table.countAt table.dirCount = table.recordCount := valid.items
  obtain ⟨it, runs, isSettled, same⟩ := nth_spec valid (Nat.le_of_lt inside)
  exact ⟨it, runs, isSettled.names_of_rank_lt (by omega), same⟩

theorem Lists.increasing {places : List (ℕ ×ₗ ℕ)} (lists : table.Lists places)
    (sorted : places.Pairwise (· < ·)) : table.Increasing := by
  intro s inside i j less below
  have first := lists.place ⟨s, i⟩ ⟨inside, by simp only; omega⟩
  have second := lists.place ⟨s, j⟩ ⟨inside, below⟩
  obtain ⟨inFirst, firstEq⟩ := List.getElem?_eq_some_iff.mp first
  obtain ⟨inSecond, secondEq⟩ := List.getElem?_eq_some_iff.mp second
  have ordered := List.pairwise_iff_getElem.mp sorted _ _ inFirst inSecond
    (by rw [rank, rank]; simp only; omega)
  rw [firstEq, secondEq, placeAt, placeAt, Prod.Lex.toLex_lt_toLex] at ordered
  exact ordered.elim (fun lower => absurd lower (Nat.lt_irrefl _)) fun same => same.2

/-! ### Finding the slot -/

theorem dense_partition (valid : table.Valid) (dense : table.dense = true) (s : Nat) :
    (table.entry s).partition = s := by
  have absent : table.dir.partitionWidth = 0 := by
    have both := valid.directory.dense
    rw [dense] at both
    exact of_decide_eq_true both
  simp only [entry, entryAt, presentAt, absent, ne_eq, not_true_eq_false, if_false]

theorem partition_mono (valid : table.Valid) {lower upper : Nat} (ordered : lower ≤ upper)
    (inside : upper < table.dirCount) :
    (table.entry lower).partition ≤ (table.entry upper).partition := by
  rcases Nat.eq_or_lt_of_le ordered with rfl | less
  · exact Nat.le_refl _
  · exact Nat.le_of_lt (valid.partition_lt less inside)

theorem slotLower_spec (valid : table.Valid) (p : Nat) :
    (∀ s < table.slotLower p, (table.entry s).partition < p) ∧
      ∀ s, table.slotLower p ≤ s → s < table.dirCount → p ≤ (table.entry s).partition := by
  unfold slotLower
  cases dense : table.dense with
  | true =>
    simp only [if_true, dense_partition valid dense]
    split
    · exact ⟨fun s below => below, fun s above _ => above⟩
    · exact ⟨fun s below => by omega, fun s above inside => by omega⟩
  | false =>
    simp only [Bool.false_eq_true, if_false]
    have downward : Bisect.Downward (fun mid => decide ((table.entry mid).partition < p))
        table.dirCount := fun lower upper ordered inside less => by
      have step := partition_mono valid ordered inside
      simp only [decide_eq_true_eq] at less ⊢
      omega
    refine ⟨fun s below => ?_, fun s above inside => ?_⟩
    · simpa using Bisect.before_of_lt_point downward below
    · simpa using Bisect.not_before_of_point_le downward above inside

theorem slotLast_spec (valid : table.Valid) (p : Nat) :
    (table.dirCount ≤ table.slotLast p ∧
        ∀ s < table.dirCount, p < (table.entry s).partition) ∨
      (table.slotLast p < table.dirCount ∧ (table.entry (table.slotLast p)).partition ≤ p ∧
        ∀ s, table.slotLast p < s → s < table.dirCount → p < (table.entry s).partition) := by
  unfold slotLast
  by_cases none : table.dirCount = 0
  · rw [if_pos none]
    exact Or.inl ⟨by omega, fun s inside => by omega⟩
  rw [if_neg none]
  cases dense : table.dense with
  | true =>
    simp only [if_true, dense_partition valid dense]
    split
    · exact Or.inr ⟨by omega, Nat.le_refl _, fun s above _ => above⟩
    · exact Or.inr ⟨by omega, by omega, fun s above inside => by omega⟩
  | false =>
    simp only [Bool.false_eq_true, if_false]
    have downward : Bisect.Downward (fun mid => decide ((table.entry mid).partition ≤ p))
        table.dirCount := fun lower upper ordered inside least => by
      have step := partition_mono valid ordered inside
      simp only [decide_eq_true_eq] at least ⊢
      omega
    have bound := Bisect.point_le (fun mid => decide ((table.entry mid).partition ≤ p))
      table.dirCount
    have below (s : Nat) := @Bisect.before_of_lt_point _ _ s downward
    have above (s : Nat) := @Bisect.not_before_of_point_le _ _ s downward
    generalize Bisect.point (fun mid => decide ((table.entry mid).partition ≤ p))
      table.dirCount = lo at *
    by_cases zero : lo = 0
    · rw [if_pos zero]
      refine Or.inl ⟨Nat.le_refl _, fun s inside => ?_⟩
      simpa using above s (by omega) inside
    · rw [if_neg zero]
      refine Or.inr ⟨by omega, ?_, fun s later inside => ?_⟩
      · simpa using below (lo - 1) (by omega)
      · simpa using above s (by omega) inside

/-- The slot the floor is looked for in, told from the slot the bounds are looked for in. -/
theorem slotLast_eq (valid : table.Valid) (p : Nat) :
    (table.slotLower p < table.dirCount → (table.entry (table.slotLower p)).partition = p →
      table.slotLast p = table.slotLower p) ∧
      (¬ (table.slotLower p < table.dirCount ∧ (table.entry (table.slotLower p)).partition = p) →
        (table.slotLower p = 0 ∧ table.dirCount ≤ table.slotLast p) ∨
          table.slotLast p + 1 = table.slotLower p) := by
  obtain ⟨earlier, later⟩ := slotLower_spec valid p
  have bound := table.slotLower_le p
  generalize table.slotLower p = lower at *
  rcases slotLast_spec valid p with ⟨past, above⟩ | ⟨inside, least, above⟩
  · refine ⟨fun here same => ?_, fun _ => Or.inl ⟨?_, past⟩⟩
    · have more := above lower here
      omega
    · by_contra positive
      have less := earlier 0 (by omega)
      have more := above 0 (by omega)
      omega
  · generalize table.slotLast p = last at *
    refine ⟨fun here same => ?_, fun absent => Or.inr ?_⟩
    · rcases Nat.lt_trichotomy last lower with before | equal | after
      · have more := above lower before here
        omega
      · exact equal
      · have more := valid.partition_lt after inside
        omega
    · have after : last < lower := by
        by_contra before
        have more := later last (by omega) inside
        have mono := partition_mono valid (Nat.not_lt.mp before) inside
        have fromLower := later lower (Nat.le_refl _) (by omega)
        exact absent ⟨by omega, by omega⟩
      by_contra apart
      have less := earlier (last + 1) (by omega)
      have more := above (last + 1) (by omega) (by omega)
      omega

/-! ### The bounds -/

theorem rank_boundPosition_eq (table : Table) (before : Nat → Nat → Bool) (partition : Nat) :
    rank table.countAt (table.boundPosition before partition) =
      itemsBefore table.countAt (table.slotLower partition) +
        if table.slotLower partition < table.dirCount ∧
            (table.entry (table.slotLower partition)).partition = partition then
          Bisect.point (before (table.slotLower partition))
            (table.countAt (table.slotLower partition)) else 0 := by
  have slotBound := table.slotLower_le partition
  have pointBound := Bisect.point_le (before (table.slotLower partition))
    (table.countAt (table.slotLower partition))
  unfold boundPosition
  generalize table.slotLower partition = slot at *
  refine (settled_spec slotBound (fun _ => ?_) fun atEnd => ?_).2
  · simp only
    split <;> omega
  · simp only at atEnd ⊢
    rw [if_neg (by omega)]

/-- The records below a bound are those before where it lands. -/
theorem rank_boundPosition (valid : table.Valid) (increasing : table.Increasing)
    (before : Nat → Nat → Bool) (partition bound : Nat)
    (tests : ∀ s i, s < table.dirCount → i < table.countAt s →
      (before s i = true ↔ table.recordNumber s i < bound)) {it : Position}
    (names : Names table.countAt table.dirCount it) :
    rank table.countAt it < rank table.countAt (table.boundPosition before partition) ↔
      table.placeAt it < toLex (partition, bound) := by
  obtain ⟨earlier, later⟩ := slotLower_spec valid partition
  rw [rank_boundPosition_eq, placeAt, Prod.Lex.toLex_lt_toLex]
  generalize table.slotLower partition = slot at *
  have pointBound := Bisect.point_le (before slot) (table.countAt slot)
  simp only
  rcases Nat.lt_trichotomy it.slot slot with lower | same | higher
  · -- In a slot before: the partition is below that of the bound.
    have less := earlier _ lower
    have step := names.rank_lt lower
    exact iff_of_true (lt_of_lt_of_le step (Nat.le_add_right _ _)) (Or.inl less)
  · have inside := names.1
    have below := names.2
    rw [same] at inside below
    have least := later slot (Nat.le_refl _) inside
    rw [rank, same, Nat.add_lt_add_iff_left]
    by_cases found : (table.entry slot).partition = partition
    · -- In the partition of the bound, as far as the bisection got.
      have downward : Bisect.Downward (before slot) (table.countAt slot) :=
        fun low high ordered inSlot passes => by
          rw [tests _ _ inside (by omega)]
          rw [tests _ _ inside inSlot] at passes
          rcases Nat.eq_or_lt_of_le ordered with rfl | less
          · exact passes
          · exact lt_trans (increasing slot inside low high less inSlot) passes
      rw [if_pos ⟨inside, found⟩, or_iff_right (by omega), and_iff_right found,
        ← tests _ _ inside below]
      constructor
      · exact Bisect.before_of_lt_point downward
      · intro passes
        by_contra past
        rw [Bisect.not_before_of_point_le downward (Nat.not_lt.mp past) below] at passes
        cases passes
    · rw [if_neg fun both => found both.2]
      exact iff_of_false (Nat.not_lt_zero _) (by omega)
  · -- In a slot after: the partition is above that of the bound.
    have least := later slot (Nat.le_refl _) (lt_trans higher names.1)
    have step := valid.partition_lt higher names.1
    have grows := itemsBefore_succ table.countAt slot
    have mono := @itemsBefore_mono table.countAt (slot + 1) _ higher
    refine iff_of_false ?_ (by omega)
    rw [rank]
    split <;> omega

/-! ### Floor -/

theorem lastBefore_spec {slot : Nat} (bound : slot ≤ table.dirCount) :
    (itemsBefore table.countAt slot = 0 ∧ table.lastBefore slot = table.end) ∨
      (Names table.countAt table.dirCount (table.lastBefore slot) ∧
        rank table.countAt (table.lastBefore slot) + 1 = itemsBefore table.countAt slot) := by
  cases slot with
  | zero => exact Or.inl ⟨itemsBefore_zero, rfl⟩
  | succ slot =>
    rw [lastBefore, if_neg (Nat.succ_ne_zero _), Nat.add_sub_cancel, atOrBefore_eq]
    by_cases some : 0 < itemsBefore table.countAt (slot + 1)
    · rw [if_pos some]
      exact Or.inr (below_spec bound some)
    · rw [if_neg some]
      exact Or.inl ⟨by omega, rfl⟩

/-- The floor is one step before where the upper bound lands, or the end. -/
theorem floorPosition_spec (valid : table.Valid) (partition : Nat) (probe : Probe) :
    (rank table.countAt (table.boundPosition (table.isAtOrBelow · probe) partition) = 0 ∧
        table.floorPosition partition probe = table.end) ∨
      (Names table.countAt table.dirCount (table.floorPosition partition probe) ∧
        rank table.countAt (table.floorPosition partition probe) + 1 =
          rank table.countAt (table.boundPosition (table.isAtOrBelow · probe) partition)) := by
  obtain ⟨found, absent⟩ := slotLast_eq valid partition
  obtain ⟨earlier, -⟩ := slotLower_spec valid partition
  have bound := table.slotLower_le partition
  rw [rank_boundPosition_eq]
  unfold floorPosition
  generalize table.slotLower partition = lower at *
  by_cases here : lower < table.dirCount ∧ (table.entry lower).partition = partition
  · rw [found here.1 here.2, if_pos here]
    simp only
    rw [if_neg (by omega), if_pos here.2]
    have pointBound := Bisect.point_le (table.isAtOrBelow lower probe) (table.countAt lower)
    generalize Bisect.point (table.isAtOrBelow lower probe) (table.countAt lower) = above at *
    by_cases none : above = 0
    · rw [if_neg (not_not.mpr none), none, Nat.add_zero]
      exact lastBefore_spec bound
    · rw [if_pos none]
      refine Or.inr ⟨⟨here.1, by simp only; omega⟩, ?_⟩
      rw [rank]
      simp only
      omega
  · rw [if_neg here, Nat.add_zero]
    rcases absent here with ⟨zero, past⟩ | next
    · rw [zero]
      simp only
      rw [if_pos past]
      exact Or.inl ⟨itemsBefore_zero, rfl⟩
    · have less := earlier (table.slotLast partition) (by omega)
      have last : atOrBefore table.countAt table.dirCount (table.slotLast partition) =
          table.lastBefore lower := by
        rw [lastBefore, ← next, if_neg (Nat.succ_ne_zero _), Nat.add_sub_cancel]
      simp only
      rw [if_neg (by omega), if_neg (by omega), last]
      exact lastBefore_spec bound

/-! ### Find -/

/-- The search inside a partition finds the record of the probe's number. -/
theorem equalIndex_iff (valid : table.Valid) (increasing : table.Increasing) {probe : Probe}
    (suits : table.Suits probe) {s index : Nat} (inside : s < table.dirCount)
    (below : index < table.countAt s) :
    table.equalIndex s probe = some index ↔ table.recordNumber s index = probe.number := by
  have boundary := Bisect.point_boundary (table.isBelow s probe) (table.countAt s)
  obtain ⟨pointBound, left, right⟩ := boundary
  have tests (i : Nat) (inSlot : i < table.countAt s) := isBelow_iff valid suits inside inSlot
  have ordered (i j : Nat) (less : i < j) (inSlot : j < table.countAt s) :=
    increasing s inside i j less inSlot
  rw [← isEqual_iff valid suits inside below]
  unfold equalIndex
  generalize Bisect.point (table.isBelow s probe) (table.countAt s) = point at *
  cases outside : table.hasHead s probe || table.hasTail s probe with
  | true => simp
  | false =>
    simp only [Bool.false_eq_true, if_false, true_and]
    constructor
    · intro found
      split at found
      · rename_i both
        obtain rfl := Option.some.inj found
        exact both.2
      · nomatch found
    · intro equal
      have number := (isEqual_iff valid suits inside below).mp ⟨outside, equal⟩
      have same : point = index := by
        rcases Nat.lt_trichotomy point index with before | same | after
        · have less := ordered point index before below
          have passes := (tests point (by omega)).mpr (by omega)
          rw [right (by omega)] at passes
          nomatch passes
        · exact same
        · have passes := (tests (point - 1) (by omega)).mp (left (by omega))
          rcases Nat.eq_or_lt_of_le (show index ≤ point - 1 by omega) with equal' | less
          · rw [← equal'] at passes
            omega
          · have more := ordered index (point - 1) less (by omega)
            omega
      rw [same, if_pos ⟨below, equal⟩]

/-- `find` lands on the record at the place of the probe, or at the end when there is none. -/
theorem findPosition_spec (valid : table.Valid) (increasing : table.Increasing) {probe : Probe}
    (suits : table.Suits probe) (partition : Nat) :
    (Names table.countAt table.dirCount (table.findPosition partition probe) ∧
        table.placeAt (table.findPosition partition probe) = toLex (partition, probe.number)) ∨
      (table.findPosition partition probe = table.end ∧
        ∀ it, Names table.countAt table.dirCount it →
          table.placeAt it ≠ toLex (partition, probe.number)) := by
  obtain ⟨earlier, later⟩ := slotLower_spec valid partition
  unfold findPosition
  generalize table.slotLower partition = slot at *
  simp only
  by_cases here : slot < table.dirCount ∧ (table.entry slot).partition = partition
  · rw [if_pos here]
    cases found : table.equalIndex slot probe with
    | some index =>
      have below := equalIndex_lt found
      refine Or.inl ⟨⟨here.1, below⟩, ?_⟩
      rw [placeAt, here.2, (equalIndex_iff valid increasing suits here.1 below).mp found]
    | none =>
      refine Or.inr ⟨rfl, fun it names same => ?_⟩
      obtain ⟨samePartition, sameNumber⟩ := Prod.mk.inj (toLex_inj.mp same)
      have sameSlot : it.slot = slot := by
        rcases Nat.lt_trichotomy it.slot slot with lower | equal | higher
        · have less := earlier _ lower
          omega
        · exact equal
        · have more := valid.partition_lt higher names.1
          omega
      have below := names.2
      rw [sameSlot] at below sameNumber
      rw [(equalIndex_iff valid increasing suits here.1 below).mpr sameNumber] at found
      nomatch found
  · rw [if_neg here]
    refine Or.inr ⟨rfl, fun it names same => ?_⟩
    obtain ⟨samePartition, -⟩ := Prod.mk.inj (toLex_inj.mp same)
    rcases Nat.lt_trichotomy it.slot slot with lower | equal | higher
    · have less := earlier _ lower
      omega
    · rw [equal] at samePartition
      exact here ⟨equal ▸ names.1, samePartition⟩
    · have least := later slot (Nat.le_refl _) (lt_trans higher names.1)
      have more := valid.partition_lt higher names.1
      omega

/-! ### The sorted map -/

section Map

variable {places : List (ℕ ×ₗ ℕ)}

/-- Every listed place is that of the record with as many records before it. -/
theorem Lists.record (lists : table.Lists places) (valid : table.Valid) {i : Nat}
    (inside : i < places.length) : ∃ it, Names table.countAt table.dirCount it ∧
      rank table.countAt it = i ∧ places[i] = table.placeAt it := by
  have items : itemsBefore table.countAt table.dirCount = table.recordCount := valid.items
  obtain ⟨it, names, same⟩ := @exists_names_of_lt table.countAt table.dirCount i
    (by rw [items, ← lists.length]; exact inside)
  have place := lists.place it names
  rw [same, List.getElem?_eq_getElem inside] at place
  exact ⟨it, names, same, Option.some.inj place⟩

theorem Lists.rank_lt (lists : table.Lists places) (valid : table.Valid) {it : Position}
    (names : Names table.countAt table.dirCount it) : rank table.countAt it < places.length := by
  rw [lists.length, ← valid.items]
  exact names.rank_lt names.1

/-- Places up to one with a number are those below the next number. -/
theorem lt_succ_iff (place : ℕ ×ₗ ℕ) (partition number : Nat) :
    place < toLex (partition, number + 1) ↔ ¬ toLex (partition, number) < place := by
  rw [Prod.Lex.lt_iff, Prod.Lex.lt_iff]
  simp only [ofLex_toLex]
  omega

/-- Where a lookup lands is the answer of the sorted map of the places. -/
theorem position_answers (valid : table.Valid) (lists : table.Lists places)
    (sorted : places.Pairwise (· < ·)) {probe : Probe} (suits : table.Suits probe)
    (lookup : Lookup) (partition : Nat) :
    ∃ n ≤ places.length, table.nth n = .ok (table.position lookup partition probe) ∧
      lookup.Answers places (toLex (partition, probe.number)) places[n]? := by
  have increasing := lists.increasing sorted
  have total := lists.length
  have items : itemsBefore table.countAt table.dirCount = table.recordCount := valid.items
  have isSettled : Settled table.countAt table.dirCount (table.position lookup partition probe) :=
    position_settled lookup partition probe
  have lower {it : Position} (names : Names table.countAt table.dirCount it) :=
    rank_boundPosition valid increasing _ partition _
      (fun s i inside below => isBelow_iff valid suits inside below) names
  have upper {it : Position} (names : Names table.countAt table.dirCount it) :=
    rank_boundPosition valid increasing (table.isAtOrBelow · probe) partition (probe.number + 1)
      (fun s i inside below => by
        rw [isAtOrBelow_iff valid suits inside below, Nat.lt_succ_iff]) names
  have upper' {it : Position} (names : Names table.countAt table.dirCount it) :=
    (upper names).trans (lt_succ_iff _ _ _)
  refine ⟨rank table.countAt (table.position lookup partition probe), ?_, nth_rank valid isSettled,
    ?_⟩
  · rw [total, ← items]
    exact isSettled.rank_le
  have least : Least places (fun key => ¬ key < toLex (partition, probe.number))
      places[rank table.countAt (table.boundPosition (table.isBelow · probe) partition)]? :=
    least_of_index sorted fun i inside => by
      obtain ⟨it, names, rfl, place⟩ := lists.record valid inside
      rw [place, ← lower names, Nat.not_lt]
  cases lookup with
  | find =>
    rcases findPosition_spec valid increasing suits partition with ⟨names, place⟩ | ⟨atEnd, none⟩
    · have here := lists.place _ names
      rw [place] at here
      rw [position, here]
      exact ⟨List.mem_of_getElem? here, rfl, fun other _ same => by
        rw [same]
        exact lt_irrefl _⟩
    · rw [position, atEnd, Table.end, rank_end, items, ← total, List.getElem?_length]
      intro key member same
      obtain ⟨i, inside, rfl⟩ := List.getElem_of_mem member
      obtain ⟨it, names, -, place⟩ := lists.record valid inside
      exact none it names (place.symm.trans same)
  | lowerBound => exact least
  | ceil => exact least
  | upperBound =>
    refine least_of_index sorted fun i inside => ?_
    obtain ⟨it, names, rfl, place⟩ := lists.record valid inside
    have above := upper' names
    rw [place, position, ← not_iff_not, ← above, Nat.not_le]
  | floor =>
    rcases floorPosition_spec valid partition probe with ⟨zero, atEnd⟩ | ⟨names, step⟩
    · rw [position, atEnd, Table.end, rank_end, items, ← total, List.getElem?_length]
      intro key member least
      obtain ⟨i, inside, rfl⟩ := List.getElem_of_mem member
      obtain ⟨it, names, -, place⟩ := lists.record valid inside
      rw [place, ← upper' names, zero] at least
      exact Nat.not_lt_zero _ least
    · refine greatest_of_index sorted (lists.rank_lt valid names) fun i inside => ?_
      obtain ⟨it, names', rfl, place⟩ := lists.record valid inside
      have above := upper' names'
      rw [place, ← above, ← step, Nat.lt_succ_iff]
      rfl

end Map

end Table

end Mmpack
