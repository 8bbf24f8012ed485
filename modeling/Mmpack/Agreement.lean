/-
This file proves that the lookups of an opened table agree with each other, also
where its records are out of order and no sorted map stands behind it. The floor is
one step before the upper bound, and what `find` finds is the lower bound and
carries the address asked for: each pair makes the same bisection in the same slot,
wherever that leads.
-/

import Mmpack.Maps

namespace Mmpack

open ByteList Checked Cursor

/-- A target in a form the table answers. -/
def Target.Asks (table : Table) : Target → Prop
  | .key _ => table.hasKeyMapping = true
  | .integer _ _ => table.narrowAddress = true
  | .bytes _ address => address.length = table.addressWidth

/-- The record at an iterator is the one a target asks for. -/
def Target.IsAt (table : Table) (it : Position) : Target → Prop
  | .key wanted => table.key it = .ok (some wanted.toNat)
  | .integer partition address =>
    table.partition it = .ok partition.toNat ∧ table.address it = .ok (some address.toNat)
  | .bytes partition address =>
    table.partition it = .ok partition.toNat ∧
      ∀ out, out.length = table.addressWidth → table.addressInto it out = .ok (some address)

namespace Table

/-- The agreement of the lookups of one target. -/
structure Agree (table : Table) (target : Target) : Prop where
  floor : ∃ upper floor, table.lookup .upperBound target = .ok upper ∧
    table.lookup .floor target = .ok floor ∧
    (table.begin = .ok upper → floor = table.end) ∧
    (table.begin ≠ .ok upper → table.previous upper = .ok floor)
  find : ∃ found lower, table.lookup .find target = .ok found ∧
    table.lookup .lowerBound target = .ok lower ∧
    (found ≠ table.end → found = lower ∧ target.IsAt table found)

variable {table : Table}

/-! ### Floor and upper bound -/

/-- The floor is one step before where the upper bound lands. -/
theorem floor_agrees (valid : table.Valid) (partition : Nat) (probe : Probe) :
    (table.begin = .ok (table.position .upperBound partition probe) →
        table.position .floor partition probe = table.end) ∧
      (table.begin ≠ .ok (table.position .upperBound partition probe) →
        table.previous (table.position .upperBound partition probe) =
          .ok (table.position .floor partition probe)) := by
  have upperSettled := table.position_settled .upperBound partition probe
  rcases floorPosition_spec valid partition probe with ⟨zero, atEnd⟩ | ⟨names, step⟩
  · -- Nothing lies before the upper bound, so it is the start.
    refine ⟨fun _ => atEnd, fun past => absurd (rank_pos valid upperSettled past) ?_⟩
    rw [position, zero]
    exact Nat.lt_irrefl 0
  · refine ⟨fun start => ?_, fun past => ?_⟩
    · rw [begin_eq valid] at start
      have first := (@first_spec table).2
      rw [Except.ok.inj start, position] at first
      omega
    · have positive := rank_pos valid upperSettled past
      obtain ⟨backNames, backRank⟩ := back_spec upperSettled positive
      rw [previous_eq valid upperSettled]
      refine congrArg _ (Settled.eq_of_rank_eq (Or.inl backNames) (Or.inl names) ?_)
      simp only [position] at backRank step ⊢
      omega

/-! ### Find and lower bound -/

/-- What `find` finds is where the lower bound lands, in the partition and at the number of the
probe. -/
theorem find_agrees (valid : table.Valid) {probe : Probe} (suits : table.Suits probe)
    (partition : Nat) (found : table.position .find partition probe ≠ table.end) :
    table.position .find partition probe = table.position .lowerBound partition probe ∧
      Names table.countAt table.dirCount (table.position .find partition probe) ∧
      table.placeAt (table.position .find partition probe) = toLex (partition, probe.number) := by
  simp only [position, findPosition, boundPosition] at found ⊢
  generalize table.slotLower partition = slot at *
  by_cases here : slot < table.dirCount ∧ (table.entry slot).partition = partition
  · rw [if_pos here] at found ⊢
    cases equal : table.equalIndex slot probe with
    | none =>
      rw [equal] at found
      exact absurd rfl found
    | some index =>
      have below := equalIndex_lt equal
      have names : Names table.countAt table.dirCount ⟨slot, index⟩ := ⟨here.1, below⟩
      obtain ⟨inside, isEqual, isPoint⟩ :
          (table.hasHead slot probe || table.hasTail slot probe) = false ∧
            table.isEqual slot probe index = true ∧
              Bisect.point (table.isBelow slot probe) (table.countAt slot) = index := by
        unfold equalIndex at equal
        split at equal
        · cases equal
        · rename_i inside
          simp only at equal
          split at equal
          · rename_i both
            obtain rfl := Option.some.inj equal
            exact ⟨by simpa using inside, both.2, rfl⟩
          · cases equal
      have number := (isEqual_iff valid suits here.1 below).mp ⟨inside, isEqual⟩
      rw [if_pos here, isPoint, settled_eq_self (Or.inl names)]
      exact ⟨rfl, names, congrArg toLex (Prod.ext here.2 number)⟩
  · rw [if_neg here] at found
    exact absurd rfl found

/-- The record at the place a target asks for is the one it asks for. -/
theorem isAt_integer (valid : table.Valid) (narrow : table.narrowAddress = true) {it : Position}
    (names : Names table.countAt table.dirCount it) {partition address : UInt64}
    (place : table.placeAt it = toLex (partition.toNat, address.toNat)) :
    (Target.integer partition address).IsAt table it := by
  obtain ⟨samePartition, number⟩ := Prod.mk.inj (toLex_inj.mp place)
  refine ⟨(partition_eq valid names).trans (congrArg _ samePartition), ?_⟩
  rw [address_eq valid names, narrow, if_neg Bool.noConfusion,
    addressValue_eq valid narrow names.1 names.2, number]

theorem isAt_key (valid : table.Valid) (mapped : table.hasKeyMapping = true) {it : Position}
    (names : Names table.countAt table.dirCount it) {key : UInt64}
    (place : table.placeAt it = toLex (table.schema.partitionOf key.toNat,
      table.schema.addressOf key.toNat)) : (Target.key key).IsAt table it := by
  obtain ⟨samePartition, number⟩ := Prod.mk.inj (toLex_inj.mp place)
  have narrow := valid.keyed mapped
  have bits : table.schema.addressBits ≤ 64 :=
    valid.schema.header.addressBits.resolve_right (of_decide_eq_true mapped)
  obtain ⟨partition, address⟩ := SchemaView.splitKey rfl bits key.toNat_lt
  rw [Target.IsAt, key_eq valid names, mapped, if_neg Bool.noConfusion, keyValue,
    addressValue_eq valid narrow names.1 names.2, number, samePartition, partition, address,
    ← partitionOf_toNat bits, ← addressOf_toNat bits, ← packKey_toNat, packKey_split bits]

theorem isAt_bytes (valid : table.Valid) {it : Position}
    (names : Names table.countAt table.dirCount it) {partition : UInt64} {address : List UInt8}
    (length : address.length = table.addressWidth)
    (samePartition : (table.entry it.slot).partition = partition.toNat)
    (number : table.recordNumber it.slot it.index =
      if table.narrowAddress = true then leNat address else beNat address) :
    (Target.bytes partition address).IsAt table it := by
  refine ⟨(partition_eq valid names).trans (congrArg _ samePartition), fun out width => ?_⟩
  rw [addressInto_eq valid names, if_neg (not_not.mpr width)]
  have sameLength := (fullAddress_length valid names.1 names.2).trans length.symm
  rw [recordNumber] at number
  split at number
  · rw [leNat_inj sameLength number]
  · rw [beNat_inj sameLength number]

/-! ### Every target -/

theorem Valid.agree (valid : table.Valid) {target : Target} (asks : target.Asks table) :
    table.Agree target := by
  obtain ⟨partition, probe, suits, lands, isAt⟩ : ∃ partition probe, table.Suits probe ∧
      (∀ lookup, table.targetPosition lookup target = table.position lookup partition probe) ∧
      ∀ it, Names table.countAt table.dirCount it →
        table.placeAt it = toLex (partition, probe.number) → target.IsAt table it := by
    cases target with
    | key key =>
      have narrow := valid.keyed asks
      exact ⟨_, .narrow (table.schema.addressOf key.toNat),
        ⟨narrow, addressOf_lt _ key.toNat_lt⟩, fun lookup => if_pos ⟨asks, narrow⟩,
        fun it names => isAt_key valid asks names⟩
    | integer partition address =>
      exact ⟨_, .narrow address.toNat, ⟨asks, address.toNat_lt⟩, fun lookup => if_pos asks,
        fun it names => isAt_integer valid asks names⟩
    | bytes partition address =>
      refine ⟨partition.toNat, if table.narrowAddress = true then .narrow (leNat address)
        else .wide address, ?_, fun lookup => if_pos asks, fun it names place => ?_⟩
      · cases narrow : table.narrowAddress with
        | true => exact ⟨narrow, leNat_lt_64 valid narrow asks⟩
        | false => exact ⟨narrow, asks⟩
      · obtain ⟨samePartition, number⟩ := Prod.mk.inj (toLex_inj.mp place)
        refine isAt_bytes valid names asks samePartition (number.trans ?_)
        split <;> rfl
  obtain ⟨first, later⟩ := floor_agrees valid partition probe
  refine ⟨⟨_, _, lookup_eq valid _ _, lookup_eq valid _ _, ?_⟩,
    ⟨_, _, lookup_eq valid _ _, lookup_eq valid _ _, ?_⟩⟩
  · rw [lands, lands]
    exact ⟨first, later⟩
  · rw [lands, lands]
    intro found
    obtain ⟨same, names, place⟩ := find_agrees valid suits partition found
    exact ⟨same, isAt _ names place⟩

/-- On every accepted image, sorted or not, the lookups of every target agree. -/
theorem lookups_agree {image : Image} (opened : tryOpen (some image) = pure table)
    {target : Target} (asks : target.Asks table) : table.Agree target :=
  ((tryOpen_ensures image).of_accepts opened).2.agree asks

theorem sample_lookups_agree : ∃ table, tryOpen (some sampleImage) = pure table ∧
    table.Agree (.integer 2 1) := by
  obtain ⟨table, opened, narrow⟩ : ∃ table, tryOpen (some sampleImage) = pure table ∧
      table.narrowAddress = true := exists_of_acceptsWith (by decide +kernel)
  exact ⟨table, opened, lookups_agree opened narrow⟩

end Table

end Mmpack
