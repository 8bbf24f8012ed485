/-
This file compares two tables that were opened from the images of two builds. When the
builds hold the same records in the same order, address them alike and agree on every
field that was left unset, the tables cannot be told apart: iterating, reading a record
and every lookup give the same on both, whatever the layouts are.
-/

import Mmpack.Agreement
import Mmpack.Readings
import Mmpack.SameInput

namespace Mmpack

open ByteList Checked Cursor SortedMap

/-! ### Alike tables -/

namespace Table

/-- One record, read through two tables. -/
structure SameRecord (first second : Table) (it it' : Position) : Prop where
  partition : second.partition it' = first.partition it
  address : second.address it' = first.address it
  addressInto : ∀ out, second.addressInto it' out = first.addressInto it out
  key : second.key it' = first.key it
  readings : ∀ id, second.readings it' id = first.readings it id

/-- Two tables that hold the same records in the same order. The position at their size is the
end. -/
structure Alike (first second : Table) : Prop where
  size : second.size = first.size
  finish : first.nth first.size = .ok first.end ∧ second.nth second.size = .ok second.end
  records : ∀ n < first.size, ∃ it it', first.nth n = .ok it ∧ second.nth n = .ok it' ∧
    SameRecord first second it it'
  lookups : ∀ lookup target, ∃ n ≤ first.size,
    first.lookup lookup target = first.nth n ∧ second.lookup lookup target = second.nth n

/-- The partition and the probe a target is looked up by. -/
def probeOf (table : Table) : Target → Nat × Probe
  | .key key => (table.schema.partitionOf key.toNat, .narrow (table.schema.addressOf key.toNat))
  | .integer partition address => (partition.toNat, .narrow address.toNat)
  | .bytes partition address =>
    (partition.toNat, if table.narrowAddress = true then .narrow (leNat address) else .wide address)

variable {table : Table}

/-- A target is looked up by its probe where the table answers it. -/
theorem targetPosition_of_asks (valid : table.Valid) {target : Target}
    (asks : target.Asks table) (lookup : Lookup) :
    table.targetPosition lookup target =
      table.position lookup (table.probeOf target).1 (table.probeOf target).2 := by
  cases target with
  | key key => exact if_pos ⟨asks, valid.keyed asks⟩
  | integer partition address => exact if_pos asks
  | bytes partition address => exact if_pos asks

/-- Nothing is found where it does not. -/
theorem targetPosition_of_not_asks {target : Target} (notAsks : ¬ target.Asks table)
    (lookup : Lookup) : table.targetPosition lookup target = table.end := by
  cases target with
  | key key => exact if_neg fun both => notAsks both.1
  | integer partition address => exact if_neg notAsks
  | bytes partition address => exact if_neg notAsks

theorem probeOf_suits (valid : table.Valid) {target : Target} (asks : target.Asks table) :
    table.Suits (table.probeOf target).2 := by
  cases target with
  | key key => exact ⟨valid.keyed asks, addressOf_lt _ key.toNat_lt⟩
  | integer partition address => exact ⟨asks, address.toNat_lt⟩
  | bytes partition address =>
    unfold probeOf
    cases narrow : table.narrowAddress with
    | true => exact ⟨narrow, leNat_lt_64 valid narrow asks⟩
    | false => exact ⟨narrow, asks⟩

end Table

/-! ### Builds of the same records -/

/-- Two finished builds of the same records. They agree on the shape and the dictionary of every
field that some record leaves unset. -/
structure SameRecords (build second : Build) (builder builder' : Builder) : Prop where
  sorted : second.log.sorted = build.log.sorted
  schema : builder'.schema = builder.schema
  addressWidth : builder'.layout.addressWidth = builder.layout.addressWidth
  keyBits : builder'.keyBits = builder.keyBits
  unset : ∀ entry ∈ build.log.sorted, ∀ i decl, builder.schema.fields[i]? = some decl →
    lastSet entry.sets i = none → fieldShape builder' i decl = fieldShape builder i decl ∧
      (builder'.dictOf i).order = (builder.dictOf i).order

/-- Records of integer addresses, or of addresses of nine to 255 bytes. -/
def Build.PlacesAgree (build : Build) : Prop :=
  ∀ entry ∈ build.log.committed, entry.addressBytes = [] ∨
    9 ≤ entry.addressBytes.length ∧ entry.addressBytes.length ≤ 255

theorem Build.PlacesAgree.short {build : Build} (agree : build.PlacesAgree) :
    ∀ entry ∈ build.log.committed, entry.addressBytes.length < 2 ^ 8 := by
  intro entry member
  rcases agree entry member with integer | ⟨-, short⟩
  · rw [integer]
    decide
  · omega

namespace Opens

variable {build second : Build} {builder builder' : Builder} {places places' : Places}
  {table table' : Table}

theorem head_addressBits (opens : Opens build builder places table) :
    table.schema.head.addressBits = builder.keyBits := by
  rw [opens.head]
  rfl

/-- Such records have one place for the builder and for the reader. -/
theorem placeBy_eq (opens : Opens build builder places table) (agree : build.PlacesAgree)
    {entry : Committed} (member : entry ∈ build.log.committed) :
    entry.placeBy table.narrowAddress = entry.place := by
  rcases agree entry member with integer | ⟨long, short⟩
  · exact entry.placeBy_of_integer integer _
  · have shaped := opens.built.entry_shaped member
    have wide : builder.blob.isSome = true := by
      by_contra narrow
      rw [if_neg narrow] at shaped
      rw [shaped] at long
      exact absurd long (by decide)
    rw [if_pos wide] at shaped
    have small : builder.layout.addressWidth < 2 ^ 8 := by
      rw [wide_layout wide, ← shaped.2.1]
      omega
    have regime : table.narrowAddress = false := by
      rw [opens.narrowAddress small, wide_layout wide, ← shaped.2.1]
      exact decide_eq_false (by omega)
    rw [regime, Committed.placeBy_false]

/-- The headers of the two tables agree on the addresses and on the key space. -/
theorem same_header (opens : Opens build builder places table)
    (opens' : Opens second builder' places' table')
    (same : SameRecords build second builder builder') :
    table'.addressWidth = table.addressWidth ∧ table'.narrowAddress = table.narrowAddress ∧
      table'.hasKeyMapping = table.hasKeyMapping ∧
        table'.schema.head.addressBits = table.schema.head.addressBits := by
  have width : table'.addressWidth = table.addressWidth := by
    rw [opens.addressWidth, opens'.addressWidth, same.addressWidth]
  have bits : table'.schema.head.addressBits = table.schema.head.addressBits := by
    rw [opens.head_addressBits, opens'.head_addressBits, same.keyBits]
  refine ⟨width, ?_, ?_, bits⟩
  · rw [opens.valid.addressWidth_eq, opens'.valid.addressWidth_eq] at width
    exact congrArg (fun width : Nat => decide (width ≤ 8)) width
  · exact congrArg (fun bits : Nat => decide (bits ≠ noKeyMapping)) bits

/-- The committed records of the two builds are the same ones. -/
theorem mem_committed (same : SameRecords build second builder builder') {entry : Committed} :
    entry ∈ second.log.committed ↔ entry ∈ build.log.committed := by
  rw [← Log.mem_sorted, same.sorted, Log.mem_sorted]

theorem same_size (opens : Opens build builder places table)
    (opens' : Opens second builder' places' table')
    (same : SameRecords build second builder builder') :
    table'.recordCount = table.recordCount := by
  rw [← opens.sorted_length, ← opens'.sorted_length, same.sorted]

/-- The fields of a record read the same through both tables. -/
theorem same_readings (opens : Opens build builder places table)
    (opens' : Opens second builder' places' table')
    (same : SameRecords build second builder builder')
    (texts : build.schema.fields.countP (·.kind = .text) ≤ 2 ^ 16) {it it' : Position}
    (names : Names table.countAt table.dirCount it)
    (names' : Names table'.countAt table'.dirCount it') {entry : Committed}
    (located : build.log.sorted[rank table.countAt it]? = some entry)
    (located' : second.log.sorted[rank table'.countAt it']? = some entry) (id : Nat) :
    table'.readings it' id = table.readings it id := by
  cases found : builder.schema.fields[id]? with
  | none =>
    have past := List.getElem?_eq_none_iff.mp found
    rw [Table.readings_past (by rw [opens'.fieldCount, same.schema]; exact past),
      Table.readings_past (by rw [opens.fieldCount]; exact past)]
  | some decl =>
    have texts' : second.schema.fields.countP (·.kind = .text) ≤ 2 ^ 16 := by
      rw [← opens'.built.schema, same.schema, opens.built.schema]
      exact texts
    have declared : builder'.schema.fields[id]? = some decl := by rw [same.schema, found]
    rw [opens.readings_of_entry texts names located found,
      opens'.readings_of_entry texts' names' located' declared]
    cases set : lastSet entry.sets id with
    | some value => rfl
    | none =>
      obtain ⟨shape, order⟩ := same.unset entry (List.mem_of_getElem? located) id decl found set
      simp only [shape, order]

/-- A record reads the same through both tables. -/
theorem same_record (opens : Opens build builder places table)
    (opens' : Opens second builder' places' table')
    (same : SameRecords build second builder builder')
    (texts : build.schema.fields.countP (·.kind = .text) ≤ 2 ^ 16)
    (short : ∀ entry ∈ build.log.committed, entry.addressBytes.length < 2 ^ 8) {n : Nat}
    (inside : n < table.recordCount) :
    ∃ it it', table.nth n = .ok it ∧ table'.nth n = .ok it' ∧
      Table.SameRecord table table' it it' := by
  obtain ⟨width, regime, mapped, bits⟩ := opens.same_header opens' same
  rw [← opens.sorted_length] at inside
  have located := List.getElem?_eq_getElem inside
  have located' : second.log.sorted[n]? = some build.log.sorted[n] := by rw [same.sorted, located]
  obtain ⟨it, runs, names, atRank, entryAt⟩ := opens.record short located
  obtain ⟨it', runs', names', atRank', entryAt'⟩ := opens'.record
    (fun entry member => short entry ((mem_committed same).mp member)) located'
  generalize build.log.sorted[n] = entry at located located' entryAt entryAt'
  have partition := entryAt'.partition.trans entryAt.partition.symm
  have number : table'.recordNumber it'.slot it'.index = table.recordNumber it.slot it.index := by
    rw [entryAt.number, entryAt'.number, regime]
  have value (narrow : table.narrowAddress = true) :
      table'.addressValue it'.slot it'.index = table.addressValue it.slot it.index := by
    rw [Table.addressValue_eq opens.valid narrow names.1 names.2,
      Table.addressValue_eq opens'.valid (regime.trans narrow) names'.1 names'.2, number]
  refine ⟨it, it', runs, runs',
    { partition := ?_
      address := ?_
      addressInto := fun out => ?_
      key := ?_
      readings := fun id => ?_ }⟩
  · rw [Table.partition_eq opens.valid names, Table.partition_eq opens'.valid names', partition]
  · rw [Table.address_eq opens.valid names, Table.address_eq opens'.valid names', regime]
    cases narrow : table.narrowAddress with
    | false => rfl
    | true => simp only [Bool.true_eq_false, if_false, value narrow]
  · rw [Table.addressInto_eq opens.valid names, Table.addressInto_eq opens'.valid names', width,
      entryAt.field, entryAt'.field, width]
  · rw [Table.key_eq opens.valid names, Table.key_eq opens'.valid names', mapped]
    cases keyed : table.hasKeyMapping with
    | false => rfl
    | true =>
      have narrow := opens.valid.keyed keyed
      simp only [Bool.true_eq_false, if_false, Table.keyValue, SchemaView.addressBits, bits,
        partition, value narrow]
      rfl
  · exact opens.same_readings opens' same texts names names' (atRank.symm ▸ located)
      (atRank'.symm ▸ located') id

/-- A target is looked up by the same probe in both tables, or is answered by neither. -/
theorem same_probe (opens : Opens build builder places table)
    (opens' : Opens second builder' places' table')
    (same : SameRecords build second builder builder') (target : Target) :
    table'.probeOf target = table.probeOf target ∧
      (target.Asks table' ↔ target.Asks table) := by
  obtain ⟨width, regime, mapped, bits⟩ := opens.same_header opens' same
  cases target with
  | key key =>
    refine ⟨?_, by rw [Target.Asks, Target.Asks, mapped]⟩
    simp only [Table.probeOf, SchemaView.partitionOf, SchemaView.addressOf, bits]
  | integer partition address => exact ⟨rfl, by rw [Target.Asks, Target.Asks, regime]⟩
  | bytes partition address =>
    exact ⟨by rw [Table.probeOf, Table.probeOf, regime], by rw [Target.Asks, Target.Asks, width]⟩

/-- Every lookup lands on the same rank in both tables. -/
theorem same_lookup (opens : Opens build builder places table)
    (opens' : Opens second builder' places' table')
    (same : SameRecords build second builder builder') (agree : build.PlacesAgree)
    (lookup : Lookup) (target : Target) : ∃ n ≤ table.recordCount,
      table.lookup lookup target = table.nth n ∧ table'.lookup lookup target = table'.nth n := by
  by_cases empty : build.log.sorted = []
  · exact ⟨0, Nat.zero_le _, opens.lookup_nil empty lookup target,
      opens'.lookup_nil (same.sorted.trans empty) lookup target⟩
  obtain ⟨probe, asksIff⟩ := opens.same_probe opens' same target
  by_cases asks : target.Asks table
  · have agree' : second.PlacesAgree := fun entry member =>
      agree entry ((mem_committed same).mp member)
    have asks' := asksIff.mpr asks
    obtain ⟨n, bound, runs, answers⟩ := opens.answers agree.short
      (fun entry member => opens.placeBy_eq agree member) (table.probeOf target).2
      (Table.probeOf_suits opens.valid asks) lookup (table.probeOf target).1
    obtain ⟨n', bound', runs', answers'⟩ := opens'.answers agree'.short
      (fun entry member => opens'.placeBy_eq agree' member) (table'.probeOf target).2
      (Table.probeOf_suits opens'.valid asks') lookup (table'.probeOf target).1
    rw [probe, same.sorted] at answers'
    have rank := index_unique opens.sorted_places (by rwa [List.length_map])
      (by rwa [List.length_map, ← same.sorted]) (answers.unique answers')
    refine ⟨n, by rwa [← opens.sorted_length], ?_, ?_⟩
    · rw [Table.lookup_eq opens.valid, Table.targetPosition_of_asks opens.valid asks, runs]
    · rw [Table.lookup_eq opens'.valid, Table.targetPosition_of_asks opens'.valid asks', runs',
        rank]
  · refine ⟨table.recordCount, Nat.le_refl _, ?_, ?_⟩
    · rw [Table.lookup_eq opens.valid, Table.targetPosition_of_not_asks asks,
        Table.nth_end opens.valid]
    · rw [Table.lookup_eq opens'.valid,
        Table.targetPosition_of_not_asks fun asks' => asks (asksIff.mp asks'),
        ← opens.same_size opens' same, Table.nth_end opens'.valid]

/-- Tables of the same records are alike. -/
theorem alike (opens : Opens build builder places table)
    (opens' : Opens second builder' places' table')
    (same : SameRecords build second builder builder')
    (texts : build.schema.fields.countP (·.kind = .text) ≤ 2 ^ 16)
    (agree : build.PlacesAgree) : table.Alike table' where
  size := opens.same_size opens' same
  finish := ⟨Table.nth_end opens.valid, Table.nth_end opens'.valid⟩
  records := fun _ inside => opens.same_record opens' same texts agree.short inside
  lookups := opens.same_lookup opens' same agree

end Opens

end Mmpack
