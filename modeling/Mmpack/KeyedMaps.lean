/-
This file says what the wrappers of `keyed.hpp` amount to. When the split keeps the order
of the keys, the table built and opened through it is a sorted map from the caller's keys:
every lookup is that of the map, every record is found under its key with the values set
on it, and a join that undoes the split gives the key back, in either form.
-/

import Mmpack.Keyed

namespace Mmpack

open ByteList Checked Cursor SortedMap

variable {Key : Type}

/-! ### Splits that keep the order -/

/-- The split keeps the order of the keys: first by partition, then by address. Addresses of bytes
are of one width, which no integer has. -/
def Split.Monotone [LT Key] (split : Split Key) : Prop :=
  match split with
  | .integers parts => ∀ first second : Key, first < second →
      (toLex (parts first) : UInt64 ×ₗ UInt64) < toLex (parts second)
  | .bytes parts => (∃ width, 9 ≤ width ∧ width ≤ 255 ∧ ∀ key, (parts key).2.length = width) ∧
      ∀ first second : Key, first < second →
        (toLex (parts first) : UInt64 ×ₗ List UInt8) < toLex (parts second)

/-- Where the record of a key stands. -/
def Split.place (split : Split Key) (key : Key) : ℕ ×ₗ ℕ := (split.entry ⟨key, []⟩).place

theorem Split.place_entry (split : Split Key) (record : KeyedRecord Key) :
    (split.entry record).place = split.place record.key := by
  cases split <;> rfl

/-- A join undoes the split. An image of integer addresses offers a join of bytes the little-endian
number of the address, at the width the image happens to have. -/
def Join.Inverts (join : Join Key) (split : Split Key) : Prop :=
  match join, split with
  | .integers join, .integers parts => ∀ key, join (parts key).1 (parts key).2 = key
  | .bytes join, .bytes parts => ∀ key, join (parts key).1 (parts key).2 = key
  | .bytes join, .integers parts => ∀ key width, (parts key).2.toNat < 256 ^ width →
      join (parts key).1 (leBytes width (parts key).2.toNat) = key
  | .integers _, .bytes _ => False

section Orders

variable [LinearOrder Key] {split : Split Key}

theorem Split.Monotone.place_strictMono (monotone : split.Monotone) : StrictMono split.place := by
  intro first second less
  cases split with
  | integers parts => exact (pairPlace_lt _ _).mp (monotone first second less)
  | bytes parts =>
    obtain ⟨⟨width, -, -, widths⟩, increases⟩ := monotone
    have places := (widePairPlace_lt ((widths first).trans (widths second).symm)).mp
      (increases first second less)
    have bytes (key : Key) : (Split.bytes parts).place key = widePairPlace (toLex (parts key)) :=
      congrArg toLex (Prod.ext rfl (Nat.zero_add _))
    rwa [bytes, bytes]

end Orders

/-! ### Keyed builds -/

/-- A build through a keyed builder. -/
structure KeyedBuild (Key : Type) where
  split : Split Key
  schema : SchemaBuilder
  options : BuildOptions
  calls : List (KeyedCall Key)
  few : calls.length < 2 ^ 64
  fresh : Builder
  made : Builder.make schema options = .ok fresh

namespace KeyedBuild

/-- The build underneath. -/
def build (keyed : KeyedBuild Key) : Build where
  schema := keyed.schema
  options := keyed.options
  calls := keyed.calls.map keyed.split.call
  few := by
    rw [List.length_map]
    exact keyed.few
  fresh := keyed.fresh
  made := keyed.made
  builtIn := fun call member => by
    obtain ⟨original, -, rfl⟩ := List.mem_map.mp member
    exact keyed.split.call_builtIn original

/-- The records of the commits that returned. -/
def ledger (keyed : KeyedBuild Key) : List (KeyedRecord Key) :=
  (Session.start keyed.fresh).keyedLedger keyed.split [] keyed.calls

/-- The same in the order of their keys. -/
def records [LinearOrder Key] (keyed : KeyedBuild Key) : List (KeyedRecord Key) :=
  keyed.ledger.insertionSort fun first second => first.key ≤ second.key

def keys [LinearOrder Key] (keyed : KeyedBuild Key) : List Key := keyed.records.map (·.key)

variable [LinearOrder Key] {keyed : KeyedBuild Key}

/-- The log of the build underneath, in order, is the ledger in the order of the keys. -/
theorem sorted_eq (monotone : keyed.split.Monotone)
    (oneByOne : (Session.start keyed.fresh).OneByOne keyed.build.calls) :
    keyed.build.log.sorted = keyed.records.map keyed.split.entry := by
  have entries : keyed.ledger.map keyed.split.entry = keyed.build.ledger :=
    @Session.keyedLedger_entries _ (Session.start keyed.fresh) keyed.split [] keyed.calls
  have sorts := List.map_insertionSort (fun first second => first.key ≤ second.key)
    (fun first second : Committed => first.place ≤ second.place) keyed.split.entry keyed.ledger
    fun first _ second _ => by
      rw [Split.place_entry, Split.place_entry, monotone.place_strictMono.le_iff_le]
  rw [Log.sorted, keyed.build.committed_eq_ledger oneByOne, ← entries, records, sorts]

end KeyedBuild

/-! ### The map of a table -/

/-- A table is a sorted map from keys to records. -/
structure KeyedTable.Maps [LinearOrder Key] (keyed : KeyedTable Key)
    (records : List (KeyedRecord Key)) : Prop where
  size : keyed.table.size = records.length
  sorted : (records.map (·.key)).Pairwise (· < ·)
  lookups : ∀ lookup key, ∃ n ≤ records.length, keyed.lookup lookup key = keyed.table.nth n ∧
    lookup.Answers (records.map (·.key)) key (records.map (·.key))[n]?
  contains : ∀ key, keyed.contains key = .ok (decide (key ∈ records.map (·.key)))
  finish : keyed.table.nth records.length = .ok keyed.table.end
  record : ∀ n record, records[n]? = some record → ∃ it, keyed.table.nth n = .ok it ∧
    (∀ join : Join Key, join.Inverts keyed.split → keyed.key join it = .ok (some record.key)) ∧
    ∀ id value, lastSet record.sets id = some value → keyed.table.readings it id = .ofValue value

section Main

variable [LinearOrder Key] {keyed : KeyedBuild Key} {builder : Builder} {places : Places}
  {table : Table}

/-- A keyed table over a table. -/
def KeyedBuild.wrap (keyed : KeyedBuild Key) (table : Table) : KeyedTable Key :=
  ⟨table, keyed.split⟩

theorem KeyedBuild.keys_sorted (opens : Opens keyed.build builder places table)
    (monotone : keyed.split.Monotone)
    (oneByOne : (Session.start keyed.fresh).OneByOne keyed.build.calls) :
    keyed.keys.Pairwise (· < ·) := by
  have sorted := opens.sorted_places
  rw [keyed.sorted_eq monotone oneByOne, List.map_map] at sorted
  refine List.pairwise_map.mpr ((List.pairwise_map.mp sorted).imp fun less => ?_)
  rw [Function.comp, Function.comp, Split.place_entry, Split.place_entry] at less
  exact monotone.place_strictMono.lt_iff_lt.mp less

/-- Lookups by key are those of the map. -/
theorem KeyedBuild.lookups (opens : Opens keyed.build builder places table)
    (monotone : keyed.split.Monotone)
    (oneByOne : (Session.start keyed.fresh).OneByOne keyed.build.calls) (lookup : Lookup)
    (key : Key) : ∃ n ≤ keyed.records.length, (keyed.wrap table).lookup lookup key = table.nth n ∧
      lookup.Answers keyed.keys key keyed.keys[n]? := by
  have sorted := keyed.sorted_eq monotone oneByOne
  have entries (entry : Committed) (member : entry ∈ keyed.build.log.committed) :
      ∃ record : KeyedRecord Key, keyed.split.entry record = entry := by
    rw [← Log.mem_sorted, sorted] at member
    obtain ⟨record, -, same⟩ := List.mem_map.mp member
    exact ⟨record, same⟩
  have length : keyed.build.log.sorted.length = keyed.records.length := by
    rw [sorted, List.length_map]
  unfold KeyedTable.lookup wrap keys
  cases form : keyed.split with
  | integers parts =>
    obtain ⟨n, bound, runs, answers⟩ := opens.answers_pairs (fun entry member => by
      obtain ⟨record, rfl⟩ := entries entry member
      rw [form]
      rfl) lookup (parts key).1 (parts key).2
    have pairs : keyed.build.log.pairs =
        (keyed.records.map (·.key)).map fun key => toLex (parts key) := by
      rw [Log.pairs, sorted, form, List.map_map, List.map_map]
      rfl
    rw [form] at monotone
    rw [pairs] at answers
    have rises : StrictMono fun key => pairPlace (toLex (parts key)) :=
      fun first second less => (pairPlace_lt _ _).mp (monotone first second less)
    refine ⟨n, length ▸ bound, runs, Lookup.Answers.of_map (fun key => toLex (parts key))
      (fun first _ second _ => ?_) (fun other _ same => ?_) answers⟩
    · rw [pairPlace_lt]
      exact rises.lt_iff_lt.symm
    · exact rises.injective (congrArg pairPlace same)
  | bytes parts =>
    rw [form] at monotone
    obtain ⟨⟨width, wide, small, widths⟩, increases⟩ := monotone
    obtain ⟨n, bound, runs, answers⟩ := opens.answers_wide wide small (fun entry member => by
      obtain ⟨record, rfl⟩ := entries entry member
      rw [form]
      exact widths record.key) lookup (parts key).1 (widths key)
    have pairs : keyed.build.log.widePairs =
        (keyed.records.map (·.key)).map fun key => toLex (parts key) := by
      rw [Log.widePairs, sorted, form, List.map_map, List.map_map]
      rfl
    rw [pairs] at answers
    have agree (first second : Key) := @widePairPlace_lt (toLex (parts first))
      (toLex (parts second)) ((widths first).trans (widths second).symm)
    have rises : StrictMono fun key => widePairPlace (toLex (parts key)) :=
      fun first second less => (agree first second).mp (increases first second less)
    refine ⟨n, length ▸ bound, runs, Lookup.Answers.of_map (fun key => toLex (parts key))
      (fun first _ second _ => ?_) (fun other _ same => ?_) answers⟩
    · rw [agree]
      exact rises.lt_iff_lt.symm
    · exact rises.injective (congrArg widePairPlace same)

/-- An answer is a member that is sought, or there is none. -/
theorem Lookup.find_answers_iff {keys : List Key} {key : Key} {n : Nat}
    (answers : Lookup.find.Answers keys key keys[n]?) : key ∈ keys ↔ n < keys.length := by
  cases found : keys[n]? with
  | none =>
    rw [found] at answers
    exact iff_of_false (fun member => answers key member rfl)
      (Nat.not_lt.mpr (List.getElem?_eq_none_iff.mp found))
  | some other =>
    rw [found] at answers
    obtain ⟨member, rfl, -⟩ := answers
    exact iff_of_true member (List.getElem?_eq_some_iff.mp found).1

/-- A key is contained when it is one of the map's. -/
theorem KeyedBuild.contains_eq (opens : Opens keyed.build builder places table)
    (monotone : keyed.split.Monotone)
    (oneByOne : (Session.start keyed.fresh).OneByOne keyed.build.calls) (key : Key) :
    (keyed.wrap table).contains key = .ok (decide (key ∈ keyed.keys)) := by
  obtain ⟨n, bound, runs, answers⟩ := keyed.lookups opens monotone oneByOne .find key
  have length : keyed.records.length = table.recordCount := by
    rw [← opens.sorted_length, keyed.sorted_eq monotone oneByOne, List.length_map]
  have keysLength : keyed.keys.length = table.recordCount := by rw [keys, List.length_map, length]
  obtain ⟨it, found, isSettled, atRank⟩ := Table.nth_spec opens.valid (length ▸ bound)
  have items : itemsBefore table.countAt table.dirCount = table.recordCount := opens.valid.items
  have atEnd : it ≠ table.end ↔ key ∈ keyed.keys := by
    rw [Lookup.find_answers_iff answers, keysLength, ← atRank]
    constructor
    · intro other
      by_contra past
      have whole : rank table.countAt it = rank table.countAt table.end := by
        have limit := isSettled.rank_le
        have last : rank table.countAt table.end = table.recordCount := items
        omega
      exact other (isSettled.eq_of_rank_eq table.end_settled whole)
    · rintro inside rfl
      have last : rank table.countAt table.end = table.recordCount := items
      omega
  rw [KeyedTable.contains, KeyedTable.find, runs, found, ok_bind]
  exact congrArg _ (decide_eq_decide.mpr atEnd)

/-- A join that undoes the split gives the key of a record back. -/
theorem KeyedBuild.key_eq (opens : Opens keyed.build builder places table)
    (monotone : keyed.split.Monotone) {it : Position} {record : KeyedRecord Key}
    (names : Names table.countAt table.dirCount it)
    (entryAt : EntryAt keyed.build table it (keyed.split.entry record)) {join : Join Key}
    (inverts : join.Inverts keyed.split) :
    (keyed.wrap table).key join it = .ok (some record.key) := by
  have member := Log.mem_sorted.mp (List.mem_of_getElem? entryAt.located)
  have partition : table.partition it = .ok (keyed.split.entry record).partition.toNat :=
    (Table.partition_eq opens.valid names).trans (congrArg _ entryAt.partition)
  have full : table.addressInto it (List.replicate table.addressWidth 0) =
      .ok (some ((keyed.split.entry record).addressField table.addressWidth)) := by
    rw [Table.addressInto_eq opens.valid names, if_neg (by simp), entryAt.field]
  have number := entryAt.number
  have field := entryAt.field
  unfold KeyedTable.key wrap
  generalize keyed.split = split at *
  cases split with
  | integers parts =>
    have narrow := opens.narrow_of_integers (opens.integers_of_integer member rfl) names
    rw [Table.recordNumber, narrow, if_pos rfl, field] at number
    cases join with
    | integers join =>
      have address := opens.address_eq narrow names entryAt
      simp only [partition, address, ok_bind]
      simp only [Committed.number, Split.entry, leNat, ite_true, Nat.add_zero,
        UInt64.ofNat_toNat]
      exact congrArg (fun key => Except.ok (some key)) (inverts record.key)
    | bytes join =>
      simp only [partition, full, ok_bind, Option.getD_some]
      simp only [Committed.number, Committed.addressField, Split.entry, leNat, ite_true,
        Nat.add_zero, UInt64.ofNat_toNat] at number ⊢
      have fits : (parts record.key).2.toNat < 256 ^ table.addressWidth := by
        rw [← number, leNat_leBytes]
        exact Nat.mod_lt _ (Nat.pow_pos (by decide))
      exact congrArg (fun key => Except.ok (some key)) (inverts record.key _ fits)
  | bytes parts =>
    cases join with
    | integers join => exact inverts.elim
    | bytes join =>
      obtain ⟨⟨width, wide, -, widths⟩, -⟩ := monotone
      have nonempty : (parts record.key).2 ≠ [] :=
        List.ne_nil_of_length_pos (by rw [widths]; omega)
      have whole : ((Split.bytes parts).entry record).addressField table.addressWidth =
          (parts record.key).2 := if_neg nonempty
      simp only [partition, full, whole, ok_bind, Option.getD_some]
      simp only [Split.entry, UInt64.ofNat_toNat]
      exact congrArg (fun key => Except.ok (some key)) (inverts record.key)

/-- A table built and opened through a split that keeps the order is a sorted map from the caller's
keys to the values set under them. -/
theorem KeyedBuild.maps {report : BuildReport} {image : Image}
    (returned : keyed.build.finished.outcome = .ok report)
    (same : image.bytes = keyed.build.finished.image)
    (opened : Table.tryOpen (some image) = pure table) (monotone : keyed.split.Monotone)
    (oneByOne : (Session.start keyed.fresh).OneByOne keyed.build.calls)
    (texts : keyed.schema.fields.countP (·.kind = .text) ≤ 65536) :
    (keyed.wrap table).Maps keyed.records := by
  obtain ⟨places, opens⟩ := keyed.build.opens returned same opened
  have sorted := keyed.sorted_eq monotone oneByOne
  have length : keyed.build.log.sorted.length = keyed.records.length := by
    rw [sorted, List.length_map]
  have short (entry : Committed) (member : entry ∈ keyed.build.log.committed) :
      entry.addressBytes.length < 2 ^ 8 := by
    rw [← Log.mem_sorted, sorted] at member
    obtain ⟨record, -, rfl⟩ := List.mem_map.mp member
    cases form : keyed.split with
    | integers parts => exact Nat.two_pow_pos 8
    | bytes parts =>
      rw [form] at monotone
      obtain ⟨⟨width, -, small, widths⟩, -⟩ := monotone
      exact lt_of_le_of_lt ((widths record.key).trans_le small) (by decide)
  refine
    { size := opens.sorted_length.symm.trans length
      sorted := keyed.keys_sorted opens monotone oneByOne
      lookups := keyed.lookups opens monotone oneByOne
      contains := keyed.contains_eq opens monotone oneByOne
      finish := length ▸ opens.nth_sorted_length
      record := fun n record located => ?_ }
  have inLog : keyed.build.log.sorted[n]? = some (keyed.split.entry record) := by
    rw [sorted, List.getElem?_map, located]
    rfl
  obtain ⟨it, runs, names, atRank, entryAt⟩ := opens.record short inLog
  refine ⟨it, runs, fun join inverts => keyed.key_eq opens monotone names entryAt inverts,
    fun id value set => ?_⟩
  have sets : (keyed.split.entry record).sets = record.sets := by
    cases keyed.split <;> rfl
  rw [← sets] at set
  have observed := opens.built.observed _ (List.mem_of_getElem? inLog) _ (mem_of_lastSet set)
  have declared := List.getElem?_eq_getElem (opens.built.declared _ observed)
  have reads := opens.readings_of_entry texts names (atRank.symm ▸ inLog) declared
  rwa [set] at reads

end Main

theorem idle_few : ([] : List Call).length < 2 ^ 64 := Nat.two_pow_pos 64

theorem idle_builtIn : ∀ call ∈ ([] : List Call), call.BuiltIn := List.forall_mem_nil _

/-- The keyed build of some calls, where the constructor does not throw. -/
def KeyedBuild.of (split : Split Key) (schema : SchemaBuilder) (options : BuildOptions)
    (calls : List (KeyedCall Key)) (fields : schema.fields ≠ []) (bits : options.addressBits ≤ 64)
    (few : calls.length < 2 ^ 64) : KeyedBuild Key :=
  let none := Build.of schema options [] fields bits idle_few idle_builtIn
  { split, schema := none.schema, options := none.options, calls, few
    fresh := none.fresh, made := none.made }

/-- A key of 128 bits, in two halves. -/
abbrev HalvedKey := Fin UInt64.size ×ₗ Fin UInt64.size

def HalvedKey.of (high low : UInt64) : HalvedKey := toLex (high.toFin, low.toFin)

def HalvedKey.split : Split HalvedKey :=
  .integers fun key => (UInt64.ofFin (ofLex key).1, UInt64.ofFin (ofLex key).2)

theorem HalvedKey.split_monotone : HalvedKey.split.Monotone := by
  intro first second less
  rw [Prod.Lex.toLex_lt_toLex]
  rcases Prod.Lex.lt_iff.mp less with lower | ⟨same, lower⟩
  · exact Or.inl lower
  · exact Or.inr ⟨congrArg UInt64.ofFin same, lower⟩

/-- Two keys of 128 bits. -/
def keyedSample : KeyedBuild HalvedKey :=
  .of HalvedKey.split numberSchema .default
    [.beginRecord (.of 1 0x8000000000000005), .set 0 0 (.uint 7), .commit 0,
      .beginRecord (.of 2 3), .set 1 0 (.uint 9), .commit 1]
    numberSchema_fields BuildOptions.default_addressBits (by decide)

def keyedImage : Image := ⟨keyedSample.build.finished.image, by decide +kernel⟩

theorem sample_keyed : ∃ table, Table.tryOpen (some keyedImage) = pure table ∧
    (keyedSample.wrap table).Maps keyedSample.records ∧
    keyedSample.keys = [.of 1 0x8000000000000005, .of 2 3] := by
  obtain ⟨report, returned⟩ := keyedSample.build.exists_report (by decide +kernel)
  obtain ⟨table, opened, -⟩ : ∃ table, Table.tryOpen (some keyedImage) = pure table ∧
      true = true := exists_of_acceptsWith (by decide +kernel)
  have oneByOne : (Session.start keyedSample.fresh).OneByOne keyedSample.build.calls := by
    refine ⟨trivial, ?_, ?_, trivial, ?_, ?_, trivial⟩
    all_goals
      change (_ : Nat) ≤ _
      decide +kernel
  exact ⟨table, opened, KeyedBuild.maps returned rfl opened HalvedKey.split_monotone oneByOne
    (by decide +kernel), by decide +kernel⟩

end Mmpack
