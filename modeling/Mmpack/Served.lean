/-
This file is about what becomes of whole records that a caller has given. `finish`
returns where no two share a key, and the table opened from the image serves them: in the
order of their keys, to be read, to be stepped through, and to be looked up by key.
-/

import Mmpack.Feeding

namespace Mmpack

open ByteList Checked Cursor SortedMap

/-! ### Tables that serve records -/

/-- A table that has some records under their keys, in this order. -/
structure Table.Serves (table : Table) (records : List (KeyedRecord UInt64)) : Prop where
  size : table.size = records.length
  mapped : table.hasKeyMapping = true
  sorted : (records.map (·.key)).Pairwise (· < ·)
  finish : table.nth records.length = .ok table.end
  record : ∀ n record, records[n]? = some record → ∃ it, table.nth n = .ok it ∧ it ≠ table.end ∧
    table.key it = .ok (some record.key.toNat) ∧
    ∀ id value, lastSet record.sets id = some value → table.readings it id = .ofValue value
  lookups : ∀ lookup key, ∃ n ≤ records.length, table.lookup lookup (.key key) = table.nth n ∧
    lookup.Answers (records.map (·.key)) key (records.map (·.key))[n]?

/-- Records in the order of their keys. -/
def inKeyOrder (records : List (KeyedRecord UInt64)) : List (KeyedRecord UInt64) :=
  records.insertionSort fun first second => first.key.toNat ≤ second.key.toNat

/-- Records that come in the order of their keys stay as they are. -/
theorem inKeyOrder_eq_self {records : List (KeyedRecord UInt64)}
    (sorted : (records.map (·.key)).Pairwise (· < ·)) : inKeyOrder records = records := by
  refine List.Pairwise.insertionSort_eq ((List.pairwise_map.mp sorted).imp fun less => ?_)
  exact Nat.le_of_lt (UInt64.lt_iff_toNat_lt.mp less)

/-! ### The build of some records -/

section Records

variable {schema : SchemaBuilder} {options : BuildOptions} {fresh : Builder}
  {records : List (KeyedRecord UInt64)}

theorem recordCalls_keyed {handle : Nat} {records : List (KeyedRecord UInt64)} :
    ∀ call ∈ recordCalls handle records, call.Keyed := fun _ => mem_recordCalls

/-- A session after records that were all taken. -/
theorem Session.Fed.addRecords_reaches {session : Session} {log : Log}
    (fed : Session.Fed fresh schema options session log)
    (returned : (Builder.addRecords records session.builder).1 = .ok ()) :
    ∃ later log', session.Reaches log (recordCalls session.handles.length records) later log' ∧
      later.builder = (Builder.addRecords records session.builder).2 ∧
      log'.committed = log.committed ++ records.map (·.committed options.addressBits) := by
  induction records generalizing session log with
  | nil => exact ⟨session, log, .refl _ _, rfl, (List.append_nil _).symm⟩
  | cons record rest inductionHypothesis =>
    obtain ⟨⟨⟩, here, others⟩ := Session.andThen_ok_iff.mp returned
    have reaches := @Session.addRecord_reaches session log record here
    have next := fed.reaches reaches fun call member =>
      @mem_recordCalls session.handles.length [record] call (by
        rwa [recordCalls, recordCalls, List.append_nil])
    obtain ⟨later, log', further, builder, committed⟩ := inductionHypothesis next others
    rw [List.length_append, List.length_singleton] at further
    refine ⟨later, log', reaches.append further, ?_, ?_⟩
    · rw [builder, Builder.addRecords, Session.andThen_of_ok here]
    · rw [committed, fed.tracks.options, Log.taking, List.map_cons, List.append_assoc,
        List.singleton_append]

/-- The build in which some records are given. -/
def Build.ofRecords (made : Builder.make schema options = .ok fresh)
    (records : List (KeyedRecord UInt64)) (few : (recordCalls 0 records).length < 2 ^ 64) :
    Build where
  schema := schema
  options := options
  calls := recordCalls 0 records
  few := few
  fresh := fresh
  made := made
  builtIn := fun call member => (recordCalls_keyed call member).builtIn

variable {made : Builder.make schema options = .ok fresh}
  {few : (recordCalls 0 records).length < 2 ^ 64}

theorem Build.ofRecords_reaches (returned : (Builder.addRecords records fresh).1 = .ok ()) :
    (Build.ofRecords made records few).session.builder = (Builder.addRecords records fresh).2 ∧
      (Build.ofRecords made records few).log.committed =
        records.map (·.committed options.addressBits) := by
  obtain ⟨later, log', ⟨runs, logs⟩, builder, committed⟩ :=
    (Session.start_fed made).addRecords_reaches returned
  exact ⟨(congrArg Session.builder runs).trans builder,
    (congrArg Log.committed logs).trans committed⟩

/-- An image has the records in the order of their keys. -/
theorem Build.ofRecords_sorted (returned : (Builder.addRecords records fresh).1 = .ok ()) :
    (Build.ofRecords made records few).log.sorted =
      (inKeyOrder records).map (·.committed options.addressBits) := by
  obtain ⟨-, bound, -⟩ := Builder.make_blank made
  have sorts := List.map_insertionSort
    (fun first second : KeyedRecord UInt64 => first.key.toNat ≤ second.key.toNat)
    (fun first second : Committed => first.place ≤ second.place)
    (·.committed options.addressBits) records fun first _ second _ => by
      rw [first.place_committed, second.place_committed, ← not_lt, ← not_lt,
        ← keyPlace_lt bound, UInt64.lt_iff_toNat_lt]
  rw [Log.sorted, (Build.ofRecords_reaches returned).2, inKeyOrder, sorts]

theorem Build.ofRecords_keys (returned : (Builder.addRecords records fresh).1 = .ok ()) :
    (Build.ofRecords made records few).keys = (inKeyOrder records).map (·.key) := by
  rw [Build.keys, Build.ofRecords_sorted returned, List.map_map]
  exact List.map_congr_left fun record _ => packKey_split (Builder.make_blank made).2.1 record.key

/-- A build of records is keyed. -/
theorem Build.ofRecords_ofKeys : (Build.ofRecords made records few).Keyed ∧
    Session.Tracks schema options (Build.ofRecords made records few).session
      (Build.ofRecords made records few).log := by
  obtain ⟨tracks, ofKeys, -⟩ :=
    @Build.ofKeys (Build.ofRecords made records few) recordCalls_keyed
  exact ⟨ofKeys.mode.symm, tracks⟩

/-- Records of keys have no spans. -/
theorem Build.ofRecords_spansFit : (Build.ofRecords made records few).SpansFit where
  committed := fun entry member => by
    obtain ⟨-, ofKeys, -⟩ := @Build.ofKeys (Build.ofRecords made records few) recordCalls_keyed
    rw [(ofKeys.committed entry member).1]
    exact Nat.zero_le _
  begun := fun _ _ _ member => (recordCalls_keyed _ member).elim

/-- A table that is opened serves the records. -/
theorem Build.ofRecords_serves (returned : (Builder.addRecords records fresh).1 = .ok ())
    {builder : Builder} {places : Places} {table : Table}
    (opens : Opens (Build.ofRecords made records few) builder places table)
    (texts : schema.fields.countP (·.kind = .text) ≤ 65536) :
    table.Serves (inKeyOrder records) := by
  have keyed := (@Build.ofRecords_ofKeys _ _ _ records made few).1
  have sorted := @Build.ofRecords_sorted _ _ _ _ made few returned
  have keys := @Build.ofRecords_keys _ _ _ _ made few returned
  have length : (Build.ofRecords made records few).log.sorted.length =
      (inKeyOrder records).length := by
    rw [sorted, List.length_map]
  refine
    { size := opens.sorted_length.symm.trans length
      mapped := (opens.addressBits keyed).1
      sorted := keys ▸ opens.keys_sorted keyed
      finish := length ▸ opens.nth_sorted_length
      record := fun n record located => ?_
      lookups := fun lookup key => ?_ }
  · have short (entry : Committed)
        (member : entry ∈ (Build.ofRecords made records few).log.committed) :
        entry.addressBytes.length < 2 ^ 8 := by
      rw [(opens.place_of_keyed keyed member).1]
      exact Nat.two_pow_pos 8
    have inLog : (Build.ofRecords made records few).log.sorted[n]? =
        some (record.committed options.addressBits) := by
      rw [sorted, List.getElem?_map, located]
      rfl
    obtain ⟨it, runs, names, atRank, entryAt⟩ := opens.record short inLog
    refine ⟨it, runs, ?_, ?_, fun id value set => ?_⟩
    · rintro rfl
      exact absurd names.1 (Nat.lt_irrefl _)
    · have key := opens.key_eq keyed names entryAt
      have joined : packKey (Build.ofRecords made records few).options.addressBits
          (record.committed options.addressBits).partition
          (record.committed options.addressBits).address = record.key :=
        packKey_split (Builder.make_blank made).2.1 record.key
      rwa [joined] at key
    · have observed := opens.built.observed _ (List.mem_of_getElem? inLog) _ (mem_of_lastSet set)
      have declared := List.getElem?_eq_getElem (opens.built.declared _ observed)
      have reads := opens.readings_of_entry texts names (atRank.symm ▸ inLog) declared
      have last : lastSet (record.committed options.addressBits).sets id = some value := set
      rwa [last] at reads
  · obtain ⟨n, inside, runs, answers⟩ := opens.answers_keys keyed lookup key
    rw [keys] at answers
    exact ⟨n, length ▸ inside, runs, answers⟩

/-- Records that were all taken can be put in order where no two share a key. -/
theorem Build.ofRecords_orderable (made : Builder.make schema options = .ok fresh)
    (few : (recordCalls 0 records).length < 2 ^ 64)
    (returned : (Builder.addRecords records fresh).1 = .ok ())
    (ordered : options.order = .assumeSorted → (records.map (·.key)).Pairwise (· < ·)) :
    (Builder.addRecords records fresh).2.Orderable ↔ (records.map (·.key)).Nodup := by
  obtain ⟨builder, committed⟩ := @Build.ofRecords_reaches _ _ _ _ made few returned
  have tracks := (@Build.ofRecords_ofKeys _ _ _ records made few).2
  have bound := (Builder.make_blank made).2.1
  have places := map_place_of_stages tracks.rows
  rw [committed, List.map_map, builder] at places
  have placed : (Builder.addRecords records fresh).2.rows.map StagedRow.place =
      (records.map (·.key)).map (keyPlace options.addressBits) := by
    rw [places, List.map_map]
    exact List.map_congr_left fun record _ => record.place_committed _
  have policy : (Builder.addRecords records fresh).2.options = options := by
    rw [← builder]
    exact tracks.options
  unfold Builder.Orderable
  rw [policy]
  split
  · rename_i assumes
    have increases := ordered assumes
    refine iff_of_true ?_ (increases.imp fun less same => ?_)
    · have rises : ((records.map (·.key)).map (keyPlace options.addressBits)).Pairwise (· < ·) :=
        List.pairwise_map.mpr (increases.imp fun less => (keyPlace_lt bound _ _).mp less)
      rw [← placed] at rises
      have before := List.pairwise_map.mp rises
      exact before
    · rw [same] at less
      exact absurd less (UInt64.lt_irrefl _)
  · rw [placed]
    exact List.nodup_map_iff fun _ _ same => keyPlace_injective bound same

/-- `finish` returns on records of different keys. -/
theorem Build.ofRecords_returns (made : Builder.make schema options = .ok fresh)
    (few : (recordCalls 0 records).length < 2 ^ 64)
    (returned : (Builder.addRecords records fresh).1 = .ok ())
    (ordered : options.order = .assumeSorted → (records.map (·.key)).Pairwise (· < ·))
    (tuples : options.valueInterning = .never ∨ records.length < 2 ^ 32) :
    (∃ report, (finish (Builder.addRecords records fresh).2).outcome = .ok report) ↔
      (records.map (·.key)).Nodup := by
  obtain ⟨builder, committed⟩ := @Build.ofRecords_reaches _ _ _ _ made few returned
  have tracks := (@Build.ofRecords_ofKeys _ _ _ records made few).2
  have policy : (Build.ofRecords made records few).session.builder.options = options :=
    tracks.options
  have fewTuples : FewTuples (Build.ofRecords made records few).session.builder := by
    refine tuples.imp (fun never => by rw [policy, never]) fun short => ?_
    have most := (Build.ofRecords made records few).tuples_le_count
      fun call member => (recordCalls_keyed call member).open_
    have count := tracks.count_eq
    rw [committed, List.length_map] at count
    omega
  have returns := (finish_returns_iff tracks.sound tracks.running fewTuples).1
  rw [builder] at returns
  exact returns.trans (Build.ofRecords_orderable made few returned ordered)

end Records

section Main

variable {schema : SchemaBuilder} {options : BuildOptions} {fresh : Builder}
  {records : List (KeyedRecord UInt64)}

/-- Which records are taken: all where the keys may come in any order, and otherwise those before
the first that is out of order, at which the caller is told its partition. -/
theorem addRecords_outcome (made : Builder.make schema options = .ok fresh)
    (suits : ∀ record ∈ records, Suits schema record.sets)
    (roomy : Roomy (records.flatMap (·.sets))) :
    (options.order = .assumeSorted → (records.map (·.key)).Pairwise (· < ·)) ∧
      (Builder.addRecords records fresh).1 = .ok () ∨
    ∃ taken record rest, records = taken ++ record :: rest ∧ options.order = .assumeSorted ∧
      (taken.map (·.key)).Pairwise (· < ·) ∧ ¬ (∀ other ∈ taken, other.key < record.key) ∧
      (Builder.addRecords records fresh).1 =
        .error (.notIncreasing (partitionOf options.addressBits record.key).toNat) := by
  have bound := (Builder.make_blank made).2.1
  have places (records : List (KeyedRecord UInt64)) : Log.empty.upTo options.addressBits records =
      (records.map (·.key)).map (keyPlace options.addressBits) := by
    rw [List.map_map]
    rfl
  have rises (records : List (KeyedRecord UInt64)) :
      (Log.empty.upTo options.addressBits records).Pairwise (· < ·) ↔
        (records.map (·.key)).Pairwise (· < ·) := by
    rw [places, List.pairwise_map]
    simp only [← keyPlace_lt bound]
  rcases (Session.start_fed made).addRecords_cases suits roomy
    (fun _ => (rises []).mpr List.Pairwise.nil) with
    ⟨sorted, returned⟩ | ⟨taken, record, rest, split, assumes, sorted, below, thrown⟩
  · exact Or.inl ⟨fun assumes => (rises _).mp (sorted assumes), returned⟩
  · refine Or.inr ⟨taken, record, rest, split, assumes, (rises _).mp sorted, fun above => ?_,
      thrown⟩
    refine below fun place member => ?_
    rw [places, List.map_map] at member
    obtain ⟨other, inTaken, rfl⟩ := List.mem_map.mp member
    exact (keyPlace_lt bound _ _).mp (above other inTaken)

end Main

end Mmpack
