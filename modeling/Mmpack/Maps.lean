/-
This file is about the lookups of a table opened from a finished image. They are those
of the sorted map of the committed records: on integer addresses in the order of the
pairs, or of the keys, and on addresses of nine bytes and more in the order of the
partitions and then of the bytes.
-/

import Mmpack.Addresses

namespace Mmpack

open ByteList Checked Cursor SortedMap

/-! ### Carrying answers over -/

section Transfer

variable {Key Order : Type} [LT Key] [LT Order] {keys : List Key} {probe : Key}
  {index : Nat} {lookup : Lookup}

/-- What a map answers does not depend on how its order is spelled. -/
theorem Lookup.Answers.of_map (rank : Key → Order)
    (reflects : ∀ first ∈ probe :: keys, ∀ second ∈ probe :: keys,
      first < second ↔ rank first < rank second)
    (injective : ∀ key ∈ keys, rank key = rank probe → key = probe)
    (answers : lookup.Answers (keys.map rank) (rank probe) (keys.map rank)[index]?) :
    lookup.Answers keys probe keys[index]? := by
  have inKeys : ∀ first ∈ keys, ∀ second ∈ keys, first < second → rank first < rank second :=
    fun first member second member' => (reflects first (List.mem_cons_of_mem _ member) second
      (List.mem_cons_of_mem _ member')).mp
  have below (key : Key) (member : key ∈ keys) : ¬ key < probe ↔ ¬ rank key < rank probe :=
    not_congr (reflects key (List.mem_cons_of_mem _ member) probe List.mem_cons_self)
  have above (key : Key) (member : key ∈ keys) : probe < key ↔ rank probe < rank key :=
    reflects probe List.mem_cons_self key (List.mem_cons_of_mem _ member)
  cases lookup with
  | find =>
    exact Least.of_map inKeys (fun key member => ⟨congrArg rank, injective key member⟩) answers
  | lowerBound => exact Least.of_map inKeys below answers
  | ceil => exact Least.of_map inKeys below answers
  | upperBound => exact Least.of_map inKeys above answers
  | floor =>
    exact Greatest.of_map inKeys (fun key member => not_congr (above key member)) answers

theorem Lookup.answers_nil (lookup : Lookup) (probe : Key) : lookup.Answers [] probe none := by
  cases lookup <;> exact fun key member => nomatch member

end Transfer

/-! ### The keys of a log -/

/-- The pairs of an integer log, in order. -/
def Log.pairs (log : Log) : List (UInt64 ×ₗ UInt64) :=
  log.sorted.map fun entry => toLex (entry.partition, entry.address)

/-- The pairs of a log of wide addresses, in order. -/
def Log.widePairs (log : Log) : List (UInt64 ×ₗ List UInt8) :=
  log.sorted.map fun entry => toLex (entry.partition, entry.addressBytes)

namespace Build

/-- The records are begun by key. A build that has begun none counts. -/
def Keyed (build : Build) : Prop :=
  build.session.builder.mode = .keyed ∨ build.session.builder.mode = .undecided

/-- The keys of a keyed build, in order. -/
def keys (build : Build) : List UInt64 :=
  build.log.sorted.map fun entry =>
    packKey build.options.addressBits entry.partition entry.address

end Build

/-- A pair as the reader orders it. -/
def pairPlace (pair : UInt64 ×ₗ UInt64) : ℕ ×ₗ ℕ :=
  toLex ((ofLex pair).1.toNat, (ofLex pair).2.toNat)

theorem pairPlace_lt (first second : UInt64 ×ₗ UInt64) :
    first < second ↔ pairPlace first < pairPlace second := by
  rw [pairPlace, pairPlace, Prod.Lex.toLex_lt_toLex, Prod.Lex.lt_iff, UInt64.toNat_inj]
  rfl

theorem pairPlace_injective : Function.Injective pairPlace := by
  intro first second same
  obtain ⟨samePartition, sameAddress⟩ := Prod.mk.inj (toLex_inj.mp same)
  exact ofLex_inj.mp
    (Prod.ext (UInt64.toNat_inj.mp samePartition) (UInt64.toNat_inj.mp sameAddress))

def widePairPlace (pair : UInt64 ×ₗ List UInt8) : ℕ ×ₗ ℕ :=
  toLex ((ofLex pair).1.toNat, beNat (ofLex pair).2)

theorem widePairPlace_lt {first second : UInt64 ×ₗ List UInt8}
    (sameLength : (ofLex first).2.length = (ofLex second).2.length) :
    first < second ↔ widePairPlace first < widePairPlace second := by
  rw [widePairPlace, widePairPlace, Prod.Lex.toLex_lt_toLex, Prod.Lex.lt_iff, UInt64.toNat_inj,
    lt_iff_beNat_lt sameLength]
  rfl

/-- A key as the reader takes it apart. -/
def keyPlace (bits : Nat) (key : UInt64) : ℕ ×ₗ ℕ :=
  toLex ((partitionOf bits key).toNat, (addressOf bits key).toNat)

theorem keyPlace_lt {bits : Nat} (bound : bits ≤ 64) (first second : UInt64) :
    first < second ↔ keyPlace bits first < keyPlace bits second := by
  simp only [keyPlace, partitionOf_toNat bound, addressOf_toNat bound]
  rw [lt_iff_div_mod_lt (Nat.two_pow_pos bits), UInt64.lt_iff_toNat_lt]

theorem keyPlace_injective {bits : Nat} (bound : bits ≤ 64) {first second : UInt64}
    (same : keyPlace bits first = keyPlace bits second) : first = second := by
  obtain ⟨samePartition, sameAddress⟩ := Prod.mk.inj (toLex_inj.mp same)
  rw [← packKey_split bound first, ← packKey_split bound second,
    UInt64.toNat_inj.mp samePartition, UInt64.toNat_inj.mp sameAddress]

/-- The reader takes a key apart where its schema says. -/
theorem SchemaView.splitKey {view : SchemaView} {bits : Nat} (stored : view.addressBits = bits)
    (bound : bits ≤ 64) {key : Nat} (small : key < 2 ^ 64) :
    view.partitionOf key = key / 2 ^ bits ∧ view.addressOf key = key % 2 ^ bits := by
  subst stored
  unfold partitionOf addressOf
  split
  · rename_i whole
    have power : view.head.addressBits = 64 := Nat.le_antisymm bound whole
    rw [SchemaView.addressBits, power, Nat.div_eq_of_lt small, Nat.mod_eq_of_lt small]
    exact ⟨rfl, rfl⟩
  · rw [Nat.shiftRight_eq_div_pow, Nat.and_two_pow_sub_one_eq_mod]
    exact ⟨rfl, rfl⟩

namespace Opens

variable {build : Build} {builder : Builder} {places : Places} {table : Table}

/-- A table without records answers nothing. -/
theorem lookup_nil (opens : Opens build builder places table) (none : build.log.sorted = [])
    (lookup : Lookup) (target : Target) : table.lookup lookup target = table.nth 0 := by
  have isSettled : Settled table.countAt table.dirCount (table.targetPosition lookup target) :=
    Table.targetPosition_settled lookup target
  have total : table.recordCount = 0 := by rw [← opens.sorted_length, none, List.length_nil]
  have bound := isSettled.rank_le
  rw [opens.valid.items, total] at bound
  rw [Table.lookup_eq opens.valid, ← Table.nth_rank opens.valid isSettled, Nat.le_zero.mp bound]

theorem exists_record (opens : Opens build builder places table)
    (nonempty : build.log.sorted ≠ []) :
    ∃ it, Names table.countAt table.dirCount it := by
  have positive := List.length_pos_iff.mpr nonempty
  rw [opens.sorted_length] at positive
  obtain ⟨it, -, names, -⟩ := Table.nth_names opens.valid positive
  exact ⟨it, names⟩

/-- Where the places are those of the log, lookups answer by them. -/
theorem answers (opens : Opens build builder places table)
    (short : ∀ entry ∈ build.log.committed, entry.addressBytes.length < 2 ^ 8)
    (same : ∀ entry ∈ build.log.committed, entry.placeBy table.narrowAddress = entry.place)
    (probe : Probe) (suits : table.Suits probe) (lookup : Lookup) (partition : Nat) :
    ∃ n ≤ build.log.sorted.length,
      .ok (table.position lookup partition probe) = table.nth n ∧
        lookup.Answers (build.log.sorted.map Committed.place) (toLex (partition, probe.number))
          (build.log.sorted.map Committed.place)[n]? := by
  have lists := opens.lists short
  have rename : build.log.sorted.map (Committed.placeBy table.narrowAddress) =
      build.log.sorted.map Committed.place :=
    List.map_congr_left fun entry member => same entry (Log.mem_sorted.mp member)
  rw [rename] at lists
  obtain ⟨n, bound, runs, answers⟩ :=
    Table.position_answers opens.valid lists opens.sorted_places suits lookup partition
  exact ⟨n, by rwa [List.length_map] at bound, runs.symm, answers⟩

/-- Lookups by pair on integer addresses. -/
theorem answers_pairs (opens : Opens build builder places table)
    (integers : ∀ entry ∈ build.log.committed, entry.addressBytes = []) (lookup : Lookup)
    (partition address : UInt64) :
    ∃ n ≤ build.log.sorted.length,
      table.lookup lookup (.integer partition address) = table.nth n ∧
        lookup.Answers build.log.pairs (toLex (partition, address)) build.log.pairs[n]? := by
  by_cases none : build.log.sorted = []
  · refine ⟨0, Nat.zero_le _, opens.lookup_nil none lookup _, ?_⟩
    rw [Log.pairs, none]
    exact lookup.answers_nil _
  · obtain ⟨it, names⟩ := opens.exists_record none
    have narrow := opens.narrow_of_integers integers names
    obtain ⟨n, bound, runs, answers⟩ := opens.answers
      (fun entry member => by rw [integers entry member]; decide)
      (fun entry member => entry.placeBy_of_integer (integers entry member) _)
      (.narrow address.toNat) ⟨narrow, address.toNat_lt⟩ lookup partition.toNat
    refine ⟨n, bound, ?_, ?_⟩
    · rw [Table.lookup_eq opens.valid, Table.targetPosition, if_pos narrow, runs]
    · have places : build.log.sorted.map Committed.place = build.log.pairs.map pairPlace := by
        rw [Log.pairs, List.map_map]
        exact List.map_congr_left fun entry member => entry.place_of_integer
          (integers entry (Log.mem_sorted.mp member))
      rw [places] at answers
      exact Lookup.Answers.of_map pairPlace (fun first _ second _ => pairPlace_lt first second)
        (fun _ _ same => pairPlace_injective same) answers

/-- A keyed image has the key space of its build. -/
theorem addressBits (opens : Opens build builder places table) (keyed : build.Keyed) :
    table.hasKeyMapping = true ∧ table.schema.addressBits = build.options.addressBits := by
  have bound := opens.built.addressBits
  have mode : ¬ (builder.mode = .explicit ∨ builder.mode = .explicitWide) := by
    rw [opens.built.mode]
    rcases keyed with keyed | keyed <;> rw [keyed] <;> decide
  have stored : table.schema.head.addressBits = build.options.addressBits := by
    rw [opens.head, headOf, schemaHeader]
    simp only
    rw [if_neg mode, opens.built.options, Nat.mod_eq_of_lt]
    rw [← opens.built.options]
    omega
  refine ⟨?_, stored⟩
  rw [Table.hasKeyMapping, SchemaView.hasKeyMapping, stored, ← opens.built.options, noKeyMapping]
  exact decide_eq_true (by omega)

theorem keyed_row (opens : Opens build builder places table) (keyed : build.Keyed)
    {row : StagedRow} (member : row ∈ builder.rows) : ∃ key,
      row.partition = partitionOf build.options.addressBits key ∧
        row.address = addressOf build.options.addressBits key := by
  rw [← opens.built.options]
  refine opens.built.keyed ?_ row member
  rwa [opens.built.mode]

/-- The records of a keyed build are at the parts of their keys. -/
theorem place_of_keyed (opens : Opens build builder places table) (keyed : build.Keyed)
    {entry : Committed} (member : entry ∈ build.log.committed) :
    entry.addressBytes = [] ∧ entry.place = keyPlace build.options.addressBits
      (packKey build.options.addressBits entry.partition entry.address) := by
  obtain ⟨row, inRows, stages⟩ := opens.built.row_of_entry member
  obtain ⟨key, partition, address⟩ := opens.keyed_row keyed inRows
  have bound := opens.built.addressBits
  rw [opens.built.options] at bound
  have shaped := opens.built.shaped row inRows
  have narrow : builder.blob.isSome = false := by
    rw [← Bool.not_eq_true, opens.built.wide, opens.built.mode]
    rcases keyed with keyed | keyed <;> rw [keyed] <;> decide
  unfold Builder.Shaped at shaped
  rw [narrow] at shaped
  have integer : entry.addressBytes = [] := stages.addressBytes ▸ shaped
  refine ⟨integer, ?_⟩
  rw [entry.place_of_integer integer, ← stages.partition, ← stages.address, partition, address,
    packKey_split bound, keyPlace]

/-- Lookups by key. -/
theorem answers_keys (opens : Opens build builder places table) (keyed : build.Keyed)
    (lookup : Lookup) (key : UInt64) :
    ∃ n ≤ build.log.sorted.length, table.lookup lookup (.key key) = table.nth n ∧
      lookup.Answers build.keys key build.keys[n]? := by
  by_cases none : build.log.sorted = []
  · refine ⟨0, Nat.zero_le _, opens.lookup_nil none lookup _, ?_⟩
    rw [Build.keys, none]
    exact lookup.answers_nil _
  · obtain ⟨it, names⟩ := opens.exists_record none
    have integers (entry : Committed) (member : entry ∈ build.log.committed) :
        entry.addressBytes = [] :=
      (opens.place_of_keyed keyed member).1
    have narrow := opens.narrow_of_integers integers names
    obtain ⟨mapped, bits⟩ := opens.addressBits keyed
    have bound := opens.built.addressBits
    rw [opens.built.options] at bound
    have parts : table.schema.partitionOf key.toNat =
          (partitionOf build.options.addressBits key).toNat ∧
        table.schema.addressOf key.toNat = (addressOf build.options.addressBits key).toNat := by
      rw [partitionOf_toNat bound, addressOf_toNat bound]
      exact SchemaView.splitKey bits bound key.toNat_lt
    obtain ⟨n, limit, runs, answers⟩ := opens.answers
      (fun entry member => by rw [integers entry member]; decide)
      (fun entry member => entry.placeBy_of_integer (integers entry member) _)
      (.narrow (addressOf build.options.addressBits key).toNat)
      ⟨narrow, UInt64.toNat_lt _⟩ lookup (partitionOf build.options.addressBits key).toNat
    refine ⟨n, limit, ?_, ?_⟩
    · rw [Table.lookup_eq opens.valid, Table.targetPosition, if_pos ⟨mapped, narrow⟩, parts.1,
        parts.2, runs]
    · have places : build.log.sorted.map Committed.place =
          build.keys.map (keyPlace build.options.addressBits) := by
        rw [Build.keys, List.map_map]
        exact List.map_congr_left fun entry member =>
          (opens.place_of_keyed keyed (Log.mem_sorted.mp member)).2
      rw [places] at answers
      exact Lookup.Answers.of_map (keyPlace build.options.addressBits)
        (fun first _ second _ => keyPlace_lt bound first second)
        (fun _ _ same => keyPlace_injective bound same) answers

/-- Lookups by bytes on wide addresses. -/
theorem answers_wide (opens : Opens build builder places table) {width : Nat} (wide : 9 ≤ width)
    (small : width ≤ 255)
    (widths : ∀ entry ∈ build.log.committed, entry.addressBytes.length = width) (lookup : Lookup)
    (partition : UInt64) {address : List UInt8} (length : address.length = width) :
    ∃ n ≤ build.log.sorted.length,
      table.lookup lookup (.bytes partition address) = table.nth n ∧
        lookup.Answers build.log.widePairs (toLex (partition, address))
          build.log.widePairs[n]? := by
  by_cases none : build.log.sorted = []
  · refine ⟨0, Nat.zero_le _, opens.lookup_nil none lookup _, ?_⟩
    rw [Log.widePairs, none]
    exact lookup.answers_nil _
  · obtain ⟨it, names⟩ := opens.exists_record none
    have short (entry : Committed) (member : entry ∈ build.log.committed) :
        entry.addressBytes.length < 2 ^ 8 := by
      rw [widths entry member]
      omega
    have positive (entry : Committed) (member : entry ∈ build.log.committed) :
        entry.addressBytes ≠ [] :=
      List.ne_nil_of_length_pos (by rw [widths entry member]; omega)
    have tableWidth := opens.width_of_bytes (by omega) (by omega) widths names
    have notNarrow : table.narrowAddress = false := by
      rw [Table.narrowAddress, SchemaView.narrowAddress]
      have same := opens.valid.addressWidth_eq
      rw [tableWidth, SchemaView.addressWidth] at same
      exact decide_eq_false (by omega)
    obtain ⟨n, bound, runs, answers⟩ := opens.answers short
      (fun entry _ => by rw [notNarrow, entry.placeBy_false])
      (.wide address) ⟨notNarrow, length.trans tableWidth.symm⟩ lookup partition.toNat
    refine ⟨n, bound, ?_, ?_⟩
    · rw [Table.lookup_eq opens.valid, Table.targetPosition, if_pos (length.trans tableWidth.symm),
        notNarrow, if_neg Bool.false_ne_true, runs]
    · have zero (entry : Committed) (member : entry ∈ build.log.sorted) : entry.address = 0 := by
        have inLog := Log.mem_sorted.mp member
        have shaped := opens.built.entry_shaped inLog
        split at shaped
        · exact shaped.1
        · exact absurd shaped (positive entry inLog)
      have places : build.log.sorted.map Committed.place =
          build.log.widePairs.map widePairPlace := by
        rw [Log.widePairs, List.map_map]
        refine List.map_congr_left fun entry member => ?_
        rw [Committed.place, zero entry member]
        exact congrArg toLex (Prod.ext rfl (Nat.zero_add _))
      rw [places] at answers
      have lengths : ∀ pair ∈ toLex (partition, address) :: build.log.widePairs,
          (ofLex pair).2.length = width := by
        intro pair member
        rcases List.mem_cons.mp member with rfl | member
        · exact length
        · obtain ⟨entry, inLog, rfl⟩ := List.mem_map.mp member
          exact widths entry (Log.mem_sorted.mp inLog)
      refine Lookup.Answers.of_map widePairPlace (fun first member second member' =>
        widePairPlace_lt ((lengths first member).trans (lengths second member').symm))
        (fun pair member same => ?_) answers
      obtain ⟨samePartition, sameAddress⟩ := Prod.mk.inj (toLex_inj.mp same)
      have sameLength := (lengths pair (List.mem_cons_of_mem _ member)).trans
        (lengths _ List.mem_cons_self).symm
      exact ofLex_inj.mp (Prod.ext (UInt64.toNat_inj.mp samePartition)
        (beNat_inj sameLength sameAddress))

/-! ### The records in order -/

/-- The committed records are found in order. -/
theorem record (opens : Opens build builder places table)
    (short : ∀ entry ∈ build.log.committed, entry.addressBytes.length < 2 ^ 8) {n : Nat}
    {entry : Committed} (located : build.log.sorted[n]? = some entry) :
    ∃ it, table.nth n = .ok it ∧ Names table.countAt table.dirCount it ∧
      rank table.countAt it = n ∧ EntryAt build table it entry := by
  have inside := (List.getElem?_eq_some_iff.mp located).1
  rw [opens.sorted_length] at inside
  obtain ⟨it, runs, names, same⟩ := Table.nth_names opens.valid inside
  obtain ⟨other, entryAt⟩ := opens.entryAt short names
  have found := entryAt.located
  rw [same, located] at found
  obtain rfl := Option.some.inj found
  exact ⟨it, runs, names, same, entryAt⟩

theorem nth_sorted_length (opens : Opens build builder places table) :
    table.nth build.log.sorted.length = .ok table.end := by
  rw [opens.sorted_length]
  exact Table.nth_end opens.valid

/-- The address of a record of an image of narrow addresses is its number. -/
theorem address_eq (opens : Opens build builder places table)
    (narrow : table.narrowAddress = true) {it : Position} {entry : Committed}
    (names : Names table.countAt table.dirCount it) (entryAt : EntryAt build table it entry) :
    table.address it = .ok (some (entry.number true)) := by
  have number := entryAt.number
  rw [Table.address_eq opens.valid names, narrow, if_neg Bool.noConfusion,
    Table.addressValue_eq opens.valid narrow names.1 names.2, number, narrow]

/-- The key of a record of a keyed image is the one its parts are packed into. -/
theorem key_eq (opens : Opens build builder places table) (keyed : build.Keyed) {it : Position}
    {entry : Committed} (names : Names table.countAt table.dirCount it)
    (entryAt : EntryAt build table it entry) :
    table.key it = .ok (some
      (packKey build.options.addressBits entry.partition entry.address).toNat) := by
  obtain ⟨mapped, bits⟩ := opens.addressBits keyed
  have narrow := opens.valid.keyed mapped
  have member := Log.mem_sorted.mp (List.mem_of_getElem? entryAt.located)
  have integer := (opens.place_of_keyed keyed member).1
  have number : table.addressValue it.slot it.index = entry.address.toNat := by
    rw [Table.addressValue_eq opens.valid narrow names.1 names.2, entryAt.number,
      Committed.number, integer]
    cases table.narrowAddress <;> rfl
  rw [Table.key_eq opens.valid names, mapped, if_neg Bool.noConfusion, Table.keyValue, bits,
    number, entryAt.partition, packKey_toNat]

end Opens

/-! ### The sorted maps -/

section SortedMaps

variable (build : Build) {report : BuildReport} {image : Image} {table : Table}

/-- On integer addresses the lookups of the opened table are those of the sorted map of the
committed pairs, and on a keyed build of the committed keys. The records are found in that order,
each under its own address. -/
theorem Build.integer_lookups (returned : build.finished.outcome = .ok report)
    (same : image.bytes = build.finished.image)
    (opened : Table.tryOpen (some image) = pure table)
    (integers : ∀ entry ∈ build.log.committed, entry.addressBytes = []) (lookup : Lookup) :
    (∀ partition address : UInt64, ∃ n ≤ build.log.sorted.length,
        table.lookup lookup (.integer partition address) = table.nth n ∧
          lookup.Answers build.log.pairs (toLex (partition, address)) build.log.pairs[n]?) ∧
      (build.Keyed → ∀ key : UInt64, ∃ n ≤ build.log.sorted.length,
        table.lookup lookup (.key key) = table.nth n ∧
          lookup.Answers build.keys key build.keys[n]?) ∧
      (∀ n entry, build.log.sorted[n]? = some entry → ∃ it, table.nth n = .ok it ∧
        table.partition it = .ok entry.partition.toNat ∧
        table.address it = .ok (some entry.address.toNat) ∧
        (build.Keyed → table.key it = .ok (some
          (packKey build.options.addressBits entry.partition entry.address).toNat))) ∧
      table.nth build.log.sorted.length = .ok table.end := by
  obtain ⟨places, opens⟩ := build.opens returned same opened
  refine ⟨opens.answers_pairs integers lookup, fun keyed => opens.answers_keys keyed lookup,
    fun n entry located => ?_, opens.nth_sorted_length⟩
  have short (entry : Committed) (member : entry ∈ build.log.committed) :
      entry.addressBytes.length < 2 ^ 8 := by
    rw [integers entry member]
    decide
  obtain ⟨it, runs, names, -, entryAt⟩ := opens.record short located
  have member := Log.mem_sorted.mp (List.mem_of_getElem? located)
  have address := opens.address_eq (opens.narrow_of_integers integers names) names entryAt
  rw [Committed.number, integers entry member] at address
  exact ⟨it, runs, (Table.partition_eq opens.valid names).trans (congrArg _ entryAt.partition),
    address, fun keyed => opens.key_eq keyed names entryAt⟩

/-- A number and a text. -/
def sampleSchema : SchemaBuilder where
  fields := [⟨[0x76], .uint, 0⟩, ⟨[0x77], .text, 0⟩]
  named := by decide
  distinct := by decide
  declared := by simp [FieldKind.Declares]
  length_lt := by decide

theorem sampleSchema_fields : sampleSchema.fields ≠ [] := by decide

/-- Two keys in two partitions. -/
def sampleBuild : Build :=
  Build.of sampleSchema .default
    [.beginRecord 5, .set 0 0 (.uint 7), .set 0 1 (.text [0x61, 0x62]), .commit 0,
      .beginRecord 0x200000001, .set 1 0 (.uint 1000), .commit 1]
    sampleSchema_fields BuildOptions.default_addressBits (by decide) (by decide)

def sampleImage : Image := ⟨sampleBuild.finished.image, by decide +kernel⟩

/-- Everything asked of it stays inside the image, with its fields, its texts and both records. -/
theorem Table.sampleImage_safe : ∃ table, tryOpen (some sampleImage) = pure table ∧
    table.schema.fieldCount = 2 ∧ table.schema.dictCount = 1 ∧ table.recordCount = 2 ∧
    table.image = sampleImage ∧ table.Safe := by
  obtain ⟨table, opened, counts⟩ : ∃ table, tryOpen (some sampleImage) = pure table ∧
      decide (table.schema.fieldCount = 2 ∧ table.schema.dictCount = 1 ∧
        table.recordCount = 2) = true :=
    exists_of_acceptsWith (by decide +kernel)
  obtain ⟨fields, dicts, records⟩ := of_decide_eq_true counts
  obtain ⟨same, safe⟩ := (tryOpen_safe sampleImage).2 table opened
  exact ⟨table, opened, fields, dicts, records, same, safe⟩

theorem sample_integer_lookups : ∃ table, Table.tryOpen (some sampleImage) = pure table ∧
    ∃ n ≤ 2, table.lookup .floor (.key 0x100000000) = table.nth n ∧
      Lookup.floor.Answers [(5 : UInt64), 0x200000001] 0x100000000 [5, 0x200000001][n]? := by
  obtain ⟨report, returned⟩ := sampleBuild.exists_report (by decide +kernel)
  obtain ⟨table, opened, -⟩ : ∃ table, Table.tryOpen (some sampleImage) = pure table ∧
      true = true :=
    exists_of_acceptsWith (by decide +kernel)
  have answers := (sampleBuild.integer_lookups returned rfl opened (by decide +kernel) .floor).2.1
    (Or.inl (by decide +kernel)) 0x100000000
  have keys : sampleBuild.keys = [5, 0x200000001] := by decide +kernel
  have length : sampleBuild.log.sorted.length = 2 := by decide +kernel
  rw [keys, length] at answers
  exact ⟨table, opened, answers⟩

/-- On addresses of nine to 255 bytes the lookups by bytes of the opened table are those of the
sorted map of the committed pairs of a partition and an address. -/
theorem Build.wide_lookups (returned : build.finished.outcome = .ok report)
    (same : image.bytes = build.finished.image)
    (opened : Table.tryOpen (some image) = pure table) {width : Nat} (wide : 9 ≤ width)
    (small : width ≤ 255)
    (widths : ∀ entry ∈ build.log.committed, entry.addressBytes.length = width)
    (lookup : Lookup) :
    (∀ (partition : UInt64) (address : List UInt8), address.length = width →
        ∃ n ≤ build.log.sorted.length,
          table.lookup lookup (.bytes partition address) = table.nth n ∧
            lookup.Answers build.log.widePairs (toLex (partition, address))
              build.log.widePairs[n]?) ∧
      (∀ n entry, build.log.sorted[n]? = some entry → ∃ it, table.nth n = .ok it ∧
        table.partition it = .ok entry.partition.toNat ∧
        ∀ out, out.length = width → table.addressInto it out = .ok (some entry.addressBytes)) ∧
      table.nth build.log.sorted.length = .ok table.end := by
  obtain ⟨places, opens⟩ := build.opens returned same opened
  refine ⟨fun partition address length =>
    opens.answers_wide wide small widths lookup partition length, fun n entry located => ?_,
    opens.nth_sorted_length⟩
  have short (entry : Committed) (member : entry ∈ build.log.committed) :
      entry.addressBytes.length < 2 ^ 8 := by
    rw [widths entry member]
    omega
  obtain ⟨it, runs, names, -, entryAt⟩ := opens.record short located
  have member := Log.mem_sorted.mp (List.mem_of_getElem? located)
  have tableWidth := opens.width_of_bytes (by omega) (by omega) widths names
  refine ⟨it, runs, (Table.partition_eq opens.valid names).trans
    (congrArg _ entryAt.partition), fun out length => ?_⟩
  have nonempty : entry.addressBytes ≠ [] :=
    List.ne_nil_of_length_pos (by rw [widths entry member]; omega)
  rw [Table.addressInto_eq opens.valid names, if_neg (not_not.mpr (length.trans tableWidth.symm)),
    entryAt.field, Committed.addressField, if_neg nonempty]

/-- Two addresses of nine bytes that share all but one. -/
def wideSample : Build :=
  Build.of sampleSchema .default
    [.beginRecordAtBytes 3 [0, 0, 0, 0, 0, 0, 0, 4, 0], .set 0 0 (.uint 7), .commit 0,
      .beginRecordAtBytes 3 [0, 0, 0, 0, 0, 0, 0, 9, 0], .commit 1]
    sampleSchema_fields BuildOptions.default_addressBits (by decide) (by decide)

def wideImage : Image := ⟨wideSample.finished.image, by decide +kernel⟩

theorem sample_wide_lookups : ∃ table, Table.tryOpen (some wideImage) = pure table ∧
    ∃ n ≤ 2, table.lookup .upperBound (.bytes 3 [0, 0, 0, 0, 0, 0, 0, 4, 1]) = table.nth n ∧
      Lookup.upperBound.Answers wideSample.log.widePairs
        (toLex (3, [0, 0, 0, 0, 0, 0, 0, 4, 1])) wideSample.log.widePairs[n]? := by
  obtain ⟨report, returned⟩ := wideSample.exists_report (by decide +kernel)
  obtain ⟨table, opened, -⟩ : ∃ table, Table.tryOpen (some wideImage) = pure table ∧ true = true :=
    exists_of_acceptsWith (by decide +kernel)
  have answers := (wideSample.wide_lookups returned rfl opened (by decide) (by decide)
    (by decide +kernel) .upperBound).1 3 [0, 0, 0, 0, 0, 0, 0, 4, 1] rfl
  have length : wideSample.log.sorted.length = 2 := by decide +kernel
  rw [length] at answers
  exact ⟨table, opened, answers⟩

end SortedMaps

end Mmpack
