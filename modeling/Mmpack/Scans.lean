/-
This file is about tables that nobody need have built here. An accepted image whose
records increase is a sorted map: every lookup of every form lands where the map of the
places read back from the image answers, and the loop from one bound to another visits
the records in between, all of them and in order.
-/

import Mmpack.Agreement
import Mmpack.Alike
import Mmpack.Iteration

namespace Mmpack

open ByteList Checked Cursor SortedMap

/-! ### The records between two indices -/

/-- What holds between two indices of a list and nowhere else picks out that part of it. -/
theorem filter_eq_slice {Item : Type} {items : List Item} {wanted : Item → Prop}
    [DecidablePred wanted] {first last : Nat} (ordered : first ≤ last)
    (between : ∀ i (inside : i < items.length), wanted items[i] ↔ first ≤ i ∧ i < last) :
    items.filter wanted = slice items first (last - first) := by
  have split : items = items.take first ++
      (slice items first (last - first) ++ items.drop last) := by
    have later : items.drop last = (items.drop first).drop (last - first) := by
      rw [List.drop_drop, Nat.add_sub_cancel' ordered]
    rw [slice, later, List.take_append_drop, List.take_append_drop]
  have before : (items.take first).filter wanted = [] := by
    refine List.filter_eq_nil_iff.mpr fun item member has => ?_
    obtain ⟨i, inside, rfl⟩ := List.getElem_of_mem member
    rw [List.length_take] at inside
    rw [List.getElem_take, decide_eq_true_eq, between i (by omega)] at has
    omega
  have after : (items.drop last).filter wanted = [] := by
    refine List.filter_eq_nil_iff.mpr fun item member has => ?_
    obtain ⟨i, inside, rfl⟩ := List.getElem_of_mem member
    rw [List.length_drop] at inside
    rw [List.getElem_drop, decide_eq_true_eq, between (last + i) (by omega)] at has
    omega
  have inside : (slice items first (last - first)).filter wanted =
      slice items first (last - first) := by
    refine List.filter_eq_self.mpr fun item member => ?_
    obtain ⟨i, inside, rfl⟩ := List.getElem_of_mem member
    rw [slice, List.length_take, List.length_drop] at inside
    simp only [slice, List.getElem_take, List.getElem_drop]
    rw [decide_eq_true_eq, between (first + i) (by omega)]
    omega
  conv_lhs => rw [split]
  rw [List.filter_append, List.filter_append, before, after, inside, List.nil_append,
    List.append_nil]

/-! ### Places -/

/-- Where a target stands in a table. -/
def Target.place (table : Table) : Target → ℕ ×ₗ ℕ
  | .key wanted =>
    toLex (table.schema.partitionOf wanted.toNat, table.schema.addressOf wanted.toNat)
  | .integer partition address => toLex (partition.toNat, address.toNat)
  | .bytes partition address =>
    toLex (partition.toNat, if table.narrowAddress = true then leNat address else beNat address)

namespace Table

/-- The places of the records, in the order of the iterators. -/
def places (table : Table) : List (ℕ ×ₗ ℕ) := table.positions.map table.placeAt

/-- What is read at an iterator spells a place. -/
structure ReadsPlace (table : Table) (it : Position) (place : ℕ ×ₗ ℕ) : Prop where
  partition : table.partition it = .ok (ofLex place).1
  address : ∀ out, out.length = table.addressWidth → ∃ full,
    table.addressInto it out = .ok (some full) ∧
      (ofLex place).2 = if table.narrowAddress = true then leNat full else beNat full

variable {table : Table}

theorem readsPlace (valid : table.Valid) {it : Position}
    (names : Names table.countAt table.dirCount it) :
    table.ReadsPlace it (table.placeAt it) where
  partition := partition_eq valid names
  address := fun out length =>
    ⟨_, (addressInto_eq valid names out).trans (by rw [if_neg (not_not.mpr length)]), rfl⟩

theorem lists_places (valid : table.Valid) : table.Lists table.places where
  length := by
    rw [places, List.length_map, positions, length_positions]
    exact valid.items
  place := fun it names => by
    rw [places, List.getElem?_map, positions, positions_rank names]
    rfl

/-- The partitions increase in every accepted image, so the places do when the addresses do. -/
theorem places_sorted (valid : table.Valid) (increasing : table.Increasing) :
    table.places.Pairwise (· < ·) := by
  refine List.pairwise_map.mpr (positions_ordered.imp_of_mem fun {first second} member member'
    ordered => ?_)
  have names := mem_positions.mp member
  have names' := mem_positions.mp member'
  rw [placeAt, placeAt, Prod.Lex.toLex_lt_toLex]
  rcases ordered with lower | ⟨same, lower⟩
  · exact Or.inl (valid.partition_lt lower names'.1)
  · rw [same]
    exact Or.inr ⟨rfl, increasing _ names'.1 _ _ lower names'.2⟩

/-! ### Lookups -/

/-- A target in a form the table answers is a probe of its regime, looked up at its place. -/
theorem probe_of_asks (valid : table.Valid) {target : Target} (asks : target.Asks table) :
    ∃ partition probe, table.Suits probe ∧ target.place table = toLex (partition, probe.number) ∧
      ∀ lookup, table.lookup lookup target = .ok (table.position lookup partition probe) := by
  cases target with
  | key key =>
    have narrow := valid.keyed asks
    exact ⟨_, .narrow (table.schema.addressOf key.toNat), ⟨narrow, addressOf_lt _ key.toNat_lt⟩,
      rfl, fun lookup => (lookup_eq valid lookup _).trans (congrArg _ (if_pos ⟨asks, narrow⟩))⟩
  | integer partition address =>
    exact ⟨_, .narrow address.toNat, ⟨asks, address.toNat_lt⟩, rfl,
      fun lookup => (lookup_eq valid lookup _).trans (congrArg _ (if_pos asks))⟩
  | bytes partition address =>
    refine ⟨partition.toNat, if table.narrowAddress = true then .narrow (leNat address)
      else .wide address, ?_, ?_,
      fun lookup => (lookup_eq valid lookup _).trans (congrArg _ (if_pos asks))⟩
    · cases narrow : table.narrowAddress with
      | true => exact ⟨narrow, leNat_lt_64 valid narrow asks⟩
      | false => exact ⟨narrow, asks⟩
    · rw [Target.place]
      split <;> rfl

/-- An accepted image whose records increase is a sorted map, whoever wrote it: every lookup of
every form lands where the map of its places answers, and a place is what is read there. -/
theorem sorted_lookups {image : Image} (opened : tryOpen (some image) = pure table)
    (increasing : table.Increasing) :
    table.places.length = table.size ∧ table.places.Pairwise (· < ·) ∧
      (∀ n place, table.places[n]? = some place → ∃ it, table.nth n = .ok it ∧
        table.ReadsPlace it place) ∧
      ∀ lookup target, target.Asks table → ∃ n ≤ table.size,
        table.lookup lookup target = table.nth n ∧
          lookup.Answers table.places (target.place table) table.places[n]? := by
  have valid := ((tryOpen_ensures image).of_accepts opened).2
  have lists := lists_places valid
  have sorted := places_sorted valid increasing
  refine ⟨lists.length, sorted, fun n place found => ?_, fun lookup target asks => ?_⟩
  · obtain ⟨inside, rfl⟩ := List.getElem?_eq_some_iff.mp found
    obtain ⟨it, names, rfl, place⟩ := lists.record valid inside
    rw [place]
    exact ⟨it, nth_rank valid (Or.inl names), readsPlace valid names⟩
  · obtain ⟨partition, probe, suits, place, lands⟩ := probe_of_asks valid asks
    obtain ⟨n, bound, runs, answers⟩ :=
      position_answers valid lists sorted suits lookup partition
    rw [lists.length] at bound
    exact ⟨n, bound, (lands lookup).trans runs.symm, place ▸ answers⟩

/-! ### Scans -/

/-- The loop of a caller from one iterator to another, with what it visits. A loop that does not
come to its end within so many steps is a fault. -/
def scanFrom (table : Table) (last : Position) : Nat → Position → Read (List Position)
  | 0, _ => throw .outOfBounds
  | remaining + 1, it =>
    if it = last then pure []
    else do
      let rest ← scanFrom table last remaining (← table.next it)
      return it :: rest

def scan (table : Table) (first last : Position) : Read (List Position) :=
  table.scanFrom last (table.size + 1) first

/-- A loop between two iterators visits the positions from the one up to the other. -/
theorem scanFrom_eq (valid : table.Valid) {last : Position}
    (isLast : Settled table.countAt table.dirCount last) {remaining : Nat} {first : Position}
    (isFirst : Settled table.countAt table.dirCount first)
    (ordered : rank table.countAt first ≤ rank table.countAt last)
    (enough : rank table.countAt last - rank table.countAt first < remaining) :
    table.scanFrom last remaining first = .ok (slice table.positions (rank table.countAt first)
      (rank table.countAt last - rank table.countAt first)) := by
  induction remaining generalizing first with
  | zero => exact absurd enough (Nat.not_lt_zero _)
  | succ remaining inductionHypothesis =>
    rw [scanFrom]
    by_cases atEnd : first = last
    · subst atEnd
      rw [if_pos rfl, Nat.sub_self, slice, List.take_zero]
      rfl
    · rw [if_neg atEnd]
      have below : rank table.countAt first < rank table.countAt last :=
        Nat.lt_of_le_of_ne ordered fun same => atEnd (isFirst.eq_of_rank_eq isLast same)
      have names := isFirst.names_of_rank_lt (Nat.lt_of_lt_of_le below isLast.rank_le)
      obtain ⟨isNext, step⟩ := forward_spec names
      have rest := inductionHypothesis isNext (by omega) (by omega)
      have here := positions_rank names
      obtain ⟨inside, same⟩ := List.getElem?_eq_some_iff.mp here
      rw [next_eq valid isFirst, ok_bind, rest, ok_bind, step]
      refine congrArg Except.ok ?_
      rw [slice, slice, positions, List.drop_eq_getElem_cons inside, same,
        show rank table.countAt last - rank table.countAt first =
          rank table.countAt last - (rank table.countAt first + 1) + 1 by omega,
        List.take_succ_cons]

/-- The bounds of a target cut the positions where their places reach it, or pass it. -/
theorem bound_cuts (valid : table.Valid) (increasing : table.Increasing) {target : Target}
    (asks : target.Asks table) :
    (∃ lower, table.lookup .lowerBound target = .ok lower ∧
      Settled table.countAt table.dirCount lower ∧
      ∀ it, Names table.countAt table.dirCount it →
        (table.placeAt it < target.place table ↔
          rank table.countAt it < rank table.countAt lower)) ∧
    ∃ upper, table.lookup .upperBound target = .ok upper ∧
      Settled table.countAt table.dirCount upper ∧
      ∀ it, Names table.countAt table.dirCount it →
        (table.placeAt it ≤ target.place table ↔
          rank table.countAt it < rank table.countAt upper) := by
  obtain ⟨partition, probe, suits, place, lands⟩ := probe_of_asks valid asks
  rw [place]
  refine ⟨⟨_, lands .lowerBound, position_settled .lowerBound partition probe, fun it names => ?_⟩,
    _, lands .upperBound, position_settled .upperBound partition probe, fun it names => ?_⟩
  · exact (rank_boundPosition valid increasing _ partition _
      (fun s i inside below => isBelow_iff valid suits inside below) names).symm
  · have upper := rank_boundPosition valid increasing (table.isAtOrBelow · probe) partition
      (probe.number + 1) (fun s i inside below => by
        rw [isAtOrBelow_iff valid suits inside below, Nat.lt_succ_iff]) names
    rw [← not_lt, ← lt_succ_iff]
    exact upper.symm

/-- On an accepted image whose records increase, the loop from one bound to another visits the
records in between, each once and in order: up to the second target, or past it. -/
theorem scan_range {image : Image} (opened : tryOpen (some image) = pure table)
    (increasing : table.Increasing) {low high : Target} (asks : low.Asks table)
    (asks' : high.Asks table) (ordered : low.place table ≤ high.place table) :
    ∃ first last past, table.lookup .lowerBound low = .ok first ∧
      table.lookup .lowerBound high = .ok last ∧ table.lookup .upperBound high = .ok past ∧
      table.scan first last = .ok (table.positions.filter fun it =>
        low.place table ≤ table.placeAt it ∧ table.placeAt it < high.place table) ∧
      table.scan first past = .ok (table.positions.filter fun it =>
        low.place table ≤ table.placeAt it ∧ table.placeAt it ≤ high.place table) := by
  have valid := ((tryOpen_ensures image).of_accepts opened).2
  have items : itemsBefore table.countAt table.dirCount = table.recordCount := valid.items
  obtain ⟨⟨first, runs, isFirst, cuts⟩, -⟩ := bound_cuts valid increasing asks
  obtain ⟨⟨last, runs', isLast, cuts'⟩, past, runs'', isPast, cuts''⟩ :=
    bound_cuts valid increasing asks'
  -- Whatever both ends cut, the loop between them visits what lies between the cuts.
  have scans {finish : Position} {before : ℕ ×ₗ ℕ → Prop} [DecidablePred before]
      (isFinish : Settled table.countAt table.dirCount finish)
      (cut : ∀ it, Names table.countAt table.dirCount it →
        (before (table.placeAt it) ↔ rank table.countAt it < rank table.countAt finish))
      (later : ∀ place, place < low.place table → before place) :
      table.scan first finish = .ok (table.positions.filter fun it =>
        low.place table ≤ table.placeAt it ∧ before (table.placeAt it)) := by
    have upTo : rank table.countAt first ≤ rank table.countAt finish := by
      by_contra above
      have names := isFinish.names_of_rank_lt
        (Nat.lt_of_lt_of_le (Nat.not_le.mp above) isFirst.rank_le)
      exact absurd ((cut finish names).mp (later _ ((cuts finish names).mpr (Nat.not_le.mp above))))
        (Nat.lt_irrefl _)
    have bound := isFinish.rank_le
    rw [scan, scanFrom_eq valid isFinish isFirst upTo (by rw [size]; omega)]
    refine congrArg Except.ok (filter_eq_slice upTo fun i inside => ?_).symm
    obtain ⟨names, same⟩ := names_of_positions (List.getElem?_eq_getElem inside)
    rw [← not_lt, cuts _ names, cut _ names, same, Nat.not_lt]
  exact ⟨first, last, past, runs, runs', runs'',
    scans isLast cuts' fun place less => lt_of_lt_of_le less ordered,
    scans isPast cuts'' fun place less => le_of_lt (lt_of_lt_of_le less ordered)⟩

end Table

/-! ### Images that were built -/

/-- The records of an image that was built increase. -/
theorem Opens.increasing {build : Build} {builder : Builder} {places : Places} {table : Table}
    (opens : Opens build builder places table) (agree : build.PlacesAgree) :
    table.Increasing := by
  have lists := opens.lists agree.short
  have rename : build.log.sorted.map (Committed.placeBy table.narrowAddress) =
      build.log.sorted.map Committed.place :=
    List.map_congr_left fun entry member => opens.placeBy_eq agree (Log.mem_sorted.mp member)
  rw [rename] at lists
  exact lists.increasing opens.sorted_places

theorem sampleImage_increasing : ∃ table, Table.tryOpen (some sampleImage) = pure table ∧
    table.Increasing ∧ table.hasKeyMapping = true := by
  obtain ⟨report, returned⟩ := sampleBuild.exists_report (by decide +kernel)
  obtain ⟨table, opened, mapped⟩ : ∃ table, Table.tryOpen (some sampleImage) = pure table ∧
      table.hasKeyMapping = true := exists_of_acceptsWith (by decide +kernel)
  obtain ⟨places, opens⟩ := sampleBuild.opens returned rfl opened
  have agree : sampleBuild.PlacesAgree := by
    unfold Build.PlacesAgree
    decide +kernel
  exact ⟨table, opened, opens.increasing agree, mapped⟩

theorem sample_sorted_lookups : ∃ table, Table.tryOpen (some sampleImage) = pure table ∧
    ∃ n ≤ table.size, table.lookup .floor (.key 6) = table.nth n ∧
      Lookup.floor.Answers table.places (Target.place table (.key 6)) table.places[n]? := by
  obtain ⟨table, opened, increasing, mapped⟩ := sampleImage_increasing
  exact ⟨table, opened,
    (Table.sorted_lookups opened increasing).2.2.2 .floor (.key 6) mapped⟩

/-- From the one partition to the other: the record of the second target ends the range or is in
it. -/
theorem sample_scan_range : ∃ table, Table.tryOpen (some sampleImage) = pure table ∧
    ∃ first last past half whole, table.lookup .lowerBound (.key 5) = .ok first ∧
      table.lookup .lowerBound (.key 0x200000001) = .ok last ∧
      table.lookup .upperBound (.key 0x200000001) = .ok past ∧
      table.scan first last = .ok half ∧ half.map table.placeAt = [toLex (0, 5)] ∧
      table.scan first past = .ok whole ∧
      whole.map table.placeAt = [toLex (0, 5), toLex (2, 1)] := by
  obtain ⟨table, opened, increasing, mapped⟩ := sampleImage_increasing
  have asks (key : UInt64) : (Target.key key).Asks table := mapped
  obtain ⟨table', opened', filtered⟩ : ∃ table, Table.tryOpen (some sampleImage) = pure table ∧
      decide ((Target.key 5).place table ≤ (Target.key 0x200000001).place table ∧
        (table.positions.filter fun it => (Target.key 5).place table ≤ table.placeAt it ∧
          table.placeAt it < (Target.key 0x200000001).place table).map table.placeAt =
            [toLex (0, 5)] ∧
        (table.positions.filter fun it => (Target.key 5).place table ≤ table.placeAt it ∧
          table.placeAt it ≤ (Target.key 0x200000001).place table).map table.placeAt =
            [toLex (0, 5), toLex (2, 1)]) = true :=
    exists_of_acceptsWith (by decide +kernel)
  obtain rfl : table = table' := Except.ok.inj (Except.ok.inj (opened.symm.trans opened'))
  obtain ⟨ordered, half, whole⟩ := of_decide_eq_true filtered
  obtain ⟨first, last, past, runs, runs', runs'', upTo, through⟩ :=
    Table.scan_range opened increasing (asks 5) (asks 0x200000001) ordered
  exact ⟨table, opened, first, last, past, _, _, runs, runs', runs'', upTo, half, through, whole⟩

end Mmpack
