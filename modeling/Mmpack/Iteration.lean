/-
This file proves that iterating is a bijection with the records. On every accepted
image the steps forward from the start and the steps back from the end visit the
same positions, slot after slot, however many empty slots lie between them, and
every lookup lands on one of these or on the end. On an image that was built, the
positions are the committed records in order.
-/

import Mmpack.Values

namespace Mmpack

open ByteList Checked Cursor

namespace Table

/-- The iterator a number of steps back from the end. -/
def nthBack (table : Table) : Nat → Read Position
  | 0 => pure table.end
  | n + 1 => do table.previous (← nthBack table n)

/-- The positions of the records. -/
def positions (table : Table) : List Position := Cursor.positions table.countAt table.dirCount

/-- Iterating visits every record once, in the order of slots and indices. -/
structure Iterates (table : Table) : Prop where
  counts : ∀ s < table.directorySlots, table.slotCount s = .ok (table.countAt s)
  listed : ∀ it, it ∈ table.positions ↔
    it.slot < table.directorySlots ∧ it.index < table.countAt it.slot
  ordered : table.positions.Pairwise fun first second =>
    first.slot < second.slot ∨ first.slot = second.slot ∧ first.index < second.index
  length : table.positions.length = table.size
  forward : ∀ n it, table.positions[n]? = some it → table.nth n = .ok it
  finish : table.nth table.size = .ok table.end
  backward : ∀ n it, table.positions.reverse[n]? = some it → table.nthBack (n + 1) = .ok it
  start : table.nthBack table.size = table.begin
  nextPrevious : ∀ it ∈ table.positions, ∃ following, table.next it = .ok following ∧
    table.previous following = .ok it
  previousNext : ∀ it, it ∈ table.positions ∨ it = table.end → table.begin ≠ .ok it →
    ∃ preceding, table.previous it = .ok preceding ∧ table.next preceding = .ok it
  lookups : ∀ lookup target it, table.lookup lookup target = .ok it →
    it ∈ table.positions ∨ it = table.end

variable {table : Table}

theorem settled_iff {it : Position} :
    Settled table.countAt table.dirCount it ↔ it ∈ table.positions ∨ it = table.end := by
  rw [Settled, positions, mem_positions]
  rfl

/-- Stepping back from the end counts the records down. -/
theorem nthBack_spec (valid : table.Valid) {n : Nat} (bound : n ≤ table.recordCount) :
    ∃ it, table.nthBack n = .ok it ∧ Settled table.countAt table.dirCount it ∧
      rank table.countAt it + n = table.recordCount := by
  have items : itemsBefore table.countAt table.dirCount = table.recordCount := valid.items
  induction n with
  | zero => exact ⟨_, rfl, table.end_settled, items⟩
  | succ n inductionHypothesis =>
    obtain ⟨it, runs, isSettled, left⟩ := inductionHypothesis (Nat.le_of_succ_le bound)
    obtain ⟨names, step⟩ := back_spec isSettled (by omega)
    refine ⟨_, ?_, Or.inl names, by omega⟩
    rw [nthBack, runs, ok_bind, previous_eq valid isSettled]

/-- An iterator is as many steps back from the end as there are records from it on. -/
theorem nthBack_rank (valid : table.Valid) {it : Position} {n : Nat}
    (isSettled : Settled table.countAt table.dirCount it)
    (left : rank table.countAt it + n = table.recordCount) : table.nthBack n = .ok it := by
  obtain ⟨other, runs, otherSettled, same⟩ := nthBack_spec valid (n := n) (by omega)
  rw [runs, otherSettled.eq_of_rank_eq isSettled (by omega)]

theorem next_previous (valid : table.Valid) {it : Position}
    (names : Names table.countAt table.dirCount it) :
    ∃ following, table.next it = .ok following ∧ table.previous following = .ok it := by
  obtain ⟨isSettled, forward⟩ := forward_spec names
  refine ⟨_, next_eq valid (Or.inl names), ?_⟩
  obtain ⟨backNames, step⟩ := back_spec isSettled (by omega)
  rw [previous_eq valid isSettled]
  exact congrArg _ (Settled.eq_of_rank_eq (Or.inl backNames) (Or.inl names) (by omega))

theorem previous_next (valid : table.Valid) {it : Position}
    (isSettled : Settled table.countAt table.dirCount it) (past : table.begin ≠ .ok it) :
    ∃ preceding, table.previous it = .ok preceding ∧ table.next preceding = .ok it := by
  obtain ⟨names, step⟩ := back_spec isSettled (rank_pos valid isSettled past)
  refine ⟨_, previous_eq valid isSettled, ?_⟩
  obtain ⟨nextSettled, forward⟩ := forward_spec names
  rw [next_eq valid (Or.inl names)]
  exact congrArg _ (nextSettled.eq_of_rank_eq isSettled (by omega))

theorem Valid.iterates (valid : table.Valid) : table.Iterates := by
  have items : itemsBefore table.countAt table.dirCount = table.recordCount := valid.items
  have length : table.positions.length = table.recordCount := length_positions.trans items
  exact
    { counts := fun s inside => slotCount_eq valid inside
      listed := fun it => mem_positions
      ordered := positions_ordered
      length := length
      forward := fun n it found => by
        obtain ⟨names, same⟩ := names_of_positions found
        rw [← same]
        exact nth_rank valid (Or.inl names)
      finish := nth_end valid
      backward := fun n it found => by
        have inside := (List.getElem?_eq_some_iff.mp found).1
        rw [List.length_reverse] at inside
        rw [List.getElem?_reverse inside] at found
        obtain ⟨names, same⟩ := names_of_positions found
        exact nthBack_rank valid (Or.inl names) (by omega)
      start := by
        obtain ⟨isSettled, zero⟩ := @first_spec table
        rw [begin_eq valid]
        exact nthBack_rank valid isSettled (by rw [zero, Nat.zero_add]; rfl)
      nextPrevious := fun it member => next_previous valid (mem_positions.mp member)
      previousNext := fun it isSettled past =>
        previous_next valid (settled_iff.mpr isSettled) past
      lookups := fun lookup target it runs => by
        rw [lookup_eq valid] at runs
        rw [← settled_iff, ← Except.ok.inj runs]
        exact targetPosition_settled lookup target }

/-- The record at an iterator is a committed one of a build. An address of more than 255 bytes, and
the text of a field past the first 65536, are cut short by the fields that describe them. -/
structure IsRecord (table : Table) (build : Build) (it : Position) (entry : Committed) : Prop where
  partition : table.partition it = .ok entry.partition.toNat
  address : (∀ other ∈ build.log.committed, other.addressBytes.length ≤ 255) →
    ∀ out, out.length = table.addressWidth →
      table.addressInto it out = .ok (some (entry.addressField table.addressWidth))
  values : build.schema.fields.countP (·.kind = .text) ≤ 65536 →
    ∀ id value, lastSet entry.sets id = some value → table.Reads it id value

end Table

/-- The committed records in the order of the image: as they were committed, where the builder
does not sort. -/
def Build.records (build : Build) : List Committed :=
  match build.options.order with
  | .assumeSorted => build.log.committed
  | .sortIfNeeded => build.log.sorted

theorem Build.records_eq (build : Build) {report : BuildReport}
    (returned : build.finished.outcome = .ok report) : build.records = build.log.sorted := by
  unfold records
  cases order : build.options.order with
  | assumeSorted => exact (build.sorted_eq_committed returned order).symm
  | sortIfNeeded => rfl

namespace Opens

variable {build : Build} {builder : Builder} {places : Places} {table : Table}

theorem isRecord (opens : Opens build builder places table) {n : Nat} {entry : Committed}
    (located : build.log.sorted[n]? = some entry) :
    ∃ it, table.nth n = .ok it ∧ table.IsRecord build it entry := by
  have inside := (List.getElem?_eq_some_iff.mp located).1
  rw [opens.sorted_length] at inside
  obtain ⟨it, runs, names, same⟩ := Table.nth_names opens.valid inside
  obtain ⟨piece, row, rowAt⟩ := opens.rowAt names
  obtain ⟨other, -, found, stages, -⟩ := tuple_of_row opens.built rowAt.located
  rw [same, located] at found
  obtain rfl := Option.some.inj found
  refine ⟨it, runs, ?_, fun short out length => ?_, fun texts id value => ?_⟩
  · rw [Table.partition_eq opens.valid names, rowAt.partition, stages.partition]
  · obtain ⟨other, entryAt⟩ := opens.entryAt
      (fun entry member => Nat.lt_succ_of_le (short entry member)) names
    have found := entryAt.located
    rw [same, located] at found
    obtain rfl := Option.some.inj found
    rw [Table.addressInto_eq opens.valid names, if_neg (not_not.mpr length), entryAt.field]
  · exact opens.reads_of_set texts names (same ▸ located)

end Opens

/-- On every accepted image iterating is a bijection with the records, and on one that was built
the n-th record is the n-th committed one. -/
theorem Table.tryOpen_iterates {image : Image} {table : Table}
    (opened : tryOpen (some image) = pure table) :
    table.Iterates ∧ ∀ (build : Build) (report : BuildReport),
      build.finished.outcome = .ok report → image.bytes = build.finished.image →
        table.size = build.records.length ∧ ∀ n entry, build.records[n]? = some entry →
          ∃ it, table.nth n = .ok it ∧ table.IsRecord build it entry := by
  refine ⟨((tryOpen_ensures image).of_accepts opened).2.iterates,
    fun build report returned same => ?_⟩
  obtain ⟨places, opens⟩ := build.opens returned same opened
  rw [build.records_eq returned]
  exact ⟨opens.sorted_length.symm, fun n entry located => opens.isRecord located⟩

theorem Table.sampleImage_iterates : ∃ table, tryOpen (some sampleImage) = pure table ∧
    table.Iterates ∧ table.size = 2 := by
  obtain ⟨report, returned⟩ := sampleBuild.exists_report (by decide +kernel)
  obtain ⟨table, opened, -⟩ : ∃ table, tryOpen (some sampleImage) = pure table ∧ true = true :=
    exists_of_acceptsWith (by decide +kernel)
  obtain ⟨iterates, built⟩ := tryOpen_iterates opened
  have length : sampleBuild.records.length = 2 := by decide +kernel
  exact ⟨table, opened, iterates, (built sampleBuild report returned rfl).1.trans length⟩

end Mmpack
