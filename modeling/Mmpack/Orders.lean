/-
This file is about builds that sort. The order in which records were committed is
forgotten: `finish` throws, and writes nothing, exactly when two of them stand at the
same place, and otherwise every order leads to one sequence of records.
-/

import Mmpack.Alike
import Mmpack.Refused

namespace Mmpack

open ByteList

/-! ### Places of records -/

/-- The partition and the address of a record, as the caller gave them. -/
def Committed.position (entry : Committed) : UInt64 × UInt64 × List UInt8 :=
  (entry.partition, entry.address, entry.addressBytes)

/-- Records in the order of their places. -/
def inOrder (records : List Committed) : List Committed :=
  records.insertionSort fun first second => first.place ≤ second.place

namespace Session

open Builder

variable {schema : SchemaBuilder} {options : BuildOptions} {session : Session} {log : Log}

/-- As long as `finish` is not called the session is in step with its log. -/
theorem run_open (tracks : Tracks schema options session log) {calls : List Call}
    (builtIn : ∀ call ∈ calls, call.BuiltIn) (open_ : ∀ call ∈ calls, call ≠ .finish) :
    Tracks schema options (session.run calls) (session.logged log calls) := by
  induction calls generalizing session log with
  | nil => exact tracks
  | cons call rest inductionHypothesis =>
    exact inductionHypothesis
      (perform_tracks tracks (builtIn call List.mem_cons_self) (open_ call List.mem_cons_self))
      (fun other member => builtIn other (List.mem_cons_of_mem _ member))
      (fun other member => open_ other (List.mem_cons_of_mem _ member))

/-- A record has the form of address of its session. -/
theorem Tracks.shaped (tracks : Tracks schema options session log) {entry : Committed}
    (member : entry ∈ log.committed) :
    if session.builder.blob.isSome then entry.address = 0 ∧
      entry.addressBytes.length = session.builder.wideWidth
    else entry.addressBytes = [] := by
  obtain ⟨lengths, stages⟩ := List.forall₂_iff_get.mp tracks.rows
  obtain ⟨k, inside, rfl⟩ := List.getElem_of_mem member
  have staged := stages k (lengths ▸ inside) inside
  have shaped := tracks.sound.row (List.getElem_mem (lengths ▸ inside))
  rw [List.get_eq_getElem, List.get_eq_getElem] at staged
  rw [staged.address, staged.addressBytes] at shaped
  split at shaped
  · rename_i wide
    rw [if_pos wide]
    exact ⟨shaped.1, shaped.2.1⟩
  · rename_i narrow
    rw [if_neg narrow]
    exact shaped

end Session

/-! ### The records of a table -/

/-- A table holds records in their order, each under its address and with the values last set. -/
structure Table.HoldsRecords (table : Table) (records : List Committed) : Prop where
  size : table.size = records.length
  record : ∀ n entry, records[n]? = some entry → ∃ it, table.nth n = .ok it ∧
    table.partition it = .ok entry.partition.toNat ∧
    (entry.addressBytes = [] → table.address it = .ok (some entry.address.toNat)) ∧
    (∀ out, out.length = table.addressWidth →
      table.addressInto it out = .ok (some (entry.addressField table.addressWidth))) ∧
    ∀ id value, lastSet entry.sets id = some value → table.readings it id = .ofValue value

namespace Opens

variable {build : Build} {builder : Builder} {places : Places} {table : Table}

/-- One integer address makes for a build of them. -/
theorem integers_of_integer (opens : Opens build builder places table) {entry : Committed}
    (member : entry ∈ build.log.committed) (integer : entry.addressBytes = []) :
    ∀ other ∈ build.log.committed, other.addressBytes = [] := by
  intro other member'
  have shaped := opens.built.entry_shaped member
  have shaped' := opens.built.entry_shaped member'
  split at shaped
  · rw [integer] at shaped
    exact absurd shaped.2.2 (by rw [← shaped.2.1]; exact Nat.lt_irrefl 0)
  · rename_i narrow
    rwa [if_neg narrow] at shaped'

/-- The table of a build holds its records. -/
theorem holdsRecords (opens : Opens build builder places table)
    (texts : build.schema.fields.countP (·.kind = .text) ≤ 2 ^ 16)
    (short : ∀ entry ∈ build.log.committed, entry.addressBytes.length < 2 ^ 8) :
    table.HoldsRecords build.log.sorted where
  size := opens.sorted_length.symm
  record := fun n entry located => by
    have member := Log.mem_sorted.mp (List.mem_of_getElem? located)
    obtain ⟨it, runs, names, atRank, entryAt⟩ := opens.record short located
    refine ⟨it, runs, ?_, fun integer => ?_, fun out length => ?_, fun id value set => ?_⟩
    · rw [Table.partition_eq opens.valid names, entryAt.partition]
    · have narrow := opens.narrow_of_integers (opens.integers_of_integer member integer) names
      rw [Table.address_eq opens.valid names, narrow,
        Table.addressValue_eq opens.valid narrow names.1 names.2, entryAt.number, Committed.number,
        integer]
      cases table.narrowAddress <;> rfl
    · rw [Table.addressInto_eq opens.valid names, if_neg (not_not.mpr length), entryAt.field]
    · have observed := opens.built.observed entry (List.mem_of_getElem? located) _
        (mem_of_lastSet set)
      have declared := List.getElem?_eq_getElem (opens.built.declared _ observed)
      rw [opens.readings_of_entry texts names (atRank.symm ▸ located) declared, set]

end Opens

/-! ### Sorting -/

section Sorting

variable {build : Build} {records : List Committed}

theorem Build.running_of_open (open_ : ∀ call ∈ build.calls, call ≠ .finish) :
    build.session.builder.finished = false :=
  (Session.run_open (Session.start_tracks build.made) build.builtIn open_).running

end Sorting

end Mmpack
