/-
This file says that addresses come back whole. The stretch a record stores, put back
where its partition cut it from, is the address the record was committed under, so
the partition, the address and the key read through an iterator are those of the
caller's log, and the numbers the reader searches by are those of the log.
-/

import Mmpack.Tuples
import Mmpack.Lookups

namespace Mmpack

open ByteList Checked Cursor

/-! ### The addresses of a log -/

namespace Committed

/-- The address field of a record, in an image of the given address width. -/
def addressField (width : Nat) (entry : Committed) : List UInt8 :=
  if entry.addressBytes = [] then leBytes width entry.address.toNat else entry.addressBytes

/-- The number a reader compares a record by: a narrow address is a little-endian one. -/
def number (narrow : Bool) (entry : Committed) : Nat :=
  entry.address.toNat + if narrow then leNat entry.addressBytes else beNat entry.addressBytes

/-- Where a record stands for a reader. -/
def placeBy (narrow : Bool) (entry : Committed) : ℕ ×ₗ ℕ :=
  toLex (entry.partition.toNat, entry.number narrow)

theorem placeBy_false (entry : Committed) : entry.placeBy false = entry.place := rfl

/-- Integers are the same number to every reader. -/
theorem placeBy_of_integer (entry : Committed) (integer : entry.addressBytes = []) (narrow : Bool) :
    entry.placeBy narrow = entry.place := by
  rw [placeBy, place, number, integer]
  cases narrow <;> rfl

theorem place_of_integer (entry : Committed) (integer : entry.addressBytes = []) :
    entry.place = toLex (entry.partition.toNat, entry.address.toNat) := by
  rw [place, integer]
  rfl

end Committed

/-! ### The stored stretch -/

section Stored

variable {builder : Builder} {plan : PartitionPlan} (row : StagedRow)

/-- A record stores the stretch of its address field that the plan names. -/
theorem storedAddress_eq (within : plan.skip + plan.width ≤ builder.layout.addressWidth) :
    storedAddress builder plan row = slice (fullBytes builder row) plan.skip plan.width := by
  unfold storedAddress fullBytes
  cases wide : builder.blob.isSome with
  | true => rfl
  | false =>
    have narrow : builder.layout.addressWidth ≤ 8 := by
      rw [narrow_layout wide]
      exact exactWidthFor_le _
    simp only [Bool.false_eq_true, if_false]
    rw [slice_leBytes _ within, accessWidth_eq (by omega)]
    by_cases whole : 8 ≤ plan.skip
    · rw [show plan.width = 0 by omega]
      rfl
    · rw [if_neg whole, Nat.shiftRight_eq_div_pow, pow_256]

end Stored

namespace Opens

variable {build : Build} {builder : Builder} {places : Places} {table : Table} {it : Position}
  {piece : Piece} {row : StagedRow}

theorem addressWidth_eq (opens : Opens build builder places table)
    (small : builder.layout.addressWidth < 2 ^ 8) :
    table.addressWidth = builder.layout.addressWidth := by
  rw [opens.addressWidth, Nat.mod_eq_of_lt small]

theorem narrowAddress (opens : Opens build builder places table)
    (small : builder.layout.addressWidth < 2 ^ 8) :
    table.narrowAddress = decide (builder.layout.addressWidth ≤ 8) := by
  rw [← opens.addressWidth_eq small, opens.valid.addressWidth_eq]
  rfl

theorem storedBytes_eq (opens : Opens build builder places table)
    (small : builder.layout.addressWidth < 2 ^ 8) (rowAt : RowAt builder table it piece row) :
    table.storedBytes it.slot it.index =
      slice (fullBytes builder row) piece.2.skip piece.2.width := by
  obtain ⟨within, -⟩ := opens.built.storedStretch_spec small rowAt.run rowAt.member
  have cut := planPartition_stretch builder builder.layout piece.1 (storedStretch builder piece.1)
  rw [← rowAt.plan] at cut
  rw [← cut] at within
  have inRows := mem_rows_of_mem_run rowAt.run rowAt.member
  have stored := storedAddress_eq row within
  have length := congrArg List.length stored
  rw [slice_length (by rw [opens.built.fullBytes_length inRows]; exact within)] at length
  have address := encodeRecord_address builder row rowAt.stride
  have room := rowAt.stride
  rw [length] at address
  have read := rowAt.record.slice 0 piece.2.width
    (by rw [encodeRecord_length]; omega)
  rw [Nat.add_zero] at read
  rw [Table.storedBytes, rowAt.addressWidth, read, address, stored]

/-- The address field rebuilt by the reader is the one the record was staged with. -/
theorem fullAddress_eq (opens : Opens build builder places table)
    (small : builder.layout.addressWidth < 2 ^ 8) (rowAt : RowAt builder table it piece row) :
    table.fullAddress it.slot it.index = fullBytes builder row := by
  obtain ⟨-, whole⟩ := opens.built.storedStretch_spec small rowAt.run rowAt.member
  have cut := planPartition_stretch builder builder.layout piece.1 (storedStretch builder piece.1)
  rw [← rowAt.plan] at cut
  rw [← cut] at whole
  rw [Table.fullAddress, opens.addressWidth_eq small, rowAt.addressSkip,
    opens.storedBytes_eq small rowAt]
  exact whole

end Opens

/-! ### The records of the log -/

theorem Log.mem_sorted {log : Log} {entry : Committed} :
    entry ∈ log.sorted ↔ entry ∈ log.committed := (List.perm_insertionSort _ _).mem_iff

theorem Built.row_of_entry {build : Build} {builder : Builder} (built : Built build builder)
    {entry : Committed} (member : entry ∈ build.log.committed) :
    ∃ row ∈ builder.rows, builder.Stages row entry := by
  obtain ⟨lengths, stages⟩ := List.forall₂_iff_get.mp built.stages
  obtain ⟨k, inside, rfl⟩ := List.getElem_of_mem (Log.mem_sorted.mpr member)
  exact ⟨_, List.getElem_mem (lengths ▸ inside), stages k (lengths ▸ inside) inside⟩

/-- A committed record has the build's address form: bytes of the one width, or an integer. -/
theorem Built.entry_shaped {build : Build} {builder : Builder} (built : Built build builder)
    {entry : Committed} (member : entry ∈ build.log.committed) :
    if builder.blob.isSome then
      entry.address = 0 ∧ entry.addressBytes.length = builder.wideWidth ∧ 0 < builder.wideWidth
    else entry.addressBytes = [] := by
  obtain ⟨row, inRows, stages⟩ := built.row_of_entry member
  rw [← stages.address, ← stages.addressBytes]
  exact built.shaped row inRows

/-- The address field of a row is that of the record it stages. -/
theorem Built.fullBytes_eq {build : Build} {builder : Builder} (built : Built build builder)
    {row : StagedRow} (member : row ∈ builder.rows) {entry : Committed}
    (stages : builder.Stages row entry) :
    fullBytes builder row = entry.addressField builder.layout.addressWidth := by
  have shaped := built.shaped row member
  unfold Builder.Shaped at shaped
  rw [Committed.addressField, ← stages.address, ← stages.addressBytes]
  unfold fullBytes
  cases wide : builder.blob.isSome with
  | true =>
    rw [wide] at shaped
    rw [if_neg (List.ne_nil_of_length_pos (shaped.2.1 ▸ shaped.2.2))]
    rfl
  | false =>
    rw [wide] at shaped
    have bytes : row.addressBytes = [] := shaped
    rw [if_pos bytes]
    rfl

/-- The record at a position is a committed one. -/
structure EntryAt (build : Build) (table : Table) (it : Position) (entry : Committed) : Prop where
  located : build.log.sorted[rank table.countAt it]? = some entry
  partition : (table.entry it.slot).partition = entry.partition.toNat
  field : table.fullAddress it.slot it.index = entry.addressField table.addressWidth
  number : table.recordNumber it.slot it.index = entry.number table.narrowAddress

namespace Opens

variable {build : Build} {builder : Builder} {places : Places} {table : Table} {it : Position}

theorem exists_entry (opens : Opens build builder places table)
    (names : Names table.countAt table.dirCount it) : ∃ entry, entry ∈ build.log.committed := by
  obtain ⟨piece, row, rowAt⟩ := opens.rowAt names
  obtain ⟨entry, -, located, -⟩ := tuple_of_row opens.built rowAt.located
  exact ⟨entry, Log.mem_sorted.mp (List.mem_of_getElem? located)⟩

theorem sorted_length (opens : Opens build builder places table) :
    build.log.sorted.length = table.recordCount := by
  rw [opens.recordCount, opens.built.stages.length_eq]

/-- Committed addresses shorter than 256 bytes make for an image of such addresses. -/
theorem addressWidth_small (opens : Opens build builder places table)
    (short : ∀ entry ∈ build.log.committed, entry.addressBytes.length < 2 ^ 8)
    (names : Names table.countAt table.dirCount it) : builder.layout.addressWidth < 2 ^ 8 := by
  obtain ⟨entry, member⟩ := opens.exists_entry names
  have shaped := opens.built.entry_shaped member
  cases wide : builder.blob.isSome with
  | true =>
    rw [wide] at shaped
    rw [wide_layout wide, ← shaped.2.1]
    exact short entry member
  | false =>
    rw [narrow_layout wide]
    exact lt_of_le_of_lt (exactWidthFor_le _) (by decide)

/-- Records of integer addresses make for narrow images. -/
theorem narrow_of_integers (opens : Opens build builder places table)
    (integers : ∀ entry ∈ build.log.committed, entry.addressBytes = [])
    (names : Names table.countAt table.dirCount it) : table.narrowAddress = true := by
  have small := opens.addressWidth_small
    (fun entry member => by rw [integers entry member]; decide) names
  obtain ⟨entry, member⟩ := opens.exists_entry names
  have shaped := opens.built.entry_shaped member
  cases wide : builder.blob.isSome with
  | true =>
    rw [wide, integers entry member] at shaped
    have positive := shaped.2.2
    rw [← shaped.2.1] at positive
    exact absurd positive (Nat.lt_irrefl 0)
  | false =>
    rw [opens.narrowAddress small, narrow_layout wide]
    exact decide_eq_true (exactWidthFor_le _)

/-- Records of addresses of one width make for an image of that width. -/
theorem width_of_bytes (opens : Opens build builder places table) {width : Nat}
    (positive : 0 < width) (small : width < 2 ^ 8)
    (widths : ∀ entry ∈ build.log.committed, entry.addressBytes.length = width)
    (names : Names table.countAt table.dirCount it) : table.addressWidth = width := by
  obtain ⟨entry, member⟩ := opens.exists_entry names
  have shaped := opens.built.entry_shaped member
  have length := widths entry member
  cases wide : builder.blob.isSome with
  | true =>
    rw [wide] at shaped
    rw [opens.addressWidth, wide_layout wide, ← shaped.2.1, length, Nat.mod_eq_of_lt small]
  | false =>
    rw [wide] at shaped
    have bytes : entry.addressBytes = [] := shaped
    rw [bytes] at length
    exact absurd positive (Nat.not_lt.mpr (Nat.le_of_eq length.symm))

/-- Every record of the table is a committed one, in the order of the places. -/
theorem entryAt (opens : Opens build builder places table)
    (short : ∀ entry ∈ build.log.committed, entry.addressBytes.length < 2 ^ 8)
    (names : Names table.countAt table.dirCount it) :
    ∃ entry, EntryAt build table it entry := by
  obtain ⟨piece, row, rowAt⟩ := opens.rowAt names
  have small := opens.addressWidth_small short names
  obtain ⟨entry, -, located, stages, -⟩ := tuple_of_row opens.built rowAt.located
  have inRows := List.mem_of_getElem? rowAt.located
  have full := opens.fullAddress_eq small rowAt
  have shaped := opens.built.shaped row inRows
  unfold Builder.Shaped at shaped
  have width := opens.addressWidth_eq small
  refine ⟨entry, located, rowAt.partition.trans (congrArg _ stages.partition), ?_, ?_⟩
  · rw [full, opens.built.fullBytes_eq inRows stages, width]
  · rw [Table.recordNumber, full, Committed.number, ← stages.address, ← stages.addressBytes]
    unfold fullBytes
    cases wide : builder.blob.isSome with
    | true =>
      rw [wide] at shaped
      rw [shaped.1, show (0 : UInt64).toNat = 0 from rfl, Nat.zero_add]
      rfl
    | false =>
      rw [wide] at shaped
      have narrow : table.narrowAddress = true := by
        rw [opens.narrowAddress small, narrow_layout wide]
        exact decide_eq_true (exactWidthFor_le _)
      have bytes : row.addressBytes = [] := shaped
      rw [narrow, bytes]
      exact leNat_leBytes_of_lt (address_lt wide inRows)

/-- The table lists the places of the log. -/
theorem lists (opens : Opens build builder places table)
    (short : ∀ entry ∈ build.log.committed, entry.addressBytes.length < 2 ^ 8) :
    table.Lists (build.log.sorted.map (Committed.placeBy table.narrowAddress)) where
  length := by rw [List.length_map, opens.sorted_length]
  place := fun it names => by
    obtain ⟨entry, entryAt⟩ := opens.entryAt short names
    rw [List.getElem?_map, entryAt.located, Table.placeAt, entryAt.partition, entryAt.number]
    rfl

/-- The places of a log increase. -/
theorem sorted_places (opens : Opens build builder places table) :
    (build.log.sorted.map Committed.place).Pairwise (· < ·) :=
  List.pairwise_map.mpr (places_of_stages opens.built.ordered opens.built.stages)

end Opens

/-! ### Reading an address -/

namespace Table

variable {table : Table}

/-- A narrow address reads as the number of its field. -/
theorem addressValue_eq (valid : table.Valid) (narrow : table.narrowAddress = true) {s i : Nat}
    (inside : s < table.dirCount) (below : i < table.countAt s) :
    table.addressValue s i = table.recordNumber s i := by
  have inField := (valid.slot inside).inField
  have width := narrow_width valid narrow
  have size := storedBytes_length valid inside below
  have whole := recordNumber_narrow valid narrow inside below
  have bound : table.recordNumber s i < 2 ^ 64 := by
    rw [recordNumber, if_pos narrow]
    exact leNat_lt_64 valid narrow (fullAddress_length valid inside below)
  unfold addressValue
  by_cases past : 8 ≤ (table.entry s).addressSkip
  · have empty : table.storedBytes s i = [] := List.eq_nil_of_length_eq_zero (by omega)
    rw [if_pos past, whole, empty, leNat, Nat.zero_mul]
  · rw [if_neg past, Nat.shiftLeft_eq, ← pow_256, ← whole, Nat.mod_eq_of_lt bound]

end Table

end Mmpack
