/-
This file is about addresses given as spans of bytes. The builder orders them by their
bytes; the reader compares addresses of up to eight bytes as little-endian integers. The
two orders are compared here: where they agree on the records of a build the image is
in the reader's order and every record is found under its own address, and where they
do not, it is not.
-/

import Mmpack.Maps

namespace Mmpack

open ByteList Checked Cursor SortedMap

/-- No two records of one partition compare one way from the first byte of their addresses and
the other way from the last. -/
def Log.OrdersAgree (log : Log) : Prop :=
  ∀ first ∈ log.committed, ∀ second ∈ log.committed, first.partition = second.partition →
    first.addressBytes < second.addressBytes →
      first.addressBytes.reverse < second.addressBytes.reverse

/-- Two addresses in the order in which the reader searches. -/
def Table.Precedes (table : Table) (first second : List UInt8) : Prop :=
  if table.narrowAddress = true then leNat first < leNat second else first < second

/-- One byte is ordered the same from either end. -/
theorem reverse_lt_of_one {first second : List UInt8} (length : first.length = 1)
    (length' : second.length = 1) (less : first < second) : first.reverse < second.reverse := by
  obtain ⟨byte, rfl⟩ := List.length_eq_one_iff.mp length
  obtain ⟨byte', rfl⟩ := List.length_eq_one_iff.mp length'
  exact less

namespace Opens

variable {build : Build} {builder : Builder} {places : Places} {table : Table} {width : Nat}

/-- A record of a byte address has no integer one. -/
theorem address_eq_zero (opens : Opens build builder places table) {entry : Committed}
    (member : entry ∈ build.log.committed) (nonempty : entry.addressBytes ≠ []) :
    entry.address = 0 := by
  have shaped := opens.built.entry_shaped member
  split at shaped
  · exact shaped.1
  · exact absurd shaped nonempty

/-- Records of one partition are placed by their bytes, read from either end. -/
theorem placeBy_lt_iff (opens : Opens build builder places table) (positive : 0 < width)
    (widths : ∀ entry ∈ build.log.committed, entry.addressBytes.length = width)
    {first second : Committed} (inLog : first ∈ build.log.committed)
    (inLog' : second ∈ build.log.committed) (same : first.partition = second.partition)
    (narrow : Bool) : first.placeBy narrow < second.placeBy narrow ↔
      if narrow = true then leNat first.addressBytes < leNat second.addressBytes
      else first.addressBytes < second.addressBytes := by
  have lengths := (widths first inLog).trans (widths second inLog').symm
  have nonempty {entry : Committed} (member : entry ∈ build.log.committed) :
      entry.addressBytes ≠ [] :=
    List.ne_nil_of_length_pos (by rw [widths entry member]; exact positive)
  rw [Committed.placeBy, Committed.placeBy, same, Committed.number, Committed.number,
    opens.address_eq_zero inLog (nonempty inLog), opens.address_eq_zero inLog' (nonempty inLog'),
    Prod.Lex.toLex_lt_toLex]
  simp only [Nat.lt_irrefl, false_or, true_and]
  cases narrow with
  | true => simp
  | false => simp [lt_iff_beNat_lt lengths]

/-- A record of the log, read through its iterator. -/
theorem read_span (opens : Opens build builder places table) (positive : 0 < width)
    (small : width < 2 ^ 8)
    (widths : ∀ entry ∈ build.log.committed, entry.addressBytes.length = width) {n : Nat}
    {entry : Committed} (located : build.log.sorted[n]? = some entry) :
    ∃ it, table.nth n = .ok it ∧ table.addressWidth = width ∧
      table.partition it = .ok entry.partition.toNat ∧ ∀ out, out.length = width →
        table.addressInto it out = .ok (some entry.addressBytes) := by
  obtain ⟨it, runs, names, -, entryAt⟩ := opens.record
    (fun entry member => by rw [widths entry member]; exact small) located
  have member := Log.mem_sorted.mp (List.mem_of_getElem? located)
  have tableWidth := opens.width_of_bytes positive small widths names
  have nonempty : entry.addressBytes ≠ [] :=
    List.ne_nil_of_length_pos (by rw [widths entry member]; exact positive)
  refine ⟨it, runs, tableWidth, (Table.partition_eq opens.valid names).trans
    (congrArg _ entryAt.partition), fun out length => ?_⟩
  rw [Table.addressInto_eq opens.valid names, if_neg (not_not.mpr (length.trans tableWidth.symm)),
    entryAt.field, Committed.addressField, if_neg nonempty]

/-- Where the reader's places increase, every record is found under its own address. -/
theorem find_own (opens : Opens build builder places table) (positive : 0 < width)
    (small : width < 2 ^ 8)
    (widths : ∀ entry ∈ build.log.committed, entry.addressBytes.length = width)
    (ordered : (build.log.sorted.map (Committed.placeBy table.narrowAddress)).Pairwise (· < ·))
    {n : Nat} {entry : Committed} (located : build.log.sorted[n]? = some entry) :
    table.lookup .find (.bytes entry.partition entry.addressBytes) = table.nth n := by
  have member := Log.mem_sorted.mp (List.mem_of_getElem? located)
  have length := widths entry member
  have zero := opens.address_eq_zero member (List.ne_nil_of_length_pos (by omega))
  have short (entry : Committed) (member : entry ∈ build.log.committed) :
      entry.addressBytes.length < 2 ^ 8 := by
    rw [widths entry member]
    exact small
  obtain ⟨it, -, names, -, -⟩ := opens.record short located
  have tableWidth := opens.width_of_bytes positive small widths names
  have suits : table.Suits
      (if table.narrowAddress = true then .narrow (leNat entry.addressBytes)
        else .wide entry.addressBytes) := by
    split
    · rename_i narrow
      exact ⟨narrow, Table.leNat_lt_64 opens.valid narrow (length.trans tableWidth.symm)⟩
    · rename_i wide
      exact ⟨Bool.not_eq_true _ ▸ wide, length.trans tableWidth.symm⟩
  have number : (if table.narrowAddress = true then Probe.narrow (leNat entry.addressBytes)
      else .wide entry.addressBytes).number = entry.number table.narrowAddress := by
    rw [Committed.number, zero, show (0 : UInt64).toNat = 0 from rfl, Nat.zero_add]
    split <;> rfl
  obtain ⟨m, -, runs, answers⟩ := Table.position_answers opens.valid (opens.lists short) ordered
    suits .find entry.partition.toNat
  rw [Table.lookup_eq opens.valid, Table.targetPosition, if_pos (length.trans tableWidth.symm),
    ← runs]
  rw [number] at answers
  have here : (build.log.sorted.map (Committed.placeBy table.narrowAddress))[n]? =
      some (entry.placeBy table.narrowAddress) := by
    rw [List.getElem?_map, located]
    rfl
  obtain ⟨inside, place⟩ := List.getElem?_eq_some_iff.mp here
  cases found : (build.log.sorted.map (Committed.placeBy table.narrowAddress))[m]? with
  | none =>
    rw [found] at answers
    exact absurd rfl (answers _ (List.mem_of_getElem? here))
  | some key =>
    rw [found] at answers
    obtain ⟨below, same⟩ := List.getElem?_eq_some_iff.mp found
    have strict := List.pairwise_iff_getElem.mp ordered
    have equal := same.trans (answers.2.1.trans place.symm)
    rcases Nat.lt_trichotomy m n with lower | rfl | higher
    · exact absurd (strict m n below inside lower) (equal ▸ lt_irrefl _)
    · rfl
    · exact absurd (strict n m inside below higher) (equal ▸ lt_irrefl _)

/-! ### The two orders -/

/-- The records of every partition are in the order the reader searches by. -/
def InOrder (build : Build) (table : Table) : Prop :=
  ∀ (i j : Nat) (first second : Committed), i < j → build.log.sorted[i]? = some first →
    build.log.sorted[j]? = some second → first.partition = second.partition →
      table.Precedes first.addressBytes second.addressBytes

/-- The records of a log are in the builder's order. -/
theorem entries_ordered (opens : Opens build builder places table) :
    build.log.sorted.Pairwise fun first second => first.place < second.place :=
  List.pairwise_map.mp opens.sorted_places

theorem placeBy_sorted (opens : Opens build builder places table) (positive : 0 < width)
    (widths : ∀ entry ∈ build.log.committed, entry.addressBytes.length = width)
    (inOrder : InOrder build table) :
    (build.log.sorted.map (Committed.placeBy table.narrowAddress)).Pairwise (· < ·) := by
  refine List.pairwise_map.mpr (List.pairwise_iff_getElem.mpr fun i j inside inside' before => ?_)
  have inLog := Log.mem_sorted.mp (List.getElem_mem inside)
  have inLog' := Log.mem_sorted.mp (List.getElem_mem inside')
  have place := List.pairwise_iff_getElem.mp opens.entries_ordered i j inside inside' before
  rcases Prod.Lex.toLex_lt_toLex.mp place with lower | ⟨same, -⟩
  · exact Prod.Lex.toLex_lt_toLex.mpr (Or.inl lower)
  · have partition := UInt64.toNat_inj.mp same
    exact (opens.placeBy_lt_iff positive widths inLog inLog' partition _).mpr
      (inOrder i j _ _ before (List.getElem?_eq_getElem inside)
        (List.getElem?_eq_getElem inside') partition)

/-- The builder's order is the reader's at one byte, at more than eight, and where the two agree
on the records given. -/
theorem inOrder_iff (opens : Opens build builder places table) (positive : 0 < width)
    (widths : ∀ entry ∈ build.log.committed, entry.addressBytes.length = width)
    (tableWidth : build.log.sorted ≠ [] → table.addressWidth = width) :
    InOrder build table ↔ (width = 1 ∨ 9 ≤ width) ∨ build.log.OrdersAgree := by
  have narrow (nonempty : build.log.sorted ≠ []) : table.narrowAddress = decide (width ≤ 8) := by
    rw [← tableWidth nonempty, opens.valid.addressWidth_eq]
    rfl
  have ordered := List.pairwise_iff_getElem.mp opens.entries_ordered
  have bytes {first second : Committed} (inLog : first ∈ build.log.committed)
      (inLog' : second ∈ build.log.committed) (same : first.partition = second.partition) :
      first.place < second.place ↔ first.addressBytes < second.addressBytes :=
    opens.placeBy_lt_iff positive widths inLog inLog' same false
  constructor
  · intro inOrder
    by_cases plain : width = 1 ∨ 9 ≤ width
    · exact Or.inl plain
    · refine Or.inr fun first inLog second inLog' same less => ?_
      obtain ⟨i, inside, rfl⟩ := List.getElem_of_mem (Log.mem_sorted.mpr inLog)
      obtain ⟨j, inside', rfl⟩ := List.getElem_of_mem (Log.mem_sorted.mpr inLog')
      have place := (bytes inLog inLog' same).mpr less
      have before : i < j := by
        rcases Nat.lt_trichotomy i j with before | rfl | after
        · exact before
        · exact absurd place (lt_irrefl _)
        · exact absurd (ordered j i inside' inside after) (lt_asymm place)
      have precedes := inOrder i j _ _ before (List.getElem?_eq_getElem inside)
        (List.getElem?_eq_getElem inside') same
      rw [Table.Precedes, narrow (List.ne_nil_of_length_pos (by omega)),
        if_pos (decide_eq_true (by omega))] at precedes
      exact (reverse_lt_iff_leNat_lt ((widths _ inLog).trans (widths _ inLog').symm)).mpr precedes
  · intro agree i j first second before located located' same
    obtain ⟨inside, rfl⟩ := List.getElem?_eq_some_iff.mp located
    obtain ⟨inside', rfl⟩ := List.getElem?_eq_some_iff.mp located'
    have inLog := Log.mem_sorted.mp (List.getElem_mem inside)
    have inLog' := Log.mem_sorted.mp (List.getElem_mem inside')
    have lengths := (widths _ inLog).trans (widths _ inLog').symm
    have less := (bytes inLog inLog' same).mp (ordered i j inside inside' before)
    rw [Table.Precedes, narrow (List.ne_nil_of_length_pos (by omega))]
    simp only [decide_eq_true_eq]
    split
    · rw [← reverse_lt_iff_leNat_lt lengths]
      rcases agree with (one | wide) | agree
      · exact reverse_lt_of_one ((widths _ inLog).trans one) ((widths _ inLog').trans one) less
      · omega
      · exact agree _ inLog _ inLog' same less
    · exact less

end Opens

section SpanOrder

variable (build : Build) {report : BuildReport} {image : Image} {table : Table}

/-- The records of every partition of an image are in the order the reader searches by, and every
record is found under its own address. -/
structure Build.SpansOrdered (build : Build) (table : Table) (width : Nat) : Prop where
  increasing : ∀ i j first second, i < j → j < build.log.sorted.length →
    table.nth i = .ok first → table.nth j = .ok second →
    table.partition first = table.partition second → ∀ out, out.length = width →
      ∃ address address', table.addressInto first out = .ok (some address) ∧
        table.addressInto second out = .ok (some address') ∧ table.Precedes address address'
  found : ∀ n entry, build.log.sorted[n]? = some entry →
    table.lookup .find (.bytes entry.partition entry.addressBytes) = table.nth n

/-- They are exactly when the spans are of one byte or of more than eight, or the records given are
in one order from the first byte and from the last. -/
theorem Build.spans_ordered_iff (returned : build.finished.outcome = .ok report)
    (same : image.bytes = build.finished.image)
    (opened : Table.tryOpen (some image) = pure table) {width : Nat} (positive : 1 ≤ width)
    (small : width ≤ 255)
    (widths : ∀ entry ∈ build.log.committed, entry.addressBytes.length = width) :
    build.SpansOrdered table width ↔ (width = 1 ∨ 9 ≤ width) ∨ build.log.OrdersAgree := by
  obtain ⟨places, opens⟩ := build.opens returned same opened
  have below : width < 2 ^ 8 := Nat.lt_succ_of_le small
  have tableWidth (nonempty : build.log.sorted ≠ []) : table.addressWidth = width := by
    obtain ⟨it, names⟩ := opens.exists_record nonempty
    exact opens.width_of_bytes positive below widths names
  rw [← opens.inOrder_iff positive widths tableWidth]
  constructor
  · rintro ⟨increasing, -⟩ i j first second before located located' samePartition
    obtain ⟨it, runs, -, partition, span⟩ := opens.read_span positive below widths located
    obtain ⟨it', runs', -, partition', span'⟩ := opens.read_span positive below widths located'
    have inside := (List.getElem?_eq_some_iff.mp located').1
    obtain ⟨address, address', reads, reads', precedes⟩ :=
      increasing i j it it' before inside runs runs'
        (by rw [partition, partition', samePartition]) (List.replicate width 0)
        List.length_replicate
    rw [span _ List.length_replicate] at reads
    rw [span' _ List.length_replicate] at reads'
    rwa [Option.some.inj (Except.ok.inj reads), Option.some.inj (Except.ok.inj reads')]
  · intro inOrder
    refine ⟨fun i j it it' before inside runs runs' samePartition out length => ?_,
      fun n entry located => opens.find_own positive below widths
        (opens.placeBy_sorted positive widths inOrder) located⟩
    have located := List.getElem?_eq_getElem (Nat.lt_trans before inside)
    have located' := List.getElem?_eq_getElem inside
    obtain ⟨first, atFirst, -, partition, span⟩ := opens.read_span positive below widths located
    obtain ⟨second, atSecond, -, partition', span'⟩ :=
      opens.read_span positive below widths located'
    obtain rfl := Except.ok.inj (atFirst.symm.trans runs)
    obtain rfl := Except.ok.inj (atSecond.symm.trans runs')
    rw [partition, partition'] at samePartition
    exact ⟨_, _, span out length, span' out length, inOrder i j _ _ before located located'
      (UInt64.toNat_inj.mp (Except.ok.inj samePartition))⟩

/-- Two addresses of two bytes that are in one order from either end. -/
def orderedSample : Build :=
  Build.of sampleSchema .default
    [.beginRecordAtBytes 0 [0, 2], .commit 0, .beginRecordAtBytes 0 [1, 3], .commit 1]
    sampleSchema_fields BuildOptions.default_addressBits (by decide) (by decide)

def orderedImage : Image := ⟨orderedSample.finished.image, by decide +kernel⟩

theorem sample_spans_ordered : ∃ table, Table.tryOpen (some orderedImage) = pure table ∧
    orderedSample.SpansOrdered table 2 := by
  obtain ⟨report, returned⟩ := orderedSample.exists_report (by decide +kernel)
  obtain ⟨table, opened, -⟩ : ∃ table, Table.tryOpen (some orderedImage) = pure table ∧
    true = true := exists_of_acceptsWith (by decide +kernel)
  have widths : ∀ entry ∈ orderedSample.log.committed, entry.addressBytes.length = 2 := by
    decide +kernel
  have agree : orderedSample.log.OrdersAgree := by
    unfold Log.OrdersAgree
    decide +kernel
  have ordered := orderedSample.spans_ordered_iff returned rfl opened (by decide) (by decide)
    widths
  exact ⟨table, opened, ordered.mpr (Or.inr agree)⟩

/-- Two addresses of two bytes whose order depends on the end they are read from. -/
def spanSample : Build :=
  Build.of sampleSchema .default
    [.beginRecordAtBytes 0 [0, 2], .commit 0, .beginRecordAtBytes 0 [1, 1], .commit 1]
    sampleSchema_fields BuildOptions.default_addressBits (by decide) (by decide)

def spanImage : Image := ⟨spanSample.finished.image, by decide +kernel⟩

/-- The builder takes them in order, and the reader does not find the first. -/
theorem sample_spans_disordered : ∃ table, Table.tryOpen (some spanImage) = pure table ∧
    ¬ spanSample.SpansOrdered table 2 := by
  obtain ⟨table, opened, missed⟩ : ∃ table, Table.tryOpen (some spanImage) = pure table ∧
      decide (table.lookup .find (.bytes 0 [0, 2]) ≠ table.nth 0) = true :=
    exists_of_acceptsWith (by decide +kernel)
  refine ⟨table, opened, fun ordered => of_decide_eq_true missed ?_⟩
  exact ordered.found 0 ⟨0, 0, [0, 2], []⟩ (by decide +kernel)

end SpanOrder

end Mmpack
