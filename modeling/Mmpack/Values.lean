/-
This file is about the values of an opened table. A field that was set on a record
reads back the value set last, whatever the layout; a field that was not set reads
back zero exactly when zero fits the range the field was stored in.
-/

import Mmpack.Maps
import Mmpack.Contents

namespace Mmpack

open ByteList Checked Cursor

namespace Table

variable {table : Table}

/-- A field reads as a value through an iterator, by the reader of its kind. -/
def Reads (table : Table) (it : Position) (id : Nat) : Builder.FieldValue → Prop
  | .uint value => table.uint it id = .ok (some value)
  | .sint value => table.sint it id = .ok (some value)
  | .f32 bits => table.f32 it id = .ok (some bits)
  | .f64 bits => table.f64 it id = .ok (some bits)
  | .text value => table.text it id = .ok (some value)
  | .bytes value => table.bytes it id = .ok (some value)

theorem sint_eq (valid : table.Valid) {it : Position}
    (names : Names table.countAt table.dirCount it) (id : Nat) :
    table.sint it id =
      .ok ((table.scalarAt (table.tupleBase it.slot it.index) id .sint).map UInt64.toInt64) := by
  rw [sint, readScalar_eq valid names]
  rfl

theorem f32_eq (valid : table.Valid) {it : Position}
    (names : Names table.countAt table.dirCount it) (id : Nat) :
    table.f32 it id =
      .ok ((table.scalarAt (table.tupleBase it.slot it.index) id .f32).map UInt64.toUInt32) := by
  rw [f32, readScalar_eq valid names]
  rfl

end Table

/-- The value of a field never set. A text field has none. -/
def FieldDecl.zero (decl : FieldDecl) : Builder.FieldValue :=
  match decl.kind with
  | .uint => .uint 0
  | .sint => .sint 0
  | .f32 => .f32 0
  | .f64 => .f64 0
  | .text => .text []
  | .bytes => .bytes (List.replicate decl.fixedWidth 0)

/-- A field never set keeps zero. -/
theorem FieldDecl.keeps_zero (decl : FieldDecl) (notText : decl.kind ≠ .text) (builder : Builder)
    (i : Nat) : builder.Keeps i decl decl.zero 0 := by
  unfold zero
  cases kind : decl.kind with
  | uint | sint | f32 | f64 => exact ⟨kind, rfl⟩
  | text => exact absurd kind notText
  | bytes => exact ⟨kind, List.length_replicate, by rw [leNat_replicate_zero]; rfl⟩

/-- Zero lies less than the range of a field above the least value set for it. -/
def ZeroFits (kind : FieldKind) (values : List UInt64) : Prop :=
  kind = .uint ∨ kind = .sint → ∀ least ∈ values, ∀ most ∈ values,
    (∀ value ∈ values, kind.rank least ≤ kind.rank value ∧ kind.rank value ≤ kind.rank most) →
      (0 - least).toNat < 256 ^ widthFor (most - least).toNat

/-! ### Zero -/

section Zero

variable {build : Build} {builder : Builder} {i : Nat} {decl : FieldDecl}

/-- The bias and the width of an integer field. -/
theorem fieldShape_integer (builder : Builder) (i : Nat)
    (integer : decl.kind = .uint ∨ decl.kind = .sint) :
    (fieldShape builder i decl).bias = (builder.statsAt i).range.1.toNat ∧
      (fieldShape builder i decl).width =
        widthFor ((builder.statsAt i).range.2 - (builder.statsAt i).range.1).toNat := by
  unfold fieldShape shapeField
  rcases integer with kind | kind <;> rw [kind] <;> exact ⟨rfl, rfl⟩

/-- An unset field reads back zero exactly when zero fits its range. -/
theorem Built.readBack_zero (built : Built build builder)
    (declared : builder.schema.fields[i]? = some decl) :
    (fieldShape builder i decl).readBack 0 = 0 ↔
      ZeroFits decl.kind (observedAt build.log.observed i) := by
  rw [readBack_zero_iff]
  by_cases integer : decl.kind = .uint ∨ decl.kind = .sint
  · obtain ⟨bias, width⟩ := fieldShape_integer builder i integer
    have spans := built.stats i decl declared
    rw [bias, width, UInt64.ofNat_toNat, ZeroFits, forall_prop_of_true integer]
    by_cases none : observedAt build.log.observed i = []
    · have unseen : (builder.statsAt i).seen = false := by
        rw [← Bool.not_eq_true, spans.seen, not_not]
        exact none
      rw [FieldStats.range, unseen, if_neg Bool.false_ne_true, none]
      exact iff_of_true (by decide) fun least member => nomatch member
    · have range : (builder.statsAt i).range =
          ((builder.statsAt i).min, (builder.statsAt i).max) := if_pos (spans.seen.mpr none)
      rw [range]
      obtain ⟨inLeast, least⟩ := spans.min none
      obtain ⟨inMost, most⟩ := spans.max none
      constructor
      · intro fits low inLow high inHigh bounds
        have sameLow : low = (builder.statsAt i).min := decl.kind.rank_injective
          (le_antisymm (bounds _ inLeast).1 (least low inLow))
        have sameHigh : high = (builder.statsAt i).max := decl.kind.rank_injective
          (le_antisymm (most high inHigh) (bounds _ inMost).2)
        rw [sameLow, sameHigh]
        exact fits
      · intro fits
        exact fits _ inLeast _ inMost fun value member => ⟨least value member, most value member⟩
  · obtain ⟨notUint, notSint⟩ := not_or.mp integer
    rw [fieldShape_bias ⟨notUint, notSint⟩]
    exact iff_of_true (Nat.pow_pos (by decide)) fun other => absurd other integer

end Zero

namespace Opens

variable {build : Build} {builder : Builder} {places : Places} {table : Table} {it : Position}
  {i : Nat} {decl : FieldDecl}

/-! ### Text -/

/-- The dictionary of a text field is the one at its own place cut to 16 bits. -/
theorem text_dictionary_cut (opens : Opens build builder places table)
    (declared : builder.schema.fields[i]? = some decl) (isText : decl.kind = .text) :
    ∃ view, table.blobDicts[(table.schema.descAt table.region i).dictIndex]? = some view ∧
      ∀ id, view.text table.region id = .ok (builder.textDicts.getD
        (Builder.textSlot builder.schema i % 2 ^ 16) .empty).order[id]? := by
  obtain ⟨place, -, -, desc⟩ := opens.descAt declared
  have inDicts : Builder.textSlot builder.schema i % 2 ^ 16 < builder.textDicts.length :=
    lt_of_le_of_lt (Nat.mod_le _ _) (Builder.textSlot_lt opens.built.dictCount declared isText)
  have index : (table.schema.descAt table.region i).dictIndex =
      Builder.textSlot builder.schema i % 2 ^ 16 := by
    have shape : (fieldShape builder i decl).dictIndex =
        Builder.textSlot builder.schema i % 2 ^ 16 := by
      unfold fieldShape shapeField
      rw [isText]
    rw [desc]
    exact shape
  have kind : (table.schema.descAt table.region i).kind = FieldKind.text.code := by
    rw [desc, ← isText]
    exact fieldShape_kind builder i decl
  have inside := opens.inside_fieldCount declared
  have inTable := (opens.valid.schema.field i inside).dictIndex kind
  obtain ⟨-, -, blob⟩ := opens.valid.dictionaries _ inTable
  obtain ⟨view, found, opened⟩ := blob fun both => opens.valid.texts i inside kind both.1 both.2
  refine ⟨view, found, fun id => ?_⟩
  rw [index] at opened
  obtain ⟨entry, located, written⟩ := opens.written.text _ inDicts
  have short : table.region.length < 2 ^ 64 := table.image.length_lt
  have within := opens.written.records.within
  have finish := written.finish
  have size := written.size
  have e := opens.dictAt located (by omega) (by omega)
  have dict : builder.textDicts.getD (Builder.textSlot builder.schema i % 2 ^ 16) .empty =
      builder.textDicts[Builder.textSlot builder.schema i % 2 ^ 16] := by
    rw [List.getD_eq_getElem?_getD, List.getElem?_eq_getElem inDicts]
    rfl
  rw [e, BlobDictionaryBuilder.open_of_holds written.holds (Nat.le_of_eq size.symm)] at opened
  have same := Except.ok.inj (Except.ok.inj opened)
  rw [BlobDictionaryView.text, ← same, BlobDictionaryBuilder.bytes_of_holds written.holds, dict]

/-- The dictionary of a text field is its own, when the index of it fits its field. -/
theorem text_dictionary (opens : Opens build builder places table)
    (texts : build.schema.fields.countP (·.kind = .text) ≤ 2 ^ 16)
    (declared : builder.schema.fields[i]? = some decl) (isText : decl.kind = .text) :
    ∃ view, table.blobDicts[(table.schema.descAt table.region i).dictIndex]? = some view ∧
      ∀ id, view.text table.region id = .ok (builder.dictOf i).order[id]? := by
  have inDicts := Builder.textSlot_lt opens.built.dictCount declared isText
  have few := opens.built.dictCount
  rw [opens.built.schema] at few
  have whole : Builder.textSlot builder.schema i % 2 ^ 16 = Builder.textSlot builder.schema i :=
    Nat.mod_eq_of_lt (by omega)
  have cut := opens.text_dictionary_cut declared isText
  rwa [whole] at cut

/-! ### Reading back -/

/-- Bytes are read as they were stored. -/
theorem bytes_kind (opens : Opens build builder places table)
    (names : Names table.countAt table.dirCount it) {piece : Piece} {row : StagedRow}
    (rowAt : RowAt builder table it piece row) {values : List UInt64}
    (found : builder.tuples[row.tuple]? = some values)
    (count : values.length = builder.schema.fields.length)
    (declared : builder.schema.fields[i]? = some decl) {raw : UInt64}
    (stored : values[i]? = some raw) : table.bytes it i =
      .ok (if decl.kind = .bytes then some (leBytes (fieldShape builder i decl).width
        (raw - UInt64.ofNat (fieldShape builder i decl).bias).toNat) else none) := by
  obtain ⟨base, place, atBase, desc, slice⟩ := opens.field_slice rowAt found count declared stored
  have kind : (writtenDesc builder i decl place).kind = decl.kind.code :=
    fieldShape_kind builder i decl
  rw [Table.bytes_eq opens.valid names, Table.bytesAt,
    if_neg (Nat.not_le.mpr (opens.inside_fieldCount declared)), desc, kind, atBase]
  refine congrArg Except.ok ?_
  by_cases isBytes : decl.kind = .bytes
  · rw [if_pos isBytes, isBytes, if_neg (not_not.mpr rfl)]
    exact congrArg some slice
  · rw [if_neg isBytes, if_pos fun same => isBytes (FieldKind.code_injective same)]

/-- Bytes are stored as they are. -/
theorem leBytes_of_keeps (declared : builder.schema.fields[i]? = some decl) {bytes : List UInt8}
    {raw : UInt64} (keeps : builder.Keeps i decl (.bytes bytes) raw) :
    leBytes (fieldShape builder i decl).width
      (raw - UInt64.ofNat (fieldShape builder i decl).bias).toNat = bytes := by
  obtain ⟨kind, length, rfl⟩ := keeps
  have width : (fieldShape builder i decl).width = bytes.length := by
    unfold fieldShape shapeField
    rw [kind, length]
  have narrow := fieldShape_width_le declared
  have small : leNat bytes < 2 ^ 64 := by
    have bound := leNat_lt bytes
    have power : 256 ^ bytes.length ≤ 256 ^ 8 := Nat.pow_le_pow_right (by decide) (by omega)
    omega
  rw [width, fieldShape_bias (by simp [kind]), show UInt64.ofNat 0 = 0 from rfl, UInt64.sub_zero,
    UInt64.toNat_ofNat', Nat.mod_eq_of_lt small, leBytes_leNat]

/-- A value the tuple of a record keeps reads back, where the field reads back its raw value. -/
theorem reads_of_keeps (opens : Opens build builder places table)
    (texts : decl.kind = .text → build.schema.fields.countP (·.kind = .text) ≤ 2 ^ 16)
    (names : Names table.countAt table.dirCount it) {piece : Piece} {row : StagedRow}
    (rowAt : RowAt builder table it piece row) {values : List UInt64}
    (found : builder.tuples[row.tuple]? = some values)
    (count : values.length = builder.schema.fields.length)
    (declared : builder.schema.fields[i]? = some decl) {raw : UInt64}
    (stored : values[i]? = some raw) {value : Builder.FieldValue}
    (keeps : builder.Keeps i decl value raw)
    (whole : (fieldShape builder i decl).readBack raw = raw) : table.Reads it i value := by
  have scalar := opens.scalarAt_eq rowAt found count declared stored
  rw [whole] at scalar
  cases value with
  | uint v =>
    obtain ⟨kind, rfl⟩ := keeps
    rw [kind] at scalar
    rw [Table.Reads, Table.uint, Table.readScalar_eq opens.valid names, scalar]
  | sint v =>
    obtain ⟨kind, rfl⟩ := keeps
    rw [kind] at scalar
    rw [Table.Reads, Table.sint_eq opens.valid names, scalar]
    rfl
  | f32 bits =>
    obtain ⟨kind, rfl⟩ := keeps
    rw [kind] at scalar
    rw [Table.Reads, Table.f32_eq opens.valid names, scalar, Option.map_some,
      UInt32.toUInt32_toUInt64]
  | f64 bits =>
    obtain ⟨kind, rfl⟩ := keeps
    rw [kind] at scalar
    rw [Table.Reads, Table.f64, Table.readScalar_eq opens.valid names, scalar]
  | text v =>
    obtain ⟨kind, entry⟩ := keeps
    rw [kind] at scalar
    obtain ⟨view, located, reads⟩ := opens.text_dictionary (texts kind) declared kind
    rw [Table.Reads, Table.text_eq opens.valid names scalar located, reads, entry]
  | bytes v =>
    rw [Table.Reads, opens.bytes_kind names rowAt found count declared stored, if_pos keeps.1,
      leBytes_of_keeps declared keeps]

/-- Zero reads back exactly when it fits the range of its field. -/
theorem reads_zero_iff (opens : Opens build builder places table)
    (names : Names table.countAt table.dirCount it) {piece : Piece} {row : StagedRow}
    (rowAt : RowAt builder table it piece row) {values : List UInt64}
    (found : builder.tuples[row.tuple]? = some values)
    (count : values.length = builder.schema.fields.length)
    (declared : builder.schema.fields[i]? = some decl) (notText : decl.kind ≠ .text)
    (stored : values[i]? = some 0) :
    table.Reads it i decl.zero ↔ ZeroFits decl.kind (observedAt build.log.observed i) := by
  have texts (isText : decl.kind = .text) :
      build.schema.fields.countP (·.kind = .text) ≤ 2 ^ 16 := absurd isText notText
  rw [← opens.built.readBack_zero declared]
  refine ⟨fun reads => ?_, opens.reads_of_keeps texts names rowAt found count declared stored
    (decl.keeps_zero notText builder i)⟩
  by_cases integer : decl.kind = .uint ∨ decl.kind = .sint
  · have scalar := opens.scalarAt_eq rowAt found count declared stored
    rcases integer with kind | kind
    · rw [FieldDecl.zero, kind, Table.Reads, Table.uint, Table.readScalar_eq opens.valid names,
        ← kind, scalar] at reads
      exact Option.some.inj (Except.ok.inj reads)
    · rw [FieldDecl.zero, kind, Table.Reads, Table.sint_eq opens.valid names, ← kind, scalar,
        Option.map_some] at reads
      exact congrArg Int64.toUInt64 (Option.some.inj (Except.ok.inj reads))
  · exact (opens.built.readBack_zero declared).mpr fun other => absurd other integer

/-- The tuple of a committed record. -/
theorem tuple_of_entry (opens : Opens build builder places table)
    (names : Names table.countAt table.dirCount it) {entry : Committed}
    (located : build.log.sorted[rank table.countAt it]? = some entry) :
    ∃ piece row values, RowAt builder table it piece row ∧
      builder.tuples[row.tuple]? = some values ∧ builder.Fills entry.sets values := by
  obtain ⟨piece, row, rowAt⟩ := opens.rowAt names
  obtain ⟨other, values, found, -, inTable, fills⟩ := tuple_of_row opens.built rowAt.located
  obtain rfl := Option.some.inj (located.symm.trans found)
  exact ⟨piece, row, values, rowAt, inTable, fills⟩

/-- What was set on a record reads back from it. -/
theorem reads_of_set (opens : Opens build builder places table)
    (texts : build.schema.fields.countP (·.kind = .text) ≤ 2 ^ 16)
    (names : Names table.countAt table.dirCount it) {entry : Committed}
    (located : build.log.sorted[rank table.countAt it]? = some entry)
    {value : Builder.FieldValue} (set : lastSet entry.sets i = some value) :
    table.Reads it i value := by
  obtain ⟨piece, row, values, rowAt, found, count, fills⟩ := opens.tuple_of_entry names located
  have observed := opens.built.observed entry (List.mem_of_getElem? located) _ (mem_of_lastSet set)
  have declared := List.getElem?_eq_getElem (opens.built.declared _ observed)
  have inValues : i < values.length := by
    rw [count]
    exact opens.built.declared _ observed
  have stored := List.getElem?_eq_getElem inValues
  have keeps := fills i _ _ declared stored
  rw [set] at keeps
  exact opens.reads_of_keeps (fun _ => texts) names rowAt found count declared stored keeps
    (opens.built.readBack_of_keeps declared keeps observed)

end Opens

/-! ### The values of a build -/

section Values

variable (build : Build) {report : BuildReport} {image : Image} {table : Table}

/-- Every field that was set on a committed record reads back, from the record at its place and
under its address, as the last value set. -/
theorem Build.values_round_trip (returned : build.finished.outcome = .ok report)
    (same : image.bytes = build.finished.image)
    (opened : Table.tryOpen (some image) = pure table)
    (texts : build.schema.fields.countP (·.kind = .text) ≤ 65536)
    (short : ∀ entry ∈ build.log.committed, entry.addressBytes.length ≤ 255) {n : Nat}
    {entry : Committed} (located : build.log.sorted[n]? = some entry) :
    ∃ it, table.nth n = .ok it ∧ table.partition it = .ok entry.partition.toNat ∧
      (∀ out, out.length = table.addressWidth →
        table.addressInto it out = .ok (some (entry.addressField table.addressWidth))) ∧
      ∀ id value, lastSet entry.sets id = some value → table.Reads it id value := by
  obtain ⟨places, opens⟩ := build.opens returned same opened
  obtain ⟨it, runs, names, atRank, entryAt⟩ :=
    opens.record (fun entry member => Nat.lt_succ_of_le (short entry member)) located
  refine ⟨it, runs, (Table.partition_eq opens.valid names).trans (congrArg _ entryAt.partition),
    fun out length => ?_, fun id value set => ?_⟩
  · rw [Table.addressInto_eq opens.valid names, if_neg (not_not.mpr length), entryAt.field]
  · exact opens.reads_of_set texts names entryAt.located set

theorem sample_values_round_trip : ∃ table, Table.tryOpen (some sampleImage) = pure table ∧
    ∃ it, table.nth 0 = .ok it ∧ table.Reads it 1 (.text [0x61, 0x62]) := by
  obtain ⟨report, returned⟩ := sampleBuild.exists_report (by decide +kernel)
  obtain ⟨table, opened, -⟩ : ∃ table, Table.tryOpen (some sampleImage) = pure table ∧
    true = true := exists_of_acceptsWith (by decide +kernel)
  have located : sampleBuild.log.sorted[0]? =
      some ⟨0, 5, [], [(0, .uint 7), (1, .text [0x61, 0x62])]⟩ := by decide +kernel
  obtain ⟨it, runs, -, -, reads⟩ := sampleBuild.values_round_trip returned rfl opened (by decide)
    (by decide +kernel) located
  exact ⟨table, opened, it, runs, reads 1 _ (by decide)⟩

/-- A field other than a text that was not set on a committed record reads back zero exactly when
zero fits the range of the values set for it on any record. -/
theorem Build.unset_reads_zero_iff (returned : build.finished.outcome = .ok report)
    (same : image.bytes = build.finished.image)
    (opened : Table.tryOpen (some image) = pure table) {n : Nat} {entry : Committed}
    (located : build.log.sorted[n]? = some entry) {id : Nat} {decl : FieldDecl}
    (declared : build.schema.fields[id]? = some decl) (notText : decl.kind ≠ .text)
    (unset : lastSet entry.sets id = none) :
    (∃ it, table.nth n = .ok it ∧ table.Reads it id decl.zero) ↔
      ZeroFits decl.kind (observedAt build.log.observed id) := by
  obtain ⟨places, opens⟩ := build.opens returned same opened
  have inside := (List.getElem?_eq_some_iff.mp located).1
  rw [opens.sorted_length] at inside
  obtain ⟨it, runs, names, atRank⟩ := Table.nth_names opens.valid inside
  obtain ⟨piece, row, values, rowAt, found, count, fills⟩ :=
    opens.tuple_of_entry names (atRank ▸ located)
  rw [← opens.built.schema] at declared
  have inValues : id < values.length := by
    rw [count]
    exact (List.getElem?_eq_some_iff.mp declared).1
  have stored := List.getElem?_eq_getElem inValues
  have zero := fills id _ _ declared stored
  rw [unset] at zero
  rw [zero] at stored
  rw [← opens.reads_zero_iff names rowAt found count declared notText stored]
  exact ⟨fun ⟨_, runs', reads⟩ => Except.ok.inj (runs.symm.trans runs') ▸ reads,
    fun reads => ⟨it, runs, reads⟩⟩

def signedSchema : SchemaBuilder where
  fields := [⟨[0x76], .sint, 0⟩]
  named := by decide
  distinct := by decide
  declared := by simp [FieldKind.Declares]
  length_lt := by decide

/-- A field set to minus three on the first record and not at all on the second. -/
def signedSample : Build :=
  Build.of signedSchema .default
    [.beginRecord 1, .set 0 0 (.sint (-3)), .commit 0, .beginRecord 2, .commit 1]
    (by decide) BuildOptions.default_addressBits (by decide) (by decide)

def signedImage : Image := ⟨signedSample.finished.image, by decide +kernel⟩

/-- Zero is three above the least value, and fits the byte stored. -/
theorem sample_unset_reads_zero : ∃ table, Table.tryOpen (some signedImage) = pure table ∧
    ∃ it, table.nth 1 = .ok it ∧ table.Reads it 0 (.sint 0) := by
  obtain ⟨report, returned⟩ := signedSample.exists_report (by decide +kernel)
  obtain ⟨table, opened, -⟩ : ∃ table, Table.tryOpen (some signedImage) = pure table ∧
    true = true := exists_of_acceptsWith (by decide +kernel)
  have located : signedSample.log.sorted[1]? = some ⟨0, 2, [], []⟩ := by decide +kernel
  have values : observedAt signedSample.log.observed 0 = [-3] := by decide +kernel
  have declared : signedSample.schema.fields[0]? = some ⟨[0x76], .sint, 0⟩ := by decide +kernel
  have fits : ZeroFits .sint [-3] := by
    intro _ least member most member' _
    rw [List.mem_singleton.mp member, List.mem_singleton.mp member']
    decide
  have reads := signedSample.unset_reads_zero_iff returned rfl opened located declared
    (by decide) rfl
  rw [values] at reads
  exact ⟨table, opened, reads.mpr fits⟩

/-- A field set to five on the first record and not at all on the second. -/
def unsetSample : Build :=
  Build.of sampleSchema .default
    [.beginRecord 1, .set 0 0 (.uint 5), .commit 0, .beginRecord 2, .commit 1]
    sampleSchema_fields BuildOptions.default_addressBits (by decide) (by decide)

def unsetImage : Image := ⟨unsetSample.finished.image, by decide +kernel⟩

/-- It reads as 256 there: the least value set, less one, carried into the byte stored. -/
theorem sample_unset_reads_other : ∃ table, Table.tryOpen (some unsetImage) = pure table ∧
    unsetSample.log.sorted[1]? = some ⟨0, 2, [], []⟩ ∧
      ¬ ∃ it, table.nth 1 = .ok it ∧ table.Reads it 0 (.uint 0) := by
  obtain ⟨table, opened, reads⟩ : ∃ table, Table.tryOpen (some unsetImage) = pure table ∧
      (match table.nth 1 with
        | .ok it => decide (table.uint it 0 = .ok (some 256))
        | .error _ => false) = true :=
    exists_of_acceptsWith (by decide +kernel)
  refine ⟨table, opened, by decide +kernel, fun ⟨it, runs, zero⟩ => ?_⟩
  rw [runs] at reads
  have other := (of_decide_eq_true reads).symm.trans zero
  nomatch other

end Values

end Mmpack
