/-
This file is about a schema of more than 65536 text fields. The index of a dictionary
is stored in 16 bits, so the fields past the first 65536 are read in the dictionaries of
other fields. One record with two texts shows it: `finish` returns, the image is
accepted, and the second text reads as the first.
-/

import Mmpack.Caught
import Mmpack.Lengths

namespace Mmpack

open ByteList Emitter Cursor

/-! ### Texts in the dictionaries of other fields -/

namespace Opens

variable {build : Build} {builder : Builder} {places : Places} {table : Table} {i : Nat}
  {decl : FieldDecl} {entry : Committed}

/-- A text that is read is in the dictionary at the field's place cut to 16 bits. -/
theorem text_of_dictionary (opens : Opens build builder places table) {it : Position}
    (names : Names table.countAt table.dirCount it)
    (located : build.log.sorted[rank table.countAt it]? = some entry)
    (declared : builder.schema.fields[i]? = some decl) (isText : decl.kind = .text)
    {text : List UInt8} (reads : table.text it i = .ok (some text)) :
    text ∈ (builder.textDicts.getD (Builder.textSlot builder.schema i % 2 ^ 16) .empty).order := by
  obtain ⟨piece, row, values, rowAt, found, count, -⟩ := opens.tuple_of_entry names located
  have inValues : i < values.length := by
    rw [count]
    exact (List.getElem?_eq_some_iff.mp declared).1
  have stored := List.getElem?_eq_getElem inValues
  have scalar := opens.scalarAt_kind rowAt found count declared stored .text
  rw [if_pos isText] at scalar
  obtain ⟨view, inTable, looked⟩ := opens.text_dictionary_cut declared isText
  rw [Table.text_eq opens.valid names scalar inTable, looked] at reads
  exact List.mem_of_getElem? (Except.ok.inj reads)

/-- A table does not hold a text that is missing from the dictionary the field is read in. -/
theorem not_holdsRecords (opens : Opens build builder places table)
    (short : ∀ entry ∈ build.log.committed, entry.addressBytes.length < 2 ^ 8) {n : Nat}
    (located : build.log.sorted[n]? = some entry)
    (declared : builder.schema.fields[i]? = some decl) (isText : decl.kind = .text)
    {text : List UInt8} (set : lastSet entry.sets i = some (.text text))
    (missing : text ∉
      (builder.textDicts.getD (Builder.textSlot builder.schema i % 2 ^ 16) .empty).order) :
    ¬ table.HoldsRecords build.log.sorted := by
  intro holds
  obtain ⟨it, runs, names, atRank, -⟩ := opens.record short located
  obtain ⟨it', runs', -, -, -, values⟩ := holds.record n entry located
  obtain rfl := Except.ok.inj (runs.symm.trans runs')
  have reads := congrArg Readings.text (values i _ set)
  exact missing (opens.text_of_dictionary names (atRank.symm ▸ located) declared isText reads)

end Opens

/-! ### Fields of text -/

/-- The given number of text fields, under names of five bytes. -/
def textField (i : Nat) : FieldDecl := ⟨numberName i, .text, 0⟩

def textSchema (count : Nat) (bound : count < 2 ^ 32) : SchemaBuilder where
  fields := (List.range count).map textField
  named := by
    intro field member
    obtain ⟨i, -, rfl⟩ := List.mem_map.mp member
    exact numberName_named i
  distinct := numberNames_nodup (fun _ => rfl) bound
  declared := by
    intro field member
    obtain ⟨i, -, rfl⟩ := List.mem_map.mp member
    trivial
  length_lt := by rwa [List.length_map, List.length_range]

section Texts

variable {count : Nat} {bound : count < 2 ^ 32}

theorem textSchema_getElem? {i : Nat} (inside : i < count) :
    (textSchema count bound).fields[i]? = some (textField i) := by
  rw [textSchema, List.getElem?_map, List.getElem?_range inside]
  rfl

theorem textSchema_slot {i : Nat} (inside : i < count) :
    Builder.textSlot (textSchema count bound) i = i := by
  have texts : ∀ field ∈ (textSchema count bound).fields.take i,
      decide (field.kind = .text) = true := by
    intro field member
    obtain ⟨j, -, rfl⟩ := List.mem_map.mp (List.mem_of_mem_take member)
    rfl
  rw [Builder.textSlot, List.countP_eq_length.mpr texts, List.length_take, textSchema,
    List.length_map, List.length_range]
  omega

theorem textSchema_dicts :
    ((textSchema count bound).fields.filter (·.kind = .text)).map
      (fun _ => BlobDictionaryBuilder.empty) = List.replicate count .empty := by
  rw [textSchema, List.filter_eq_self.mpr fun field member => ?_, List.map_map,
    Function.comp_def, List.map_const', List.length_range]
  obtain ⟨i, -, rfl⟩ := List.mem_map.mp member
  rfl

theorem textSchema_names :
    (nameBlob (textSchema count bound).fields).length = 6 * count := by
  rw [nameBlob_eq, textSchema, List.map_map,
    flatten_length_of_uniform 6 fun block member => ?_, List.length_map, List.length_range,
    Nat.mul_comm]
  obtain ⟨i, -, rfl⟩ := List.mem_map.mp member
  rw [Function.comp_apply, List.length_append, textField, numberName, List.length_map]
  rfl

end Texts

/-- Packed fields take at most eight bytes each. -/
theorem Built.packed_tupleSize_le {build : Build} {builder : Builder} (built : Built build builder)
    (packed : builder.options.alignFields = false) :
    tupleSize builder ≤ 8 * builder.schema.fields.length := by
  have widths : ∀ width ∈ (shapeFields builder).map FieldDesc.width, width ≤ 8 := by
    intro width member
    obtain ⟨d, inShape, rfl⟩ := List.mem_map.mp member
    exact (built.shape_narrow d inShape).2
  have total := List.sum_le_card_nsmul _ 8 widths
  rw [List.length_map, shapeFields_length built.statCount] at total
  rw [tupleSize, packed, tupleEnd_packed, Nat.zero_add]
  exact le_trans total (Nat.le_of_eq (Nat.mul_comm _ 8))

/-! ### One record of two texts -/

/-- The setter of a text field whose dictionary is empty makes a dictionary of one entry. -/
theorem Builder.set_first_text {builder : Builder} {id : Nat} {decl : FieldDecl}
    (declared : builder.schema.fields[id]? = some decl) (isText : decl.kind = .text)
    (empty : builder.textDicts.getD (Builder.textSlot builder.schema id) .empty = .empty)
    {text : List UInt8} (short : text.length < 2 ^ 32) :
    ∃ dict, dict.order = [text] ∧ builder.set id (.text text) = (.ok (), { builder with
      slots := builder.slots.set id 0
      textDicts := builder.textDicts.set (Builder.textSlot builder.schema id) dict }) := by
  obtain ⟨dict, order, interned⟩ : ∃ dict, dict.order = [text] ∧
      BlobDictionaryBuilder.empty.intern text = .ok (dict, 0) := by
    unfold BlobDictionaryBuilder.intern
    split
    · rename_i found
      nomatch found
    · have room : BlobDictionaryBuilder.empty.blobSize + text.length ≤ 2 ^ 32 - 1 := by
        change 0 + text.length ≤ _
        omega
      rw [dif_pos room]
      exact ⟨_, rfl, rfl⟩
  refine ⟨dict, order, ?_⟩
  rw [set, setText, withField, declared]
  simp only
  rw [if_neg (not_not.mpr isText), empty, interned]
  rfl

/-- More than 65536 text fields, and one record with texts in the first and in one past them. -/
structure Crowded (build : Build) (count : Nat) : Prop where
  bound : count < 2 ^ 32
  many : 2 ^ 16 < count
  schema : build.schema = textSchema count bound
  options : build.options = { BuildOptions.default with valueInterning := .never }
  calls : build.calls = [.beginRecord 1, .set 0 0 (.text [0x61]), .set 0 (2 ^ 16) (.text [0x62]),
    .commit 0]

namespace Crowded

variable {build : Build} {count : Nat} {report : BuildReport}

/-- The record of the build. -/
def record : Committed := ⟨0, 1, [], [(0, .text [0x61]), (2 ^ 16, .text [0x62])]⟩

/-- The handle of the record. -/
def handle : RecordRef := ⟨partitionOf 32 1, addressOf 32 1⟩

/-- The builder with the record begun. -/
def begun (build : Build) : Builder :=
  { build.fresh with
    mode := .keyed
    staging := some ⟨0, .memory ⟨32, [], true⟩⟩
    nextObject := 1
    slots := build.fresh.slots.map fun _ => 0 }

/-- The builder with both texts set. -/
def filled (build : Build) (dicts : List BlobDictionaryBuilder) : Builder :=
  { begun build with slots := ((begun build).slots.set 0 0).set (2 ^ 16) 0, textDicts := dicts }

theorem fresh_eq (crowded : Crowded build count) :
    build.fresh.schema = textSchema count crowded.bound ∧
      build.fresh.textDicts = List.replicate count .empty := by
  obtain ⟨-, -, fresh⟩ := Builder.make_blank build.made
  rw [fresh]
  exact ⟨crowded.schema, by
    rw [← @textSchema_dicts count crowded.bound, ← crowded.schema, Builder.blank]⟩

theorem perform_begin (crowded : Crowded build count) :
    (Session.start build.fresh).perform (.beginRecord 1) = (.ok (), ⟨begun build, [handle]⟩) := by
  obtain ⟨-, -, fresh⟩ := Builder.make_blank build.made
  rw [begun, fresh, crowded.options]
  rfl

/-- Both setters return, and each starts a dictionary. -/
theorem perform_sets (crowded : Crowded build count) : ∃ first second : BlobDictionaryBuilder,
    first.order = [[0x61]] ∧ ∃ set : Session,
      (⟨begun build, [handle]⟩ : Session).perform (.set 0 0 (.text [0x61])) = (.ok (), set) ∧
      set.handles = [handle] ∧
      set.perform (.set 0 (2 ^ 16) (.text [0x62])) = (.ok (),
        ⟨filled build (((List.replicate count .empty).set 0 first).set (2 ^ 16) second),
          [handle]⟩) := by
  have many := crowded.many
  obtain ⟨schema, dicts⟩ := crowded.fresh_eq
  obtain ⟨first, order, setFirst⟩ := @Builder.set_first_text (begun build) 0 (textField 0)
    (by rw [begun, schema]; exact textSchema_getElem? (by omega)) rfl
    (by
      rw [begun, dicts, schema, textSchema_slot (by omega), List.getD_eq_getElem?_getD,
        List.getElem?_replicate, if_pos (by omega)]
      rfl) [0x61] (by decide)
  obtain ⟨second, -, setSecond⟩ := @Builder.set_first_text { begun build with
      slots := (begun build).slots.set 0 0, textDicts := (List.replicate count .empty).set 0 first }
    (2 ^ 16) (textField (2 ^ 16))
    (by rw [begun, schema]; exact textSchema_getElem? many) rfl
    (by
      rw [begun, schema, textSchema_slot many, List.getD_eq_getElem?_getD, List.getElem?_set_ne
        (by decide), List.getElem?_replicate, if_pos many]
      rfl) [0x62] (by decide)
  have places : Builder.textSlot (begun build).schema 0 = 0 ∧
      Builder.textSlot (begun build).schema (2 ^ 16) = 2 ^ 16 := by
    rw [begun, schema]
    exact ⟨textSchema_slot (by omega), textSchema_slot many⟩
  have empty : (begun build).textDicts = List.replicate count .empty := dicts
  rw [places.1, empty] at setFirst
  simp only [places.2] at setSecond
  refine ⟨first, second, order, ⟨_, [handle]⟩, congrArg (Session.after _) setFirst, rfl, ?_⟩
  exact congrArg (Session.after _) setSecond

theorem perform_commit (crowded : Crowded build count) (dicts : List BlobDictionaryBuilder) :
    ∃ last : Session, (⟨filled build dicts, [handle]⟩ : Session).perform (.commit 0) =
        (.ok (), last) ∧
      last.builder.textDicts = dicts ∧
      last.builder.staging = some ⟨0, .memory ⟨32, [⟨1, 0⟩], true⟩⟩ ∧
      last.builder.finished = false ∧ last.builder.options = build.options := by
  have key : packKey 32 handle.partition handle.address = 1 := by decide
  obtain ⟨-, -, fresh⟩ := Builder.make_blank build.made
  rw [filled, begun, fresh, crowded.options, ← key]
  exact ⟨_, rfl, rfl, rfl, rfl, rfl⟩

/-- Every call returns. -/
theorem session (crowded : Crowded build count) : ∃ first second : BlobDictionaryBuilder,
    first.order = [[0x61]] ∧
      build.session.builder.textDicts =
        ((List.replicate count .empty).set 0 first).set (2 ^ 16) second ∧
      build.session.builder.staging = some ⟨0, .memory ⟨32, [⟨1, 0⟩], true⟩⟩ ∧
      build.session.builder.finished = false ∧ build.session.builder.options = build.options ∧
      build.log.committed = [record] := by
  obtain ⟨first, second, order, set, setFirst, handles, setSecond⟩ := crowded.perform_sets
  obtain ⟨last, committed, dicts, staging, running, options⟩ := crowded.perform_commit
    (((List.replicate count .empty).set 0 first).set (2 ^ 16) second)
  have begun := crowded.perform_begin
  have parts : handle.partition = 0 ∧ handle.address = 1 := by decide
  have ran : build.session = last := by
    rw [Build.session, crowded.calls]
    simp only [Session.run, List.foldl_cons, begun, setFirst, setSecond, committed,
      List.foldl_nil]
  have logged : build.log.committed = [record] := by
    rw [Build.log, crowded.calls]
    simp only [Session.logged, begun, setFirst, setSecond, committed, Log.noteResult, Log.note,
      handles, List.getElem?_cons_zero, parts.1, parts.2]
    rfl
  rw [ran]
  exact ⟨first, second, order, dicts, staging, running, options, logged⟩

/-- `finish` returns, and keeps the tuple inline. -/
theorem returns (crowded : Crowded build count) : ∃ report,
    build.finished.outcome = .ok report ∧ report.interned = false := by
  obtain ⟨first, second, -, -, staging, running, options, -⟩ := crowded.session
  have never : build.session.builder.options.valueInterning = .never := by
    rw [options, crowded.options]
  have sound := (build.tracks running).sound
  obtain ⟨report, returned⟩ := ((finish_returns_iff sound running (Or.inl never)).1).mpr (by
    rw [Builder.Orderable, Builder.rows, staging, options, crowded.options]
    exact List.pairwise_singleton _ _)
  obtain ⟨partitions, finishes, built⟩ := build.finishes returned
  have inline := (build.report_layout returned).1
  refine ⟨report, returned, inline.trans ?_⟩
  simp only [chooseLayout, built.options, crowded.options]

/-- One partition holds the one record. -/
theorem rows (crowded : Crowded build count) (returned : build.finished.outcome = .ok report) :
    build.finished.builder.rows = [⟨0, 1, [], 0⟩] := by
  obtain ⟨first, second, -, -, staging, -⟩ := crowded.session
  obtain ⟨partitions, finishes, -⟩ := build.finishes returned
  have perm := finishes.perm
  have started : build.session.builder.rows = [⟨0, 1, [], 0⟩] := by
    rw [Builder.rows, staging]
    rfl
  rw [started] at perm
  exact List.perm_singleton.mp perm

/-- The names, the tuple and the record stay far below 4 GiB. -/
theorem sizes (crowded : Crowded build count) (few : count ≤ 2 ^ 20)
    (returned : build.finished.outcome = .ok report) : build.SizesFit report := by
  obtain ⟨partitions, finishes, built⟩ := build.finishes returned
  have fields : build.schema.fields.length = count := by
    rw [crowded.schema, textSchema, List.length_map, List.length_range]
  have tuple := built.packed_tupleSize_le (by rw [built.options, crowded.options]; rfl)
  rw [built.schema, fields] at tuple
  have names := @textSchema_names count crowded.bound
  have narrow : build.finished.builder.blob.isSome = false := by
    obtain ⟨first, second, -, -, -, -, -, committed⟩ := crowded.session
    have member : record ∈ build.log.committed := by
      rw [committed]
      exact List.mem_cons_self
    have shaped := built.entry_shaped member
    split at shaped
    · exact absurd shaped.2.2 (by rw [← shaped.2.1]; decide)
    · rename_i narrow
      exact Bool.not_eq_true _ ▸ narrow
  refine ⟨by rw [crowded.schema, names]; omega, by omega, fun _ => ?_⟩
  rw [(build.report_layout returned).2, narrow_layout narrow]
  have most := exactWidthFor_le (maxAddress build.finished.builder.rows).toNat
  omega

/-- The image is one a machine can hold. -/
theorem short (crowded : Crowded build count) (few : count ≤ 2 ^ 20)
    (returned : build.finished.outcome = .ok report) (inline : report.interned = false) :
    build.finished.image.length < 2 ^ 64 := by
  obtain ⟨partitions, finishes, built⟩ := build.finishes returned
  have rows := crowded.rows returned
  have fields : build.schema.fields.length = count := by
    rw [crowded.schema, textSchema, List.length_map, List.length_range]
  have texts : build.finished.builder.textDicts.length ≤ count := by
    rw [built.dictCount, built.schema, ← fields]
    exact List.countP_le_length
  have slots : build.slots.length = 1 := by
    have parts := build.directory_map returned DirEntry.partition fun _ => rfl
    rw [rows] at parts
    have runs : partitionRuns [(⟨0, 1, [], 0⟩ : StagedRow)] = [[⟨0, 1, [], 0⟩]] := rfl
    rw [runs, List.map_singleton] at parts
    obtain ⟨slot, single, zero⟩ := List.map_eq_singleton_iff.mp parts
    have zero : slot.partition = 0 := zero
    rw [Build.slots, single, directorySlots]
    split
    · rw [denseSlots, zero]
      rfl
    · rfl
  have textual := build.textEnd_length_le
  have walked := build.partitionBytes_le returned inline
  have length := build.inline_length_le returned inline
  have names := @textSchema_names count crowded.bound
  rw [built.count, rows] at walked
  rw [fields, slots, crowded.schema, names] at length
  simp only [List.length_cons, List.length_nil, headerSize, schemaHeaderSize, fieldDescSize,
    dictEntrySize, footerSize] at walked length textual
  have most : build.finished.builder.textDicts.length * 2 ^ 35 ≤ 2 ^ 20 * 2 ^ 35 :=
    Nat.mul_le_mul_right _ (by omega)
  omega

theorem spans (crowded : Crowded build count) :
    ∀ partition address, .beginRecordAtBytes partition address ∈ build.calls →
      address.length ≤ 255 := by
  rw [crowded.calls]
  intro partition address member
  simp at member

/-- The image is accepted, and the table does not hold the record. -/
theorem misread (crowded : Crowded build count) (few : count ≤ 2 ^ 20) : ∃ report table,
    build.finished.outcome = .ok report ∧ ∃ image : Image, image.bytes = build.finished.image ∧
      Table.tryOpen (some image) = pure table ∧ ¬ table.HoldsRecords build.log.committed := by
  have many := crowded.many
  obtain ⟨first, second, order, dicts, -, -, -, committed⟩ := crowded.session
  obtain ⟨report, returned, inline⟩ := crowded.returns
  obtain ⟨partitions, finishes, -⟩ := build.finishes returned
  let image : Image := ⟨build.finished.image, crowded.short few returned inline⟩
  obtain ⟨table, opened⟩ := (@Build.opens_iff build report image returned rfl
    (build.spansFit returned crowded.spans)).mpr (crowded.sizes few returned)
  obtain ⟨places, opens⟩ := build.opens returned rfl opened
  refine ⟨report, table, returned, image, rfl, opened, ?_⟩
  have sorted : build.log.sorted = [record] := by
    rw [build.sorted_eq_committed returned (by rw [crowded.options]; rfl), committed]
  have kept : build.finished.builder.textDicts = build.session.builder.textDicts := by
    rw [finishes.same]
  have schema : build.finished.builder.schema = textSchema count crowded.bound := by
    rw [opens.built.schema, crowded.schema]
  have dictionary : (build.finished.builder.textDicts.getD (Builder.textSlot
      build.finished.builder.schema (2 ^ 16) % 2 ^ 16) .empty).order = [[0x61]] := by
    rw [schema, textSchema_slot many, Nat.mod_self, kept, dicts, List.getD_eq_getElem?_getD,
      List.getElem?_set_ne (by decide), List.getElem?_set_self (by
        rw [List.length_replicate]
        omega), Option.getD_some, order]
  rw [committed, ← sorted]
  have located : build.log.sorted[0]? = some record := by
    rw [sorted]
    rfl
  have set : lastSet record.sets (2 ^ 16) = some (.text [0x62]) := rfl
  refine opens.not_holdsRecords (fun entry member => ?_) located
    (by rw [schema]; exact textSchema_getElem? many) rfl set ?_
  · rw [committed, List.mem_singleton] at member
    rw [member]
    decide
  · rw [dictionary]
    decide

/-- The one handle is the last one. -/
theorem oneByOne (crowded : Crowded build count) :
    (Session.start build.fresh).OneByOne build.calls := by
  obtain ⟨first, second, order, set, setFirst, handles, setSecond⟩ := crowded.perform_sets
  rw [crowded.calls]
  simp only [Session.OneByOne, Session.UsesLast, crowded.perform_begin, setFirst, setSecond,
    handles, List.length_singleton]
  exact ⟨trivial, Nat.le_refl 1, Nat.le_refl 1, Nat.le_refl 1, trivial⟩

/-- The record is committed in a run of the kind, and does not come out of the table. -/
theorem not_spotless (crowded : Crowded build count) (few : count ≤ 2 ^ 20) :
    build.options.order = .assumeSorted ∧ (Session.start build.fresh).OneByOne build.calls ∧
      (∀ partition address, .beginRecordAtBytes partition address ∈ build.calls →
        address.length ≤ 255) ∧ ¬ build.Spotless := by
  obtain ⟨report, table, returned, image, same, opened, missing⟩ := crowded.misread few
  refine ⟨by rw [crowded.options]; rfl, crowded.oneByOne, crowded.spans, fun spotless => ?_⟩
  rw [build.committed_eq_ledger crowded.oneByOne] at missing
  exact missing (spotless.records report image table returned same opened)

end Crowded

def crowdedBuild (count : Nat) (bound : count < 2 ^ 32) (many : 2 ^ 16 < count) : Build :=
  Build.of (textSchema count bound) { BuildOptions.default with valueInterning := .never }
    [.beginRecord 1, .set 0 0 (.text [0x61]), .set 0 (2 ^ 16) (.text [0x62]), .commit 0]
    (fun none => by
      have length := congrArg List.length none
      rw [textSchema, List.length_map, List.length_range, List.length_nil] at length
      omega) BuildOptions.default_addressBits (by decide) (by decide)

theorem crowdedBuild_spec {count : Nat} {bound : count < 2 ^ 32} {many : 2 ^ 16 < count} :
    Crowded (crowdedBuild count bound many) count := by
  obtain ⟨schema, options, calls⟩ : (crowdedBuild count bound many).schema =
      textSchema count bound ∧ (crowdedBuild count bound many).options =
        { BuildOptions.default with valueInterning := .never } ∧
      (crowdedBuild count bound many).calls = [.beginRecord 1, .set 0 0 (.text [0x61]),
        .set 0 (2 ^ 16) (.text [0x62]), .commit 0] := Build.of_spec _ _ _ _
  exact ⟨bound, many, schema, options, calls⟩

/-- 65537 text fields, and one record with texts in the first and the last of them. -/
theorem sample_not_spotless :
    let build := crowdedBuild (2 ^ 16 + 1) (by decide) (by decide)
    build.options.order = .assumeSorted ∧ (Session.start build.fresh).OneByOne build.calls ∧
      (∀ partition address, .beginRecordAtBytes partition address ∈ build.calls →
        address.length ≤ 255) ∧ ¬ build.Spotless :=
  crowdedBuild_spec.not_spotless (by decide)

end Mmpack
