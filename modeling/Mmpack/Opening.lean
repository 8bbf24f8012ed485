/-
This file is about opening the image of a build. It is accepted exactly when three
sizes of its schema stay below 4 GiB, and the table opened from it describes the
build: the fields under their names, the widths and the flags, and every block at the
offset that is recorded for it.
-/

import Mmpack.Accepted
import Mmpack.Iteration
import Mmpack.Policies

namespace Mmpack

open ByteList Checked Cursor

/-! ### Names -/

namespace Opens

variable {build : Build} {builder : Builder} {places : Places} {table : Table} {i : Nat}
  {decl : FieldDecl}

/-- A declared field is read under its name. -/
theorem name_eq (opens : Opens build builder places table)
    (declared : builder.schema.fields[i]? = some decl) :
    table.schema.name table.region i = .ok decl.name := by
  obtain ⟨place, -, -, desc⟩ := opens.descAt declared
  have inside := opens.inside_fieldCount declared
  have block := opens.valid.schema.within
  have region := opens.valid.schemaWithin
  have namesAt := opens.valid.schema.names
  have dictsAt := opens.valid.schema.dicts
  have size : table.image.size = table.region.length := rfl
  have row : (i + 1) * fieldDescSize ≤ table.schema.fieldCount * fieldDescSize :=
    Nat.mul_le_mul_right _ inside
  rw [Nat.succ_mul] at row
  have short := opens.names_lt
  have held := opens.names.trans (holds_name declared)
  have whole := (holds_name declared).within
  rw [List.length_append, List.length_singleton] at whole
  have offset : (writtenDesc builder i decl place).nameOffset =
      (nameBlob (builder.schema.fields.take i)).length := Nat.mod_eq_of_lt (by omega)
  have stored := held.slice_eq
  have within := held.within
  rw [List.length_append, List.length_singleton] at stored within
  have clean : 0 ∉ decl.name := (builder.schema.named decl (List.mem_of_getElem? declared)).2
  have ends : 0 ∈ slice table.region (table.schema.names +
      (nameBlob (builder.schema.fields.take i)).length) (decl.name.length + 1) := by
    rw [stored]
    exact List.mem_append_right _ (List.mem_singleton_self _)
  have cut : (decl.name ++ [0]).takeWhile (· ≠ 0) = decl.name := by
    rw [List.takeWhile_append_of_pos fun byte member => ?_]
    · simp
    · exact decide_eq_true fun zero => clean (zero ▸ member)
  rw [SchemaView.name, SchemaView.field_eq (by omega), ok_bind, desc, offset,
    SchemaView.readCString_eq (by omega) within ends, stored, cut]

/-- The search for a name ends at the field declared under it. -/
theorem findFrom_eq (opens : Opens build builder places table)
    (declared : builder.schema.fields[i]? = some decl) {remaining id : Nat} (before : id ≤ i)
    (enough : i < id + remaining) :
    SchemaView.findFrom table.region table.schema decl.name remaining id = .ok (some i) := by
  induction remaining generalizing id with
  | zero => omega
  | succ remaining inductionHypothesis =>
    have inside := (List.getElem?_eq_some_iff.mp declared).1
    have here := List.getElem?_eq_getElem (lt_of_le_of_lt before inside)
    rw [SchemaView.findFrom, opens.name_eq here, ok_bind]
    rcases Nat.lt_or_eq_of_le before with earlier | rfl
    · have different : builder.schema.fields[id].name ≠ decl.name := by
        intro same
        have distinct := List.pairwise_map.mp builder.schema.distinct
        have apart := List.pairwise_iff_getElem.mp distinct id i (by omega) inside earlier
        rw [(List.getElem?_eq_some_iff.mp declared).2] at apart
        exact apart same
      rw [if_neg different]
      exact inductionHypothesis earlier (by omega)
    · have same : builder.schema.fields[id] = decl := (List.getElem?_eq_some_iff.mp declared).2
      rw [same, if_pos rfl]
      rfl

/-- A name is found as the id its field was declared with. -/
theorem find_eq (opens : Opens build builder places table)
    (declared : builder.schema.fields[i]? = some decl) :
    table.schema.find table.region decl.name = .ok (some i) := by
  refine opens.findFrom_eq declared (Nat.zero_le _) ?_
  rw [Nat.zero_add]
  exact opens.inside_fieldCount declared

end Opens

/-! ### Spans -/

/-- The spans of a build are short enough for their byte: those committed, and where none is
committed those begun. -/
structure Build.SpansFit (build : Build) : Prop where
  committed : ∀ entry ∈ build.log.committed, entry.addressBytes.length ≤ 255
  begun : build.log.committed = [] → ∀ partition address,
    .beginRecordAtBytes partition address ∈ build.calls → address.length ≤ 255

namespace Session

open Builder

variable {schema : SchemaBuilder} {options : BuildOptions} {session : Session} {log : Log}
  {call : Call}

theorem begins_width {wanted : KeyMode} {pending : List UInt8} {rec : RecordRef}
    (begins : beginsOf session.builder.options.addressBits call = some (wanted, pending, rec))
    (wide : (session.perform call).2.builder.mode = .explicitWide) :
    session.builder.mode = .explicitWide ∧
        (session.perform call).2.builder.wideWidth = session.builder.wideWidth ∨
      ∃ partition address, call = .beginRecordAtBytes partition address ∧ address ≠ [] ∧
        (session.perform call).2.builder.wideWidth = address.length % 2 ^ 32 := by
  obtain ⟨outcome, equation, comes⟩ := perform_begins begins
  rw [equation] at wide ⊢
  have entering {entered : Builder} (enters : session.builder.Enters wanted pending entered)
      (isWide : wanted = .explicitWide) :
      session.builder.mode = .explicitWide ∧ entered.wideWidth = session.builder.wideWidth ∨
        ∃ partition address, call = .beginRecordAtBytes partition address ∧ address ≠ [] ∧
          entered.wideWidth = address.length % 2 ^ 32 := by
    subst isWide
    obtain ⟨staging, nextObject, rfl⟩ := enters.fields
    by_cases undecided : session.builder.mode = .undecided
    · exact Or.inr ⟨rec.partition, pending, span_of_begins begins, enters.spans.mpr rfl,
        if_pos ⟨rfl, undecided⟩⟩
    · exact Or.inl ⟨enters.admits.2.resolve_left undecided, if_neg fun both => undecided both.2⟩
  cases comes with
  | refused error => exact Or.inl ⟨wide, rfl⟩
  | mismatched error entered enters isWide width => exact entering enters isWide
  | begun entered enters =>
    have mode : entered.mode = wanted := by
      obtain ⟨staging, nextObject, rfl⟩ := enters.fields
      rfl
    have width := entering enters (mode.symm.trans wide)
    exact width

/-- The width of wide addresses is fixed by the span that enters their mode. -/
theorem perform_width (tracks : Tracks schema options session log) (builtIn : call.BuiltIn)
    (notLast : call ≠ .finish)
    (wide : (session.perform call).2.builder.mode = .explicitWide) :
    session.builder.mode = .explicitWide ∧
        (session.perform call).2.builder.wideWidth = session.builder.wideWidth ∨
      ∃ partition address, call = .beginRecordAtBytes partition address ∧ address ≠ [] ∧
        (session.perform call).2.builder.wideWidth = address.length % 2 ^ 32 := by
  cases call with
  | finish => exact absurd rfl notLast
  | setStaging staging => exact builtIn.elim
  | beginRecord | beginRecordAt | beginRecordAtBytes => exact begins_width rfl wide
  | set handle id value =>
    simp only [perform] at wide ⊢
    split at wide
    · obtain ⟨slots, stats, textDicts, equation⟩ := set_frame session.builder id value
      simp only [after, equation] at wide ⊢
      exact Or.inl ⟨wide, trivial⟩
    · exact Or.inl ⟨wide, rfl⟩
  | commit handle =>
    cases given : session.handles[handle]? with
    | none =>
      simp only [perform, given] at wide ⊢
      exact Or.inl ⟨wide, trivial⟩
    | some rec =>
      rcases commit_eq tracks.sound tracks.narrow
        (tracks.handles rec (List.mem_of_getElem? given)) with ⟨-, error, equation⟩ |
        ⟨-, staging, equation, -⟩
      · simp only [perform, given, equation, after] at wide ⊢
        exact Or.inl ⟨wide, trivial⟩
      · simp only [perform, given, equation, after] at wide ⊢
        exact Or.inl ⟨wide, rfl⟩

/-- In a run of short spans, wide addresses have a width from 1 to 255. -/
theorem run_width (tracks : Tracks schema options session log) {calls : List Call}
    (builtIn : ∀ call ∈ calls, call.BuiltIn) (running : ∀ call ∈ calls, call ≠ .finish)
    (short : ∀ partition address, .beginRecordAtBytes partition address ∈ calls →
      address.length ≤ 255)
    (start : session.builder.mode = .explicitWide →
      0 < session.builder.wideWidth ∧ session.builder.wideWidth ≤ 255)
    (wide : (session.run calls).builder.mode = .explicitWide) :
    0 < (session.run calls).builder.wideWidth ∧ (session.run calls).builder.wideWidth ≤ 255 := by
  induction calls generalizing session log with
  | nil => exact start wide
  | cons call rest inductionHypothesis =>
    have here := builtIn call List.mem_cons_self
    have notLast := running call List.mem_cons_self
    refine inductionHypothesis (perform_tracks tracks here notLast)
      (fun other member => builtIn other (List.mem_cons_of_mem _ member))
      (fun other member => running other (List.mem_cons_of_mem _ member))
      (fun partition address member => short partition address (List.mem_cons_of_mem _ member))
      (fun entered => ?_) wide
    rcases perform_width tracks here notLast entered with ⟨before, same⟩ | ⟨partition, address,
      rfl, nonempty, width⟩
    · rw [same]
      exact start before
    · have bound := short partition address List.mem_cons_self
      have positive := List.length_pos_iff.mpr nonempty
      rw [width, Nat.mod_eq_of_lt (by omega)]
      exact ⟨positive, bound⟩

end Session

/-! ### Acceptance -/

section Acceptance

variable {build : Build} {report : BuildReport} {image : Image} {places : Places}
  {table : Table}

/-- The build before `finish` has a width of wide addresses that fits a byte. -/
theorem Build.wideWidth_fits (returned : build.finished.outcome = .ok report)
    (fit : build.SpansFit) (built : Built build build.finished.builder)
    (wide : build.finished.builder.blob.isSome = true) :
    0 < build.finished.builder.wideWidth ∧ build.finished.builder.wideWidth < 2 ^ 8 := by
  by_cases committed : build.log.committed = []
  · obtain ⟨partitions, finishes, -⟩ := build.finishes returned
    have running := build.running returned
    have mode : build.session.builder.mode = .explicitWide := by
      rw [← built.mode]
      exact built.wide.mp wide
    have same : build.finished.builder.wideWidth = build.session.builder.wideWidth := by
      rw [finishes.same]
    obtain ⟨-, -, -, -, undecided, -⟩ := Builder.make_eq build.made
    have width := Session.run_width (Session.start_tracks build.made) build.builtIn
      (Session.not_finish_of_running build.builtIn running) (fit.begun committed)
      (fun entered => by
        rw [Session.start, undecided] at entered
        cases entered) mode
    rw [same]
    exact ⟨width.1, Nat.lt_succ_of_le width.2⟩
  · obtain ⟨entry, member⟩ := List.exists_mem_of_ne_nil _ committed
    have shaped := built.entry_shaped member
    rw [if_pos wide] at shaped
    obtain ⟨-, length, positive⟩ := shaped
    have short := fit.committed entry member
    exact ⟨positive, by omega⟩

/-- The address field of a build of short spans has from 1 to 255 bytes. -/
theorem Build.addressWidth_fits (returned : build.finished.outcome = .ok report)
    (fit : build.SpansFit) (built : Built build build.finished.builder) :
    0 < build.finished.builder.layout.addressWidth ∧
      build.finished.builder.layout.addressWidth < 2 ^ 8 := by
  cases wide : build.finished.builder.blob.isSome with
  | true =>
    rw [wide_layout wide]
    exact build.wideWidth_fits returned fit built wide
  | false =>
    rw [narrow_layout wide]
    have most := exactWidthFor_le (maxAddress build.finished.builder.rows).toNat
    exact ⟨exactWidthFor_pos _, by omega⟩

/-- What the schema of a build takes in an image: the names, the tuple and, where tuples are
inline, the record fit in 32 bits. -/
structure Build.SizesFit (build : Build) (report : BuildReport) : Prop where
  names : (nameBlob build.schema.fields).length < 2 ^ 32
  tuple : tupleSize build.finished.builder < 2 ^ 32
  inline : report.interned = false →
    report.addressWidth + tupleSize build.finished.builder < 2 ^ 32

theorem Build.fitting (returned : build.finished.outcome = .ok report)
    (same : image.bytes = build.finished.image) (fit : build.SpansFit)
    (sizes : build.SizesFit report) :
    ∃ places, Fitting build build.finished.builder image places := by
  obtain ⟨built, -, places, written⟩ := build.image_written returned same
  obtain ⟨interned, width⟩ := build.report_layout returned
  obtain ⟨positive, byte⟩ := build.addressWidth_fits returned fit built
  exact ⟨places,
    { built
      written := same ▸ written
      names := built.schema ▸ sizes.names
      tuple := sizes.tuple
      inline := fun inline => width ▸ sizes.inline (interned.trans inline)
      positive
      byte }⟩

/-- The image of a build of short spans is accepted exactly when its sizes fit. -/
theorem Build.opens_iff (returned : build.finished.outcome = .ok report)
    (same : image.bytes = build.finished.image) (fit : build.SpansFit) :
    (∃ table, Table.tryOpen (some image) = pure table) ↔ build.SizesFit report := by
  constructor
  · rintro ⟨table, opened⟩
    obtain ⟨places, opens⟩ := build.opens returned same opened
    obtain ⟨interned, width⟩ := build.report_layout returned
    have tuple := opens.tupleSize_lt
    refine ⟨opens.built.schema ▸ opens.names_lt, tuple, fun inline => ?_⟩
    have record := opens.valuePart.1
    have count := shapeFields_length opens.built.statCount
    have few := opens.few_fields
    have stride : build.finished.builder.layout.valueStride = tupleSize build.finished.builder :=
      (placeFields_spec opens.built.shape_narrow tuple (by omega) (by decide)).1
    rw [Opens.payload, if_neg (by rw [← interned, inline]; decide)] at record
    rw [width, ← stride]
    exact record
  · intro sizes
    obtain ⟨places, fitting⟩ := build.fitting returned same fit sizes
    exact Table.tryOpen_of_wellFormed fitting.wellFormed

/-! ### What the image records -/

/-- Every block of an image lies where the image records it. -/
structure Build.Recorded (build : Build) (places : Places) (table : Table) : Prop where
  texts : ∀ (i : Nat) (inside : i < build.finished.builder.textDicts.length),
    TextWritten table.region places.records (table.schema.dictAt table.region i)
      build.finished.builder.textDicts[i]
  tuples : table.interned = true →
    TuplesWritten build.finished.builder.layout build.finished.builder.tuples table.region
      places.records (table.schema.dictAt table.region table.schema.valueDict)
  partitions : ∀ piece ∈ Opens.pieces build.finished.builder, ∃ s < table.dirCount,
    (table.entry s).partition = (partitionOfRun piece.1).toNat ∧
      (table.entry s).count = piece.1.length ∧
        Holds table.region (table.entry s).offset
          (pieceBlock build.finished.builder build.finished.builder.layout piece)
  directory : Holds table.region table.footer.dirOffset
    (slotBlock build.finished.builder build.finished.builder.layout build.finished.builder.rows
      places)
  schema : Holds table.region table.footer.schemaOffset
    (schemaBlock build.finished.builder build.finished.builder.layout
      build.finished.builder.rows places)

/-- The table opened from the image of a build describes it. -/
structure Build.Describes (build : Build) (report : BuildReport) (table : Table) : Prop where
  region : table.region = build.finished.image
  measured : build.Measured report
  imageSize : table.footer.imageSize = build.finished.image.length
  recorded : ∃ places, build.Recorded places table
  size : table.size = build.log.committed.length
  fieldCount : table.schema.fieldCount = build.schema.fields.length
  field : ∀ id decl, build.schema.fields[id]? = some decl →
    table.schema.name table.region id = .ok decl.name ∧
      (table.schema.descAt table.region id).kind = decl.kind.code ∧
        table.schema.find table.region decl.name = .ok (some id)
  addressWidth : table.addressWidth = report.addressWidth
  interned : table.interned = report.interned
  hasKeyMapping : table.hasKeyMapping = report.hasKeyMapping

theorem Build.recorded (opens : Opens build build.finished.builder places table) :
    build.Recorded places table := by
  have within := opens.written.records.within
  have short : table.region.length < 2 ^ 64 := table.image.length_lt
  refine
    { texts := fun i inside => ?_
      tuples := fun interned => ?_
      partitions := fun piece member => ?_
      directory := ?_
      schema := ?_ }
  · obtain ⟨entry, located, text⟩ := opens.written.text i inside
    have size := text.size
    have finish := text.finish
    rw [opens.dictAt located (by omega) (by omega)]
    exact text
  · rw [opens.interned] at interned
    obtain ⟨-, entry, located, tuples⟩ := opens.written.composite interned
    have size := tuples.size
    have finish := tuples.finish
    rw [opens.valueDict_eq interned, opens.dictAt located (by omega) (by omega)]
    exact tuples
  · obtain ⟨j, located⟩ := List.mem_iff_getElem?.mp member
    obtain ⟨s, inside, entry⟩ := opens.slot_of_piece located
    refine ⟨s, inside, ?_⟩
    rw [entry]
    exact ⟨rfl, rfl, (opens.written.piece located).1⟩
  · rw [opens.footer]
    exact opens.written.slots
  · rw [opens.footer]
    exact opens.written.schema

/-- The table says what the report says of the key mapping. -/
theorem Build.hasKeyMapping_eq (opens : Opens build build.finished.builder places table)
    (returned : build.finished.outcome = .ok report) :
    table.hasKeyMapping = report.hasKeyMapping := by
  obtain ⟨partitions, finishes, built⟩ := build.finishes returned
  obtain ⟨flag, reported⟩ := finishes.report
  have told : report.hasKeyMapping = true ↔ build.Keyed := by
    rw [reported, Build.Keyed, ← built.mode]
    exact decide_eq_true_iff
  have stored : table.schema.head.addressBits =
      if build.finished.builder.mode = .explicit ∨ build.finished.builder.mode = .explicitWide then
        noKeyMapping
      else build.finished.builder.options.addressBits % 2 ^ 8 := by
    rw [opens.head]
    rfl
  rw [Bool.eq_iff_iff, told]
  refine ⟨fun mapped => ?_, fun keyed => (opens.addressBits keyed).1⟩
  by_contra notKeyed
  have explicit : build.finished.builder.mode = .explicit ∨
      build.finished.builder.mode = .explicitWide := by
    rw [built.mode]
    unfold Build.Keyed at notKeyed
    cases mode : build.session.builder.mode <;> simp_all
  rw [if_pos explicit] at stored
  rw [Table.hasKeyMapping, SchemaView.hasKeyMapping, stored] at mapped
  exact absurd rfl (of_decide_eq_true mapped)

/-- A build of short spans whose sizes fit writes an image that is accepted and describes it. -/
theorem Build.image_described (returned : build.finished.outcome = .ok report)
    (same : image.bytes = build.finished.image) (fit : build.SpansFit)
    (sizes : build.SizesFit report) :
    ∃ table, Table.tryOpen (some image) = pure table ∧ build.Describes report table := by
  obtain ⟨table, opened⟩ := (build.opens_iff returned same fit).mpr sizes
  obtain ⟨places, opens⟩ := build.opens returned same opened
  obtain ⟨imageEq, -⟩ := (Table.tryOpen_ensures image).of_accepts opened
  obtain ⟨interned, width⟩ := build.report_layout returned
  have region : table.region = build.finished.image := by
    rw [← same]
    exact congrArg Image.bytes imageEq
  have short : build.finished.image.length < 2 ^ 64 := by
    rw [← same]
    exact image.length_lt
  refine ⟨table, opened,
    { region
      measured := build.measured returned short
      imageSize := ?_
      recorded := ⟨places, build.recorded opens⟩
      size := ?_
      fieldCount := ?_
      field := fun id decl declared => ?_
      addressWidth := ?_
      interned := opens.interned.trans interned.symm
      hasKeyMapping := build.hasKeyMapping_eq opens returned }⟩
  · rw [opens.footer, ← region, opens.written.length]
    rfl
  · have lengths := List.Forall₂.length_eq opens.built.stages
    exact opens.recordCount.trans (lengths.trans (List.length_insertionSort _ _))
  · rw [opens.fieldCount, opens.built.schema]
  · rw [← opens.built.schema] at declared
    obtain ⟨place, -, -, desc⟩ := opens.descAt declared
    refine ⟨opens.name_eq declared, ?_, opens.find_eq declared⟩
    rw [desc]
    exact fieldShape_kind build.finished.builder id decl
  · rw [opens.addressWidth, width]
    exact Nat.mod_eq_of_lt (build.addressWidth_fits returned fit opens.built).2

/-- Two partitions of one record each. -/
theorem sample_described : ∃ report table, denseSample.finished.outcome = .ok report ∧
    Table.tryOpen (some ⟨denseSample.finished.image, denseSample_length_lt⟩) = pure table ∧
      denseSample.Describes report table := by
  obtain ⟨report, returned⟩ := denseSample.exists_report (by decide +kernel)
  have fit : denseSample.SpansFit :=
    ⟨by decide +kernel, fun none => absurd none (by decide +kernel)⟩
  have sizes : denseSample.SizesFit report := by
    refine ⟨by decide, by decide +kernel, fun _ => ?_⟩
    rw [(denseSample.report_layout returned).2]
    decide +kernel
  obtain ⟨table, opened, described⟩ := @Build.image_described denseSample report
    ⟨denseSample.finished.image, denseSample_length_lt⟩ returned rfl fit sizes
  exact ⟨report, table, returned, opened, described⟩

end Acceptance

end Mmpack
