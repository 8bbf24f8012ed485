/-
This file compares one build under two policies of interning. Whatever the policy,
the same calls return, the same rows are staged and the same estimates are made, so
that a policy that makes the same choice writes the same image.

Where the choices differ, the automatic one takes fewer bytes for what the cost
model prices, the partitions and the composite dictionary. Beside these the images
differ in the entry of that dictionary, in the padding before the blocks and in the
directory, whose slots are as wide as the offsets and the remaps need. None of them
is priced.
-/

import Mmpack.SameInput
import Mmpack.Pricing

namespace Mmpack

open ByteList Emitter Builder

/-! ### One build under another policy -/

/-- The constructor looks at nothing of the options but the bits of an address. -/
theorem Builder.make_with {schema : SchemaBuilder} {options other : BuildOptions}
    {fresh : Builder} (made : make schema options = .ok fresh)
    (bits : other.addressBits = options.addressBits) :
    make schema other = .ok { fresh with options := other } := by
  obtain ⟨fields, addressBits, rfl⟩ := make_blank made
  rw [make, if_neg fields, bits, if_neg (Nat.not_lt.mpr addressBits)]
  rfl

/-- The build with another policy of interning. -/
def Build.under (build : Build) (policy : InterningPolicy) : Build where
  schema := build.schema
  options := { build.options with valueInterning := policy }
  calls := build.calls
  few := build.few
  fresh := { build.fresh with options := { build.options with valueInterning := policy } }
  made := Builder.make_with build.made rfl
  builtIn := build.builtIn

section Policies

variable {build : Build} {policy other : InterningPolicy} {report report' : BuildReport}

theorem Build.under_twins (returned : (build.under policy).finished.outcome = .ok report) :
    Build.Twins false true (build.under policy) (build.under other) where
  schema := rfl
  order := rfl
  addressBits := rfl
  tables := fun _ => ⟨rfl, rfl⟩
  keyed := fun impossible => nomatch impossible
  calls := (map_styled_false build.calls _).symm
  open_ := Session.not_finish_of_running (build.under policy).builtIn
    ((build.under policy).running returned)

/-- Under two policies that both return, the writer is given the same. -/
theorem Build.under_finals (returned : (build.under policy).finished.outcome = .ok report)
    (returned' : (build.under other).finished.outcome = .ok report') :
    SameInput (build.under policy).finished.builder (build.under other).finished.builder ∧
      (build.under other).finished.builder.rows = (build.under policy).finished.builder.rows ∧
      (build.under other).finished.builder.mode = (build.under policy).finished.builder.mode := by
  obtain ⟨-, -, ⟨builders, -⟩, tracks, tracks'⟩ := (Build.under_twins returned).run
  obtain ⟨partitions, finishes, -⟩ := (build.under policy).finishes returned
  obtain ⟨partitions', finishes', -⟩ := (build.under other).finishes returned'
  have options : (build.under other).session.builder.options =
      { (build.under policy).session.builder.options with valueInterning := other } := by
    rw [tracks.options, tracks'.options]
    rfl
  have same := builders.sameInput (by rw [options]) (by rw [options]) (by rw [options])
    (by rw [options])
  refine ⟨?_, ?_, ?_⟩
  · rw [finishes.same, finishes'.same]
    exact same.finishing _ _ _ _
  · have perm := finishes'.perm
    rw [(builders.tables rfl).rows] at perm
    exact StagedRow.eq_of_perm (perm.trans finishes.perm.symm) finishes'.ordered finishes.ordered
  · rw [finishes.same, finishes'.same]
    exact builders.mode

/-- The estimates do not depend on the policy, and the same choice gives the same image. -/
theorem Build.under_image (returned : (build.under policy).finished.outcome = .ok report)
    (returned' : (build.under other).finished.outcome = .ok report') :
    report'.inlineEstimate = report.inlineEstimate ∧
      report'.internedEstimate = report.internedEstimate ∧
      (report'.interned = report.interned → report'.imageBytes = report.imageBytes ∧
        (build.under other).finished.image = (build.under policy).finished.image) := by
  obtain ⟨same, rows, mode⟩ := Build.under_finals returned returned'
  obtain ⟨partitions, finishes, -⟩ := (build.under policy).finishes returned
  obtain ⟨partitions', finishes', -⟩ := (build.under other).finishes returned'
  obtain ⟨flag, reported⟩ := finishes.report
  obtain ⟨flag', reported'⟩ := finishes'.report
  have image := finishes.image
  have image' := finishes'.image
  rw [rows] at image' reported'
  obtain ⟨inline, interned⟩ := same.estimates (build.under policy).finished.builder.rows
  refine ⟨?_, ?_, fun choice => ?_⟩
  · rw [reported, reported']
    exact inline
  · rw [reported, reported']
    exact interned
  · rw [reported, reported'] at choice
    have layouts := same.chooseLayout choice
    rw [layouts, same.writeImage mode] at image' reported'
    refine ⟨?_, image'.symm.trans image⟩
    rw [reported, reported']
    rfl

/-! ### The length of an image -/

/-- The emitter after the dictionaries. -/
def Build.dictionariesEnd (build : Build) : Emitter :=
  (writeDictionaries build.finished.builder build.finished.builder.layout
    (Emitter.start.emit header.encode)).1

/-- What the length of an image is made of. The schema has one dictionary more when the tuples are
interned. -/
structure Build.Measured (build : Build) (report : BuildReport) : Prop where
  imageBytes : report.imageBytes = build.finished.image.length
  partitions : build.partitionStart.out.length =
    8 * ((build.dictionariesEnd.out.length + 7) / 8)
  inline : report.interned = false → build.dictionariesEnd.out.length = build.textEnd.out.length
  interned : report.interned = true → build.dictionariesEnd.out.length =
    8 * ((build.textEnd.out.length + 7) / 8) + build.compositeBytes
  directory : (footerOf build.finished.image).dirOffset =
    8 * ((build.partitionStart.out.length + build.partitionBytes + 7) / 8)
  schema : (footerOf build.finished.image).dirOffset ≤ (footerOf build.finished.image).schemaOffset
  whole : build.finished.image.length = (footerOf build.finished.image).schemaOffset +
    (schemaHeaderSize + build.finished.builder.layout.descs.length * fieldDescSize +
      (build.finished.builder.textDicts.length + if report.interned then 1 else 0) *
        dictEntrySize + (nameBlob build.finished.builder.schema.fields).length) + footerSize

/-- The dictionaries end with those of the texts, or with the composite one behind them. -/
theorem Build.dictionariesEnd_length {result : List DictEntry × Nat}
    (accepted : (writeDictionaries build.finished.builder build.finished.builder.layout
      (Emitter.start.emit header.encode)).2 = .ok result)
    (short : build.dictionariesEnd.out.length + 8 ≤ 2 ^ 64) :
    build.dictionariesEnd.out.length =
      if build.finished.builder.layout.interned then
        8 * ((build.textEnd.out.length + 7) / 8) + build.compositeBytes
      else build.textEnd.out.length := by
  have textExact := (writeTextDictionaries_spec build.finished.builder.textDicts
    (emit_exact exact_start header.encode)).1
  unfold writeDictionaries at accepted
  unfold Build.dictionariesEnd writeDictionaries at *
  cases interned : build.finished.builder.layout.interned with
  | false => rfl
  | true =>
    simp only [interned, if_true] at accepted short ⊢
    unfold Build.compositeBytes Build.textEnd
    cases written : writeValueDictionary build.finished.builder.layout
        build.finished.builder.tuples (writeTextDictionaries build.finished.builder.textDicts
          (Emitter.start.emit header.encode)).1 with
    | mk last outcome =>
      rw [written] at accepted short
      cases outcome with
      | error error => nomatch accepted
      | ok entry =>
        have length := writeValueDictionary_length (congrArg Prod.snd written)
        rw [written] at length
        simp only at short length ⊢
        have padded := (padTo_extends (writeTextDictionaries build.finished.builder.textDicts
          (Emitter.start.emit header.encode)).1 8).length_le
        have aligned := padTo_length textExact (by omega)
        omega

/-- The blocks behind the partitions, at the offsets of the footer. -/
theorem Build.image_tail (returned : build.finished.outcome = .ok report)
    (short : build.finished.image.length < 2 ^ 64) : ∃ dicts valueDict,
    (writeDictionaries build.finished.builder build.finished.builder.layout
      (Emitter.start.emit header.encode)).2 = .ok (dicts, valueDict) ∧
    (footerOf build.finished.image).dirOffset = (build.partitionWalk.1.padTo 8).out.length ∧
    (footerOf build.finished.image).schemaOffset = (schemaStart build.finished.builder
      build.finished.builder.layout build.directory build.partitionWalk.1).out.length ∧
    build.finished.image.length = (footerOf build.finished.image).schemaOffset +
      (schemaHeaderSize + build.finished.builder.layout.descs.length * fieldDescSize +
        dicts.length * dictEntrySize + (nameBlob build.finished.builder.schema.fields).length) +
      footerSize := by
  obtain ⟨partitions, finishes, -⟩ := build.finishes returned
  have walk := build.walked finishes
  obtain ⟨dicts, valueDict, emitter, accepted, start, -, image⟩ :=
    writeImage_cases finishes.written
  obtain rfl : emitter = build.partitionStart := start
  rw [← walk.directory] at image
  have bytes : build.finished.image = (writeTail build.finished.builder
      build.finished.builder.layout dicts valueDict build.directory build.partitionWalk.1).out :=
    finishes.image.symm.trans (congrArg Emitter.out image)
  have footer := (congrArg footerOf bytes).trans (footerOf_writeTail _ _ _ _ _ _)
  have length := (congrArg List.length bytes).trans (writeTail_length _ _ _ _ _ _)
  have directoryLe := (schemaStart_extends build.finished.builder build.finished.builder.layout
    build.directory build.partitionWalk.1).length_le
  have directoryPos := padTo_exact walk.last 8 (by omega)
  have schemaPos := schemaStart_exact build.finished.builder build.finished.builder.layout
    build.directory walk.last (by omega)
  refine ⟨dicts, valueDict, accepted, ?_, ?_, ?_⟩
  · rw [footer, tailFoot, directoryPos]
  · rw [footer, tailFoot, schemaPos]
  · rw [footer, tailFoot, schemaPos, length]

theorem Build.measured (returned : build.finished.outcome = .ok report)
    (short : build.finished.image.length < 2 ^ 64) : build.Measured report := by
  obtain ⟨partitions, finishes, -⟩ := build.finishes returned
  obtain ⟨flag, reported⟩ := finishes.report
  have form := (build.report_layout returned).1
  obtain ⟨-, -, -, -, pos⟩ := writeImage_spec finishes.written (chooseLayout_stretches _ _)
    (by rwa [finishes.image])
  have walk := build.walked finishes
  obtain ⟨dicts, valueDict, accepted, dirOffset, schemaOffset, whole⟩ :=
    Build.image_tail returned short
  obtain ⟨dictsExact, -, dictsWritten⟩ :=
    writeDictionaries_spec (emit_exact exact_start header.encode) (Nat.le_refl _) accepted
  have walked := walk.length
  have schemaLe := (schemaStart_extends build.finished.builder build.finished.builder.layout
    build.directory build.partitionWalk.1).length_le
  have directoryLe := (padTo_extends build.partitionWalk.1 8).length_le
  have dictsLe : build.dictionariesEnd.out.length ≤ build.partitionStart.out.length :=
    (padTo_extends build.dictionariesEnd 8).length_le
  have room : schemaHeaderSize + footerSize = 104 := rfl
  have dictsLength := Build.dictionariesEnd_length accepted (by omega)
  have count : dicts.length = _ := (dictsWritten (by
    change build.dictionariesEnd.out.length < 2 ^ 64
    omega)).dictCount
  refine
    { imageBytes := ?_
      partitions := padTo_length dictsExact (by
        change build.dictionariesEnd.out.length + 8 ≤ 2 ^ 64
        omega)
      inline := fun inline => ?_
      interned := fun interned => ?_
      directory := ?_
      schema := by rwa [dirOffset, schemaOffset]
      whole := ?_ }
  · rw [reported, ← finishes.image]
    exact pos
  · rw [dictsLength, ← form, inline]
    rfl
  · rw [dictsLength, ← form, interned]
    rfl
  · rw [dirOffset, padTo_length walk.last (by omega), walked]
  · rw [whole, count, form, Nat.add_assoc]

/-- The partitions lie in the image. -/
theorem Build.partitions_lt (returned : build.finished.outcome = .ok report)
    (short : build.finished.image.length < 2 ^ 64) :
    build.partitionStart.out.length + build.partitionBytes < 2 ^ 64 := by
  have measured := Build.measured returned short
  have directory := measured.directory
  have schema := measured.schema
  have whole := measured.whole
  omega

/-! ### The cheaper image -/

/-- The bytes of the directory, padded. -/
def directoryBytes (image : List UInt8) : Nat :=
  (footerOf image).schemaOffset - (footerOf image).dirOffset

/-- The bytes behind the directory, but for the entry of the composite dictionary. -/
def Build.schemaBytes (build : Build) : Nat :=
  schemaHeaderSize + build.finished.builder.layout.descs.length * fieldDescSize +
    build.finished.builder.textDicts.length * dictEntrySize +
    (nameBlob build.finished.builder.schema.fields).length + footerSize

/-- The parts of an image add up. -/
theorem Build.Measured.imageBytes_eq (measured : build.Measured report) :
    report.imageBytes = 8 * ((build.partitionStart.out.length + build.partitionBytes + 7) / 8) +
      directoryBytes build.finished.image + build.schemaBytes +
      if report.interned then dictEntrySize else 0 := by
  have entries (form : Bool) : (build.finished.builder.textDicts.length +
        if form then 1 else 0) * dictEntrySize =
      build.finished.builder.textDicts.length * dictEntrySize +
        if form then dictEntrySize else 0 := by
    cases form <;> simp [Nat.add_mul]
  have schema := measured.schema
  have directory := measured.directory
  have whole := measured.whole
  rw [entries] at whole
  rw [measured.imageBytes, whole, directoryBytes, Build.schemaBytes]
  omega

/-- Between an image with its tuples interned and one with them inline, a lead in what is priced
is a lead but for the directory, with one entry and the padding on the other side. -/
theorem Build.Measured.forms {interned inline : Build} (measured : interned.Measured report)
    (measured' : inline.Measured report') (form : report.interned = true)
    (form' : report'.interned = false) (texts : inline.textEnd = interned.textEnd)
    (schemas : inline.schemaBytes = interned.schemaBytes) :
    (interned.partitionBytes + interned.compositeBytes ≤ inline.partitionBytes →
      report.imageBytes + directoryBytes inline.finished.image ≤
        report'.imageBytes + directoryBytes interned.finished.image + 24) ∧
    (inline.partitionBytes ≤ interned.partitionBytes + interned.compositeBytes →
      report'.imageBytes + directoryBytes interned.finished.image ≤
        report.imageBytes + directoryBytes inline.finished.image) := by
  have bytes := measured.imageBytes_eq
  have bytes' := measured'.imageBytes_eq
  have entry : dictEntrySize = 16 := rfl
  rw [form, if_pos rfl, measured.partitions, measured.interned form, entry] at bytes
  rw [form', if_neg Bool.false_ne_true, measured'.partitions, measured'.inline form', texts,
    schemas] at bytes'
  rw [bytes, bytes']
  constructor <;> intro lead <;> omega

/-- The totals of one policy are those of another. -/
theorem Build.under_totals (returned : (build.under policy).finished.outcome = .ok report)
    (returned' : (build.under other).finished.outcome = .ok report')
    (totals : (build.under policy).Totals) : (build.under other).Totals := by
  obtain ⟨same, rows, -⟩ := Build.under_finals returned returned'
  obtain ⟨inline, interned⟩ := totals
  have layouts := same.chooseLayout_with (build.under policy).finished.builder.rows
  constructor
  · unfold Build.addressTotal derivedStretch Builder.layout at *
    rw [rows, same.count, same.stretchOf, same.partitionAddressWidth, layouts]
    exact inline
  · unfold Build.addressTotal derivedStretch Builder.layout at *
    rw [rows, same.count, same.stretchOf, same.partitionAddressWidth, same.tuples, layouts]
    exact interned

/-- Every partition stores the same stretch. -/
theorem Build.under_widths (returned : (build.under policy).finished.outcome = .ok report)
    (returned' : (build.under other).finished.outcome = .ok report') :
    (build.under other).directory.map DirEntry.addressWidth =
      (build.under policy).directory.map DirEntry.addressWidth := by
  obtain ⟨same, rows, -⟩ := Build.under_finals returned returned'
  have layouts := same.chooseLayout_with (build.under policy).finished.builder.rows
  rw [Build.directory_map returned _ fun slot => rfl,
    Build.directory_map returned' _ fun slot => rfl, rows]
  refine List.map_congr_left fun run member => ?_
  have width (builder : Builder) : (slotOf (planOf builder run) (partitionOfRun run) 0
      run.length).addressWidth = (storedStretch builder run).2 := by
    rw [planOf, slotOf]
    exact congrArg Prod.snd (planPartition_stretch builder builder.layout run _)
  rw [width, width]
  unfold storedStretch Builder.layout
  rw [rows, same.partitionAddressWidth, same.stretchOf, layouts]

/-- What the automatic policy comes to beside another one. -/
structure Cheapest (automatic forced : Build) (report report' : BuildReport) : Prop where
  inlineEstimate : report'.inlineEstimate = report.inlineEstimate
  internedEstimate : report'.internedEstimate = report.internedEstimate
  chooses : report.interned = true ↔ report.internedEstimate < report.inlineEstimate
  image : report'.interned = report.interned → forced.finished.image = automatic.finished.image
  smaller : report.imageBytes + directoryBytes forced.finished.image ≤
    report'.imageBytes + directoryBytes automatic.finished.image + 24

/-- The automatic policy makes the image that is smaller but for the directory, the entry of the
composite dictionary and the padding. -/
theorem Build.automatic_cheapest
    (returned : (build.under .automatic).finished.outcome = .ok report)
    (returned' : (build.under policy).finished.outcome = .ok report')
    (short : (build.under .automatic).finished.image.length < 2 ^ 64)
    (short' : (build.under policy).finished.image.length < 2 ^ 64)
    (totals : (build.under .automatic).Totals)
    (spans : ∀ entry ∈ (build.under .automatic).log.committed, entry.addressBytes.length ≤ 255)
    (narrow : ∀ slot ∈ (build.under .automatic).directory,
      slot.addressWidth + report.valueStride < 2 ^ 32) :
    Cheapest (build.under .automatic) (build.under policy) report report' := by
  obtain ⟨inline, interned, image⟩ := Build.under_image returned returned'
  obtain ⟨same, rows, -⟩ := Build.under_finals returned returned'
  obtain ⟨-, sameLog, -⟩ := (Build.under_twins returned).run
  obtain ⟨partitions, finishes, built⟩ := (build.under .automatic).finishes returned
  obtain ⟨partitions', finishes', -⟩ := (build.under policy).finishes returned'
  obtain ⟨flag, reported⟩ := finishes.report
  obtain ⟨flag', reported'⟩ := finishes'.report
  have layouts := same.chooseLayout_with (build.under .automatic).finished.builder.rows
  have policyEq :
      (build.under .automatic).finished.builder.options.valueInterning = .automatic := by
    rw [built.options]
    rfl
  have chooses : report.interned = true ↔ report.internedEstimate < report.inlineEstimate := by
    rw [reported]
    simp only [reportOf, chooseLayout, policyEq, decide_eq_true_eq]
  have stride : report'.valueStride = report.valueStride := by
    rw [reported, reported']
    simp only [reportOf, rows]
    rw [layouts]
  have priced := Build.priced returned totals spans
  have priced' := Build.priced returned' (Build.under_totals returned returned' totals) (by
    rw [sameLog]
    exact spans)
  have narrow' : ∀ slot ∈ (build.under policy).directory,
      slot.addressWidth + report'.valueStride < 2 ^ 32 := by
    rw [stride, ← List.forall_mem_map (P := fun width => width + report.valueStride < 2 ^ 32),
      Build.under_widths returned returned', List.forall_mem_map]
    exact narrow
  have measured := Build.measured returned short
  have measured' := Build.measured returned' short'
  refine ⟨inline, interned, chooses, fun choice => (image choice).2, ?_⟩
  by_cases choice : report'.interned = report.interned
  · obtain ⟨bytes, images⟩ := image choice
    rw [bytes, images]
    omega
  · have texts : (build.under policy).textEnd = (build.under .automatic).textEnd := by
      rw [Build.textEnd, Build.textEnd, same.textDicts]
    have schemas : (build.under policy).schemaBytes = (build.under .automatic).schemaBytes := by
      rw [Build.schemaBytes, Build.schemaBytes, Builder.layout, rows, layouts, same.textDicts,
        same.schema]
    cases form : report.interned with
    | true =>
      have form' : report'.interned = false := by
        rw [form] at choice
        simpa using choice
      refine (measured.forms measured' form form' texts schemas).1 ?_
      rw [priced.interned form, (priced'.inline form').mpr narrow', inline]
      exact le_of_lt (chooses.mp form)
    | false =>
      have form' : report'.interned = true := by
        rw [form] at choice
        simpa using choice
      have cheaper : ¬ report.internedEstimate < report.inlineEstimate := by
        rw [← chooses, form]
        decide
      refine le_trans ((measured'.forms measured form' form texts.symm schemas.symm).2 ?_)
        (Nat.le_add_right _ _)
      rw [priced'.interned form', (priced.inline form).mpr narrow, interned]
      exact Nat.le_of_not_lt cheaper

end Policies

/-- Four records with the same double. -/
def repeatedBuild : Build :=
  Build.of { fields := [⟨[0x76], .f64, 8⟩], named := by decide, distinct := by decide
             declared := by simp [FieldKind.Declares], length_lt := by decide } .default
    [.beginRecord 1, .set 0 0 (.f64 0x3ff0000000000000), .commit 0,
      .beginRecord 2, .set 1 0 (.f64 0x3ff0000000000000), .commit 1,
      .beginRecord 3, .set 2 0 (.f64 0x3ff0000000000000), .commit 2,
      .beginRecord 4, .set 3 0 (.f64 0x3ff0000000000000), .commit 3]
    (by decide) BuildOptions.default_addressBits (by decide) (by decide)

theorem repeated_cheapest : ∃ report report',
    (repeatedBuild.under .automatic).finished.outcome = .ok report ∧
      (repeatedBuild.under .never).finished.outcome = .ok report' ∧
      Cheapest (repeatedBuild.under .automatic) (repeatedBuild.under .never) report report' := by
  obtain ⟨report, returned⟩ := (repeatedBuild.under .automatic).exists_report (by decide +kernel)
  obtain ⟨report', returned'⟩ := (repeatedBuild.under .never).exists_report (by decide +kernel)
  have totals : (repeatedBuild.under .automatic).Totals := ⟨by decide +kernel, by decide +kernel⟩
  have stride : (repeatedBuild.under .automatic).finished.outcome.toOption.map
      (·.valueStride) = some 8 := by decide +kernel
  rw [returned] at stride
  have eight : report.valueStride = 8 := Option.some.inj stride
  exact ⟨report, report', returned, returned', Build.automatic_cheapest returned returned'
    (by decide +kernel) (by decide +kernel) totals (by decide +kernel)
    (by rw [eight]; decide +kernel)⟩

/-- The entry of the dictionary and the padding cost more than the references save. -/
theorem repeated_loses : ∃ report report',
    (repeatedBuild.under .automatic).finished.outcome = .ok report ∧
      (repeatedBuild.under .never).finished.outcome = .ok report' ∧
      report.imageBytes = 202 ∧ report'.imageBytes = 194 := by
  obtain ⟨report, returned⟩ := (repeatedBuild.under .automatic).exists_report (by decide +kernel)
  obtain ⟨report', returned'⟩ := (repeatedBuild.under .never).exists_report (by decide +kernel)
  have bytes : (repeatedBuild.under .automatic).finished.outcome.toOption.map
      (·.imageBytes) = some 202 := by decide +kernel
  have bytes' : (repeatedBuild.under .never).finished.outcome.toOption.map
      (·.imageBytes) = some 194 := by decide +kernel
  rw [returned] at bytes
  rw [returned'] at bytes'
  exact ⟨report, report', returned, returned', Option.some.inj bytes, Option.some.inj bytes'⟩

end Mmpack
