/-
This file is about the options that decide how a build is laid out: how tuples are
stored, whether partitions remap their references or trim their addresses, how fields
are aligned, when the directory is dense, and when the builder gives up on collapsing
tuples. Two builds of the same calls that differ in nothing else open as tables that
cannot be told apart.
-/

import Mmpack.Alike
import Mmpack.Refused

namespace Mmpack

open ByteList

/-- Builds of the same calls on the same schema, whose options differ in the layout only. -/
structure Build.SameButLayout (build second : Build) : Prop where
  schema : second.schema = build.schema
  calls : second.calls = build.calls
  order : second.options.order = build.options.order
  addressBits : second.options.addressBits = build.options.addressBits

section Layouts

variable {build second : Build} {report report' : BuildReport} {image image' : Image}

/-- Such builds run as twins. -/
theorem Build.SameButLayout.twins (alike : build.SameButLayout second)
    (returned : build.finished.outcome = .ok report) : Build.Twins false false build second where
  schema := alike.schema
  order := alike.order
  addressBits := alike.addressBits
  tables := fun impossible => nomatch impossible
  keyed := fun impossible => nomatch impossible
  calls := alike.calls.trans (map_styled_false build.calls _).symm
  open_ := Session.not_finish_of_running build.builtIn (build.running returned)

/-- The shape and the dictionary of a field come from the statistics and the dictionaries. -/
theorem fieldShape_congr {builder builder' : Builder} (schema : builder'.schema = builder.schema)
    (stats : builder'.stats = builder.stats) (textDicts : builder'.textDicts = builder.textDicts)
    (i : Nat) (decl : FieldDecl) : fieldShape builder' i decl = fieldShape builder i decl ∧
      builder'.dictOf i = builder.dictOf i := by
  constructor
  · unfold fieldShape shapeField Builder.statsAt
    rw [schema, stats, textDicts]
  · unfold Builder.dictOf
    rw [schema, textDicts]

/-- The address field of a build is as wide as its records ask for. -/
theorem Built.addressWidth_congr {builder builder' : Builder} (built : Built build builder)
    (built' : Built second builder') (sorted : second.log.sorted = build.log.sorted)
    (wide : builder'.blob.isSome = builder.blob.isSome)
    (wideWidth : builder'.wideWidth = builder.wideWidth) :
    builder'.layout.addressWidth = builder.layout.addressWidth := by
  cases form : builder.blob.isSome with
  | true => rw [wide_layout form, wide_layout (wide.trans form), wideWidth]
  | false =>
    rw [narrow_layout form, narrow_layout (wide.trans form), built.maxAddress_eq,
      built'.maxAddress_eq, sorted]

/-- They stage the same records. -/
theorem Build.SameButLayout.records (alike : build.SameButLayout second)
    (returned : build.finished.outcome = .ok report)
    (returned' : second.finished.outcome = .ok report') :
    SameRecords build second build.finished.builder second.finished.builder := by
  obtain ⟨-, log, ⟨builders, -⟩, -⟩ := (alike.twins returned).run
  obtain ⟨partitions, finishes, built⟩ := build.finishes returned
  obtain ⟨partitions', finishes', built'⟩ := second.finishes returned'
  have sorted : second.log.sorted = build.log.sorted := by rw [log]
  have mode : second.finished.builder.mode = build.finished.builder.mode := by
    rw [finishes.same, finishes'.same]
    exact builders.mode
  have wide : second.finished.builder.blob.isSome = build.finished.builder.blob.isSome := by
    rw [finishes.same, finishes'.same]
    exact builders.wide
  have bits : second.finished.builder.options.addressBits =
      build.finished.builder.options.addressBits := by
    rw [finishes.same, finishes'.same]
    exact builders.addressBits
  obtain ⟨schema, stats, textDicts, wideWidth⟩ :
      second.finished.builder.schema = build.finished.builder.schema ∧
      second.finished.builder.stats = build.finished.builder.stats ∧
      second.finished.builder.textDicts = build.finished.builder.textDicts ∧
      second.finished.builder.wideWidth = build.finished.builder.wideWidth := by
    obtain ⟨_, _, _, _, _, _, _, _, same⟩ := builders.same
    rw [finishes.same, finishes'.same, same]
    exact ⟨rfl, rfl, rfl, rfl⟩
  exact
    { sorted
      schema
      addressWidth := built.addressWidth_congr built' sorted wide wideWidth
      keyBits := by rw [Builder.keyBits, Builder.keyBits, mode, bits]
      unset := fun entry _ i decl _ _ => by
        obtain ⟨shape, dict⟩ := fieldShape_congr schema stats textDicts i decl
        exact ⟨shape, congrArg BlobDictionaryBuilder.order dict⟩ }

theorem Build.SameButLayout.spansFit (alike : build.SameButLayout second)
    (returned : build.finished.outcome = .ok report) (fit : build.SpansFit) :
    second.SpansFit := by
  obtain ⟨-, log, -⟩ := (alike.twins returned).run
  constructor
  · rw [log]
    exact fit.committed
  · rw [log, alike.calls]
    exact fit.begun

/-- The layout options are unobservable, as long as the sizes of both images fit. -/
theorem Build.layouts_unobservable (alike : build.SameButLayout second)
    (returned : build.finished.outcome = .ok report)
    (returned' : second.finished.outcome = .ok report')
    (same : image.bytes = build.finished.image) (same' : image'.bytes = second.finished.image)
    (texts : build.schema.fields.countP (·.kind = .text) ≤ 65536) (fit : build.SpansFit)
    (agree : build.PlacesAgree) (sizes : build.SizesFit report)
    (sizes' : second.SizesFit report') :
    ∃ table table', Table.tryOpen (some image) = pure table ∧
      Table.tryOpen (some image') = pure table' ∧ table.Alike table' := by
  obtain ⟨table, opened⟩ := (build.opens_iff returned same fit).mpr sizes
  obtain ⟨table', opened'⟩ :=
    (second.opens_iff returned' same' (alike.spansFit returned fit)).mpr sizes'
  obtain ⟨places, opens⟩ := build.opens returned same opened
  obtain ⟨places', opens'⟩ := second.opens returned' same' opened'
  exact ⟨table, table', opened, opened',
    opens.alike opens' (alike.records returned returned') texts agree⟩

/-- Two partitions of one record each, kept inline and interned. -/
theorem sample_layouts_unobservable : ∃ table table',
    Table.tryOpen (some ⟨denseSample.finished.image, denseSample_length_lt⟩) = pure table ∧
      Table.tryOpen (some ⟨(denseSample.under .always).finished.image, by decide +kernel⟩) =
        pure table' ∧ table.Alike table' := by
  obtain ⟨report, returned⟩ := denseSample.exists_report (by decide +kernel)
  obtain ⟨report', returned'⟩ := (denseSample.under .always).exists_report (by decide +kernel)
  have alike : denseSample.SameButLayout (denseSample.under .always) := ⟨rfl, rfl, rfl, rfl⟩
  have fit : denseSample.SpansFit :=
    ⟨by decide +kernel, fun none => absurd none (by decide +kernel)⟩
  have agree : denseSample.PlacesAgree := by
    unfold Build.PlacesAgree
    decide +kernel
  have sizes : denseSample.SizesFit report := by
    refine ⟨by decide, by decide +kernel, fun _ => ?_⟩
    rw [(denseSample.report_layout returned).2]
    decide +kernel
  have sizes' : (denseSample.under .always).SizesFit report' := by
    refine ⟨by decide, by decide +kernel, fun _ => ?_⟩
    rw [((denseSample.under .always).report_layout returned').2]
    decide +kernel
  exact Build.layouts_unobservable alike returned returned' rfl rfl (by decide) fit agree sizes
    sizes'

/-- Stacked fields without records, stored in two ways. -/
theorem emptyStacked_alike {doubles : Nat} {bound : doubles + 1 < 2 ^ 32}
    {options options' : BuildOptions} {bits : options.addressBits ≤ 64}
    {bits' : options'.addressBits ≤ 64} (packed : options.alignFields = false)
    (packed' : options'.alignFields = false) (order : options'.order = options.order)
    (same : options'.addressBits = options.addressBits) (sample : build =
      emptyStacked doubles bound options bits) (sample' : second =
        emptyStacked doubles bound options' bits') :
    build.SameButLayout second ∧ ∃ report, second.finished.outcome = .ok report := by
  obtain ⟨stacked, given⟩ := @emptyStacked_spec doubles bound options bits packed
  obtain ⟨stacked', given'⟩ := @emptyStacked_spec doubles bound options' bits' packed'
  rw [← sample] at stacked given
  rw [← sample'] at stacked' given'
  refine ⟨⟨?_, ?_, ?_, ?_⟩, second.untouched_returns stacked'.untouched⟩
  · rw [stacked.schema, stacked'.schema]
  · rw [stacked.untouched, stacked'.untouched]
  · rw [given, given', order]
  · rw [given, given', same]

/-- Seven bytes and 2^29 - 1 doubles: kept inline they are refused, so the policy is observable. -/
theorem sample_layouts_observable :
    let build := emptyStacked (2 ^ 29 - 1) (by decide)
      { BuildOptions.default with valueInterning := .never } (by decide)
    let second := emptyStacked (2 ^ 29 - 1) (by decide)
      { BuildOptions.default with valueInterning := .always } (by decide)
    build.SameButLayout second ∧ build.schema.fields.countP (·.kind = .text) ≤ 65536 ∧
      build.SpansFit ∧ build.PlacesAgree ∧
      (∃ report, build.finished.outcome = .ok report) ∧
      (∃ report, second.finished.outcome = .ok report) ∧
      ∃ image : Image, image.bytes = build.finished.image ∧
        ¬ ∃ table, Table.tryOpen (some image) = pure table := by
  intro build second
  obtain ⟨textless, spans, committed, report, returned, -, -, refused⟩ :=
    @emptyStacked_refused (2 ^ 29 - 1) (by decide) (by decide)
      { BuildOptions.default with valueInterning := .never } (by decide) rfl rfl build rfl
  obtain ⟨alike, returned'⟩ := @emptyStacked_alike build second (2 ^ 29 - 1) (by decide)
    { BuildOptions.default with valueInterning := .never }
    { BuildOptions.default with valueInterning := .always } (by decide) (by decide) rfl rfl rfl rfl
    rfl rfl
  refine ⟨alike, by rw [textless]; decide, spans, ?_, ⟨report, returned⟩, returned', refused⟩
  intro entry member
  rw [committed] at member
  nomatch member

end Layouts

end Mmpack
