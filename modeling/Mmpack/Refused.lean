/-
This file is about a build without records whose fields take almost 4 GiB inline.
With the one byte of its address field a record is exactly 4 GiB long, which the 32
bits of the record stride do not hold. `finish` returns all the same, and what it
wrote is refused.
-/

import Mmpack.Lengths

namespace Mmpack

open ByteList Emitter

/-! ### Builds without records -/

section Untouched

variable {build : Build} {report : BuildReport}

theorem Build.untouched_session (untouched : build.calls = []) :
    build.session.builder = build.fresh := by
  rw [Build.session, untouched]
  rfl

theorem Build.untouched_log (untouched : build.calls = []) : build.log = .empty := by
  rw [Build.log, untouched]
  rfl

/-- `finish` returns, whatever the options. -/
theorem Build.untouched_returns (untouched : build.calls = []) :
    ∃ report, build.finished.outcome = .ok report := by
  have made := build.made
  obtain ⟨-, -, -, rows, -, running, -⟩ := Builder.make_eq made
  have start := build.untouched_session untouched
  have few : FewTuples build.session.builder := by
    refine Or.inr ?_
    rw [start, (Builder.make_blank made).2.2]
    exact Nat.two_pow_pos 32
  have open_ : build.session.builder.finished = false := by rw [start, running]
  refine ((finish_returns_iff (build.tracks open_).sound open_ few).1).mpr ?_
  rw [Builder.Orderable, start, rows]
  split
  · exact List.Pairwise.nil
  · exact List.nodup_nil

/-- Nothing was staged. -/
theorem Build.untouched_rows (untouched : build.calls = [])
    (returned : build.finished.outcome = .ok report) : build.finished.builder.rows = [] := by
  obtain ⟨partitions, finishes, -⟩ := build.finishes returned
  obtain ⟨-, -, -, rows, -⟩ := Builder.make_eq build.made
  have perm := finishes.perm
  rw [build.untouched_session untouched, rows] at perm
  exact List.Perm.eq_nil perm

/-- An image without records and dictionaries is its header, its schema and its footer. -/
theorem Build.untouched_length (untouched : build.calls = [])
    (returned : build.finished.outcome = .ok report) (inline : report.interned = false)
    (textless : build.schema.fields.countP (·.kind = .text) = 0) :
    build.finished.image.length ≤ headerSize + schemaHeaderSize +
      build.schema.fields.length * fieldDescSize + (nameBlob build.schema.fields).length +
        footerSize + 21 := by
  obtain ⟨partitions, finishes, built⟩ := build.finishes returned
  have rows := build.untouched_rows untouched returned
  have texts : build.finished.builder.textDicts.length = 0 := by
    have count := built.dictCount
    rwa [built.schema, textless] at count
  have slots : build.slots = [] := by
    have counts := build.directory_map returned (·.count) fun slot => rfl
    rw [rows] at counts
    have directory : build.directory = [] := List.map_eq_nil_iff.mp counts
    rw [Build.slots, directory]
    rfl
  have textual := build.textEnd_length_le
  have walked := build.partitionBytes_le returned inline
  have length := build.inline_length_le returned inline
  rw [built.count, rows] at walked
  rw [slots, texts] at length
  rw [texts] at textual
  simp only [List.length_nil] at walked length
  omega

/-- Nothing was committed, and no span was begun. -/
theorem Build.untouched_spans (untouched : build.calls = []) : build.SpansFit where
  committed := by
    rw [build.untouched_log untouched]
    exact fun entry member => nomatch member
  begun := by
    rw [untouched]
    exact fun _ partition address member => nomatch member

/-- The addresses of no records take one byte. -/
theorem Build.untouched_width (untouched : build.calls = [])
    (returned : build.finished.outcome = .ok report) : report.addressWidth = 1 := by
  obtain ⟨partitions, finishes, built⟩ := build.finishes returned
  obtain ⟨-, -, -, -, undecided, -⟩ := Builder.make_eq build.made
  have narrow : build.finished.builder.blob.isSome = false := by
    rw [← Bool.not_eq_true, built.wide, built.mode, build.untouched_session untouched, undecided]
    decide
  rw [(build.report_layout returned).2, narrow_layout narrow,
    build.untouched_rows untouched returned]
  rfl

end Untouched

/-! ### Fields of almost 4 GiB -/

/-- Seven bytes and the given number of doubles, under names of five bytes. -/
structure Stacked (build : Build) (doubles : Nat) : Prop where
  bound : doubles + 1 < 2 ^ 32
  schema : build.schema = stackedSchema doubles bound
  packed : build.options.alignFields = false
  untouched : build.calls = []

namespace Stacked

variable {build : Build} {doubles : Nat} {report : BuildReport}

theorem textless (stacked : Stacked build doubles) :
    build.schema.fields.countP (·.kind = .text) = 0 := by
  rw [stacked.schema, List.countP_eq_zero]
  intro field member
  obtain ⟨i, -, rfl⟩ := List.mem_map.mp member
  unfold stackedField
  split <;> simp

theorem fieldCount (stacked : Stacked build doubles) :
    build.schema.fields.length = doubles + 1 := by
  rw [stacked.schema, stackedSchema, List.length_map, List.length_range]

theorem names (stacked : Stacked build doubles) :
    (nameBlob build.schema.fields).length = 6 * (doubles + 1) := by
  rw [nameBlob_eq, stacked.schema, stackedSchema, List.map_map,
    flatten_length_of_uniform 6 fun block member => ?_, List.length_map, List.length_range,
    Nat.mul_comm]
  obtain ⟨i, -, rfl⟩ := List.mem_map.mp member
  rw [Function.comp_apply, stackedField_name, List.length_append, numberName, List.length_map]
  rfl

theorem tuple (stacked : Stacked build doubles)
    (returned : build.finished.outcome = .ok report) :
    tupleSize build.finished.builder = 7 + 8 * doubles := by
  obtain ⟨partitions, -, built⟩ := build.finishes returned
  exact built.stacked_tupleSize (built.schema.trans stacked.schema)
    (by rw [built.options]; exact stacked.packed)

/-- The image exists, its names and its tuple are below 4 GiB, and it is refused. -/
theorem refused (stacked : Stacked build doubles) (full : 7 + 8 * doubles = 2 ^ 32 - 1)
    (never : build.options.valueInterning = .never)
    (returned : build.finished.outcome = .ok report) :
    build.finished.image.length < 2 ^ 64 ∧
      (nameBlob build.schema.fields).length < 2 ^ 32 ∧
      tupleSize build.finished.builder < 2 ^ 32 ∧
      ∀ image : Image, image.bytes = build.finished.image →
        ¬ ∃ table, Table.tryOpen (some image) = pure table := by
  obtain ⟨partitions, finishes, built⟩ := build.finishes returned
  obtain ⟨flag, reported⟩ := finishes.report
  have inline : report.interned = false := by
    rw [reported]
    simp only [reportOf, chooseLayout, built.options, never]
  have names := stacked.names
  have tuple := stacked.tuple returned
  have count := stacked.fieldCount
  have length := build.untouched_length stacked.untouched returned inline stacked.textless
  simp only [headerSize, schemaHeaderSize, fieldDescSize, footerSize] at length
  refine ⟨by omega, by omega, by omega, fun image same opened => ?_⟩
  have fits := ((build.opens_iff returned same
    (build.untouched_spans stacked.untouched)).mp opened).inline inline
  rw [build.untouched_width stacked.untouched returned, tuple] at fits
  omega

end Stacked

/-- The stacked fields and no records. -/
def emptyStacked (doubles : Nat) (bound : doubles + 1 < 2 ^ 32) (options : BuildOptions)
    (bits : options.addressBits ≤ 64) : Build :=
  Build.of (stackedSchema doubles bound) options [] (stackedSchema_fields doubles bound) bits
    (by decide) (fun call member => nomatch member)

theorem emptyStacked_spec {doubles : Nat} {bound : doubles + 1 < 2 ^ 32} {options : BuildOptions}
    {bits : options.addressBits ≤ 64} (packed : options.alignFields = false) :
    Stacked (emptyStacked doubles bound options bits) doubles ∧
      (emptyStacked doubles bound options bits).options = options := by
  obtain ⟨schema, given, calls⟩ : (emptyStacked doubles bound options bits).schema =
      stackedSchema doubles bound ∧ (emptyStacked doubles bound options bits).options = options ∧
      (emptyStacked doubles bound options bits).calls = [] := Build.of_spec _ _ _ _
  exact ⟨⟨bound, schema, (congrArg BuildOptions.alignFields given).trans packed, calls⟩, given⟩

/-- The stacked fields kept inline: `finish` returns, and nothing opens what it wrote. -/
theorem emptyStacked_refused {doubles : Nat} {bound : doubles + 1 < 2 ^ 32}
    (full : 7 + 8 * doubles = 2 ^ 32 - 1) {options : BuildOptions}
    {bits : options.addressBits ≤ 64} (packed : options.alignFields = false)
    (never : options.valueInterning = .never) {build : Build}
    (sample : build = emptyStacked doubles bound options bits) :
    build.schema.fields.countP (·.kind = .text) = 0 ∧ build.SpansFit ∧
      build.log.committed = [] ∧
      ∃ report, build.finished.outcome = .ok report ∧
        (nameBlob build.schema.fields).length < 2 ^ 32 ∧
        tupleSize build.finished.builder < 2 ^ 32 ∧
        ∃ image : Image, image.bytes = build.finished.image ∧
          ¬ ∃ table, Table.tryOpen (some image) = pure table := by
  obtain ⟨stacked, given⟩ := @emptyStacked_spec doubles bound options bits packed
  rw [← sample] at stacked given
  obtain ⟨report, returned⟩ := build.untouched_returns stacked.untouched
  obtain ⟨short, names, tuple, refused⟩ := stacked.refused full (by rw [given, never]) returned
  refine ⟨stacked.textless, build.untouched_spans stacked.untouched, ?_, report, returned, names,
    tuple, ⟨build.finished.image, short⟩, rfl, refused _ rfl⟩
  rw [build.untouched_log stacked.untouched]
  rfl

/-- Seven bytes and 2^29 - 1 doubles, kept inline: the builder writes an image that is refused. -/
theorem sample_not_described :
    let build := emptyStacked (2 ^ 29 - 1) (by decide)
      { BuildOptions.default with valueInterning := .never } (by decide)
    build.schema.fields.countP (·.kind = .text) ≤ 65536 ∧ build.SpansFit ∧
      (∀ entry ∈ build.log.committed, entry.partition.toNat ≠ 2 ^ 64 - 1) ∧
      ∃ report, build.finished.outcome = .ok report ∧
        (nameBlob build.schema.fields).length < 2 ^ 32 ∧
        tupleSize build.finished.builder < 2 ^ 32 ∧
        ∃ image : Image, image.bytes = build.finished.image ∧
          ¬ ∃ table, Table.tryOpen (some image) = pure table := by
  intro build
  obtain ⟨textless, spans, committed, written⟩ := @emptyStacked_refused (2 ^ 29 - 1) (by decide)
    (by decide) { BuildOptions.default with valueInterning := .never } (by decide) rfl rfl build rfl
  refine ⟨by rw [textless]; decide, spans, ?_, written⟩
  rw [committed]
  exact fun entry member => nomatch member

end Mmpack
