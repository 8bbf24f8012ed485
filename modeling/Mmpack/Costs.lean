/-
This file is about the rule by which a build is interned. The automatic policy compares
two totals of bytes; what it comes to is a comparison of what repeated values take inline
with what their references take, and neither addresses nor text dictionaries enter
into it. The dictionary has a header, and remapping counts in favour of it.
-/

import Mmpack.Gainless
import Mmpack.Replay

namespace Mmpack

open ByteList Builder

/-! ### Distinct values -/

namespace Builder

theorem internTuple_length_le (builder : Builder) :
    builder.internTuple.2.tuples.length ≤ builder.tuples.length + 1 := by
  have appended : (builder.tuples ++ [builder.slots]).length ≤ builder.tuples.length + 1 :=
    Nat.le_of_eq List.length_append
  unfold internTuple maybeGiveUpOnDedup
  split
  · split
    · exact Nat.le_succ _
    · simp only
      split
      · exact appended
      · split
        · exact appended
        · exact appended
  · exact appended

/-- A record brings one tuple at most. -/
theorem internAll_length_le (builder : Builder) (tuples : List (List UInt64)) :
    (builder.internAll tuples).2.tuples.length ≤ builder.tuples.length + tuples.length := by
  induction tuples generalizing builder with
  | nil => exact Nat.le_refl _
  | cons values rest inductionHypothesis =>
    have here := internTuple_length_le { builder with slots := values }
    refine Nat.le_trans (inductionHypothesis _) ?_
    rw [List.length_cons]
    simp only at here ⊢
    omega

end Builder

section Builds

variable {build : Build} {report report' : BuildReport}

/-- There are no more tuples than records. -/
theorem Build.tuples_le_count (open_ : ∀ call ∈ build.calls, call ≠ .finish) :
    build.session.builder.tuples.length ≤ build.session.builder.count := by
  obtain ⟨⟨-, taken, interned, -⟩, -⟩ := Build.replays open_
  have bound := internAll_length_le build.fresh taken
  have count := (internAll_frame build.fresh taken).2
  obtain ⟨-, -, fresh⟩ := Builder.make_blank build.made
  have none : build.fresh.tuples.length = 0 := by rw [fresh]; rfl
  rw [interned.tuples, interned.count]
  omega

/-! ### The two totals -/

/-- What the writer is told of, as the report has it. -/
theorem Build.report_numbers (returned : build.finished.outcome = .ok report) :
    report.records = build.finished.builder.count ∧
      report.distinctValues = build.finished.builder.tuples.length ∧
      report.refWidth = build.finished.builder.layout.refWidth ∧
      report.valueStride = build.finished.builder.layout.valueStride ∧
      report.inlineEstimate = build.finished.builder.layout.inlineEstimate ∧
      report.internedEstimate = build.finished.builder.layout.internedEstimate := by
  obtain ⟨partitions, finishes, -⟩ := build.finishes returned
  obtain ⟨flag, reported⟩ := finishes.report
  rw [reported]
  exact ⟨rfl, rfl, rfl, rfl, rfl, rfl⟩

/-- The totals of a build that is interned: the one has every value, the other the values once, a
reference for every record, and the header, less what remapping saves. -/
theorem Build.interned_totals (returned : build.finished.outcome = .ok report)
    (totals : build.Totals)
    (spans : ∀ entry ∈ build.log.committed, entry.addressBytes.length ≤ 255)
    (interned : report.interned = true) :
    report.inlineEstimate = build.addressTotal + report.records * report.valueStride ∧
      report.internedEstimate + report.remapSavedBytes =
        build.addressTotal + report.records * report.refWidth +
          (dictHeaderSize + report.distinctValues * report.valueStride) := by
  obtain ⟨partitions, finishes, built⟩ := build.finishes returned
  have saved := build.remapSaved_reported returned
  have form := (build.report_layout returned).1.symm.trans interned
  obtain ⟨records, distinct, references, stride, inline, priced⟩ := build.report_numbers returned
  have whole := totals.interned
  have inlineFits := totals.inline
  obtain ⟨sum, planned⟩ := build.interned_bytes returned spans form (by omega)
  have addresses := build.addressTotal_eq built (by omega)
  have inlineForm : build.finished.builder.layout.inlineEstimate =
      (build.finished.builder.layout.addressBytesTotal + build.finished.builder.count *
        build.finished.builder.layout.valueStride) % 2 ^ 64 := rfl
  have internedForm : build.finished.builder.layout.internedEstimate =
      let whole := (build.finished.builder.layout.addressBytesTotal +
        build.finished.builder.count * build.finished.builder.layout.refWidth +
        fixedDictionarySize build.finished.builder.tuples.length
          build.finished.builder.layout.valueStride) % 2 ^ 64
      whole - min whole (priceRemaps build.finished.builder
        build.finished.builder.layout.refWidth (partitionRuns build.finished.builder.rows)) := rfl
  rw [records, distinct, references, stride, inline, priced, saved]
  constructor
  · rw [inlineForm, addresses, Nat.mod_eq_of_lt inlineFits]
  · rw [internedForm, addresses, fixedDictionarySize, priceRemaps, ← planned]
    simp only
    rw [@Nat.mod_eq_of_lt (dictHeaderSize + _) _ (by omega), Nat.mod_eq_of_lt whole,
      @Nat.mod_eq_of_lt (List.sum _) _ (by omega)]
    omega

/-- Two policies are told the same numbers. -/
theorem Build.under_numbers {policy other : InterningPolicy}
    (returned : (build.under policy).finished.outcome = .ok report)
    (returned' : (build.under other).finished.outcome = .ok report') :
    report'.records = report.records ∧ report'.distinctValues = report.distinctValues ∧
      report'.refWidth = report.refWidth ∧ report'.valueStride = report.valueStride := by
  obtain ⟨same, rows, -⟩ := Build.under_finals returned returned'
  have layouts := same.chooseLayout_with (build.under policy).finished.builder.rows
  obtain ⟨records, distinct, references, stride, -⟩ := Build.report_numbers returned
  obtain ⟨records', distinct', references', stride', -⟩ := Build.report_numbers returned'
  rw [records, records', distinct, distinct', references, references', stride, stride',
    same.count, same.tuples]
  unfold Builder.layout
  rw [rows, layouts]
  exact ⟨rfl, rfl, rfl, rfl⟩

/-- Remapping saves nothing where it is off. -/
theorem Build.remapSaved_of_off (returned : build.finished.outcome = .ok report)
    (totals : build.Totals)
    (spans : ∀ entry ∈ build.log.committed, entry.addressBytes.length ≤ 255)
    (interned : report.interned = true) (off : build.options.partitionRemap = false) :
    report.remapSavedBytes = 0 := by
  obtain ⟨partitions, finishes, built⟩ := build.finishes returned
  have form := (build.report_layout returned).1.symm.trans interned
  have whole := totals.interned
  obtain ⟨-, planned⟩ := build.interned_bytes returned spans form (by omega)
  have zero : ((partitionRuns build.finished.builder.rows).map fun run =>
      (planRemap build.finished.builder.options build.finished.builder.layout.refWidth
        (distinctTuples run).length run.length).2).sum = 0 := by
    refine List.sum_eq_zero fun saved member => ?_
    obtain ⟨run, -, rfl⟩ := List.mem_map.mp member
    rw [planRemap, built.options, off, if_pos (Or.inl rfl)]
  rw [build.remapSaved_reported returned, planned, zero, Nat.zero_mod]

/-- A build is interned where what the repeated values take is more than what the references and
the header take. What remapping would save is counted as taken by the values. -/
theorem Build.interning_pays (returned : (build.under .automatic).finished.outcome = .ok report)
    (returned' : (build.under .always).finished.outcome = .ok report')
    (totals : (build.under .automatic).Totals)
    (spans : ∀ entry ∈ (build.under .automatic).log.committed,
      entry.addressBytes.length ≤ 255) :
    report.distinctValues ≤ report.records ∧
      (report.interned = true ↔ report.records * report.refWidth + dictHeaderSize <
        (report.records - report.distinctValues) * report.valueStride +
          report'.remapSavedBytes) ∧
      (build.options.partitionRemap = false → report'.remapSavedBytes = 0) := by
  have totals' := Build.under_totals returned returned' totals
  have spans' : ∀ entry ∈ (build.under .always).log.committed,
      entry.addressBytes.length ≤ 255 := by
    rw [(@Build.under_twins _ _ .always _ returned).run.2.1]
    exact spans
  obtain ⟨partitions, finishes, built⟩ := (build.under .automatic).finishes returned
  obtain ⟨partitions', finishes', built'⟩ := (build.under .always).finishes returned'
  have interned : report'.interned = true := by
    rw [((build.under .always).report_layout returned').1]
    exact (chooseLayout_interned_iff _ _).mpr (Or.inl (by rw [built'.options]; rfl))
  obtain ⟨inline, priced⟩ := Build.interned_totals returned' totals' spans' interned
  obtain ⟨sameInline, samePriced, -⟩ := Build.under_image returned returned'
  obtain ⟨records, distinct, references, stride⟩ := Build.under_numbers returned returned'
  -- There are no more distinct values than records.
  have few : report.distinctValues ≤ report.records := by
    obtain ⟨records, distinct, -⟩ := Build.report_numbers returned
    have bound := @Build.tuples_le_count (build.under .automatic)
      (Session.not_finish_of_running (build.under .automatic).builtIn
        ((build.under .automatic).running returned))
    rw [records, distinct, finishes.same]
    exact bound
  have chooses : report.interned = true ↔ report.internedEstimate < report.inlineEstimate := by
    obtain ⟨-, -, -, -, inline, priced⟩ := Build.report_numbers returned
    rw [((build.under .automatic).report_layout returned).1, inline, priced]
    have policy : (build.under .automatic).finished.builder.options.valueInterning =
        .automatic := by rw [built.options]; rfl
    refine (chooseLayout_interned_iff _ _).trans ?_
    rw [policy]
    simp
  have parts : report.records * report.valueStride =
      (report.records - report.distinctValues) * report.valueStride +
        report.distinctValues * report.valueStride := by
    rw [← Nat.add_mul, Nat.sub_add_cancel few]
  refine ⟨few, ?_, fun off => Build.remapSaved_of_off returned' totals' spans' interned off⟩
  rw [chooses, ← sameInline, ← samePriced]
  rw [records, stride] at inline
  rw [records, distinct, references, stride] at priced
  have bound : report'.remapSavedBytes ≤ (build.under .always).addressTotal +
      report.records * report.refWidth +
        (dictHeaderSize + report.distinctValues * report.valueStride) :=
    priced ▸ Nat.le_add_left _ _
  omega

end Builds

/-- Four records of one value: the eight bytes of three are more than four references and the
header of sixteen. -/
theorem repeated_interning_pays : ∃ report report',
    (repeatedBuild.under .automatic).finished.outcome = .ok report ∧
      (repeatedBuild.under .always).finished.outcome = .ok report' ∧
      (report.interned = true ↔ report.records * report.refWidth + dictHeaderSize <
        (report.records - report.distinctValues) * report.valueStride +
          report'.remapSavedBytes) := by
  obtain ⟨report, returned⟩ := (repeatedBuild.under .automatic).exists_report (by decide +kernel)
  obtain ⟨report', returned'⟩ := (repeatedBuild.under .always).exists_report (by decide +kernel)
  have totals : (repeatedBuild.under .automatic).Totals := ⟨by decide +kernel, by decide +kernel⟩
  obtain ⟨-, rule, -⟩ := Build.interning_pays returned returned' totals (by decide +kernel)
  exact ⟨report, report', returned, returned', rule⟩

end Mmpack
