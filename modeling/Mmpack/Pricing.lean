/-
This file compares the two walks over the staging. `choose_layout` prices every
partition without writing it, and `write_image` plans and writes every partition
without pricing it. Run by run they come to the same bytes, so the estimate of the
form that is written is what the partitions take, with the composite dictionary
where there is one.

An inline record of 4 GiB or more is priced as it is, and counted in a stride that is
cut to 32 bits.
-/

import Mmpack.Narrowing
import Mmpack.Returning
import Mmpack.Maps
import Mathlib.Algebra.BigOperators.Ring.List

namespace Mmpack

open ByteList Emitter

/-! ### What is emitted -/

namespace Build

/-- The emitter as the partitions are about to be written. -/
def partitionStart (build : Build) : Emitter :=
  (writeDictionaries build.finished.builder build.finished.builder.layout
    (Emitter.start.emit header.encode)).1.padTo 8

/-- The walk that writes the partitions. -/
def partitionWalk (build : Build) : Emitter × Except BuildError (List (DirEntry × PartitionPlan)) :=
  writePartitions build.finished.builder build.finished.builder.layout
    (partitionRuns build.finished.builder.rows) build.finished.builder.layout.stretches
    build.partitionStart

/-- The bytes emitted for all partitions. -/
def partitionBytes (build : Build) : Nat :=
  build.partitionWalk.1.out.length - build.partitionStart.out.length

/-- The emitter after the text dictionaries. -/
def textEnd (build : Build) : Emitter :=
  (writeTextDictionaries build.finished.builder.textDicts (Emitter.start.emit header.encode)).1

/-- The bytes emitted for the composite dictionary, the padding before it left out. -/
def compositeBytes (build : Build) : Nat :=
  (writeValueDictionary build.finished.builder.layout build.finished.builder.tuples
    build.textEnd).1.out.length - (build.textEnd.padTo 8).out.length

/-- The address bytes of all records. -/
def addressTotal (build : Build) : Nat :=
  ((partitionRuns build.finished.builder.rows).map fun run =>
    run.length * (derivedStretch build.finished.builder run).2).sum

/-- The totals that are priced are 64-bit numbers. -/
structure Totals (build : Build) : Prop where
  inline : build.addressTotal +
    build.finished.builder.count * build.finished.builder.layout.valueStride < 2 ^ 64
  interned : build.addressTotal +
    build.finished.builder.count * build.finished.builder.layout.refWidth +
    (dictHeaderSize + build.finished.builder.tuples.length *
      build.finished.builder.layout.valueStride) < 2 ^ 64

/-- The runs that are priced are written, each with the stretch it was priced at, and in as many
bytes. An inline record has to be shorter than 4 GiB for that. -/
structure Priced (build : Build) (report : BuildReport) : Prop where
  runs : (build.directory.map fun slot =>
      (slot.partition, slot.count, slot.addressSkip, slot.addressWidth)) =
    (partitionRuns build.finished.builder.rows).map fun run =>
      ((partitionOfRun run).toNat, run.length, derivedStretch build.finished.builder run)
  inline : report.interned = false → (build.partitionBytes = report.inlineEstimate ↔
    ∀ slot ∈ build.directory, slot.addressWidth + report.valueStride < 2 ^ 32)
  interned : report.interned = true →
    build.partitionBytes + build.compositeBytes = report.internedEstimate
  remapSaved : report.remapSavedBytes = ((build.directory.filter (·.schemaId ≠ 0)).map fun slot =>
    slot.count * (report.refWidth - slot.schemaId) - 4 * slot.remapCount).sum
  addressBytes : report.addressBytesTotal =
    (build.directory.map fun slot => slot.count * slot.addressWidth).sum

end Build

/-! ### One partition -/

/-- A saving is what narrower references save, less the table. -/
theorem planRemap_saved (options : BuildOptions) {refWidth distinctHere count : Nat}
    (fits : count * refWidth < 2 ^ 64) :
    let planned := planRemap options refWidth distinctHere count
    (planned.1 = 0 → planned.2 = 0) ∧
      (planned.1 ≠ 0 → planned.1 < refWidth ∧ distinctHere ≤ 2 ^ 16 ∧
        planned.2 + 4 * distinctHere = count * (refWidth - planned.1)) := by
  unfold planRemap
  split
  · exact ⟨fun _ => rfl, fun other => absurd rfl other⟩
  · rename_i worth
    simp only
    split
    · exact ⟨fun _ => rfl, fun other => absurd rfl other⟩
    · rename_i narrow
      have bound : distinctHere ≤ 2 ^ 16 := by
        have fits := @lt_pow_of_narrow (distinctHere - 1) (by omega)
        have power : 256 ^ widthFor (distinctHere - 1) ≤ 256 ^ 2 :=
          Nat.pow_le_pow_right (by decide) (by unfold maxLocalWidth at narrow; omega)
        omega
      have whole : count * (refWidth - widthFor (distinctHere - 1)) ≤ count * refWidth :=
        Nat.mul_le_mul_left _ (Nat.sub_le _ _)
      rw [Nat.mod_eq_of_lt (lt_of_le_of_lt whole fits), Nat.mod_eq_of_lt (by omega)]
      split
      · exact ⟨fun _ => rfl, fun other => absurd rfl other⟩
      · rename_i pays
        refine ⟨fun zero => ?_, fun _ => ⟨by omega, bound, ?_⟩⟩
        · exact absurd zero (Nat.ne_of_gt (widthFor_pos _))
        · simp only
          omega

section Plans

variable {builder : Builder} {layout : Layout} {run : List StagedRow} {stretch : Nat × Nat}

/-- What a plan saves is what the table and the references in it save. -/
theorem planPartition_saved (fits : run.length * layout.refWidth < 2 ^ 64) :
    let plan := planPartition builder layout run stretch
    plan.saved = if plan.schemaId ≠ 0 then
      run.length * (layout.refWidth - plan.schemaId) - 4 * (plan.remapTable.length % 2 ^ 32)
      else 0 := by
  obtain ⟨-, paid⟩ := @planRemap_saved builder.options _ (distinctTuples run).length _ fits
  unfold planPartition
  simp only
  split
  · rename_i remapped
    obtain ⟨-, bound, saved⟩ := paid remapped.2
    rw [if_pos remapped.2]
    simp only
    rw [Nat.mod_eq_of_lt (by omega)]
    omega
  · rfl

/-- An interned partition and its saving come to the price of the global references. -/
theorem planPartition_interned (interned : layout.interned = true)
    (narrow : stretch.2 < 256) (refs : layout.refWidth ≤ 8)
    (fits : run.length * layout.refWidth < 2 ^ 64) :
    let plan := planPartition builder layout run stretch
    plan.saved = (planRemap builder.options layout.refWidth (distinctTuples run).length
        run.length).2 ∧
      (pieceBlock builder layout (run, plan)).length + plan.saved =
        run.length * stretch.2 + run.length * layout.refWidth := by
  obtain ⟨free, paid⟩ := @planRemap_saved builder.options _ (distinctTuples run).length _ fits
  simp only [pieceBlock_length, PartitionPlan.stride, PartitionPlan.refWidth, interned, if_true]
  unfold planPartition
  simp only [interned, true_and]
  split
  · rename_i remapped
    obtain ⟨less, -, saved⟩ := paid remapped
    refine ⟨rfl, ?_⟩
    simp only
    rw [Nat.mod_eq_of_lt (by omega), Nat.mul_add]
    have whole : run.length * layout.refWidth = run.length * (planRemap builder.options
        layout.refWidth (distinctTuples run).length run.length).1 + run.length *
        (layout.refWidth - (planRemap builder.options layout.refWidth (distinctTuples run).length
          run.length).1) := by
      rw [← Nat.mul_add, Nat.add_sub_cancel' (Nat.le_of_lt less)]
    omega
  · rename_i plain
    refine ⟨(free (not_not.mp plain)).symm, ?_⟩
    simp only [ne_eq, not_true_eq_false, if_false, List.length_nil]
    rw [Nat.mod_eq_of_lt (by omega), Nat.mul_add]
    omega

/-- An inline partition takes its address bytes and its tuples, in a 32-bit stride. -/
theorem planPartition_inline (inline : layout.interned = false) :
    (pieceBlock builder layout (run, planPartition builder layout run stretch)).length =
      run.length * ((stretch.2 + layout.valueStride) % 2 ^ 32) := by
  rw [pieceBlock_length]
  simp [planPartition, PartitionPlan.stride, inline]

end Plans

/-! ### All partitions -/

theorem writeValueDictionary_length {layout : Layout} {tuples : List (List UInt64)}
    {emitter : Emitter} {entry : DictEntry}
    (accepted : (writeValueDictionary layout tuples emitter).2 = .ok entry) :
    (writeValueDictionary layout tuples emitter).1.out.length =
      (emitter.padTo 8).out.length + (dictHeaderSize + tuples.length * layout.valueStride) := by
  unfold writeValueDictionary writeFixedDictionaryHeader at accepted ⊢
  by_cases many : 2 ^ 32 - 1 < tuples.length
  · simp only [many, if_true] at accepted
    nomatch accepted
  · simp only [many, if_false]
    have uniform : ∀ block ∈ tuples.map (encodeTuple layout),
        block.length = layout.valueStride := by simp
    rw [writeTuples_eq, emitAll_length _ uniform, List.length_map, write, List.length_append,
      DictHeader.encode_length, Nat.add_assoc]

section Builds

variable {build : Build} {report : BuildReport}

theorem Build.report_layout (returned : build.finished.outcome = .ok report) :
    report.interned = build.finished.builder.layout.interned ∧
      report.addressWidth = build.finished.builder.layout.addressWidth := by
  obtain ⟨partitions, finishes, -⟩ := build.finishes returned
  obtain ⟨flag, equation⟩ := finishes.report
  rw [equation]
  exact ⟨rfl, rfl⟩

/-- The plan of a run of a build. -/
def planOf (builder : Builder) (run : List StagedRow) : PartitionPlan :=
  planPartition builder builder.layout run (storedStretch builder run)

theorem zip_stretches (builder : Builder) :
    (partitionRuns builder.rows).zip builder.layout.stretches =
      (partitionRuns builder.rows).map fun run => (run, storedStretch builder run) := by
  rw [layout_stretches]
  have paired := @List.zip_map' _ _ _ id (storedStretch builder) (partitionRuns builder.rows)
  rwa [List.map_id] at paired

/-- The walk that writes the partitions of a build that returns. -/
structure Build.Walked (build : Build) (partitions : List (DirEntry × PartitionPlan)) : Prop where
  start : build.partitionStart.Exact
  recorded : build.partitionWalk.2 = .ok partitions
  directory : build.directory = partitions.map Prod.fst
  plans : partitions.map Prod.snd =
    (partitionRuns build.finished.builder.rows).map (planOf build.finished.builder)
  length : build.partitionWalk.1.out.length =
    build.partitionStart.out.length + build.partitionBytes
  bytes : build.partitionBytes = ((partitionRuns build.finished.builder.rows).map fun run =>
    (pieceBlock build.finished.builder build.finished.builder.layout
      (run, planOf build.finished.builder run)).length).sum
  last : build.partitionWalk.1.Exact
  slots : build.partitionWalk.1.out.length < 2 ^ 64 →
    build.directory = entriesFrom build.finished.builder build.finished.builder.layout
      build.partitionStart.out.length ((partitionRuns build.finished.builder.rows).map fun run =>
        (run, planOf build.finished.builder run))

theorem Build.walked {partitions : List (DirEntry × PartitionPlan)}
    (finishes : Finishes build.session.builder build.finished.builder report build.finished.image
      partitions) : build.Walked partitions := by
  have directory : build.directory = partitions.map Prod.fst := by
    rw [Build.directory, Builder.layout, finishes.written]
  obtain ⟨dicts, valueDict, emitter, accepted, start, recorded, -⟩ :=
    writeImage_cases finishes.written
  have headExact := emit_exact exact_start header.encode
  obtain ⟨dictsExact, -⟩ := writeDictionaries_spec headExact (Nat.le_refl _) accepted
  have startExact := padTo_exact dictsExact 8
  rw [← start] at startExact
  obtain ⟨last, out, plans, slots⟩ := writePartitions_spec _ _ _ _ startExact recorded
  obtain rfl : emitter = build.partitionStart := start
  have parts := zip_stretches build.finished.builder
  rw [Builder.layout] at parts
  rw [parts, List.map_map] at out plans slots
  have length := congrArg List.length out
  rw [List.length_append] at length
  have walked : build.partitionWalk.1.out.length = _ := length
  refine
    { start := startExact
      recorded
      directory
      plans := plans.trans (List.map_map ..)
      length := ?_
      bytes := ?_
      last
      slots := fun bounded => directory.trans (slots bounded) }
  · rw [Build.partitionBytes]
    omega
  · rw [Build.partitionBytes, walked, Nat.add_sub_cancel_left, List.length_flatten, List.map_map,
      List.map_map]
    rfl

/-- What does not depend on where a partition lies is said of the runs. -/
theorem Build.directory_map (returned : build.finished.outcome = .ok report) {Result : Type}
    (read : DirEntry → Result) (placeless : ∀ slot, read { slot with offset := 0 } = read slot) :
    build.directory.map read = (partitionRuns build.finished.builder.rows).map fun run =>
      read (slotOf (planOf build.finished.builder run) (partitionOfRun run) 0 run.length) := by
  obtain ⟨partitions, finishes, -⟩ := build.finishes returned
  have walked := build.walked finishes
  rw [walked.directory, writePartitions_map (Nat.mod_lt _ (Nat.two_pow_pos 64)) walked.recorded
    read placeless, zip_stretches, List.map_map]
  rfl

/-- Every slot is that of a run, wherever it lies. -/
theorem Build.run_of_slot (returned : build.finished.outcome = .ok report) {d : DirEntry}
    (member : d ∈ build.directory) : ∃ run ∈ partitionRuns build.finished.builder.rows,
    slotOf (planOf build.finished.builder run) (partitionOfRun run) 0 run.length =
      { d with offset := 0 } := by
  have image := List.mem_map_of_mem (f := fun slot : DirEntry => { slot with offset := 0 }) member
  rw [build.directory_map returned _ fun slot => rfl] at image
  exact List.mem_map.mp image

/-- Every run has its slot. -/
theorem Build.slot_of_run (returned : build.finished.outcome = .ok report) {run : List StagedRow}
    (member : run ∈ partitionRuns build.finished.builder.rows) : ∃ d ∈ build.directory,
    { d with offset := 0 } =
      slotOf (planOf build.finished.builder run) (partitionOfRun run) 0 run.length := by
  refine List.mem_map.mp ?_
  rw [build.directory_map returned (fun slot => ({ slot with offset := 0 } : DirEntry))
    fun slot => rfl]
  exact List.mem_map_of_mem member

/-- The partitions take the bytes of the runs. -/
theorem Build.partitionBytes_eq (returned : build.finished.outcome = .ok report) :
    build.partitionBytes = ((partitionRuns build.finished.builder.rows).map fun run =>
      (pieceBlock build.finished.builder build.finished.builder.layout
        (run, planOf build.finished.builder run)).length).sum := by
  obtain ⟨partitions, finishes, -⟩ := build.finishes returned
  exact (build.walked finishes).bytes

/-- The report has what the plans save. -/
theorem Build.remapSaved_reported (returned : build.finished.outcome = .ok report) :
    report.remapSavedBytes = ((partitionRuns build.finished.builder.rows).map fun run =>
      (planOf build.finished.builder run).saved).sum % 2 ^ 64 := by
  obtain ⟨partitions, finishes, -⟩ := build.finishes returned
  obtain ⟨flag, reported⟩ := finishes.report
  have saved := congrArg (List.map PartitionPlan.saved) (build.walked finishes).plans
  rw [List.map_map, List.map_map] at saved
  rw [reported]
  exact congrArg (fun list : List Nat => list.sum % 2 ^ 64) saved

/-- The dictionary of tuples takes a header and the tuples. -/
theorem Build.compositeBytes_eq (returned : build.finished.outcome = .ok report)
    (interned : build.finished.builder.layout.interned = true) :
    build.compositeBytes = dictHeaderSize +
      build.finished.builder.tuples.length * build.finished.builder.layout.valueStride := by
  obtain ⟨partitions, finishes, -⟩ := build.finishes returned
  obtain ⟨dicts, valueDict, emitter, accepted, -⟩ := writeImage_cases finishes.written
  unfold writeDictionaries at accepted
  simp only [interned, if_true] at accepted
  rw [Build.compositeBytes]
  cases written : writeValueDictionary build.finished.builder.layout
      build.finished.builder.tuples build.textEnd with
  | mk last result =>
    cases result with
    | error error =>
      rw [Build.textEnd] at written
      rw [written] at accepted
      cases accepted
    | ok entry =>
      have length := @writeValueDictionary_length build.finished.builder.layout
        build.finished.builder.tuples build.textEnd entry (by rw [written])
      rw [written] at length
      rw [length, Nat.add_sub_cancel_left]

/-- Stretches of addresses up to 255 bytes are stored as they are. -/
theorem Built.storedStretch_derived {builder : Builder} (built : Built build builder)
    (spans : ∀ entry ∈ build.log.committed, entry.addressBytes.length ≤ 255)
    {run : List StagedRow} (member : run ∈ partitionRuns builder.rows) :
    storedStretch builder run = derivedStretch builder run := by
  have small := Log.addressWidth_le spans
  have within := built.derivedStretch_le member
  rw [built.addressWidth_eq (built.committed_ne_nil member)] at within
  rw [storedStretch_eq, Nat.mod_eq_of_lt (by omega), Nat.mod_eq_of_lt (by omega)]

/-- A plan keeps the stretch that was derived. -/
theorem Built.planOf_stretch {builder : Builder} (built : Built build builder)
    (spans : ∀ entry ∈ build.log.committed, entry.addressBytes.length ≤ 255)
    {run : List StagedRow} (member : run ∈ partitionRuns builder.rows) :
    ((planOf builder run).skip, (planOf builder run).width) = derivedStretch builder run := by
  rw [planOf, planPartition_stretch, built.storedStretch_derived spans member]

/-! ### The price of a build -/

theorem Built.count_runs {builder : Builder} (built : Built build builder) :
    builder.count = ((partitionRuns builder.rows).map List.length).sum := by
  rw [built.count, ← List.length_flatten, partitionRuns_flatten]

/-- The address bytes that are priced are those of the stretches. -/
theorem Build.addressTotal_eq (built : Built build build.finished.builder)
    (fits : build.addressTotal < 2 ^ 64) :
    build.finished.builder.layout.addressBytesTotal = build.addressTotal := by
  have priced : build.finished.builder.layout.addressBytesTotal = priceAddresses
      build.finished.builder build.finished.builder.layout.addressWidth
      (partitionRuns build.finished.builder.rows) := rfl
  rw [priced, priceAddresses]
  unfold Build.addressTotal derivedStretch at *
  split
  · rename_i trims
    simp only [trims, if_true] at fits ⊢
    exact Nat.mod_eq_of_lt fits
  · rename_i whole
    simp only [whole, Bool.false_eq_true, if_false, List.sum_map_mul_right] at fits ⊢
    rw [built.count_runs]
    exact Nat.mod_eq_of_lt fits

/-- Sums of terms none of which is greater are equal where all terms are. -/
theorem sum_eq_sum_iff {Item : Type} {list : List Item} {first second : Item → Nat}
    (le : ∀ item ∈ list, first item ≤ second item) :
    (list.map first).sum = (list.map second).sum ↔ ∀ item ∈ list, first item = second item := by
  induction list with
  | nil => exact iff_of_true rfl fun item member => nomatch member
  | cons head rest inductionHypothesis =>
    have headLe := le head List.mem_cons_self
    have restLe := fun item member => le item (List.mem_cons_of_mem head member)
    have sums : (rest.map first).sum ≤ (rest.map second).sum := List.sum_le_sum restLe
    rw [List.map_cons, List.map_cons, List.sum_cons, List.sum_cons, List.forall_mem_cons,
      ← inductionHypothesis restLe]
    omega

/-- What an inline image takes for its partitions. -/
theorem Build.inline_bytes (returned : build.finished.outcome = .ok report)
    (spans : ∀ entry ∈ build.log.committed, entry.addressBytes.length ≤ 255)
    (inline : build.finished.builder.layout.interned = false) :
    build.partitionBytes = ((partitionRuns build.finished.builder.rows).map fun run =>
      run.length * (((derivedStretch build.finished.builder run).2 +
        build.finished.builder.layout.valueStride) % 2 ^ 32)).sum := by
  obtain ⟨-, -, built⟩ := build.finishes returned
  rw [build.partitionBytes_eq returned]
  refine congrArg List.sum (List.map_congr_left fun run member => ?_)
  rw [planOf, planPartition_inline inline, built.storedStretch_derived spans member]

/-- Inline, the partitions take what was priced exactly where no stride reaches 4 GiB. -/
theorem Build.inline_priced (returned : build.finished.outcome = .ok report)
    (totals : build.Totals)
    (spans : ∀ entry ∈ build.log.committed, entry.addressBytes.length ≤ 255)
    (inline : report.interned = false) :
    build.partitionBytes = report.inlineEstimate ↔ ∀ run ∈ partitionRuns
      build.finished.builder.rows, (derivedStretch build.finished.builder run).2 +
        report.valueStride < 2 ^ 32 := by
  obtain ⟨partitions, finishes, built⟩ := build.finishes returned
  obtain ⟨flag, reported⟩ := finishes.report
  have stride : report.valueStride = build.finished.builder.layout.valueStride := by
    rw [reported]
    rfl
  have form := (build.report_layout returned).1.symm.trans inline
  have fits := totals.inline
  have estimate : report.inlineEstimate = ((partitionRuns build.finished.builder.rows).map
      fun run => run.length * ((derivedStretch build.finished.builder run).2 +
        report.valueStride)).sum := by
    have addresses := build.addressTotal_eq built (by omega)
    have priced : report.inlineEstimate =
        (build.finished.builder.layout.addressBytesTotal + build.finished.builder.count *
          build.finished.builder.layout.valueStride) % 2 ^ 64 := by
      rw [reported]
      rfl
    simp only [Nat.mul_add, List.sum_map_add, List.sum_map_mul_right]
    rw [priced, addresses, Nat.mod_eq_of_lt fits, built.count_runs, stride, Build.addressTotal]
  have written := build.inline_bytes returned spans form
  rw [← stride] at written
  rw [estimate, written, sum_eq_sum_iff fun run _ => Nat.mul_le_mul_left _ (Nat.mod_le _ _)]
  refine forall₂_congr fun run member => ?_
  have some : run.length ≠ 0 := fun zero =>
    partitionRuns_ne_nil member (List.eq_nil_of_length_eq_zero zero)
  rw [Nat.mul_right_inj some]
  exact ⟨fun whole => whole ▸ Nat.mod_lt _ (by decide), Nat.mod_eq_of_lt⟩

/-- The references of one partition are not more than those of all. -/
theorem Built.references_lt {builder : Builder} (built : Built build builder) {width : Nat}
    (fits : builder.count * width < 2 ^ 64) {run : List StagedRow}
    (member : run ∈ partitionRuns builder.rows) : run.length * width < 2 ^ 64 := by
  rw [built.count_runs, ← List.sum_map_mul_right] at fits
  have part := List.single_le_sum (fun _ _ => Nat.zero_le _) _
    (List.mem_map_of_mem (f := fun run : List StagedRow => run.length * width) member)
  omega

/-- What an interned image takes for its partitions. Run by run, the bytes and the saving are the
address bytes and the global references. -/
theorem Build.interned_bytes (returned : build.finished.outcome = .ok report)
    (spans : ∀ entry ∈ build.log.committed, entry.addressBytes.length ≤ 255)
    (interned : build.finished.builder.layout.interned = true)
    (fits : build.finished.builder.count * build.finished.builder.layout.refWidth < 2 ^ 64) :
    ((partitionRuns build.finished.builder.rows).map fun run =>
        (planOf build.finished.builder run).saved).sum + build.partitionBytes =
      build.addressTotal + build.finished.builder.count *
        build.finished.builder.layout.refWidth ∧
    ((partitionRuns build.finished.builder.rows).map fun run =>
        (planOf build.finished.builder run).saved).sum =
      ((partitionRuns build.finished.builder.rows).map fun run =>
        (planRemap build.finished.builder.options build.finished.builder.layout.refWidth
          (distinctTuples run).length run.length).2).sum := by
  obtain ⟨-, -, built⟩ := build.finishes returned
  have bytes := build.partitionBytes_eq returned
  have priced {run : List StagedRow} (member : run ∈ partitionRuns build.finished.builder.rows) :=
    @planPartition_interned build.finished.builder _ run
      (storedStretch build.finished.builder run) interned
      (by rw [storedStretch_eq]; exact Nat.mod_lt _ (by decide)) (widthFor_le _)
      (built.references_lt fits member)
  constructor
  · rw [bytes, built.count_runs, ← List.sum_map_mul_right, Build.addressTotal,
      ← List.sum_map_add, ← List.sum_map_add]
    refine congrArg List.sum (List.map_congr_left fun run member => ?_)
    rw [Nat.add_comm, ← built.storedStretch_derived spans member]
    exact (priced member).2
  · exact congrArg List.sum (List.map_congr_left fun run member => (priced member).1)

/-- Interned, the partitions and the composite dictionary take what was priced. -/
theorem Build.interned_priced (returned : build.finished.outcome = .ok report)
    (totals : build.Totals)
    (spans : ∀ entry ∈ build.log.committed, entry.addressBytes.length ≤ 255)
    (interned : report.interned = true) :
    build.partitionBytes + build.compositeBytes = report.internedEstimate := by
  obtain ⟨partitions, finishes, built⟩ := build.finishes returned
  obtain ⟨flag, reported⟩ := finishes.report
  have form := (build.report_layout returned).1.symm.trans interned
  have composite := build.compositeBytes_eq returned form
  have fits := totals.interned
  obtain ⟨saved, planned⟩ := build.interned_bytes returned spans form (by omega)
  have addresses := build.addressTotal_eq built (by omega)
  have priced : report.internedEstimate =
      let whole := (build.finished.builder.layout.addressBytesTotal +
        build.finished.builder.count * build.finished.builder.layout.refWidth +
        fixedDictionarySize build.finished.builder.tuples.length
          build.finished.builder.layout.valueStride) % 2 ^ 64
      whole - min whole (priceRemaps build.finished.builder
        build.finished.builder.layout.refWidth (partitionRuns build.finished.builder.rows)) := by
    rw [reported]
    rfl
  rw [priced, composite, addresses, fixedDictionarySize, priceRemaps, ← planned]
  simp only
  rw [@Nat.mod_eq_of_lt (dictHeaderSize + _) _ (by omega), Nat.mod_eq_of_lt fits,
    @Nat.mod_eq_of_lt (List.sum _) _ (by omega)]
  omega

theorem sum_map_filter {Item : Type} (list : List Item) (chosen : Item → Bool)
    (amount : Item → Nat) : ((list.filter chosen).map amount).sum =
      (list.map fun item => if chosen item then amount item else 0).sum := by
  induction list with
  | nil => rfl
  | cons head rest inductionHypothesis =>
    rw [List.filter_cons, List.map_cons, List.sum_cons, ← inductionHypothesis]
    split
    · rw [List.map_cons, List.sum_cons]
    · exact (Nat.zero_add _).symm

/-- What the report says remapping saved is what the slots say. -/
theorem Build.remapSaved_eq (returned : build.finished.outcome = .ok report)
    (totals : build.Totals) :
    report.remapSavedBytes = ((build.directory.filter (·.schemaId ≠ 0)).map fun slot =>
      slot.count * (report.refWidth - slot.schemaId) - 4 * slot.remapCount).sum := by
  obtain ⟨partitions, finishes, built⟩ := build.finishes returned
  obtain ⟨flag, reported⟩ := finishes.report
  have saved := build.remapSaved_reported returned
  have width : report.refWidth = build.finished.builder.layout.refWidth := by
    rw [reported]
    rfl
  have fits := totals.interned
  have each {run : List StagedRow} (member : run ∈ partitionRuns build.finished.builder.rows) :=
    @Built.references_lt _ _ built build.finished.builder.layout.refWidth (by omega) run member
  rw [built.count_runs, ← List.sum_map_mul_right] at fits
  have slots : ((partitionRuns build.finished.builder.rows).map fun run =>
      (planOf build.finished.builder run).saved).sum =
        ((build.directory.filter (·.schemaId ≠ 0)).map fun slot =>
          slot.count * (report.refWidth - slot.schemaId) - 4 * slot.remapCount).sum := by
    rw [sum_map_filter]
    rw [Build.directory_map returned _ fun slot => rfl, width]
    refine congrArg List.sum (List.map_congr_left fun run member => ?_)
    simp only [decide_eq_true_eq]
    exact planPartition_saved (each member)
  have bound : ((partitionRuns build.finished.builder.rows).map fun run =>
      (planOf build.finished.builder run).saved).sum ≤
        ((partitionRuns build.finished.builder.rows).map fun run =>
          run.length * build.finished.builder.layout.refWidth).sum := by
    refine List.sum_le_sum fun run member => ?_
    rw [planOf, planPartition_saved (each member)]
    split
    · exact le_trans (Nat.sub_le _ _) (Nat.mul_le_mul_left _ (Nat.sub_le _ _))
    · exact Nat.zero_le _
  rw [saved, Nat.mod_eq_of_lt (by omega), slots]

/-- The layout that is priced is the layout that is written. -/
theorem Build.priced (returned : build.finished.outcome = .ok report) (totals : build.Totals)
    (spans : ∀ entry ∈ build.log.committed, entry.addressBytes.length ≤ 255) :
    build.Priced report := by
  obtain ⟨partitions, finishes, built⟩ := build.finishes returned
  have stretches {run : List StagedRow}
      (member : run ∈ partitionRuns build.finished.builder.rows) :=
    built.planOf_stretch spans member
  have widths : (build.directory.map fun slot => slot.addressWidth) =
      (partitionRuns build.finished.builder.rows).map fun run =>
        (derivedStretch build.finished.builder run).2 := by
    rw [Build.directory_map returned _ fun slot => rfl]
    refine List.map_congr_left fun run member => ?_
    rw [← stretches member]
    rfl
  refine
    { runs := ?_
      inline := fun inline => ?_
      interned := Build.interned_priced returned totals spans
      remapSaved := Build.remapSaved_eq returned totals
      addressBytes := ?_ }
  · rw [Build.directory_map returned _ fun slot => rfl]
    refine List.map_congr_left fun run member => ?_
    rw [← stretches member]
    rfl
  · rw [Build.inline_priced returned totals spans inline, ← List.forall_mem_map
      (P := fun width => width + report.valueStride < 2 ^ 32), ← widths, List.forall_mem_map]
  · obtain ⟨flag, reported⟩ := finishes.report
    have total : report.addressBytesTotal =
        build.finished.builder.layout.addressBytesTotal := by
      rw [reported]
      rfl
    have fits := totals.inline
    rw [total, build.addressTotal_eq built (by omega), Build.addressTotal,
      Build.directory_map returned _ fun slot => rfl]
    refine congrArg List.sum (List.map_congr_left fun run member => ?_)
    rw [← stretches member]
    rfl

end Builds

/-! ### Tuples of almost 4 GiB -/

/-- The name of a field by its number, in five digits of seven bits. -/
def numberName (i : Nat) : List UInt8 :=
  (List.range 5).map fun k => UInt8.ofNat (i / 128 ^ k % 128 + 1)

theorem numberName_digit {first second : Nat} (same : numberName first = numberName second)
    {k : Nat} (inside : k < 5) : first / 128 ^ k % 128 = second / 128 ^ k % 128 := by
  have digit := congrArg UInt8.toNat (List.map_inj_left.mp same k (List.mem_range.mpr inside))
  have bound := Nat.mod_lt (first / 128 ^ k) (by decide : 0 < 128)
  have bound' := Nat.mod_lt (second / 128 ^ k) (by decide : 0 < 128)
  rw [UInt8.toNat_ofNat_of_lt' (by change _ < 256; omega),
    UInt8.toNat_ofNat_of_lt' (by change _ < 256; omega)] at digit
  exact Nat.succ_injective digit

theorem numberName_injective {first second : Nat} (bound : first < 2 ^ 32)
    (bound' : second < 2 ^ 32) (same : numberName first = numberName second) :
    first = second := by
  have digit0 := @numberName_digit first second same 0 (by decide)
  have digit1 := @numberName_digit first second same 1 (by decide)
  have digit2 := @numberName_digit first second same 2 (by decide)
  have digit3 := @numberName_digit first second same 3 (by decide)
  have digit4 := @numberName_digit first second same 4 (by decide)
  norm_num at digit0 digit1 digit2 digit3 digit4
  omega

theorem numberName_named (i : Nat) : numberName i ≠ [] ∧ 0 ∉ numberName i := by
  rw [numberName]
  refine ⟨by simp, fun nul => ?_⟩
  obtain ⟨k, -, digit⟩ := List.mem_map.mp nul
  have bound := Nat.mod_lt (i / 128 ^ k) (by decide : 0 < 128)
  have zero := congrArg UInt8.toNat digit
  rw [UInt8.toNat_ofNat_of_lt' (by change _ < 256; omega)] at zero
  nomatch zero

/-- Fields that are named by their numbers have different names. -/
theorem numberNames_nodup {field : Nat → FieldDecl} (names : ∀ i, (field i).name = numberName i)
    {count : Nat} (bound : count < 2 ^ 32) :
    (((List.range count).map field).map FieldDecl.name).Nodup := by
  rw [List.map_map]
  refine List.Nodup.map_on (fun first member second member' same => ?_) List.nodup_range
  have inside := List.mem_range.mp member
  have inside' := List.mem_range.mp member'
  rw [Function.comp_apply, Function.comp_apply, names, names] at same
  exact numberName_injective (by omega) (by omega) same

/-- Seven bytes, and then doubles. -/
def stackedField (i : Nat) : FieldDecl :=
  if i = 0 then ⟨numberName 0, .bytes, 7⟩ else ⟨numberName i, .f64, 8⟩

theorem stackedField_name (i : Nat) : (stackedField i).name = numberName i := by
  unfold stackedField
  split
  · rename_i zero
    rw [zero]
  · rfl

def stackedSchema (doubles : Nat) (bound : doubles + 1 < 2 ^ 32) : SchemaBuilder where
  fields := (List.range (doubles + 1)).map stackedField
  named := by
    intro field member
    obtain ⟨i, -, rfl⟩ := List.mem_map.mp member
    rw [stackedField_name]
    exact numberName_named i
  distinct := numberNames_nodup stackedField_name bound
  declared := by
    intro field member
    obtain ⟨i, -, rfl⟩ := List.mem_map.mp member
    unfold stackedField
    split
    · exact ⟨by decide, by decide⟩
    · exact rfl
  length_lt := by rwa [List.length_map, List.length_range]

theorem stackedSchema_fields (doubles : Nat) (bound : doubles + 1 < 2 ^ 32) :
    (stackedSchema doubles bound).fields ≠ [] := by simp [stackedSchema]

theorem tupleEnd_packed (offset : Nat) (descs : List FieldDesc) :
    tupleEnd false offset descs = offset + (descs.map FieldDesc.width).sum := by
  induction descs generalizing offset with
  | nil => rfl
  | cons d rest inductionHypothesis =>
    rw [tupleEnd, inductionHypothesis, List.map_cons, List.sum_cons, fieldStart,
      if_neg Bool.false_ne_true, Nat.add_assoc]

theorem Built.stacked_count {build : Build} {builder : Builder}
    (built : Built build builder) {doubles : Nat} {bound : doubles + 1 < 2 ^ 32}
    (schema : builder.schema = stackedSchema doubles bound) :
    (shapeFields builder).length = doubles + 1 := by
  rw [shapeFields_length built.statCount, schema, stackedSchema, List.length_map,
    List.length_range]

/-- The stacked fields take eight bytes each but for one byte. -/
theorem Built.stacked_tupleSize {build : Build} {builder : Builder}
    (built : Built build builder) {doubles : Nat} {bound : doubles + 1 < 2 ^ 32}
    (schema : builder.schema = stackedSchema doubles bound)
    (packed : builder.options.alignFields = false) :
    tupleSize builder = 7 + 8 * doubles := by
  have fields : builder.schema.fields = (List.range (doubles + 1)).map stackedField := by
    rw [schema]
    rfl
  have widths : (shapeFields builder).map FieldDesc.width =
      builder.schema.fields.map FieldDecl.fixedWidth := by
    refine List.ext_getElem? fun i => ?_
    rw [List.getElem?_map, List.getElem?_map]
    cases declared : builder.schema.fields[i]? with
    | none =>
      have outside := List.getElem?_eq_none_iff.mp declared
      rw [← shapeFields_length built.statCount] at outside
      rw [List.getElem?_eq_none_iff.mpr outside]
      rfl
    | some decl =>
      rw [shapeFields_getElem? built.statCount declared]
      have member := List.mem_of_getElem? declared
      rw [fields] at member
      obtain ⟨j, -, rfl⟩ := List.mem_map.mp member
      unfold stackedField fieldShape shapeField
      split <;> rfl
  have total : (builder.schema.fields.map FieldDecl.fixedWidth).sum = 7 + 8 * doubles := by
    rw [fields, List.range_succ_eq_map, List.map_cons, List.map_map, List.map_cons,
      List.map_map, List.sum_cons]
    have eight : (FieldDecl.fixedWidth ∘ stackedField ∘ Nat.succ) = fun _ => 8 := by
      funext i
      rfl
    rw [eight, List.map_const', List.sum_replicate_nat, List.length_range, Nat.mul_comm doubles]
    rfl
  rw [tupleSize, packed, tupleEnd_packed, widths, total, Nat.zero_add]

end Mmpack
