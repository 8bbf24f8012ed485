/-
This file compares one build with both options that shape partitions on, and with
both off. The records and the remap tables take fewer bytes by what the report says
was saved, and everything else but the directory takes the same.

The directory is where the savings are paid for. A slot has a field more for what a
partition may depart in, and every slot has it, that of a gap too. Nothing weighs
these bytes against the savings, so an image of few records can come out longer.
-/

import Mmpack.Policies

namespace Mmpack

open ByteList Emitter Builder

/-! ### One build with and without the options -/

/-- The options with both that shape partitions on, or both off. -/
def BuildOptions.perPartition (options : BuildOptions) (both : Bool) : BuildOptions :=
  { options with partitionRemap := both, partitionAddressWidth := both }

/-- The build with both options that shape partitions on, or both off. -/
def Build.perPartition (build : Build) (both : Bool) : Build where
  schema := build.schema
  options := build.options.perPartition both
  calls := build.calls
  few := build.few
  fresh := { build.fresh with options := build.options.perPartition both }
  made := Builder.make_with build.made rfl
  builtIn := build.builtIn

/-- Twins are told apart by their options, and by nothing else the writer looks at. -/
theorem Builder.Twins.sameInput_with {splits : Bool} {first second : Builder}
    (twins : Builder.Twins splits true first second) :
    SameInput { first with options := second.options } second := by
  have equal := twins.tables rfl
  obtain ⟨_, _, _, _, _, _, _, _, same⟩ := twins.same
  refine ⟨?_, ?_, ?_, equal.tuples, ?_, twins.wide, ?_, rfl, rfl, rfl, rfl, rfl⟩ <;> rw [same]

section Options

variable {build : Build} {both other : Bool} {report report' : BuildReport}

theorem Build.perPartition_twins
    (returned : (build.perPartition both).finished.outcome = .ok report) :
    Build.Twins false true (build.perPartition both) (build.perPartition other) where
  schema := rfl
  order := rfl
  addressBits := rfl
  tables := fun _ => ⟨rfl, rfl⟩
  keyed := fun impossible => nomatch impossible
  calls := (map_styled_false build.calls _).symm
  open_ := Session.not_finish_of_running (build.perPartition both).builtIn
    ((build.perPartition both).running returned)

/-- The writer is given the same rows, and the same builder but for the two options. -/
theorem Build.perPartition_finals
    (returned : (build.perPartition both).finished.outcome = .ok report)
    (returned' : (build.perPartition other).finished.outcome = .ok report') :
    (build.perPartition other).finished.builder.rows =
        (build.perPartition both).finished.builder.rows ∧
      (build.perPartition other).finished.builder.options =
        (build.perPartition both).finished.builder.options.perPartition other ∧
      SameInput { (build.perPartition both).finished.builder with
          options := (build.perPartition other).finished.builder.options }
        (build.perPartition other).finished.builder := by
  obtain ⟨-, -, ⟨builders, -⟩, -, -⟩ :=
    (@Build.perPartition_twins _ _ other _ returned).run
  obtain ⟨partitions, finishes, built⟩ := (build.perPartition both).finishes returned
  obtain ⟨partitions', finishes', built'⟩ := (build.perPartition other).finishes returned'
  refine ⟨?_, ?_, ?_⟩
  · have perm := finishes'.perm
    rw [(builders.tables rfl).rows] at perm
    exact StagedRow.eq_of_perm (perm.trans finishes.perm.symm) finishes'.ordered finishes.ordered
  · rw [built.options, built'.options]
    rfl
  · have same := builders.sameInput_with.finishing
      (build.perPartition both).finished.builder.staging
      (build.perPartition other).finished.builder.staging
      (build.perPartition both).finished.builder.nextObject
      (build.perPartition other).finished.builder.nextObject
    rw [finishes.same, finishes'.same]
    exact same

/-- What the options do not touch of a layout. -/
structure SameForm (first second : Layout) : Prop where
  descs : second.descs = first.descs
  valueStride : second.valueStride = first.valueStride
  refWidth : second.refWidth = first.refWidth
  addressWidth : second.addressWidth = first.addressWidth
  interned : second.interned = first.interned

/-- Where the policy leaves no choice, the fields and the form are the same. -/
theorem Build.perPartition_layout (policy : build.options.valueInterning ≠ .automatic)
    (returned : (build.perPartition both).finished.outcome = .ok report)
    (returned' : (build.perPartition other).finished.outcome = .ok report') :
    SameForm (build.perPartition both).finished.builder.layout
      (build.perPartition other).finished.builder.layout := by
  obtain ⟨rows, options, same⟩ := Build.perPartition_finals returned returned'
  obtain ⟨-, -, built⟩ := (build.perPartition both).finishes returned
  have layouts := same.chooseLayout
    (same.choice rfl (build.perPartition both).finished.builder.rows)
  have chosen : (build.perPartition both).finished.builder.options.valueInterning ≠ .automatic := by
    rw [built.options]
    exact policy
  rw [Builder.layout, Builder.layout, rows, layouts, options]
  refine ⟨rfl, rfl, rfl, rfl, ?_⟩
  simp only [chooseLayout, BuildOptions.perPartition]
  cases known : (build.perPartition both).finished.builder.options.valueInterning with
  | automatic => exact absurd known chosen
  | always => rfl
  | never => rfl

end Options

/-! ### The bytes of the partitions -/

section Bytes

variable {build : Build} {report : BuildReport}

theorem planOf_of_plain {builder : Builder} (remap : builder.options.partitionRemap = false)
    (run : List StagedRow) : planOf builder run =
      { schemaId := 0, saved := 0, remapTable := []
        skip := (storedStretch builder run).1, width := (storedStretch builder run).2 } := by
  have nothing : planRemap builder.options builder.layout.refWidth (distinctTuples run).length
      run.length = (0, 0) := by
    rw [planRemap, remap]
    simp
  rw [planOf, planPartition]
  simp only [nothing]
  rw [if_neg (by simp)]

/-- With both options off, every record takes its address and what it carries. -/
theorem Built.plain_block {builder : Builder} (built : Built build builder)
    (spans : ∀ entry ∈ build.log.committed, entry.addressBytes.length ≤ 255)
    (remap : builder.options.partitionRemap = false)
    (whole : builder.options.partitionAddressWidth = false)
    (narrow : builder.layout.addressWidth + Opens.payload builder.layout < 2 ^ 32)
    {run : List StagedRow} (member : run ∈ partitionRuns builder.rows) :
    (pieceBlock builder builder.layout (run, planOf builder run)).length =
      run.length * (builder.layout.addressWidth + Opens.payload builder.layout) := by
  have stretch : derivedStretch builder run = (0, builder.layout.addressWidth) := by
    rw [derivedStretch, whole]
    rfl
  rw [pieceBlock_length, planOf_of_plain remap, built.storedStretch_derived spans member, stretch]
  simp only [PartitionPlan.stride, PartitionPlan.refWidth, List.length_nil, Nat.zero_mul,
    Nat.zero_add, ne_eq, not_true_eq_false, if_false]
  exact congrArg _ (Nat.mod_eq_of_lt narrow)

/-- With any options, a partition and its saving come to the stretch it stores and what its records
carry. -/
theorem Built.saving_block {builder : Builder} (built : Built build builder)
    (spans : ∀ entry ∈ build.log.committed, entry.addressBytes.length ≤ 255)
    (narrow : builder.layout.addressWidth + Opens.payload builder.layout < 2 ^ 32)
    (fits : builder.count * Opens.payload builder.layout < 2 ^ 64)
    {run : List StagedRow} (member : run ∈ partitionRuns builder.rows) :
    (pieceBlock builder builder.layout (run, planOf builder run)).length +
        (planOf builder run).saved =
      run.length * (derivedStretch builder run).2 + run.length * Opens.payload builder.layout ∧
    (planOf builder run).saved ≤ run.length * Opens.payload builder.layout := by
  have within := built.derivedStretch_le member
  have stored := built.storedStretch_derived spans member
  have byte : (storedStretch builder run).2 < 256 := by
    rw [storedStretch_eq]
    exact Nat.mod_lt _ (by decide)
  have here := built.references_lt fits member
  unfold Opens.payload at *
  cases form : builder.layout.interned with
  | true =>
    simp only [form, if_true] at here ⊢
    obtain ⟨-, total⟩ := @planPartition_interned builder _ run _ form byte (widthFor_le _) here
    refine ⟨by rw [planOf, total, stored], ?_⟩
    rw [planOf, planPartition_saved here]
    split
    · exact le_trans (Nat.sub_le _ _) (Nat.mul_le_mul_left _ (Nat.sub_le _ _))
    · exact Nat.zero_le _
  | false =>
    simp only [form, Bool.false_eq_true, if_false] at narrow ⊢
    have nothing : (planOf builder run).saved = 0 := by
      simp [planOf, planPartition, form]
    rw [nothing, planOf, planPartition_inline form, stored, Nat.mod_eq_of_lt (by omega),
      Nat.mul_add]
    exact ⟨rfl, Nat.zero_le _⟩

theorem SameForm.payload {first second : Layout} (form : SameForm first second) :
    Opens.payload second = Opens.payload first := by
  rw [Opens.payload, Opens.payload, form.interned, form.refWidth, form.valueStride]

/-- A partition takes no more than it does with both options off. -/
theorem Built.block_le_plain {plainBuild : Build} {tight plain : Builder}
    (built : Built build tight) (built' : Built plainBuild plain) (rows : plain.rows = tight.rows)
    (form : SameForm tight.layout plain.layout)
    (spans : ∀ entry ∈ build.log.committed, entry.addressBytes.length ≤ 255)
    (spans' : ∀ entry ∈ plainBuild.log.committed, entry.addressBytes.length ≤ 255)
    (remap : plain.options.partitionRemap = false)
    (whole : plain.options.partitionAddressWidth = false)
    (narrow : tight.layout.addressWidth + Opens.payload tight.layout < 2 ^ 32)
    (fits : tight.count * Opens.payload tight.layout < 2 ^ 64) {run : List StagedRow}
    (member : run ∈ partitionRuns tight.rows) :
    (pieceBlock tight tight.layout (run, planOf tight run)).length ≤
      (pieceBlock plain plain.layout (run, planOf plain run)).length := by
  have within := built.derivedStretch_le member
  obtain ⟨block, -⟩ := built.saving_block spans narrow fits member
  rw [← rows] at member
  have most := built'.plain_block spans' remap whole
    (by rwa [form.payload, form.addressWidth]) member
  rw [form.payload, form.addressWidth, Nat.mul_add] at most
  have trims := Nat.mul_le_mul_left run.length (le_trans (Nat.le_add_left _ _) within)
  omega

theorem Build.plain_bytes (returned : build.finished.outcome = .ok report)
    (spans : ∀ entry ∈ build.log.committed, entry.addressBytes.length ≤ 255)
    (remap : build.options.partitionRemap = false)
    (whole : build.options.partitionAddressWidth = false)
    (narrow : build.finished.builder.layout.addressWidth +
      Opens.payload build.finished.builder.layout < 2 ^ 32) :
    build.partitionBytes = build.finished.builder.count *
      (build.finished.builder.layout.addressWidth +
        Opens.payload build.finished.builder.layout) := by
  obtain ⟨-, -, built⟩ := build.finishes returned
  rw [build.partitionBytes_eq returned, built.count_runs, ← List.sum_map_mul_right]
  exact congrArg List.sum (List.map_congr_left fun run member =>
    built.plain_block spans (by rw [built.options, remap]) (by rw [built.options, whole]) narrow
      member)

/-- All partitions fall short by what remapping saves and what trimming leaves out. -/
theorem Build.saving_bytes (returned : build.finished.outcome = .ok report)
    (spans : ∀ entry ∈ build.log.committed, entry.addressBytes.length ≤ 255)
    (narrow : build.finished.builder.layout.addressWidth +
      Opens.payload build.finished.builder.layout < 2 ^ 32)
    (fits : build.finished.builder.count * Opens.payload build.finished.builder.layout < 2 ^ 64) :
    build.partitionBytes + report.remapSavedBytes = build.addressTotal +
      build.finished.builder.count * Opens.payload build.finished.builder.layout := by
  obtain ⟨-, -, built⟩ := build.finishes returned
  have bytes := build.partitionBytes_eq returned
  have reported := build.remapSaved_reported returned
  have blocks {run : List StagedRow} (member : run ∈ partitionRuns build.finished.builder.rows) :=
    built.saving_block spans narrow fits member
  have bound : ((partitionRuns build.finished.builder.rows).map fun run =>
      (planOf build.finished.builder run).saved).sum ≤
        build.finished.builder.count * Opens.payload build.finished.builder.layout := by
    rw [built.count_runs, ← List.sum_map_mul_right]
    exact List.sum_le_sum fun run member => (blocks member).2
  rw [reported, Nat.mod_eq_of_lt (lt_of_le_of_lt bound fits), bytes, Build.addressTotal,
    built.count_runs, ← List.sum_map_mul_right, ← List.sum_map_add, ← List.sum_map_add]
  exact congrArg List.sum (List.map_congr_left fun run member => (blocks member).1)

/-- The addresses of a build take no more than the full width each. -/
theorem Build.addressTotal_le (returned : build.finished.outcome = .ok report) :
    build.addressTotal ≤
      build.finished.builder.count * build.finished.builder.layout.addressWidth := by
  obtain ⟨-, -, built⟩ := build.finishes returned
  rw [Build.addressTotal, built.count_runs, ← List.sum_map_mul_right]
  refine List.sum_le_sum fun run member => Nat.mul_le_mul_left _ ?_
  have within := built.derivedStretch_le member
  omega

/-- What the report says trimming saved. -/
theorem Build.addressSaved_eq (returned : build.finished.outcome = .ok report)
    (fits : build.finished.builder.count * build.finished.builder.layout.addressWidth < 2 ^ 64) :
    build.addressTotal + report.addressSavedBytes =
      build.finished.builder.count * build.finished.builder.layout.addressWidth := by
  obtain ⟨partitions, finishes, built⟩ := build.finishes returned
  obtain ⟨flag, reported⟩ := finishes.report
  have most := build.addressTotal_le returned
  have saved : report.addressSavedBytes = (build.finished.builder.count *
      build.finished.builder.layout.addressWidth +
        (2 ^ 64 - build.finished.builder.layout.addressBytesTotal)) % 2 ^ 64 := by
    rw [reported]
    rfl
  rw [saved, build.addressTotal_eq built (by omega)]
  omega

end Bytes

/-! ### The width of a slot -/

theorem widthFor_mono {first second : Nat} (le : first ≤ second) :
    widthFor first ≤ widthFor second := by
  unfold widthFor
  split_ifs <;> omega

theorem largest_mono {first second : List Nat} (le : List.Forall₂ (· ≤ ·) first second) :
    largest first ≤ largest second := by
  refine (largest_le_iff _ _).mpr fun value member => ?_
  obtain ⟨k, inside, rfl⟩ := List.mem_iff_getElem.mp member
  have inside' := le.length_eq ▸ inside
  exact le_trans (le.get inside inside') (le_largest (List.getElem_mem inside'))

theorem largest_map_le {directory : List DirEntry} {field : DirEntry → Nat} {bound : Nat}
    (le : ∀ d ∈ directory, field d ≤ bound) : largest (directory.map field) ≤ bound := by
  refine (largest_le_iff _ _).mpr fun value member => ?_
  obtain ⟨d, inside, rfl⟩ := List.mem_map.mp member
  exact le d inside

/-- The choice of the dense form looks at the partitions only. -/
theorem useDense_congr {options other : BuildOptions} {directory directory' : List DirEntry}
    (limit : other.maxDenseSlots = options.maxDenseSlots)
    (partitions : directory'.map (·.partition) = directory.map (·.partition)) :
    useDense other directory' = useDense options directory := by
  have lengths := congrArg List.length partitions
  rw [List.length_map, List.length_map] at lengths
  have lasts := congrArg List.getLast? partitions
  rw [List.getLast?_map, List.getLast?_map] at lasts
  unfold useDense
  rw [limit, lengths]
  cases last : directory.getLast? with
  | none =>
    rw [last] at lasts
    rw [Option.map_eq_none_iff.mp lasts]
  | some d =>
    rw [last] at lasts
    obtain ⟨d', last', same⟩ := Option.map_eq_some_iff.mp lasts
    rw [last']
    simp only [same]

/-- So does the number of slots. -/
theorem denseSlots_length_congr (width : Nat) {directory directory' : List DirEntry} (next : Nat)
    (partitions : directory'.map (·.partition) = directory.map (·.partition)) :
    (denseSlots width next directory').length = (denseSlots width next directory).length := by
  induction directory generalizing directory' next with
  | nil => rw [List.map_eq_nil_iff.mp partitions]
  | cons head rest inductionHypothesis =>
    obtain ⟨head', rest', rfl, same, later⟩ := List.map_eq_cons_iff.mp partitions
    simp only [denseSlots, List.length_append, List.length_map, List.length_range',
      List.length_cons, same, inductionHypothesis _ later]

theorem directorySlots_length_congr (dense : Bool) (width : Nat)
    {directory directory' : List DirEntry}
    (partitions : directory'.map (·.partition) = directory.map (·.partition)) :
    (directorySlots dense width directory').length =
      (directorySlots dense width directory).length := by
  unfold directorySlots
  split
  · exact denseSlots_length_congr width 0 partitions
  · have lengths := congrArg List.length partitions
    rwa [List.length_map, List.length_map] at lengths

/-- A directory of the same partitions and smaller offsets has narrower slots, but for the fields
that tell of remaps and of trimming. -/
theorem directoryLayoutFor_stride_mono (dense : Bool) (addressWidth : Nat)
    {directory directory' : List DirEntry}
    (partitions : directory'.map (·.partition) = directory.map (·.partition))
    (counts : directory'.map (·.count) = directory.map (·.count))
    (offsets : List.Forall₂ (· ≤ ·) (directory.map (·.offset)) (directory'.map (·.offset)))
    {remapped trimmed : Nat}
    (remaps : ∀ d ∈ directory, d.remapCount ≤ 2 ^ 16 ∧ (remapped = 0 → d.remapCount = 0))
    (trims : trimmed = 0 →
      ∀ d ∈ directory, d.addressWidth = addressWidth ∧ d.addressSkip = 0) :
    (directoryLayoutFor dense addressWidth directory).stride ≤
      (directoryLayoutFor dense addressWidth directory').stride +
        ((if remapped = 0 then 0 else 5) + if trimmed = 0 then 0 else 2) := by
  have offset := widthFor_mono (largest_mono offsets)
  have remap : (if largest (directory.map (·.remapCount)) ≠ 0 then 1 else 0) +
      (if largest (directory.map (·.remapCount)) ≠ 0
        then widthFor (largest (directory.map (·.remapCount))) else 0) ≤
        if remapped = 0 then 0 else 5 := by
    by_cases zero : remapped = 0
    · have none : largest (directory.map (·.remapCount)) = 0 := by
        exact Nat.le_zero.mp (largest_map_le fun d inside =>
          Nat.le_of_eq ((remaps d inside).2 zero))
      rw [none]
      simp
    · have bound : largest (directory.map (·.remapCount)) ≤ 2 ^ 16 :=
        largest_map_le fun d inside => (remaps d inside).1
      have width := widthFor_mono bound
      have four : widthFor (2 ^ 16) = 4 := by decide
      rw [if_neg zero]
      split_ifs <;> omega
  have trim : (if (directory.any fun d => d.addressWidth ≠ addressWidth) = true then 1 else 0) +
      (if largest (directory.map (·.addressSkip)) ≠ 0 then 1 else 0) ≤
        if trimmed = 0 then 0 else 2 := by
    by_cases zero : trimmed = 0
    · have whole : (directory.any fun d => d.addressWidth ≠ addressWidth) = false := by
        simpa using fun d inside => (trims zero d inside).1
      have none : largest (directory.map (·.addressSkip)) = 0 := by
        exact Nat.le_zero.mp (largest_map_le fun d inside =>
          Nat.le_of_eq (trims zero d inside).2)
      rw [whole, none]
      simp
    · rw [if_neg zero]
      split_ifs <;> omega
  simp only [directoryLayoutFor, makeDirLayout, partitions, counts]
  omega

/-! ### The bytes of the directory -/

/-- A size with the padding behind it. -/
def padded (size : Nat) : Nat := 8 * ((size + 7) / 8)

theorem schemaStart_length {builder : Builder} {layout : Layout} {directory : List DirEntry}
    {emitter : Emitter} (exact' : emitter.Exact)
    (short : (schemaStart builder layout directory emitter).out.length + 8 ≤ 2 ^ 64) :
    (schemaStart builder layout directory emitter).out.length =
      (emitter.padTo 8).out.length +
        padded ((directorySlots (useDense builder.options directory) layout.addressWidth
          directory).length * (directoryLayoutFor (useDense builder.options directory)
            layout.addressWidth directory).stride) := by
  have start := padTo_exact exact' 8
  have before := (schemaStart_extends builder layout directory emitter).length_le
  have opened := (padTo_extends emitter 8).length_le
  have aligned := padTo_length exact' (by omega)
  unfold schemaStart at *
  simp only at *
  generalize directorySlots _ layout.addressWidth directory = slots at *
  generalize directoryLayoutFor _ layout.addressWidth directory = dir at *
  have walked : (writeSlots dir slots (emitter.padTo 8)).out.length =
      (emitter.padTo 8).out.length + slots.length * dir.stride := by
    rw [writeSlots_eq, @emitAll_length _ _ dir.stride (by simp [encodeDirEntry_length]),
      List.length_map]
  have written : (writeSlots dir slots (emitter.padTo 8)).Exact := by
    rw [writeSlots_eq]
    exact emitAll_exact start _
  have within := (padTo_extends (writeSlots dir slots (emitter.padTo 8)) 8).length_le
  rw [padTo_length written (by omega), walked, padded]
  omega

theorem Build.directoryStride_eq {build : Build} {report : BuildReport}
    (returned : build.finished.outcome = .ok report) :
    report.directoryStride = (directoryLayoutFor (useDense build.options build.directory)
      build.finished.builder.layout.addressWidth build.directory).stride := by
  obtain ⟨partitions, finishes, built⟩ := build.finishes returned
  obtain ⟨flag, reported⟩ := finishes.report
  rw [reported, (build.walked finishes).directory, ← built.options]
  rfl

/-- The directory takes its slots and their padding. -/
theorem Build.directoryBytes_eq {build : Build} {report : BuildReport}
    (returned : build.finished.outcome = .ok report)
    (short : build.finished.image.length < 2 ^ 64) :
    directoryBytes build.finished.image = padded (build.slots.length * report.directoryStride) := by
  obtain ⟨partitions, finishes, built⟩ := build.finishes returned
  obtain ⟨dicts, valueDict, -, dirOffset, schemaOffset, whole⟩ := Build.image_tail returned short
  have room : schemaHeaderSize + footerSize = 104 := rfl
  rw [directoryBytes, dirOffset, schemaOffset,
    schemaStart_length (build.walked finishes).last (by omega), Nat.add_sub_cancel_left,
    Build.directoryStride_eq returned, Build.slots, built.options]

/-! ### The directories of both builds -/

theorem entriesFrom_mono {first second : Builder} {layout layout' : Layout}
    {pieces pieces' : List Piece}
    (blocks : List.Forall₂ (fun piece piece' => (pieceBlock first layout piece).length ≤
      (pieceBlock second layout' piece').length) pieces pieces') {start start' : Nat}
    (le : start ≤ start') :
    List.Forall₂ (· ≤ ·) ((entriesFrom first layout start pieces).map (·.offset))
      ((entriesFrom second layout' start' pieces').map (·.offset)) := by
  induction blocks generalizing start start' with
  | nil => exact .nil
  | cons block _ inductionHypothesis =>
    exact .cons le (inductionHypothesis (Nat.add_le_add le block))

section Directories

variable {build : Build} {report report' : BuildReport}

/-- What the options cost in the directory: up to five bytes a slot where a partition is remapped,
and up to two where one is trimmed. -/
def BuildReport.slotCost (report : BuildReport) : Nat :=
  (if report.remappedPartitions = 0 then 0 else 5) +
    if report.narrowedPartitions = 0 then 0 else 2

/-- What a slot says beside the full one is counted by the report. -/
theorem Build.departs (returned : build.finished.outcome = .ok report) {d : DirEntry}
    (member : d ∈ build.directory) :
    (d.remapCount ≤ 2 ^ 16 ∧ (report.remappedPartitions = 0 → d.remapCount = 0)) ∧
      (report.narrowedPartitions = 0 →
        d.addressWidth = build.finished.builder.layout.addressWidth ∧ d.addressSkip = 0) := by
  obtain ⟨partitions, finishes, built⟩ := build.finishes returned
  obtain ⟨flag, reported⟩ := finishes.report
  have plans := (build.walked finishes).plans
  obtain ⟨run, inRuns, same⟩ := Build.run_of_slot returned member
  have remapCount : (planOf build.finished.builder run).remapTable.length % 2 ^ 32 =
      d.remapCount := congrArg DirEntry.remapCount same
  have width : (planOf build.finished.builder run).width = d.addressWidth :=
    congrArg DirEntry.addressWidth same
  have skip : (planOf build.finished.builder run).skip = d.addressSkip :=
    congrArg DirEntry.addressSkip same
  have kind := planPartition_kind build.finished.builder build.finished.builder.layout run
    (storedStretch build.finished.builder run)
  have stretch := planPartition_stretch build.finished.builder build.finished.builder.layout run
    (storedStretch build.finished.builder run)
  rw [← planOf] at kind stretch
  refine ⟨⟨?_, fun none => ?_⟩, fun whole => ?_⟩
  · rw [← remapCount]
    cases kind with
    | plain schemaId remapTable =>
      rw [remapTable]
      exact Nat.zero_le _
    | remapped interned positive small remapTable some fits =>
      have power : 256 ^ (planOf build.finished.builder run).schemaId ≤ 256 ^ 2 :=
        Nat.pow_le_pow_right (by decide) small
      rw [remapTable]
      omega
  · have global : (planOf build.finished.builder run).schemaId = 0 := by
      have inPlans := List.mem_map_of_mem (f := planOf build.finished.builder) inRuns
      rw [← plans] at inPlans
      obtain ⟨partition, inside, same⟩ := List.mem_map.mp inPlans
      have counted : (partitions.countP fun partition => partition.2.schemaId ≠ 0) = 0 := by
        rw [reported] at none
        exact none
      rw [← same]
      simpa using List.countP_eq_zero.mp counted partition inside
    cases kind with
    | plain schemaId remapTable =>
      rw [← remapCount, remapTable]
      rfl
    | remapped interned positive small remapTable some fits => omega
  · have counted : (build.finished.builder.layout.stretches.countP fun stretch =>
        decide (stretch.2 ≠ build.finished.builder.layout.addressWidth) ||
          decide (stretch.1 ≠ 0)) = 0 := by
      rw [reported] at whole
      exact whole
    have inside : storedStretch build.finished.builder run ∈
        build.finished.builder.layout.stretches := by
      rw [layout_stretches]
      exact List.mem_map_of_mem inRuns
    have full := List.countP_eq_zero.mp counted _ inside
    rw [← stretch] at full
    rw [← width, ← skip]
    simpa using full

/-- The directory has the same slots with the options on as off, in a stride that is greater by no
more than their cost. -/
theorem Build.perPartition_directory
    (returned : (build.perPartition true).finished.outcome = .ok report)
    (returned' : (build.perPartition false).finished.outcome = .ok report')
    (widths : (build.perPartition false).finished.builder.layout.addressWidth =
      (build.perPartition true).finished.builder.layout.addressWidth)
    (offsets : List.Forall₂ (· ≤ ·) ((build.perPartition true).directory.map (·.offset))
      ((build.perPartition false).directory.map (·.offset))) :
    (build.perPartition true).slots.length = (build.perPartition false).slots.length ∧
      report.directoryStride ≤ report'.directoryStride + report.slotCost := by
  obtain ⟨rows, -, -⟩ := Build.perPartition_finals returned returned'
  have runs : (build.perPartition false).directory.map (·.partition) =
      (build.perPartition true).directory.map (·.partition) := by
    rw [Build.directory_map returned _ fun slot => rfl,
      Build.directory_map returned' _ fun slot => rfl, rows]
    rfl
  have counts : (build.perPartition false).directory.map (·.count) =
      (build.perPartition true).directory.map (·.count) := by
    rw [Build.directory_map returned _ fun slot => rfl,
      Build.directory_map returned' _ fun slot => rfl, rows]
    rfl
  have dense : useDense (build.perPartition false).options (build.perPartition false).directory =
      useDense (build.perPartition true).options (build.perPartition true).directory :=
    useDense_congr rfl runs
  constructor
  · rw [Build.slots, Build.slots, dense, widths]
    exact (directorySlots_length_congr _ _ runs).symm
  · rw [Build.directoryStride_eq returned, Build.directoryStride_eq returned', dense, widths]
    exact directoryLayoutFor_stride_mono _ _ runs counts offsets
      (fun d member => (Build.departs returned member).1)
      fun whole d member => (Build.departs returned member).2 whole

end Directories

/-! ### Both images -/

section Images

variable {build : Build} {report report' : BuildReport}

/-- What a build comes to with both options on, beside the same one with both off. -/
structure Economy (tight plain : Build) (report report' : BuildReport) : Prop where
  partitions : tight.partitionBytes + report.addressSavedBytes + report.remapSavedBytes =
    plain.partitionBytes
  slots : tight.slots.length = plain.slots.length
  stride : report.directoryStride ≤ report'.directoryStride + report.slotCost
  balance : report.imageBytes + padded plain.partitionBytes +
      padded (plain.slots.length * report'.directoryStride) =
    report'.imageBytes + padded tight.partitionBytes +
      padded (tight.slots.length * report.directoryStride)
  bound : report.imageBytes ≤ report'.imageBytes + padded (tight.slots.length * report.slotCost)

/-- Beside the partitions and the directory, both images take the same. -/
theorem Build.perPartition_balance (policy : build.options.valueInterning ≠ .automatic)
    (returned : (build.perPartition true).finished.outcome = .ok report)
    (returned' : (build.perPartition false).finished.outcome = .ok report')
    (short : (build.perPartition true).finished.image.length < 2 ^ 64)
    (short' : (build.perPartition false).finished.image.length < 2 ^ 64) :
    (build.perPartition false).partitionStart.out.length =
        (build.perPartition true).partitionStart.out.length ∧
      report.imageBytes + padded (build.perPartition false).partitionBytes +
          directoryBytes (build.perPartition false).finished.image =
        report'.imageBytes + padded (build.perPartition true).partitionBytes +
          directoryBytes (build.perPartition true).finished.image := by
  obtain ⟨-, -, same⟩ := Build.perPartition_finals returned returned'
  obtain ⟨descs, valueStride, -, -, interned⟩ :=
    Build.perPartition_layout policy returned returned'
  have measured := Build.measured returned short
  have measured' := Build.measured returned' short'
  obtain ⟨form, -⟩ := (build.perPartition true).report_layout returned
  obtain ⟨form', -⟩ := (build.perPartition false).report_layout returned'
  have chosen : report'.interned = report.interned := by rw [form, form', interned]
  have fields : (build.perPartition false).finished.builder.schema =
      (build.perPartition true).finished.builder.schema := same.schema
  have blobs : (build.perPartition false).finished.builder.textDicts =
      (build.perPartition true).finished.builder.textDicts := same.textDicts
  have texts : (build.perPartition false).textEnd = (build.perPartition true).textEnd := by
    rw [Build.textEnd, Build.textEnd, blobs]
  have dicts : (build.perPartition false).dictionariesEnd.out.length =
      (build.perPartition true).dictionariesEnd.out.length := by
    cases known : report.interned with
    | true =>
      have composite := Build.compositeBytes_eq returned (form ▸ known)
      have composite' := Build.compositeBytes_eq returned' (form' ▸ chosen.trans known)
      rw [measured.interned known, measured'.interned (chosen.trans known), texts,
        composite, composite', same.tuples, valueStride]
    | false =>
      rw [measured.inline known, measured'.inline (chosen.trans known), texts]
  have start : (build.perPartition false).partitionStart.out.length =
      (build.perPartition true).partitionStart.out.length := by
    rw [measured.partitions, measured'.partitions, dicts]
  have schemas : (build.perPartition false).schemaBytes =
      (build.perPartition true).schemaBytes := by
    rw [Build.schemaBytes, Build.schemaBytes, descs, blobs, fields]
  have aligned := measured.partitions
  rw [measured.imageBytes_eq, measured'.imageBytes_eq, schemas, start, chosen, padded, padded]
  exact ⟨rfl, by omega⟩

/-- Where no partition takes more, none lies later. -/
theorem Build.perPartition_offsets
    (returned : (build.perPartition true).finished.outcome = .ok report)
    (returned' : (build.perPartition false).finished.outcome = .ok report')
    (blocks : ∀ run ∈ partitionRuns (build.perPartition true).finished.builder.rows,
      (pieceBlock (build.perPartition true).finished.builder
        (build.perPartition true).finished.builder.layout
        (run, planOf (build.perPartition true).finished.builder run)).length ≤
      (pieceBlock (build.perPartition false).finished.builder
        (build.perPartition false).finished.builder.layout
        (run, planOf (build.perPartition false).finished.builder run)).length)
    (start : (build.perPartition false).partitionStart.out.length =
      (build.perPartition true).partitionStart.out.length)
    (inImage : (build.perPartition false).partitionStart.out.length +
      (build.perPartition false).partitionBytes < 2 ^ 64) :
    List.Forall₂ (· ≤ ·) ((build.perPartition true).directory.map (·.offset))
      ((build.perPartition false).directory.map (·.offset)) := by
  obtain ⟨rows, -, -⟩ := Build.perPartition_finals returned returned'
  obtain ⟨partitions, finishes, -⟩ := (build.perPartition true).finishes returned
  obtain ⟨partitions', finishes', -⟩ := (build.perPartition false).finishes returned'
  have walked := Build.walked finishes
  have walked' := Build.walked finishes'
  have length := walked.length
  have length' := walked'.length
  have bytes : (build.perPartition true).partitionBytes ≤
      (build.perPartition false).partitionBytes := by
    rw [walked.bytes, walked'.bytes, rows]
    exact List.sum_le_sum blocks
  rw [walked.slots (by omega), walked'.slots (by omega), rows]
  exact entriesFrom_mono (List.forall₂_map_left_iff.mpr (List.forall₂_map_right_iff.mpr
    (List.forall₂_same.mpr blocks))) (Nat.le_of_eq start.symm)

/-- The options pay in the partitions for what they cost in the directory, or not. -/
theorem Build.perPartition_economy (policy : build.options.valueInterning ≠ .automatic)
    (returned : (build.perPartition true).finished.outcome = .ok report)
    (returned' : (build.perPartition false).finished.outcome = .ok report')
    (short : (build.perPartition true).finished.image.length < 2 ^ 64)
    (short' : (build.perPartition false).finished.image.length < 2 ^ 64)
    (spans : ∀ entry ∈ (build.perPartition true).log.committed, entry.addressBytes.length ≤ 255)
    (narrow : (report'.addressWidth +
      if report'.interned then report'.refWidth else report'.valueStride) < 2 ^ 32) :
    Economy (build.perPartition true) (build.perPartition false) report report' := by
  obtain ⟨rows, -, same⟩ := Build.perPartition_finals returned returned'
  obtain ⟨-, sameLog, -⟩ := (@Build.perPartition_twins _ _ false _ returned).run
  obtain ⟨partitions, finishes, built⟩ := (build.perPartition true).finishes returned
  obtain ⟨partitions', finishes', built'⟩ := (build.perPartition false).finishes returned'
  have form := Build.perPartition_layout policy returned returned'
  have spans' := spans
  rw [← sameLog] at spans'
  obtain ⟨start, balance⟩ := Build.perPartition_balance policy returned returned' short short'
  rw [Build.directoryBytes_eq returned short, Build.directoryBytes_eq returned' short'] at balance
  have count : (build.perPartition false).finished.builder.count =
      (build.perPartition true).finished.builder.count := same.count
  have narrow' : (build.perPartition false).finished.builder.layout.addressWidth +
      Opens.payload (build.perPartition false).finished.builder.layout < 2 ^ 32 := by
    obtain ⟨flag, reported⟩ := finishes'.report
    rw [reported] at narrow
    exact narrow
  have plain := Build.plain_bytes returned' spans' rfl rfl narrow'
  have inImage := Build.partitions_lt returned' short'
  rw [form.payload, form.addressWidth, count, Nat.mul_add] at plain
  rw [form.payload, form.addressWidth] at narrow'
  have tight := Build.saving_bytes returned spans narrow' (by omega)
  have trimmed := Build.addressSaved_eq returned (by omega)
  have saved : (build.perPartition true).partitionBytes + report.addressSavedBytes +
      report.remapSavedBytes = (build.perPartition false).partitionBytes := by
    omega
  have offsets := Build.perPartition_offsets returned returned' (fun run member =>
    built.block_le_plain built' rows form spans spans' (by rw [built'.options]; rfl)
      (by rw [built'.options]; rfl) narrow' (by omega) member) start inImage
  obtain ⟨slots, stride⟩ :=
    Build.perPartition_directory returned returned' form.addressWidth offsets
  refine ⟨saved, slots, stride, balance, ?_⟩
  have grows : (build.perPartition true).slots.length * report.directoryStride ≤
      (build.perPartition true).slots.length * report'.directoryStride +
        (build.perPartition true).slots.length * report.slotCost := by
    rw [← Nat.mul_add]
    exact Nat.mul_le_mul_left _ stride
  rw [← slots] at balance
  unfold padded at balance ⊢
  omega

end Images

/-- Two inline records, three slots, and one byte of address to spare. -/
def spacedBuild : Build :=
  Build.of numberSchema { BuildOptions.default with valueInterning := .never }
    [.beginRecordAt 0 257, .commit 0, .beginRecordAt 2 1, .commit 1]
    numberSchema_fields BuildOptions.default_addressBits (by decide) (by decide)

theorem spaced_economy : ∃ report report',
    (spacedBuild.perPartition true).finished.outcome = .ok report ∧
      (spacedBuild.perPartition false).finished.outcome = .ok report' ∧
      Economy (spacedBuild.perPartition true) (spacedBuild.perPartition false) report
        report' := by
  obtain ⟨report, returned⟩ :=
    (spacedBuild.perPartition true).exists_report (by decide +kernel)
  obtain ⟨report', returned'⟩ :=
    (spacedBuild.perPartition false).exists_report (by decide +kernel)
  have small : (spacedBuild.perPartition false).finished.outcome.toOption.map (fun report =>
      report.addressWidth + if report.interned then report.refWidth else report.valueStride) =
        some 3 := by decide +kernel
  rw [returned'] at small
  exact ⟨report, report', returned, returned', Build.perPartition_economy (by decide) returned
    returned' (by decide +kernel) (by decide +kernel) (by decide +kernel)
    (lt_of_eq_of_lt (Option.some.inj small) (by decide))⟩

/-- The width of a stretch takes a byte of every slot, and saves one byte. -/
theorem spaced_loses : spacedBuild.options.valueInterning = .never ∧ ∃ report report',
    (spacedBuild.perPartition true).finished.outcome = .ok report ∧
      (spacedBuild.perPartition false).finished.outcome = .ok report' ∧
      report.imageBytes = 170 ∧ report'.imageBytes = 162 := by
  obtain ⟨report, returned⟩ :=
    (spacedBuild.perPartition true).exists_report (by decide +kernel)
  obtain ⟨report', returned'⟩ :=
    (spacedBuild.perPartition false).exists_report (by decide +kernel)
  have bytes : (spacedBuild.perPartition true).finished.outcome.toOption.map (·.imageBytes) =
      some 170 := by decide +kernel
  have bytes' : (spacedBuild.perPartition false).finished.outcome.toOption.map (·.imageBytes) =
      some 162 := by decide +kernel
  rw [returned] at bytes
  rw [returned'] at bytes'
  exact ⟨by decide, report, report', returned, returned', Option.some.inj bytes,
    Option.some.inj bytes'⟩

end Mmpack
