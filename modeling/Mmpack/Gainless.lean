/-
This file is about the two options that shape partitions, where they gain nothing. A
build that was told to remap its references and remapped no partition, or to trim its
addresses and narrowed none, writes byte for byte what it writes with that option off:
what an option costs in the directory is paid where it is used, and nowhere else.
-/

import Mmpack.Savings

namespace Mmpack

open ByteList Emitter Builder

/-! ### One build under other settings -/

/-- The options with other settings for the shape of partitions. -/
def BuildOptions.partitioned (options : BuildOptions) (remap trim : Bool) : BuildOptions :=
  { options with partitionRemap := remap, partitionAddressWidth := trim }

/-- The build with other settings for the shape of partitions. -/
def Build.partitioned (build : Build) (remap trim : Bool) : Build where
  schema := build.schema
  options := build.options.partitioned remap trim
  calls := build.calls
  few := build.few
  fresh := { build.fresh with options := build.options.partitioned remap trim }
  made := Builder.make_with build.made rfl
  builtIn := build.builtIn

/-- The builder with other settings for the shape of partitions. -/
def Builder.partitioned (builder : Builder) (remap trim : Bool) : Builder :=
  { builder with options := builder.options.partitioned remap trim }

/-! ### Trimming -/

section Trimming

variable {build : Build} {builder : Builder}

/-- Where no partition is narrowed, every stretch is the whole field. -/
theorem Built.stretchOf_of_idle (built : Built build builder)
    (trims : builder.options.partitionAddressWidth = true)
    (idle : builder.layout.narrowedPartitions = 0) {run : List StagedRow}
    (member : run ∈ partitionRuns builder.rows) :
    stretchOf builder run = (0, builder.layout.addressWidth) ∧
      builder.layout.addressWidth < 2 ^ 8 := by
  have within := built.derivedStretch_le member
  rw [derivedStretch, if_pos trims] at within
  have narrowed : (builder.layout.stretches.countP fun stretch =>
      decide (stretch.2 ≠ builder.layout.addressWidth) || decide (stretch.1 ≠ 0)) = 0 := idle
  have stored : storedStretch builder run ∈ builder.layout.stretches := by
    rw [layout_stretches]
    exact List.mem_map_of_mem member
  have whole := List.countP_eq_zero.mp narrowed _ stored
  rw [storedStretch, if_pos trims] at whole
  simp only [Bool.or_eq_true, decide_eq_true_eq, not_or, not_not] at whole
  obtain ⟨width, skip⟩ := whole
  have byte := Nat.mod_lt (stretchOf builder run).2 (Nat.two_pow_pos 8)
  have least := Nat.mod_le (stretchOf builder run).2 (2 ^ 8)
  exact ⟨Prod.ext (by omega) (by omega), by omega⟩

/-- So the stretches are those of a build that does not trim. -/
theorem Built.chooseStretches_of_idle (built : Built build builder)
    (trims : builder.options.partitionAddressWidth = true)
    (idle : builder.layout.narrowedPartitions = 0) (remap : Bool) :
    chooseStretches (builder.partitioned remap false) builder.layout.addressWidth
        (partitionRuns builder.rows) = builder.layout.stretches := by
  rw [layout_stretches]
  refine List.map_congr_left fun run member => ?_
  obtain ⟨whole, -⟩ := built.stretchOf_of_idle trims idle member
  rw [storedStretch, if_pos trims, whole]
  rfl

/-- And the addresses cost the same. -/
theorem Built.priceAddresses_of_idle (built : Built build builder)
    (trims : builder.options.partitionAddressWidth = true)
    (idle : builder.layout.narrowedPartitions = 0) (remap : Bool) :
    priceAddresses (builder.partitioned remap false) builder.layout.addressWidth
        (partitionRuns builder.rows) = builder.layout.addressBytesTotal := by
  have priced : builder.layout.addressBytesTotal =
      priceAddresses builder builder.layout.addressWidth (partitionRuns builder.rows) := rfl
  have widths : (partitionRuns builder.rows).map (fun run =>
      run.length * (stretchOf builder run).2) = (partitionRuns builder.rows).map fun run =>
        run.length * builder.layout.addressWidth :=
    List.map_congr_left fun run member => by
      rw [(built.stretchOf_of_idle trims idle member).1]
  rw [priced, priceAddresses, priceAddresses, if_pos trims, widths, List.sum_map_mul_right,
    ← built.count_runs]
  rfl

end Trimming

/-! ### Remapping -/

section Remapping

variable {options : BuildOptions} {refWidth distinctHere count : Nat}

/-- Without the option nothing is remapped. -/
theorem planRemap_off (off : options.partitionRemap = false) :
    planRemap options refWidth distinctHere count = (0, 0) := by
  rw [planRemap, if_pos (Or.inl off)]

/-- A plan that leaves the references as they are saves nothing. -/
theorem planRemap_of_plain (plain : (planRemap options refWidth distinctHere count).1 = 0) :
    planRemap options refWidth distinctHere count = (0, 0) := by
  unfold planRemap at plain ⊢
  split
  · rfl
  · simp only
    split
    · rfl
    · split
      · rfl
      · rename_i worth narrow pays
        simp only [if_neg worth, if_neg narrow, if_neg pays] at plain
        exact absurd plain (Nat.ne_of_gt (widthFor_pos _))

end Remapping

/-! ### The layout and the image -/

attribute [ext] Layout

section Layouts

variable {build : Build} {builder : Builder}

/-- What a partition is planned as is what the plan is written by. -/
theorem writePartitions_congr {second : Builder} {layout layout' : Layout}
    {runs : List (List StagedRow)}
    (plans : ∀ run ∈ runs, ∀ stretch,
      planPartition second layout' run stretch = planPartition builder layout run stretch)
    (records : encodeRecord second layout' = encodeRecord builder layout)
    (stretches : List (Nat × Nat)) (emitter : Emitter) :
    writePartitions second layout' runs stretches emitter =
      writePartitions builder layout runs stretches emitter := by
  induction runs generalizing stretches emitter with
  | nil => cases stretches <;> rfl
  | cons run runs inductionHypothesis =>
    cases stretches with
    | nil => rfl
    | cons stretch stretches =>
      have rest := inductionHypothesis fun other member =>
        plans other (List.mem_cons_of_mem _ member)
      rw [writePartitions, writePartitions, plans run List.mem_cons_self]
      simp only [writeRecords_eq, records, rest]

/-- A composite dictionary does not show what its tuples were estimated at. -/
theorem writeDictionaries_estimate (builder : Builder) (layout : Layout) (estimate : Nat)
    (remap trim : Bool) (emitter : Emitter) :
    writeDictionaries (builder.partitioned remap trim)
        { layout with internedEstimate := estimate } emitter =
      writeDictionaries builder layout emitter := by
  have tuples (list : List (List UInt64)) (start : Emitter) :
      writeTuples { layout with internedEstimate := estimate } list start =
        writeTuples layout list start := by
    induction list generalizing start with
    | nil => rfl
    | cons tuple rest inductionHypothesis => exact inductionHypothesis _
  unfold writeDictionaries writeValueDictionary
  simp only [tuples]
  rfl

/-- Settings that plan the same partitions write the same image. -/
theorem writeImage_of_plans (builder : Builder) (layout : Layout) (estimate : Nat)
    (remap trim : Bool) {rows : List StagedRow}
    (plans : ∀ run ∈ partitionRuns rows, ∀ stretch,
      planPartition (builder.partitioned remap trim) layout run stretch =
        planPartition builder layout run stretch) :
    writeImage (builder.partitioned remap trim) { layout with internedEstimate := estimate } rows =
      writeImage builder layout rows := by
  have parts := @writePartitions_congr builder (builder.partitioned remap trim) layout
    { layout with internedEstimate := estimate } (partitionRuns rows) plans rfl
  unfold writeImage
  simp only [writeDictionaries_estimate, parts]
  rfl

/-- A partition of an interned image keeps its references where nothing would be saved. -/
theorem planRemap_of_schemaId {run : List StagedRow} (interned : builder.layout.interned = true)
    (plain : (planOf builder run).schemaId = 0) :
    planRemap builder.options builder.layout.refWidth (distinctTuples run).length run.length =
      (0, 0) := by
  refine planRemap_of_plain ?_
  by_contra remapped
  rw [planOf, planPartition, if_pos ⟨interned, remapped⟩] at plain
  exact remapped plain

/-- A setting is left as it was, or turned off where it gains nothing. -/
structure Idle (builder : Builder) (remap trim : Bool) : Prop where
  remap : remap = builder.options.partitionRemap ∨ remap = false ∧
    ∀ run ∈ partitionRuns builder.rows, (planOf builder run).schemaId = 0
  trim : trim = builder.options.partitionAddressWidth ∨ trim = false ∧
    builder.layout.narrowedPartitions = 0

variable {remap trim : Bool}

/-- The stretches and their price are the same. -/
theorem Idle.stretches (idle : Idle builder remap trim) (built : Built build builder) :
    chooseStretches (builder.partitioned remap trim) builder.layout.addressWidth
        (partitionRuns builder.rows) = builder.layout.stretches ∧
      priceAddresses (builder.partitioned remap trim) builder.layout.addressWidth
        (partitionRuns builder.rows) = builder.layout.addressBytesTotal := by
  rcases idle.trim with rfl | ⟨rfl, none⟩
  · exact ⟨rfl, rfl⟩
  · cases trims : builder.options.partitionAddressWidth with
    | true =>
      exact ⟨built.chooseStretches_of_idle trims none remap,
        built.priceAddresses_of_idle trims none remap⟩
    | false =>
      rw [layout_stretches, show builder.layout.addressBytesTotal =
        priceAddresses builder builder.layout.addressWidth (partitionRuns builder.rows) from rfl]
      constructor
      · unfold chooseStretches storedStretch
        rw [trims]
        rfl
      · unfold priceAddresses
        rw [trims]
        rfl

/-- What remapping saves is no more than before, and the same where the image is interned. -/
theorem Idle.saved (idle : Idle builder remap trim) :
    priceRemaps (builder.partitioned remap trim) builder.layout.refWidth
        (partitionRuns builder.rows) ≤
      priceRemaps builder builder.layout.refWidth (partitionRuns builder.rows) ∧
    (builder.layout.interned = true →
      priceRemaps (builder.partitioned remap trim) builder.layout.refWidth
          (partitionRuns builder.rows) =
        priceRemaps builder builder.layout.refWidth (partitionRuns builder.rows)) := by
  rcases idle.remap with same | ⟨rfl, none⟩
  · have plans : priceRemaps (builder.partitioned remap trim) = priceRemaps builder := by
      funext refWidth runs
      rw [priceRemaps, priceRemaps, planRemap_congr (show
        (builder.partitioned remap trim).options.partitionRemap =
          builder.options.partitionRemap from same)]
    rw [plans]
    exact ⟨Nat.le_refl _, fun _ => rfl⟩
  · have off : priceRemaps (builder.partitioned false trim) builder.layout.refWidth
        (partitionRuns builder.rows) = 0 := by
      rw [priceRemaps, List.map_congr_left fun run _ => congrArg Prod.snd (planRemap_off rfl)]
      simp
    rw [off]
    refine ⟨Nat.zero_le _, fun interned => Eq.symm ?_⟩
    rw [priceRemaps, List.map_congr_left fun run member =>
      congrArg Prod.snd (planRemap_of_schemaId interned (none run member))]
    simp

/-- Partitions are planned as before. -/
theorem Idle.plans (idle : Idle builder remap trim) :
    ∀ run ∈ partitionRuns builder.rows, ∀ stretch,
      planPartition (builder.partitioned remap trim) builder.layout run stretch =
        planPartition builder builder.layout run stretch := by
  intro run member stretch
  rcases idle.remap with same | ⟨rfl, none⟩
  · rw [planPartition, planPartition, planRemap_congr (show
      (builder.partitioned remap trim).options.partitionRemap =
        builder.options.partitionRemap from same)]
  · rw [planPartition, planPartition, planRemap_off rfl]
    cases interned : builder.layout.interned with
    | true => rw [planRemap_of_schemaId interned (none run member)]
    | false => simp

/-- An image is interned where the policy says so, or has the choice and finds it cheaper. -/
theorem chooseLayout_interned_iff (builder : Builder) (rows : List StagedRow) :
    (chooseLayout builder rows).interned = true ↔ builder.options.valueInterning = .always ∨
      builder.options.valueInterning = .automatic ∧
        (chooseLayout builder rows).internedEstimate <
          (chooseLayout builder rows).inlineEstimate := by
  unfold chooseLayout
  cases builder.options.valueInterning <;> simp

/-- The layout is the same, but for what interning is estimated at. -/
theorem Idle.layout (idle : Idle builder remap trim) (built : Built build builder) :
    ∃ estimate, chooseLayout (builder.partitioned remap trim) builder.rows =
      { builder.layout with internedEstimate := estimate } := by
  obtain ⟨stretches, addresses⟩ := idle.stretches built
  obtain ⟨less, equal⟩ := idle.saved
  have inline : (chooseLayout (builder.partitioned remap trim) builder.rows).inlineEstimate =
      builder.layout.inlineEstimate :=
    congrArg (fun bytes => (bytes + builder.count * builder.layout.valueStride) % 2 ^ 64) addresses
  -- What interning is estimated at can only rise, and does not where it was chosen.
  have before : builder.layout.internedEstimate =
      (builder.layout.addressBytesTotal + builder.count * builder.layout.refWidth +
          fixedDictionarySize builder.tuples.length builder.layout.valueStride) % 2 ^ 64 -
        min ((builder.layout.addressBytesTotal + builder.count * builder.layout.refWidth +
            fixedDictionarySize builder.tuples.length builder.layout.valueStride) % 2 ^ 64)
          (priceRemaps builder builder.layout.refWidth (partitionRuns builder.rows)) := rfl
  have after : (chooseLayout (builder.partitioned remap trim) builder.rows).internedEstimate =
      (builder.layout.addressBytesTotal + builder.count * builder.layout.refWidth +
          fixedDictionarySize builder.tuples.length builder.layout.valueStride) % 2 ^ 64 -
        min ((builder.layout.addressBytesTotal + builder.count * builder.layout.refWidth +
            fixedDictionarySize builder.tuples.length builder.layout.valueStride) % 2 ^ 64)
          (priceRemaps (builder.partitioned remap trim) builder.layout.refWidth
            (partitionRuns builder.rows)) := by
    rw [← addresses]
    rfl
  have rises : builder.layout.internedEstimate ≤
      (chooseLayout (builder.partitioned remap trim) builder.rows).internedEstimate := by
    rw [before, after]
    omega
  have stays (interned : builder.layout.interned = true) :
      (chooseLayout (builder.partitioned remap trim) builder.rows).internedEstimate =
        builder.layout.internedEstimate := by
    rw [before, after, equal interned]
  have choice : (chooseLayout (builder.partitioned remap trim) builder.rows).interned =
      builder.layout.interned := by
    rw [Bool.eq_iff_iff, chooseLayout_interned_iff, chooseLayout_interned_iff, inline]
    refine or_congr_right (and_congr_right fun automatic =>
      ⟨fun cheaper => Nat.lt_of_le_of_lt rises cheaper, fun cheaper => ?_⟩)
    have chosen := (chooseLayout_interned_iff builder builder.rows).mpr
      (Or.inr ⟨automatic, cheaper⟩)
    rw [stays chosen]
    exact cheaper
  refine ⟨(chooseLayout (builder.partitioned remap trim) builder.rows).internedEstimate, ?_⟩
  refine Layout.ext rfl rfl rfl stretches rfl choice ?_ ?_ addresses ?_ inline rfl
  · exact congrArg (fun interned => (builder.layout.addressWidth +
      if interned = true then builder.layout.refWidth else builder.layout.valueStride) % 2 ^ 32)
      choice
  · exact congrArg (List.countP fun stretch : Nat × Nat =>
      decide (stretch.2 ≠ builder.layout.addressWidth) || decide (stretch.1 ≠ 0)) stretches
  · exact congrArg (fun bytes =>
      (builder.count * builder.layout.addressWidth + (2 ^ 64 - bytes)) % 2 ^ 64) addresses

/-- So is the image. -/
theorem Idle.image (idle : Idle builder remap trim) (built : Built build builder) :
    writeImage (builder.partitioned remap trim)
        (chooseLayout (builder.partitioned remap trim) builder.rows) builder.rows =
      writeImage builder builder.layout builder.rows := by
  obtain ⟨estimate, layout⟩ := idle.layout built
  rw [layout]
  exact writeImage_of_plans builder builder.layout estimate remap trim idle.plans

end Layouts

/-! ### Builds -/

section Builds

variable {build : Build} {remap trim remap' trim' : Bool} {report : BuildReport}

/-- The report tells which settings are idle. -/
theorem Build.idle (returned : build.finished.outcome = .ok report)
    (remaps : remap = build.options.partitionRemap ∨
      remap = false ∧ report.remappedPartitions = 0)
    (trims : trim = build.options.partitionAddressWidth ∨
      trim = false ∧ report.narrowedPartitions = 0) :
    Idle build.finished.builder remap trim := by
  obtain ⟨partitions, finishes, built⟩ := build.finishes returned
  obtain ⟨flag, reported⟩ := finishes.report
  rw [reported] at remaps trims
  rw [← built.options] at remaps trims
  refine ⟨remaps.imp_right fun ⟨off, unused⟩ => ⟨off, fun run member => ?_⟩, trims⟩
  have counted : (partitions.countP fun partition => decide (partition.2.schemaId ≠ 0)) = 0 :=
    unused
  have planned : planOf build.finished.builder run ∈ partitions.map Prod.snd := by
    rw [(build.walked finishes).plans]
    exact List.mem_map_of_mem member
  obtain ⟨partition, inside, same⟩ := List.mem_map.mp planned
  have plain := List.countP_eq_zero.mp counted partition inside
  rw [same, decide_eq_true_eq, not_not] at plain
  exact plain

/-- Under other settings the same calls leave the same rows, and the writer the same builder. -/
theorem Build.partitioned_finals
    (returned : (build.partitioned remap trim).finished.outcome = .ok report) :
    (build.partitioned remap' trim').session.builder.Sound ∧
      (build.partitioned remap' trim').session.builder.finished = false ∧
      (build.partitioned remap' trim').session.builder.Orderable ∧
      StagedRow.sortRows (build.partitioned remap' trim').session.builder.rows =
        (build.partitioned remap trim).finished.builder.rows ∧
      (build.partitioned remap' trim').session.builder.mode =
        (build.partitioned remap trim).finished.builder.mode ∧
      (build.partitioned remap' trim').session.builder.options.valueInterning =
        (build.partitioned remap trim).finished.builder.options.valueInterning ∧
      ∀ staging nextObject, SameInput
        ((build.partitioned remap trim).finished.builder.partitioned remap' trim')
        { (build.partitioned remap' trim').session.builder with
          staging, finished := true, nextObject } := by
  have twins : Build.Twins false true (build.partitioned remap trim)
      (build.partitioned remap' trim') :=
    { schema := rfl
      order := rfl
      addressBits := rfl
      tables := fun _ => ⟨rfl, rfl⟩
      keyed := fun impossible => nomatch impossible
      calls := (map_styled_false build.calls _).symm
      open_ := Session.not_finish_of_running (build.partitioned remap trim).builtIn
        ((build.partitioned remap trim).running returned) }
  obtain ⟨-, -, ⟨builders, -⟩, tracks, tracks'⟩ := twins.run
  obtain ⟨partitions, finishes, built⟩ := (build.partitioned remap trim).finishes returned
  have rows := (builders.tables rfl).rows
  refine ⟨tracks'.sound, tracks'.running, ?_, ?_, ?_, ?_, fun staging nextObject => ?_⟩
  · rcases finish_rows tracks.sound tracks.running with ⟨-, ⟨error, thrown⟩, -⟩ | ⟨orderable, -⟩
    · rw [Build.finished, thrown] at returned
      cases returned
    · rwa [Orderable, rows, builders.order]
  · rw [rows]
    exact StagedRow.eq_of_perm ((StagedRow.sortRows_perm _).trans finishes.perm.symm)
      ((StagedRow.sortRows_before_iff _).mpr
        ((finishes.perm.map StagedRow.place).nodup_iff.mp (pairwise_nodup finishes.ordered)))
      finishes.ordered
  · rw [finishes.same]
    exact builders.mode
  · rw [built.options, tracks'.options]
    rfl
  · have same := builders.sameInput_with.finishing
      (build.partitioned remap trim).finished.builder.staging staging
      (build.partitioned remap trim).finished.builder.nextObject nextObject
    have options :
        (build.partitioned remap trim).finished.builder.options.partitioned remap' trim' =
          (build.partitioned remap' trim').session.builder.options := by
      rw [built.options, tracks'.options]
      rfl
    rw [Builder.partitioned, options, finishes.same]
    exact same

/-- An option that gains nothing may be left out: turning off the remapping of references where no
partition was remapped, and the trimming of addresses where none was narrowed, leaves the image as
it is, byte for byte. -/
theorem Build.gainless
    (returned : (build.partitioned remap trim).finished.outcome = .ok report)
    (remaps : remap' = remap ∨ remap' = false ∧ report.remappedPartitions = 0)
    (trims : trim' = trim ∨ trim' = false ∧ report.narrowedPartitions = 0) :
    (build.partitioned remap' trim').finished.outcome.isOk = true ∧
      (build.partitioned remap' trim').finished.image =
        (build.partitioned remap trim).finished.image := by
  obtain ⟨partitions, finishes, built⟩ := (build.partitioned remap trim).finishes returned
  obtain ⟨sound, running, orderable, rows, mode, policy, finals⟩ :=
    @Build.partitioned_finals build remap trim remap' trim' _ returned
  have idle := (build.partitioned remap trim).idle returned remaps trims
  have written := finishes.written
  have image := finishes.image
  rw [← idle.image built] at written image
  rcases finish_rows sound running with ⟨disordered, -⟩ | ⟨-, staging, nextObject, image',
    outcome', -⟩
  · exact absurd orderable disordered
  · have same := finals staging nextObject
    rw [rows, same.chooseLayout (same.choice policy _), same.writeImage mode] at image' outcome'
    rw [written] at outcome'
    exact ⟨outcome', image'.trans image⟩

end Builds

theorem sample_gainless :
    (sampleBuild.partitioned false false).finished.outcome.isOk = true ∧
      (sampleBuild.partitioned false false).finished.image =
        (sampleBuild.partitioned true true).finished.image := by
  obtain ⟨report, returned⟩ := (sampleBuild.partitioned true true).exists_report (by decide +kernel)
  have idle : (sampleBuild.partitioned true true).finished.outcome.toOption.map (fun report =>
      (report.remappedPartitions, report.narrowedPartitions)) = some (0, 0) := by decide +kernel
  rw [returned] at idle
  obtain ⟨remapped, narrowed⟩ := Prod.mk.inj (Option.some.inj idle)
  exact Build.gainless returned (Or.inr ⟨rfl, remapped⟩) (Or.inr ⟨rfl, narrowed⟩)

end Mmpack
