/-
This file counts the slots of a directory. The form of the directory is decided by a
64-bit sum, the index of the last partition and one. Below the top of the range the
sum is exact and the slots stay within the bounds the decision promises; at the top
it wraps around to zero and the dense form is chosen whatever the bounds.

Nothing here supposes that the image fits a memory: the directories that do not are
those it is about.
-/

import Mmpack.Decoded

namespace Mmpack

open ByteList Emitter

/-! ### What a build emits -/

/-- The different partitions of a log. -/
def Log.partitions (log : Log) : List UInt64 := (log.committed.map (·.partition)).dedup

namespace Build

/-- The partitions with records, as `write_image` leaves them. -/
def directory (build : Build) : List DirEntry :=
  match (writeImage build.finished.builder build.finished.builder.layout
      build.finished.builder.rows).2 with
  | .ok partitions => partitions.map Prod.fst
  | .error _ => []

/-- The slots emitted for them. -/
def slots (build : Build) : List DirEntry :=
  directorySlots (useDense build.options build.directory)
    build.finished.builder.layout.addressWidth build.directory

/-- The footer, read from the last bytes of the image. -/
def foot (build : Build) : Footer :=
  Footer.parse (slice build.finished.image (build.finished.image.length - footerSize) footerSize)

/-- The image says that its directory is dense. -/
def Dense (build : Build) : Prop := build.foot.flags &&& denseDirectoryFlag ≠ 0

end Build

/-! ### Dense directories -/

section DenseSlots

variable {next : Nat} {directory : List DirEntry}

/-- A dense directory ends with its last partition, below the top of the range. -/
theorem denseSlots_length (width : Nat) (ascending : Ascending next directory) {last : DirEntry}
    (isLast : directory.getLast? = some last) (below : last.partition + 1 < 2 ^ 64) :
    next + (denseSlots width next directory).length = last.partition + 1 := by
  induction directory generalizing next with
  | nil => nomatch isLast
  | cons head rest inductionHypothesis =>
    have start := ascending.above head List.mem_cons_self
    rw [denseSlots, List.length_append, List.length_map, List.length_range', List.length_cons]
    cases rest with
    | nil =>
      obtain rfl : head = last := Option.some.inj isLast
      rw [denseSlots, List.length_nil]
      omega
    | cons second rest =>
      rw [List.getLast?_cons_cons] at isLast
      have tail := inductionHypothesis ascending.tail isLast
      have order := (List.pairwise_cons.mp ascending.increasing).1 last
        (List.mem_of_getLast? isLast)
      rw [Nat.mod_eq_of_lt (by omega)] at tail ⊢
      omega

theorem le_getLast_of_increasing (ascending : Ascending next directory) {last d : DirEntry}
    (isLast : directory.getLast? = some last) (member : d ∈ directory) :
    d.partition ≤ last.partition := by
  obtain ⟨front, rfl⟩ := List.getLast?_eq_some_iff.mp isLast
  have apart := List.pairwise_append.mp ascending.increasing
  rcases List.mem_append.mp member with earlier | here
  · exact Nat.le_of_lt (apart.2.2 d earlier last List.mem_cons_self)
  · rw [List.mem_singleton.mp here]

end DenseSlots

/-- What the choice of the dense form says. -/
theorem useDense_iff {options : BuildOptions} {last : DirEntry}
    (isLast : directory.getLast? = some last) : useDense options directory = true ↔
      (last.partition + 1) % 2 ^ 64 ≤ options.maxDenseSlots.toNat ∧
        (last.partition + 1) % 2 ^ 64 ≤ (directory.length * 4 + 16) % 2 ^ 64 := by
  rw [useDense, isLast]
  simp only [Bool.and_eq_true, decide_eq_true_eq]

/-! ### The footer -/

/-- The tail of an image ends with its slots, its schema and its footer. -/
theorem writeTail_out (builder : Builder) (layout : Layout) (dicts : List DictEntry)
    (valueDict : Nat) (directory : List DirEntry) (emitter : Emitter) :
    ∃ before middle : List UInt8,
      let dense := useDense builder.options directory
      (writeTail builder layout dicts valueDict directory emitter).out = before ++
        ((directorySlots dense layout.addressWidth directory).map (encodeDirEntry
          (directoryLayoutFor dense layout.addressWidth directory))).flatten ++ middle ++
        (tailFoot builder layout dicts valueDict directory emitter).encode := by
  obtain ⟨gap, -, schemaOut⟩ := schemaStart_out builder layout directory emitter
  obtain ⟨schema, footOut⟩ := footStart_extends builder layout dicts valueDict directory emitter
  refine ⟨(emitter.padTo 8).out, gap ++ schema, ?_⟩
  rw [writeTail_eq, emit, write, footOut, schemaOut]
  simp only [List.append_assoc]

/-- The slots written are those of the runs in order, each placed where the counter stood. -/
theorem writePartitions_places {builder : Builder} {layout : Layout}
    (runs : List (List StagedRow)) (stretches : List (Nat × Nat)) {emitter : Emitter}
    (bound : emitter.pos < 2 ^ 64) {partitions : List (DirEntry × PartitionPlan)}
    (accepted : (writePartitions builder layout runs stretches emitter).2 = .ok partitions) :
    runs.length = stretches.length ∧
      List.Forall₂ (fun d part => ∃ place < 2 ^ 64,
        d = slotOf (planPartition builder layout part.1 part.2) (partitionOfRun part.1) place
          part.1.length) (partitions.map Prod.fst) (runs.zip stretches) := by
  induction runs generalizing stretches emitter partitions with
  | nil =>
    cases stretches with
    | nil =>
      obtain rfl := Except.ok.inj accepted
      exact ⟨rfl, .nil⟩
    | cons stretch stretches => cases accepted
  | cons run runs inductionHypothesis =>
    cases stretches with
    | nil => cases accepted
    | cons stretch stretches =>
      simp only [writePartitions] at accepted
      rw [writeRemapTable_eq, writeRecords_eq] at accepted
      split at accepted
      · rename_i rest written
        obtain rfl := Except.ok.inj accepted
        obtain ⟨lengths, later⟩ := @inductionHypothesis stretches _
          (emitAll_pos_lt (emitAll_pos_lt bound _) _) rest (by rw [written])
        refine ⟨?_, .cons ⟨emitter.pos, bound, rfl⟩ later⟩
        rw [List.length_cons, List.length_cons, lengths]
      · cases accepted

/-- What does not depend on the place of a slot is said of its run. -/
theorem writePartitions_map {builder : Builder} {layout : Layout} {runs : List (List StagedRow)}
    {stretches : List (Nat × Nat)} {emitter : Emitter} (bound : emitter.pos < 2 ^ 64)
    {partitions : List (DirEntry × PartitionPlan)}
    (accepted : (writePartitions builder layout runs stretches emitter).2 = .ok partitions)
    {Result : Type} (read : DirEntry → Result)
    (placeless : ∀ slot, read { slot with offset := 0 } = read slot) :
    (partitions.map Prod.fst).map read = (runs.zip stretches).map fun part => read (slotOf
      (planPartition builder layout part.1 part.2) (partitionOfRun part.1) 0 part.1.length) := by
  obtain ⟨-, places⟩ := writePartitions_places runs stretches bound accepted
  refine List.forall₂_eq_eq_eq ▸ List.forall₂_map_left_iff.mpr (List.forall₂_map_right_iff.mpr
    (places.imp ?_))
  rintro d part ⟨place, -, rfl⟩
  exact (placeless _).symm

/-- The slots of the partitions are those of the runs, in order. -/
theorem writePartitions_partitions {builder : Builder} {layout : Layout}
    {runs : List (List StagedRow)} {stretches : List (Nat × Nat)} {emitter : Emitter}
    (bound : emitter.pos < 2 ^ 64) {partitions : List (DirEntry × PartitionPlan)}
    (accepted : (writePartitions builder layout runs stretches emitter).2 = .ok partitions) :
    (partitions.map Prod.fst).map DirEntry.partition =
      runs.map fun run => (partitionOfRun run).toNat := by
  obtain ⟨lengths, -⟩ := writePartitions_places runs stretches bound accepted
  rw [writePartitions_map bound accepted _ fun slot => rfl]
  have zipped := List.map_fst_zip (Nat.le_of_eq lengths)
  conv_rhs => rw [← zipped, List.map_map]
  rfl

section Emitted

variable (build : Build) {report : BuildReport}

/-- The image of a build holds its slots, and ends with the footer that counts them. -/
theorem Build.emits_slots (returned : build.finished.outcome = .ok report) :
    (∃ layout before after, build.finished.image =
      before ++ (build.slots.map (encodeDirEntry layout)).flatten ++ after) ∧
    build.foot.flags = (if useDense build.options build.directory then denseDirectoryFlag else 0) ∧
      build.foot.dirCount = build.slots.length % 2 ^ 64 := by
  obtain ⟨partitions, finishes, built⟩ := build.finishes returned
  have directory : build.directory = partitions.map Prod.fst := by
    rw [Build.directory, Builder.layout, finishes.written]
  obtain ⟨dicts, valueDict, emitter, -, -, -, image⟩ := writeImage_cases finishes.written
  rw [← directory] at image
  generalize (writePartitions _ _ _ _ emitter).1 = after at image
  obtain ⟨before, middle, out⟩ := writeTail_out build.finished.builder
    build.finished.builder.layout dicts valueDict build.directory after
  have fits := tailFoot_fits build.finished.builder build.finished.builder.layout dicts valueDict
    build.directory after
  have bytes := finishes.image.symm.trans ((congrArg Emitter.out image).trans out)
  have footer : build.foot = tailFoot build.finished.builder build.finished.builder.layout dicts
      valueDict build.directory after := by
    rw [Build.foot, bytes]
    exact Footer.parse_end fits _
  rw [footer, tailFoot, built.options]
  rw [built.options] at bytes
  exact ⟨⟨_, _, _, bytes.trans (List.append_assoc _ _ _)⟩, rfl, rfl⟩

theorem Built.partitions_eq {builder : Builder} (built : Built build builder) :
    builder.rows.map (·.partition) = build.log.sorted.map (·.partition) :=
  List.forall₂_eq_eq_eq ▸ List.forall₂_map_left_iff.mpr (List.forall₂_map_right_iff.mpr
    (built.stages.imp fun _ _ staged => staged.partition))

/-- No two runs are of one partition. -/
theorem Built.runs_nodup {builder : Builder} (built : Built build builder) :
    ((partitionRuns builder.rows).map partitionOfRun).Nodup :=
  List.pairwise_map.mpr ((runs_increasing built.ordered).imp fun less same => by
    rw [same] at less
    exact Nat.lt_irrefl _ less)

/-- There is a run for every partition committed to. -/
theorem Built.runs_perm {builder : Builder} (built : Built build builder) :
    ((partitionRuns builder.rows).map partitionOfRun).Perm build.log.partitions := by
  have sorted : (build.log.sorted.map (·.partition)).Perm
      (build.log.committed.map (·.partition)) := (List.perm_insertionSort _ _).map _
  refine (List.perm_ext_iff_of_nodup (built.runs_nodup build) (List.nodup_dedup _)).mpr
    fun partition => ?_
  rw [List.mem_dedup, ← sorted.mem_iff, ← built.partitions_eq]
  constructor
  · intro member
    obtain ⟨run, inRuns, rfl⟩ := List.mem_map.mp member
    obtain ⟨row, inside⟩ := List.exists_mem_of_ne_nil run (partitionRuns_ne_nil inRuns)
    refine List.mem_map.mpr ⟨row, ?_, partition_of_run inRuns inside⟩
    rw [← partitionRuns_flatten builder.rows]
    exact List.mem_flatten_of_mem inRuns inside
  · intro member
    obtain ⟨row, inRows, rfl⟩ := List.mem_map.mp member
    rw [← partitionRuns_flatten builder.rows] at inRows
    obtain ⟨run, inRuns, inside⟩ := List.mem_flatten.mp inRows
    exact List.mem_map.mpr ⟨run, inRuns, (partition_of_run inRuns inside).symm⟩

/-- The directory has a slot for every partition committed to, in order. -/
theorem Build.directory_spec (returned : build.finished.outcome = .ok report) :
    Ascending 0 build.directory ∧ build.directory.length = build.log.partitions.length ∧
      build.directory.length < 2 ^ 64 ∧
      ∀ partition : UInt64, partition ∈ build.log.partitions ↔
        ∃ d ∈ build.directory, d.partition = partition.toNat := by
  obtain ⟨partitions, finishes, built⟩ := build.finishes returned
  have directory : build.directory = partitions.map Prod.fst := by
    rw [Build.directory, Builder.layout, finishes.written]
  obtain ⟨dicts, valueDict, emitter, -, start, recorded, -⟩ := writeImage_cases finishes.written
  have bound : emitter.pos < 2 ^ 64 := start ▸ Nat.mod_lt _ (Nat.two_pow_pos 64)
  have runs := writePartitions_partitions bound recorded
  rw [← directory] at runs
  have increasing := List.pairwise_map.mpr (runs_increasing built.ordered)
  rw [← runs] at increasing
  have count : build.directory.length = (partitionRuns build.finished.builder.rows).length := by
    have lengths := congrArg List.length runs
    rwa [List.length_map, List.length_map] at lengths
  refine ⟨⟨List.pairwise_map.mp increasing, fun _ _ => Nat.zero_le _, fun d member => ?_⟩, ?_, ?_,
    fun partition => ?_⟩
  · have inRuns := List.mem_map_of_mem (f := DirEntry.partition) member
    rw [runs] at inRuns
    obtain ⟨run, -, same⟩ := List.mem_map.mp inRuns
    rw [← same]
    exact UInt64.toNat_lt _
  · rw [count, ← (built.runs_perm build).length_eq, List.length_map]
  · have fewer : build.log.partitions.length ≤ build.log.committed.length := by
      rw [← @List.length_map _ _ build.log.committed (·.partition)]
      exact (List.dedup_sublist _).length_le
    have few := lt_of_le_of_lt build.committed_length_le build.few
    rw [count, ← @List.length_map _ _ (partitionRuns _) partitionOfRun,
      (built.runs_perm build).length_eq]
    omega
  · rw [← (built.runs_perm build).mem_iff, ← List.mem_map, runs]
    simp only [List.mem_map, UInt64.toNat_inj]

/-- The image says dense where the dense form was chosen. -/
theorem Build.dense_iff (returned : build.finished.outcome = .ok report) :
    build.Dense ↔ useDense build.options build.directory = true := by
  obtain ⟨-, flags, -⟩ := build.emits_slots returned
  rw [Dense, flags]
  cases useDense build.options build.directory <;> simp [denseDirectoryFlag]

/-- A record of the last of all partitions makes the sum wrap around to zero. -/
theorem Build.dense_of_top (returned : build.finished.outcome = .ok report)
    {entry : Committed} (member : entry ∈ build.log.committed)
    (top : entry.partition.toNat = 2 ^ 64 - 1) : build.Dense := by
  obtain ⟨ascending, -, -, partitions⟩ := build.directory_spec returned
  have inLog : entry.partition ∈ build.log.partitions :=
    List.mem_dedup.mpr (List.mem_map_of_mem member)
  obtain ⟨d, inDirectory, same⟩ := (partitions _).mp inLog
  rw [top] at same
  rw [build.dense_iff returned]
  cases isLast : build.directory.getLast? with
  | none =>
    rw [List.getLast?_eq_none_iff.mp isLast] at inDirectory
    nomatch inDirectory
  | some last =>
    have order := le_getLast_of_increasing ascending isLast inDirectory
    have inRange := ascending.below last (List.mem_of_getLast? isLast)
    have wraps : (last.partition + 1) % 2 ^ 64 = 0 := by omega
    rw [useDense_iff isLast, wraps]
    exact ⟨Nat.zero_le _, Nat.zero_le _⟩

/-- The dense form is chosen within its bounds, the slots stay within them, and the footer counts
the slots. -/
structure Build.Bounded (build : Build) : Prop where
  dense : build.Dense → ∀ partition ∈ build.log.partitions,
    partition.toNat + 1 ≤ build.options.maxDenseSlots.toNat ∧
      partition.toNat + 1 ≤ 4 * build.log.partitions.length + 16
  slots : build.slots.length ≤ max build.log.partitions.length
    (min build.options.maxDenseSlots.toNat (4 * build.log.partitions.length + 16))
  dirCount : build.foot.dirCount = build.slots.length

/-- They are and do exactly when no record is committed to the last of all partitions. -/
theorem Build.bounded_iff (returned : build.finished.outcome = .ok report) :
    build.Bounded ↔ ∀ entry ∈ build.log.committed, entry.partition.toNat ≠ 2 ^ 64 - 1 := by
  obtain ⟨-, -, dirCount⟩ := build.emits_slots returned
  obtain ⟨ascending, count, few, partitions⟩ := build.directory_spec returned
  constructor
  · intro bounded entry member top
    have inLog : entry.partition ∈ build.log.partitions :=
      List.mem_dedup.mpr (List.mem_map_of_mem member)
    have limit := (bounded.dense (build.dense_of_top returned member top) _ inLog).1
    have small := build.options.maxDenseSlots.toNat_lt
    omega
  · intro below
    suffices bounds : (useDense build.options build.directory = true →
        ∀ partition ∈ build.log.partitions,
          partition.toNat + 1 ≤ build.options.maxDenseSlots.toNat ∧
            partition.toNat + 1 ≤ 4 * build.directory.length + 16) ∧
        build.slots.length ≤ max build.directory.length
          (min build.options.maxDenseSlots.toNat (4 * build.directory.length + 16)) ∧
        build.slots.length % 2 ^ 64 = build.slots.length by
      rw [← build.dense_iff returned, count, ← dirCount] at bounds
      exact ⟨bounds.1, bounds.2.1, bounds.2.2⟩
    unfold Build.slots
    cases chosen : useDense build.options build.directory with
    | false =>
      rw [directorySlots, if_neg Bool.false_ne_true]
      exact ⟨fun other => absurd other Bool.false_ne_true, Nat.le_max_left _ _,
        Nat.mod_eq_of_lt few⟩
    | true =>
      cases isLast : build.directory.getLast? with
      | none =>
        rw [useDense, isLast] at chosen
        nomatch chosen
      | some last =>
        obtain ⟨within, spread⟩ := (useDense_iff isLast).mp chosen
        have inDirectory := List.mem_of_getLast? isLast
        have inRange := ascending.below last inDirectory
        have notTop : last.partition + 1 < 2 ^ 64 := by
          have inLog := (partitions (UInt64.ofNat last.partition)).mpr
            ⟨last, inDirectory, (UInt64.toNat_ofNat_of_lt' inRange).symm⟩
          obtain ⟨entry, member, same⟩ := List.mem_map.mp (List.mem_dedup.mp inLog)
          have other := below entry member
          rw [same, UInt64.toNat_ofNat_of_lt' inRange] at other
          omega
        have length := denseSlots_length (build.finished.builder.layout.addressWidth) ascending
          isLast notTop
        rw [Nat.mod_eq_of_lt notTop] at within spread
        have bound : last.partition + 1 ≤ 4 * build.directory.length + 16 :=
          le_trans spread (le_trans (Nat.mod_le _ _) (by omega))
        rw [directorySlots, if_pos rfl]
        refine ⟨fun _ partition inLog => ?_, ?_, Nat.mod_eq_of_lt (by omega)⟩
        · obtain ⟨d, member, same⟩ := (partitions partition).mp inLog
          have order := le_getLast_of_increasing ascending isLast member
          omega
        · omega

/-- One field. -/
def numberSchema : SchemaBuilder where
  fields := [⟨[0x76], .uint, 0⟩]
  named := by decide
  distinct := by decide
  declared := by simp [FieldKind.Declares]
  length_lt := by decide

theorem numberSchema_fields : numberSchema.fields ≠ [] := by decide

def denseSample : Build :=
  Build.of numberSchema .default
    [.beginRecordAt 2 0, .commit 0, .beginRecordAt 5 7, .commit 1]
    numberSchema_fields BuildOptions.default_addressBits (by decide) (by decide)

theorem denseSample_length_lt : denseSample.finished.image.length < 2 ^ 64 := by decide +kernel

theorem sample_bounded : denseSample.Bounded := by
  obtain ⟨report, returned⟩ := denseSample.exists_report (by decide +kernel)
  exact (denseSample.bounded_iff returned).mpr (by decide +kernel)

/-- One record, of the last of all partitions. -/
def topSample : Build :=
  Build.of numberSchema .default [.beginRecordAt 0xffffffffffffffff 0, .commit 0]
    numberSchema_fields BuildOptions.default_addressBits (by decide) (by decide)

/-- Its directory is dense, from partition zero on. -/
theorem sample_not_bounded : topSample.finished.outcome.isOk = true ∧ ¬ topSample.Bounded := by
  have returns : topSample.finished.outcome.isOk = true := by decide +kernel
  obtain ⟨report, returned⟩ := topSample.exists_report returns
  have committed : topSample.log.committed = [⟨0xffffffffffffffff, 0, [], []⟩] := by
    decide +kernel
  have partitions : topSample.log.partitions = [0xffffffffffffffff] := by decide +kernel
  have limit : topSample.options.maxDenseSlots = 0x100000 := by decide +kernel
  refine ⟨returns, fun bounded => ?_⟩
  have dense := topSample.dense_of_top returned
    (by rw [committed]; exact List.mem_singleton_self _) (by decide)
  have bound := (bounded.dense dense 0xffffffffffffffff (by rw [partitions]; decide)).1
  rw [limit] at bound
  exact absurd bound (by decide)

end Emitted

end Mmpack
