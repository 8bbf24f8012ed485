/-
This file is about the buffers that tuples and records are put together in. Their
sizes are 32-bit sums, so a record of 4 GiB or more has a buffer that is too short
for it, and is written past the end. What was priced is what is written exactly where
no store ends past a buffer.
-/

import Mmpack.Costs

namespace Mmpack

open ByteList Builder

/-! ### Where the stores of a tuple end -/

/-- Where the last byte of a tuple is stored, with every place cut to 32 bits. -/
def storedEnd (align : Bool) : Nat → List FieldDesc → Nat
  | offset, [] => offset % 2 ^ 32
  | offset, d :: rest =>
    max (fieldStart align offset d.width % 2 ^ 32 + d.width)
      (storedEnd align (fieldStart align offset d.width + d.width) rest)

section Places

variable {align : Bool} {offset most : Nat} {descs : List FieldDesc}

/-- Below some end are the placed fields and the tuple itself. -/
theorem storedEnd_le_iff (narrow : Narrow descs)
    (bound : offset + 8 * descs.length + 16 ≤ 2 ^ 64) :
    storedEnd align offset descs ≤ most ↔
      (placeFields align (offset % 2 ^ 32) descs).2 ≤ most ∧
        InTuple (placeFields align (offset % 2 ^ 32) descs).1 most := by
  induction descs generalizing offset with
  | nil => exact ⟨fun within => ⟨within, fun _ member => nomatch member⟩, fun both => both.1⟩
  | cons d rest inductionHypothesis =>
    obtain ⟨positive, small⟩ := narrow.head
    rw [List.length_cons] at bound
    obtain ⟨-, -, high⟩ := fieldStart_spec align offset positive small (by omega)
    rw [placeFields_cons align offset positive small (by omega), storedEnd, Nat.max_le,
      inductionHypothesis narrow.tail (by omega)]
    unfold InTuple
    rw [List.forall_mem_cons]
    exact and_left_comm

/-- Tuples shorter than 4 GiB are stored as far as they go. -/
theorem storedEnd_eq (narrow : Narrow descs) (bound : offset + 8 * descs.length + 16 ≤ 2 ^ 64)
    (short : tupleEnd align offset descs < 2 ^ 32) :
    storedEnd align offset descs = tupleEnd align offset descs := by
  induction descs generalizing offset with
  | nil => exact Nat.mod_eq_of_lt short
  | cons d rest inductionHypothesis =>
    obtain ⟨positive, small⟩ := narrow.head
    rw [List.length_cons] at bound
    obtain ⟨low, -, high⟩ := fieldStart_spec align offset positive small (by omega)
    obtain ⟨after, -⟩ := le_tupleEnd align
      (fieldStart align offset d.width + d.width) narrow.tail (by omega)
    rw [tupleEnd] at short ⊢
    rw [storedEnd, inductionHypothesis narrow.tail (by omega) short, Nat.mod_eq_of_lt (by omega)]
    exact Nat.max_eq_right after

/-- In a longer tuple some store ends at 4 GiB, or so shortly before it that the next field is
aligned to start there. -/
theorem le_storedEnd (narrow : Narrow descs) (bound : offset + 8 * descs.length + 16 ≤ 2 ^ 64)
    (start : offset < 2 ^ 32) (long : 2 ^ 32 ≤ tupleEnd align offset descs) :
    2 ^ 32 ≤ max offset (storedEnd align offset descs) + if align then 7 else 0 := by
  induction descs generalizing offset with
  | nil => exact absurd start (Nat.not_lt.mpr long)
  | cons d rest inductionHypothesis =>
    obtain ⟨positive, small⟩ := narrow.head
    rw [List.length_cons] at bound
    obtain ⟨-, near, high⟩ := fieldStart_spec align offset positive small (by omega)
    rw [tupleEnd] at long
    rw [storedEnd]
    by_cases before : fieldStart align offset d.width < 2 ^ 32
    · rw [Nat.mod_eq_of_lt before]
      by_cases inside : fieldStart align offset d.width + d.width < 2 ^ 32
      · have later := inductionHypothesis narrow.tail (by omega) inside long
        omega
      · omega
    · -- Only an aligned field starts after the end of the one before it.
      cases align with
      | false => exact absurd start before
      | true =>
        rw [if_pos rfl]
        omega

end Places

/-! ### The stores of a tuple -/

theorem encodeTupleInto_overrun {layout : Layout} {values : List UInt64} {out : Nat}
    {buffer : Buffer} : (encodeTupleInto layout values out buffer).overrun = false ↔
      buffer.overrun = false ∧ out + layout.valueStride ≤ buffer.size ∧
        ∀ field ∈ layout.descs.zip values,
          out + field.1.offset + accessWidth field.1.width ≤ buffer.size := by
  rw [encodeTupleInto, Buffer.storeAll_overrun, Buffer.store_overrun, Buffer.store_size,
    List.length_replicate, and_assoc]
  simp only [fieldBytes, leBytes_length]

/-- How far the stores of a tuple reach. -/
def tupleReach (builder : Builder) : Nat :=
  storedEnd builder.options.alignFields 0 (shapeFields builder)

section Tuples

variable {build : Build} {builder : Builder} {out : Nat} {buffer : Buffer} {values : List UInt64}

theorem Built.shape_few (built : Built build builder) :
    0 + 8 * (shapeFields builder).length + 16 ≤ 2 ^ 64 := by
  have few := built.schema ▸ build.schema.length_lt
  rw [shapeFields_length built.statCount]
  omega

/-- The reach of a tuple, in terms of the layout. -/
theorem Built.tupleReach_le_iff (built : Built build builder) {most : Nat} :
    tupleReach builder ≤ most ↔
      builder.layout.valueStride ≤ most ∧ InTuple builder.layout.descs most :=
  storedEnd_le_iff built.shape_narrow built.shape_few

theorem Built.descs_narrow (built : Built build builder) : Narrow builder.layout.descs :=
  built.shape_narrow.placed _ 0

theorem Built.tupleReach_eq (built : Built build builder) (short : tupleSize builder < 2 ^ 32) :
    tupleReach builder = tupleSize builder :=
  storedEnd_eq built.shape_narrow built.shape_few short

theorem Built.le_tupleReach (built : Built build builder) (long : 2 ^ 32 ≤ tupleSize builder) :
    2 ^ 32 ≤ tupleReach builder + if builder.options.alignFields then 7 else 0 := by
  have least := le_storedEnd built.shape_narrow built.shape_few (by decide) long
  rwa [Nat.zero_max] at least

/-- A tuple that reaches no farther than its buffer is stored in it. -/
theorem Built.tuple_stored (built : Built build builder) (clean : buffer.overrun = false)
    (fits : out + tupleReach builder ≤ buffer.size) :
    (encodeTupleInto builder.layout values out buffer).overrun = false := by
  obtain ⟨whole, inside⟩ := built.tupleReach_le_iff.mp (Nat.le_sub_of_add_le' fits)
  refine encodeTupleInto_overrun.mpr ⟨clean, by omega, fun field member => ?_⟩
  have inDescs := (List.of_mem_zip member).1
  have within := inside _ inDescs
  rw [accessWidth_eq (built.descs_narrow _ inDescs).2]
  omega

/-- A tuple with a value for every field is stored as far as it reaches. -/
theorem Built.reach_of_stored (built : Built build builder)
    (full : values.length = builder.schema.fields.length)
    (stored : (encodeTupleInto builder.layout values out buffer).overrun = false) :
    out + tupleReach builder ≤ buffer.size := by
  obtain ⟨-, whole, inside⟩ := encodeTupleInto_overrun.mp stored
  have count : builder.layout.descs.length ≤ values.length := by
    rw [Builder.layout, descs_length built.statCount, full]
  have reach : tupleReach builder ≤ buffer.size - out := by
    refine built.tupleReach_le_iff.mpr ⟨by omega, fun d member => ?_⟩
    rw [← List.map_fst_zip count] at member
    obtain ⟨field, inZip, rfl⟩ := List.mem_map.mp member
    have within := inside field inZip
    rw [accessWidth_eq (built.descs_narrow _ (List.of_mem_zip inZip).1).2] at within
    omega
  omega

end Tuples

/-! ### The stores of a record -/

theorem planRemap_le (options : BuildOptions) (refWidth distinctHere count : Nat) :
    (planRemap options refWidth distinctHere count).1 ≤ refWidth := by
  unfold planRemap
  split
  · exact Nat.zero_le _
  · simp only
    split
    · exact Nat.zero_le _
    · rename_i narrow
      split
      · exact Nat.zero_le _
      · exact Nat.le_of_lt (Nat.lt_of_not_le fun wide => narrow (Or.inl wide))

/-- Local references are no wider than global ones. -/
theorem planPartition_refWidth_le (builder : Builder) (layout : Layout) (run : List StagedRow)
    (stretch : Nat × Nat) :
    (planPartition builder layout run stretch).refWidth layout ≤ layout.refWidth := by
  unfold PartitionPlan.refWidth planPartition
  simp only
  split
  · split
    · exact planRemap_le _ _ _ _
    · exact Nat.le_refl _
  · exact Nat.le_refl _

/-- The record buffer has room for the whole address field and the widest value part. -/
theorem layout_recordStride (builder : Builder) : builder.layout.recordStride =
    (builder.layout.addressWidth + if builder.layout.interned then builder.layout.refWidth
      else builder.layout.valueStride) % 2 ^ 32 := rfl

section Records

variable {build : Build} {builder : Builder} {plan : PartitionPlan} {row : StagedRow}

/-- The record buffer has room for every record of references. -/
theorem reference_stored (interned : builder.layout.interned = true)
    (width : plan.width ≤ builder.layout.addressWidth)
    (refs : plan.refWidth builder.layout ≤ builder.layout.refWidth)
    (small : builder.layout.addressWidth < 256) :
    (storeRecord builder builder.layout plan row (recordBuffer builder.layout)).overrun =
      false := by
  have narrow : builder.layout.refWidth ≤ 8 := widthFor_le _
  have stride : builder.layout.recordStride =
      builder.layout.addressWidth + builder.layout.refWidth := by
    rw [layout_recordStride, if_pos interned, Nat.mod_eq_of_lt (by omega)]
  have own : plan.stride builder.layout ≤ plan.width + plan.refWidth builder.layout := by
    rw [PartitionPlan.stride, if_pos interned]
    exact Nat.mod_le _ _
  have address := storedAddress_length_le builder plan row
  have reference := accessWidth_le (plan.refWidth builder.layout)
  rw [storeRecord, storeValue, if_pos interned]
  simp only [Buffer.store_overrun, Buffer.store_size, List.length_replicate, leBytes_length,
    recordBuffer, Buffer.zeros_overrun, Buffer.zeros_size, stride, true_and]
  omega

/-- Inline, a record is stored where its tuple reaches no farther than the buffer. -/
theorem Built.record_stored_iff (built : Built build builder)
    (inline : builder.layout.interned = false) (inRows : row ∈ builder.rows) :
    (storeRecord builder builder.layout plan row (recordBuffer builder.layout)).overrun = false ↔
      plan.width + tupleReach builder ≤ builder.layout.recordStride := by
  rw [storeRecord, storeValue, if_neg (by simp [inline])]
  constructor
  · intro stored
    obtain ⟨k, located⟩ := List.getElem?_of_mem inRows
    obtain ⟨entry, values, -, -, found, fills⟩ := Opens.tuple_of_row built located
    rw [List.getD_eq_getElem?_getD, found] at stored
    exact built.reach_of_stored fills.1 stored
  · intro fits
    have address := storedAddress_length_le builder plan row
    have own : plan.stride builder.layout ≤ plan.width + builder.layout.valueStride := by
      rw [PartitionPlan.stride, if_neg (by simp [inline])]
      exact Nat.mod_le _ _
    obtain ⟨whole, -⟩ := built.tupleReach_le_iff.mp (Nat.le_refl _)
    refine built.tuple_stored ?_ fits
    simp only [Buffer.store_overrun, Buffer.store_size, List.length_replicate, recordBuffer,
      Buffer.zeros_overrun, Buffer.zeros_size, true_and]
    omega

end Records

/-! ### The stores of a build -/

/-- The scratch of the composite dictionary has room for every tuple. -/
def TuplesStored (builder : Builder) : Prop :=
  builder.layout.interned = true →
    ∀ tuple ∈ builder.tuples, (tupleScratch builder.layout tuple).overrun = false

/-- The record buffer has room for every record. -/
def RecordsStored (builder : Builder) : Prop :=
  ∀ run ∈ partitionRuns builder.rows, ∀ row ∈ run,
    (storeRecord builder builder.layout (planOf builder run) row
      (recordBuffer builder.layout)).overrun = false

section Builds

variable {build : Build} {report : BuildReport}

/-- `finish` overruns no buffer if there is room for every tuple and record. -/
theorem Build.overrun_iff (returned : build.finished.outcome = .ok report) :
    build.finished.overrun = false ↔
      TuplesStored build.finished.builder ∧ RecordsStored build.finished.builder := by
  have running := build.running returned
  obtain ⟨owned, nextObject, -, equation⟩ := finish_eq running
  have named : build.finished = _ := equation
  rw [named] at returned ⊢
  obtain ⟨-, -, -, -, -, -, -, -, overrun⟩ := finishOwned_spec returned
  rw [overrun]
  unfold tuplesOverrun recordsOverrun TuplesStored RecordsStored planOf
  rw [← Builder.layout]
  simp only [Bool.or_eq_false_iff, zip_stretches, List.any_map]
  refine and_congr ?_ ?_
  · simp
  · simp

/-- The stores end inside their buffers. -/
structure Build.StoresFit (build : Build) (report : BuildReport) : Prop where
  interned : report.interned = true → build.log.committed ≠ [] →
    tupleReach build.finished.builder ≤ tupleSize build.finished.builder % 2 ^ 32
  inline : report.interned = false → ∀ run ∈ partitionRuns build.finished.builder.rows,
    (derivedStretch build.finished.builder run).2 + tupleReach build.finished.builder ≤
      (build.log.addressWidth + tupleSize build.finished.builder) % 2 ^ 32

theorem Built.committed_length {builder : Builder} (built : Built build builder) :
    build.log.committed.length = builder.rows.length := by
  rw [built.stages.length_eq, Log.sorted, List.length_insertionSort]

theorem Built.valueStride_eq {builder : Builder} (built : Built build builder) :
    builder.layout.valueStride = tupleSize builder % 2 ^ 32 :=
  placeFields_snd _ 0 built.shape_narrow built.shape_few

theorem Built.addressWidth_small {builder : Builder} (built : Built build builder)
    (spans : ∀ entry ∈ build.log.committed, entry.addressBytes.length ≤ 255)
    {run : List StagedRow} (member : run ∈ partitionRuns builder.rows) :
    builder.layout.addressWidth = build.log.addressWidth ∧ build.log.addressWidth < 256 :=
  ⟨built.addressWidth_eq (built.committed_ne_nil member),
    Nat.lt_succ_of_le (Log.addressWidth_le spans)⟩

/-- Records of references have room, so it is the tuples that have to fit. -/
theorem Build.interned_stored_iff (returned : build.finished.outcome = .ok report)
    (spans : ∀ entry ∈ build.log.committed, entry.addressBytes.length ≤ 255)
    (interned : build.finished.builder.layout.interned = true) :
    build.finished.overrun = false ↔ (build.log.committed ≠ [] →
      tupleReach build.finished.builder ≤ tupleSize build.finished.builder % 2 ^ 32) := by
  obtain ⟨partitions, finishes, built⟩ := build.finishes returned
  have records : RecordsStored build.finished.builder := by
    intro run member row inside
    obtain ⟨width, small⟩ := built.addressWidth_small spans member
    have within := built.derivedStretch_le member
    have planned := congrArg Prod.snd (built.planOf_stretch spans member)
    simp only at planned
    exact reference_stored interned (by omega) (planPartition_refWidth_le _ _ _ _) (by omega)
  rw [Build.overrun_iff returned, and_iff_left records, ← built.valueStride_eq]
  constructor
  · intro stored some
    have rows : 0 < build.finished.builder.rows.length := by
      rw [← built.committed_length]
      exact List.length_pos_of_ne_nil some
    obtain ⟨entry, values, -, -, found, fills⟩ :=
      Opens.tuple_of_row built (List.getElem?_eq_getElem rows)
    have reach := built.reach_of_stored fills.1
      (stored interned values (List.mem_of_getElem? found))
    rwa [Nat.zero_add] at reach
  · intro fits _ tuple member
    have few := Build.tuples_le_count (Session.not_finish_of_running build.builtIn
      (build.running returned))
    have tuples : build.finished.builder.tuples = build.session.builder.tuples := by
      rw [finishes.same]
    have count : build.finished.builder.count = build.session.builder.count := by
      rw [finishes.same]
    have some := List.length_pos_of_mem member
    have rows := built.count
    rw [← built.committed_length] at rows
    refine built.tuple_stored rfl ?_
    rw [Nat.zero_add]
    refine fits (List.ne_nil_of_length_pos ?_)
    rw [tuples] at some
    omega

/-- Inline, every record has to fit. -/
theorem Build.inline_stored_iff (returned : build.finished.outcome = .ok report)
    (spans : ∀ entry ∈ build.log.committed, entry.addressBytes.length ≤ 255)
    (inline : build.finished.builder.layout.interned = false) :
    build.finished.overrun = false ↔ ∀ run ∈ partitionRuns build.finished.builder.rows,
      (derivedStretch build.finished.builder run).2 + tupleReach build.finished.builder ≤
        (build.log.addressWidth + tupleSize build.finished.builder) % 2 ^ 32 := by
  obtain ⟨partitions, finishes, built⟩ := build.finishes returned
  have tuples : TuplesStored build.finished.builder := fun interned => by
    rw [inline] at interned
    cases interned
  rw [Build.overrun_iff returned, and_iff_right tuples]
  refine forall₂_congr fun run member => ?_
  obtain ⟨width, small⟩ := built.addressWidth_small spans member
  have planned := congrArg Prod.snd (built.planOf_stretch spans member)
  have stride : build.finished.builder.layout.recordStride =
      (build.log.addressWidth + tupleSize build.finished.builder) % 2 ^ 32 := by
    rw [layout_recordStride, if_neg (by simp [inline]), width, built.valueStride_eq,
      Nat.add_mod_mod]
  rw [← planned, ← stride]
  constructor
  · intro stored
    obtain ⟨row, inside⟩ := List.exists_mem_of_ne_nil run (partitionRuns_ne_nil member)
    exact (built.record_stored_iff inline (mem_rows_of_mem_run member inside)).mp
      (stored row inside)
  · intro fits row inside
    exact (built.record_stored_iff inline (mem_rows_of_mem_run member inside)).mpr fits

theorem Build.stored_iff (returned : build.finished.outcome = .ok report)
    (spans : ∀ entry ∈ build.log.committed, entry.addressBytes.length ≤ 255) :
    build.finished.overrun = false ↔ build.StoresFit report := by
  have form := (build.report_layout returned).1
  cases mode : report.interned with
  | true =>
    rw [Build.interned_stored_iff returned spans (form.symm.trans mode)]
    exact ⟨fun fits => ⟨fun _ => fits, fun inline => by simp [mode] at inline⟩,
      fun fits => fits.interned mode⟩
  | false =>
    rw [Build.inline_stored_iff returned spans (form.symm.trans mode)]
    exact ⟨fun fits => ⟨fun interned => by simp [mode] at interned, fun _ => fits⟩,
      fun fits => fits.inline mode⟩

/-! ### Records below 4 GiB -/

/-- There are no records, or a tuple with the address before it, where it is inline, is shorter
than 4 GiB. -/
def Build.Short (build : Build) (report : BuildReport) : Prop :=
  build.log.committed = [] ∨ (if report.interned then 0 else build.log.addressWidth) +
    tupleSize build.finished.builder < 2 ^ 32

/-- Short records fit. -/
theorem Build.storesFit_of_short (returned : build.finished.outcome = .ok report)
    (short : build.Short report) : build.StoresFit report := by
  obtain ⟨partitions, finishes, built⟩ := build.finishes returned
  refine ⟨fun interned some => ?_, fun inline run member => ?_⟩
  · have below := short.resolve_left some
    rw [if_pos interned, Nat.zero_add] at below
    rw [built.tupleReach_eq below, Nat.mod_eq_of_lt below]
  · have below := short.resolve_left (built.committed_ne_nil member)
    rw [if_neg (by simp [inline])] at below
    have within := built.derivedStretch_le member
    rw [built.addressWidth_eq (built.committed_ne_nil member)] at within
    rw [built.tupleReach_eq (by omega), Nat.mod_eq_of_lt below]
    omega

/-- Where there are records, there is a partition. -/
theorem Built.exists_run {builder : Builder} (built : Built build builder)
    (some : build.log.committed ≠ []) : ∃ run, run ∈ partitionRuns builder.rows := by
  refine List.exists_mem_of_ne_nil _ fun none => some ?_
  have rows := partitionRuns_flatten builder.rows
  rw [none, List.flatten_nil] at rows
  rw [← List.length_eq_zero_iff, built.committed_length, ← rows, List.length_nil]

/-- Records that fit are short, unless the tuple is aligned and comes near to 8 GiB. -/
theorem Build.short_of_storesFit (returned : build.finished.outcome = .ok report)
    (spans : ∀ entry ∈ build.log.committed, entry.addressBytes.length ≤ 255)
    (ordinary : build.options.alignFields = false ∨
      tupleSize build.finished.builder < 2 ^ 33 - 262)
    (fits : build.StoresFit report) : build.Short report := by
  obtain ⟨partitions, finishes, built⟩ := build.finishes returned
  by_contra long
  obtain ⟨some, above⟩ := not_or.mp long
  have width := Log.addressWidth_le spans
  have wraps (beyond : 2 ^ 32 ≤ tupleSize build.finished.builder) :
      2 ^ 32 ≤ tupleReach build.finished.builder ∨
        tupleSize build.finished.builder < 2 ^ 33 - 262 ∧
          2 ^ 32 ≤ tupleReach build.finished.builder + 7 := by
    have least := built.le_tupleReach beyond
    rw [built.options] at least
    rcases ordinary with packed | near
    · rw [packed] at least
      exact Or.inl least
    · refine Or.inr ⟨near, le_trans least (Nat.add_le_add_left ?_ _)⟩
      split
      · exact Nat.le_refl _
      · exact Nat.zero_le _
  cases mode : report.interned with
  | true =>
    have within := fits.interned mode some
    rw [if_pos mode] at above
    have least := wraps (by omega)
    omega
  | false =>
    rw [if_neg (by simp [mode])] at above
    obtain ⟨run, member⟩ := built.exists_run some
    have within := fits.inline mode run member
    rcases Nat.lt_or_ge (tupleSize build.finished.builder) (2 ^ 32) with below | beyond
    · have whole := built.tupleReach_eq below
      omega
    · have least := wraps beyond
      omega

/-! ### What is priced is what is written -/

/-- The layout that is priced is the layout that is written. No store ends past its buffer, the runs
that are priced are written, each with the stretch it was priced at, and the bytes and the savings
are those that are reported. -/
structure Build.AsPriced (build : Build) (report : BuildReport) : Prop where
  stored : build.finished.overrun = false
  runs : (build.directory.map fun slot =>
      (slot.partition, slot.count, slot.addressSkip, slot.addressWidth)) =
    (partitionRuns build.finished.builder.rows).map fun run =>
      ((partitionOfRun run).toNat, run.length, derivedStretch build.finished.builder run)
  inline : report.interned = false → build.partitionBytes = report.inlineEstimate
  interned : report.interned = true →
    build.partitionBytes + build.compositeBytes = report.internedEstimate
  remapSaved : report.remapSavedBytes = ((build.directory.filter (·.schemaId ≠ 0)).map fun slot =>
    slot.count * (report.refWidth - slot.schemaId) - 4 * slot.remapCount).sum
  addressBytes : report.addressBytesTotal =
    (build.directory.map fun slot => slot.count * slot.addressWidth).sum

/-- What is priced is written where the stores fit, as those of short records do. Other stores fit
only where an aligned tuple comes near to 8 GiB or passes it, with no field over a multiple of
4 GiB. -/
theorem Build.asPriced_iff (returned : build.finished.outcome = .ok report)
    (totals : build.Totals)
    (spans : ∀ entry ∈ build.log.committed, entry.addressBytes.length ≤ 255) :
    (build.AsPriced report ↔ build.StoresFit report) ∧
      (build.Short report → build.StoresFit report) ∧
      (build.options.alignFields = false ∨ tupleSize build.finished.builder < 2 ^ 33 - 262 →
        build.StoresFit report → build.Short report) := by
  refine ⟨⟨fun priced => (Build.stored_iff returned spans).mp priced.stored, fun fits => ?_⟩,
    Build.storesFit_of_short returned, Build.short_of_storesFit returned spans⟩
  obtain ⟨partitions, finishes, built⟩ := build.finishes returned
  have priced := Build.priced returned totals spans
  refine
    { stored := (Build.stored_iff returned spans).mpr fits
      runs := priced.runs
      inline := fun inline => ?_
      interned := priced.interned
      remapSaved := priced.remapSaved
      addressBytes := priced.addressBytes }
  obtain ⟨-, -, -, stride, -⟩ := Build.report_numbers returned
  refine (Build.inline_priced returned totals spans inline).mpr fun run member => ?_
  -- The end of a tuple is one of the places that have to fit.
  have within := fits.inline inline run member
  obtain ⟨whole, -⟩ := built.tupleReach_le_iff.mp (Nat.le_refl _)
  rw [stride]
  omega

end Builds

theorem Build.short_of_sum {build : Build} (report : BuildReport)
    (sum : build.log.addressWidth + tupleSize build.finished.builder < 2 ^ 32) :
    build.Short report := by
  refine Or.inr (lt_of_le_of_lt (Nat.add_le_add_right ?_ _) sum)
  split
  · exact Nat.zero_le _
  · exact Nat.le_refl _

/-- Trimmed records that are kept inline, and references to one tuple. -/
theorem samples_as_priced : ∃ report report', trimmedSample.finished.outcome = .ok report ∧
    (repeatedBuild.under .always).finished.outcome = .ok report' ∧
    trimmedSample.AsPriced report ∧ (repeatedBuild.under .always).AsPriced report' := by
  obtain ⟨report, returned⟩ := trimmedSample.exists_report (by decide +kernel)
  obtain ⟨report', returned'⟩ := (repeatedBuild.under .always).exists_report (by decide +kernel)
  have totals : trimmedSample.Totals := ⟨by decide +kernel, by decide +kernel⟩
  have totals' : (repeatedBuild.under .always).Totals := ⟨by decide +kernel, by decide +kernel⟩
  obtain ⟨priced, fits, -⟩ := Build.asPriced_iff returned totals (by decide +kernel)
  obtain ⟨priced', fits', -⟩ := Build.asPriced_iff returned' totals' (by decide +kernel)
  exact ⟨report, report', returned, returned',
    priced.mpr (fits (Build.short_of_sum report (by decide +kernel))),
    priced'.mpr (fits' (Build.short_of_sum report' (by decide +kernel)))⟩

/-! ### A record of 4 GiB -/

/-- One record of key 1, inline. -/
structure OneRecord (build : Build) : Prop where
  calls : build.calls = [.beginRecord 1, .commit 0]
  options : build.options = { BuildOptions.default with valueInterning := .never }

namespace OneRecord

variable {build : Build}

theorem session (one : OneRecord build) :
    build.session.builder.staging = some ⟨0, .memory ⟨32, [⟨1, 0⟩], true⟩⟩ ∧
      build.session.builder.count = 1 ∧ build.session.builder.tuples.length = 1 ∧
      build.session.builder.blob = none ∧ build.session.builder.finished = false ∧
      build.session.builder.options = { BuildOptions.default with valueInterning := .never } := by
  obtain ⟨-, -, fresh⟩ := Builder.make_blank build.made
  have key : packKey 32 (partitionOf 32 1) (addressOf 32 1) = 1 := by decide
  rw [Build.session, one.calls, fresh, one.options, ← key]
  exact ⟨rfl, rfl, rfl, rfl, rfl, rfl⟩

theorem returns (one : OneRecord build) : ∃ report, build.finished.outcome = .ok report := by
  obtain ⟨staging, -, -, -, running, options⟩ := one.session
  have few : FewTuples build.session.builder := Or.inl (by rw [options])
  have sound := (build.tracks running).sound
  refine ((finish_returns_iff sound running few).1).mpr ?_
  rw [Builder.Orderable, Builder.rows, staging, options]
  exact List.pairwise_singleton _ _

/-- What the finished builder holds. -/
theorem finished (one : OneRecord build) {report : BuildReport}
    (returned : build.finished.outcome = .ok report) :
    build.finished.builder.rows = [⟨0, 1, [], 0⟩] ∧ build.finished.builder.count = 1 ∧
      build.finished.builder.tuples.length = 1 ∧ build.finished.builder.blob = none ∧
      build.finished.builder.options =
        { BuildOptions.default with valueInterning := .never } := by
  obtain ⟨staging, count, tuples, blob, -, options⟩ := one.session
  obtain ⟨partitions, finishes, -⟩ := build.finishes returned
  have rows : build.session.builder.rows = [⟨0, 1, [], 0⟩] := by
    rw [Builder.rows, staging]
    rfl
  have perm := finishes.perm
  rw [rows, List.perm_singleton] at perm
  refine ⟨perm, ?_⟩
  rw [finishes.same]
  exact ⟨count, tuples, blob, options⟩

section Finished

variable {report : BuildReport} (one : OneRecord build)
  (returned : build.finished.outcome = .ok report)
include one returned

theorem runs : partitionRuns build.finished.builder.rows = [[⟨0, 1, [], 0⟩]] := by
  rw [(one.finished returned).1]
  rfl

theorem derived : derivedStretch build.finished.builder [⟨0, 1, [], 0⟩] = (0, 1) := by
  obtain ⟨-, -, -, blob, options⟩ := one.finished returned
  rw [derivedStretch, stretchOf, blob, options]
  show trimBits (orBits [⟨0, 1, [], 0⟩]).toNat = (0, 1)
  decide

theorem integers : ∀ entry ∈ build.log.committed, entry.addressBytes = [] := by
  obtain ⟨partitions, finishes, built⟩ := build.finishes returned
  intro entry member
  have shaped := built.entry_shaped member
  rwa [(one.finished returned).2.2.2.1] at shaped

theorem inline : report.interned = false := by
  rw [(build.report_layout returned).1]
  simp only [Builder.layout, chooseLayout, (one.finished returned).2.2.2.2]

theorem totals : build.Totals := by
  obtain ⟨-, count, tuples, -⟩ := one.finished returned
  have address : build.addressTotal = 1 := by
    rw [Build.addressTotal, one.runs returned, List.map_singleton, List.sum_singleton,
      one.derived returned]
    rfl
  have stride : build.finished.builder.layout.valueStride < 2 ^ 32 :=
    chooseLayout_valueStride_lt _ _
  have refs : build.finished.builder.layout.refWidth ≤ 8 := widthFor_le _
  refine ⟨?_, ?_⟩
  · rw [address, count]
    omega
  · rw [address, count, tuples, dictHeaderSize]
    omega

end Finished

end OneRecord

/-- Fields of seven bytes and of doubles, and one record. -/
def stackedBuild (doubles : Nat) (bound : doubles + 1 < 2 ^ 32) : Build :=
  Build.of (stackedSchema doubles bound) { BuildOptions.default with valueInterning := .never }
    [.beginRecord 1, .commit 0] (stackedSchema_fields doubles bound)
    BuildOptions.default_addressBits (by decide) (by decide)

/-- Where a record takes 4 GiB, it is priced so, and written to a buffer of no bytes. -/
theorem stacked_overruns {doubles : Nat} {bound : doubles + 1 < 2 ^ 32}
    (full : 7 + 8 * doubles = 2 ^ 32 - 1) {build : Build}
    (sample : build = stackedBuild doubles bound) :
    ∃ report, build.finished.outcome = .ok report ∧ build.Totals ∧
      (∀ entry ∈ build.log.committed, entry.addressBytes = []) ∧ report.interned = false ∧
      build.partitionBytes ≠ report.inlineEstimate ∧ build.finished.overrun = true ∧
      ¬ build.AsPriced report := by
  obtain ⟨schema, optionsGiven, calls⟩ : build.schema = stackedSchema doubles bound ∧
      build.options = { BuildOptions.default with valueInterning := .never } ∧
      build.calls = [.beginRecord 1, .commit 0] := by
    rw [sample]
    exact Build.of_spec _ _ _ _
  have one : OneRecord build := ⟨calls, optionsGiven⟩
  obtain ⟨report, returned⟩ := one.returns
  obtain ⟨partitions, finishes, built⟩ := build.finishes returned
  have inline := one.inline returned
  have integers := one.integers returned
  have totals := one.totals returned
  have derived := one.derived returned
  have spans : ∀ entry ∈ build.log.committed, entry.addressBytes.length ≤ 255 :=
    fun entry member => by
      rw [integers entry member]
      decide
  have member : [⟨0, 1, [], 0⟩] ∈ partitionRuns build.finished.builder.rows := by
    rw [one.runs returned]
    exact List.mem_singleton_self _
  have packed : build.finished.builder.options.alignFields = false := by
    rw [built.options, optionsGiven]
    rfl
  have size : tupleSize build.finished.builder = 2 ^ 32 - 1 :=
    (built.stacked_tupleSize (built.schema.trans schema) packed).trans full
  -- The record is as long as 4 GiB, and longer than what its buffer has room for.
  have unequal : build.partitionBytes ≠ report.inlineEstimate := by
    intro equal
    obtain ⟨-, -, -, priced, -⟩ := Build.report_numbers returned
    have less := (Build.inline_priced returned totals spans inline).mp equal _ member
    rw [derived, priced, built.valueStride_eq, size] at less
    exact absurd less (by decide)
  have overruns : build.finished.overrun ≠ false := by
    intro stored
    have short := Build.short_of_storesFit returned spans (Or.inl (built.options ▸ packed))
      ((Build.stored_iff returned spans).mp stored)
    have below := short.resolve_left (built.committed_ne_nil member)
    have within := built.derivedStretch_le member
    rw [built.addressWidth_eq (built.committed_ne_nil member), derived] at within
    rw [if_neg (by simp [inline]), size] at below
    omega
  exact ⟨report, returned, totals, integers, inline, unequal,
    Bool.eq_true_of_not_eq_false overruns, fun priced => overruns priced.stored⟩

/-- Seven bytes and 2^29 - 1 doubles make a record of 4 GiB with the one byte of its address. -/
theorem sample_overruns :
    let build := stackedBuild (2 ^ 29 - 1) (by decide)
    ∃ report, build.finished.outcome = .ok report ∧ build.Totals ∧
      (∀ entry ∈ build.log.committed, entry.addressBytes = []) ∧ report.interned = false ∧
      build.partitionBytes ≠ report.inlineEstimate ∧ build.finished.overrun = true ∧
      ¬ build.AsPriced report :=
  stacked_overruns (by decide) rfl

end Mmpack
