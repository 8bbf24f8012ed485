/-
This file says which slots a directory is made of. The rows of a finished build
fall into runs of one partition each, in increasing order of the partitions. Every
run has a slot, and a dense directory has a gap slot for each partition between.
A slot survives being packed under the layout chosen for its directory.
-/

import Mmpack.Finished

namespace Mmpack

open ByteList

/-! ### Runs -/

section Runs

variable {rows : List StagedRow}

theorem partitionRuns_flatten (rows : List StagedRow) : (partitionRuns rows).flatten = rows :=
  List.flatten_splitBy _ rows

theorem partitionRuns_ne_nil {run : List StagedRow} (member : run ∈ partitionRuns rows) :
    run ≠ [] := List.ne_nil_of_mem_splitBy member

/-- The rows of a run are of one partition. -/
theorem partition_of_run {run : List StagedRow} (member : run ∈ partitionRuns rows)
    {row : StagedRow} (inside : row ∈ run) : row.partition = partitionOfRun run := by
  have transitive : IsTrans StagedRow fun first second => first.partition = second.partition :=
    ⟨fun _ _ _ => Eq.trans⟩
  have chain : run.IsChain fun first second => first.partition = second.partition :=
    (List.isChain_of_mem_splitBy member).imp fun _ _ same => beq_iff_eq.mp same
  cases run with
  | nil => nomatch inside
  | cons head rest =>
    rcases List.mem_cons.mp inside with rfl | later
    · rfl
    · exact ((List.pairwise_cons.mp chain.pairwise).1 row later).symm

theorem partitionRuns_changes (rows : List StagedRow) :
    (partitionRuns rows).IsChain fun first second => ∃ (full : first ≠ []) (full' : second ≠ []),
      (first.getLast full).partition ≠ (second.head full').partition :=
  (List.isChain_getLast_head_splitBy _ rows).imp fun _ _ ⟨full, full', different⟩ =>
    ⟨full, full', beq_eq_false_iff_ne.mp different⟩

/-- The runs of ordered rows come in strictly increasing order of their partitions. -/
theorem runs_increasing (ordered : rows.Pairwise StagedRow.Before) :
    (partitionRuns rows).Pairwise fun first second =>
      (partitionOfRun first).toNat < (partitionOfRun second).toNat := by
  have transitive : IsTrans (List StagedRow) fun first second =>
      (partitionOfRun first).toNat < (partitionOfRun second).toNat :=
    ⟨fun _ _ _ => Nat.lt_trans⟩
  have apart := ordered
  rw [← partitionRuns_flatten rows, List.pairwise_flatten] at apart
  have across := List.pairwise_iff_getElem.mp apart.2
  have changes := List.isChain_iff_getElem.mp (partitionRuns_changes rows)
  refine List.IsChain.pairwise (List.isChain_iff_getElem.mpr fun i inside => ?_)
  obtain ⟨full, full', different⟩ := changes i inside
  have here := List.getElem_mem (l := partitionRuns rows) (n := i) (by omega)
  have next := List.getElem_mem (l := partitionRuns rows) inside
  have last := partition_of_run here (List.getLast_mem full)
  have first := partition_of_run next (List.head_mem full')
  have before := across i (i + 1) (by omega) inside (Nat.lt_succ_self i) _ (List.getLast_mem full)
    _ (List.head_mem full')
  rw [StagedRow.before_iff] at before
  rw [last, first] at before different
  exact before.elim UInt64.lt_iff_toNat_lt.mp fun ⟨same, _⟩ => absurd same different

end Runs

/-! ### Plans -/

theorem planRemap_spec (options : BuildOptions) (refWidth distinctHere count : Nat) :
    (planRemap options refWidth distinctHere count).1 = 0 ∨
      0 < distinctHere ∧ widthFor (distinctHere - 1) ≤ maxLocalWidth ∧
        (planRemap options refWidth distinctHere count).1 = widthFor (distinctHere - 1) := by
  unfold planRemap
  split
  · exact Or.inl rfl
  · rename_i worth
    simp only
    split
    · exact Or.inl rfl
    · rename_i narrow
      split
      · exact Or.inl rfl
      · exact Or.inr ⟨by omega, by omega, rfl⟩

theorem lt_pow_of_narrow {value : Nat} (narrow : widthFor value ≤ maxLocalWidth) :
    value < 256 ^ widthFor value := by
  unfold widthFor maxLocalWidth at *
  split_ifs at * <;> norm_num <;> omega

/-- A partition keeps the global references, or has a table of its distinct tuples. -/
inductive PlanKind (layout : Layout) (run : List StagedRow) (plan : PartitionPlan) : Prop
  | plain (schemaId : plan.schemaId = 0) (remapTable : plan.remapTable = [])
  | remapped (interned : layout.interned = true) (positive : 0 < plan.schemaId)
      (small : plan.schemaId ≤ maxLocalWidth) (remapTable : plan.remapTable = distinctTuples run)
      (some : distinctTuples run ≠ []) (fits : (distinctTuples run).length ≤ 256 ^ plan.schemaId)

theorem planPartition_kind (builder : Builder) (layout : Layout) (run : List StagedRow)
    (stretch : Nat × Nat) : PlanKind layout run (planPartition builder layout run stretch) := by
  unfold planPartition
  simp only
  split
  · rename_i remapped
    obtain ⟨interned, planned⟩ := remapped
    obtain ⟨some, narrow, width⟩ := (planRemap_spec builder.options layout.refWidth
      (distinctTuples run).length run.length).resolve_left planned
    have fits := lt_pow_of_narrow narrow
    refine .remapped interned (Nat.pos_of_ne_zero planned) (width ▸ narrow) rfl
      (List.ne_nil_of_length_pos some) ?_
    simp only
    rw [width]
    omega
  · exact .plain rfl rfl

theorem planPartition_stretch (builder : Builder) (layout : Layout) (run : List StagedRow)
    (stretch : Nat × Nat) : ((planPartition builder layout run stretch).skip,
      (planPartition builder layout run stretch).width) = stretch := by
  unfold planPartition
  simp only
  split <;> rfl

/-! ### Pieces -/

section Pieces

variable {builder : Builder} {layout : Layout} {rows : List StagedRow} {places : Places}

theorem piecesOf_runs (stretches : layout.stretches.length = (partitionRuns rows).length) :
    (piecesOf builder layout rows).map Prod.fst = partitionRuns rows := by
  rw [piecesOf, List.map_map]
  exact List.map_fst_zip (Nat.le_of_eq stretches.symm)

theorem piecesOf_getElem? {j : Nat} {piece : Piece}
    (located : (piecesOf builder layout rows)[j]? = some piece) :
    (partitionRuns rows)[j]? = some piece.1 ∧ ∃ stretch, layout.stretches[j]? = some stretch ∧
      piece.2 = planPartition builder layout piece.1 stretch := by
  rw [piecesOf, List.getElem?_map] at located
  obtain ⟨part, found, rfl⟩ := Option.map_eq_some_iff.mp located
  obtain ⟨run, stretch⟩ := List.getElem?_zip_eq_some.mp found
  exact ⟨run, part.2, stretch, rfl⟩

/-- Where the bytes of a partition start. -/
def pieceStart (builder : Builder) (layout : Layout) (rows : List StagedRow) (places : Places)
    (j : Nat) : Nat :=
  places.records +
    (((piecesOf builder layout rows).take j).map fun piece =>
      (pieceBlock builder layout piece).length).sum

theorem entriesFrom_getElem? (start : Nat) (pieces : List Piece) (j : Nat) :
    (entriesFrom builder layout start pieces)[j]? = pieces[j]?.map fun piece =>
      slotOf piece.2 (partitionOfRun piece.1)
        (start + ((pieces.take j).map fun other => (pieceBlock builder layout other).length).sum)
        piece.1.length := by
  induction pieces generalizing start j with
  | nil => rfl
  | cons piece rest inductionHypothesis =>
    cases j with
    | zero => rfl
    | succ j =>
      rw [entriesFrom, List.getElem?_cons_succ, inductionHypothesis, List.getElem?_cons_succ,
        List.take_succ_cons, List.map_cons, List.sum_cons, ← Nat.add_assoc]

/-- A slot of a partition with records. -/
theorem directoryOf_getElem? (j : Nat) :
    (directoryOf builder layout rows places)[j]? = (piecesOf builder layout rows)[j]?.map
      fun piece => slotOf piece.2 (partitionOfRun piece.1)
        (pieceStart builder layout rows places j) piece.1.length :=
  entriesFrom_getElem? _ _ _

theorem mem_directoryOf {d : DirEntry} (member : d ∈ directoryOf builder layout rows places) :
    ∃ j piece, (piecesOf builder layout rows)[j]? = some piece ∧
      d = slotOf piece.2 (partitionOfRun piece.1) (pieceStart builder layout rows places j)
        piece.1.length := by
  obtain ⟨j, located⟩ := List.mem_iff_getElem?.mp member
  rw [directoryOf_getElem?] at located
  obtain ⟨piece, found, rfl⟩ := Option.map_eq_some_iff.mp located
  exact ⟨j, piece, found, rfl⟩

/-- A partition's bytes lie where its slot says. -/
theorem Written.piece {image : List UInt8} (written : Written builder layout rows image places)
    {j : Nat} {piece : Piece} (located : (piecesOf builder layout rows)[j]? = some piece) :
    Holds image (pieceStart builder layout rows places j) (pieceBlock builder layout piece) ∧
      pieceStart builder layout rows places j + (pieceBlock builder layout piece).length ≤
        places.records + (recordBlock builder layout rows).length := by
  obtain ⟨inside, rfl⟩ := List.getElem?_eq_some_iff.mp located
  have block := holds_flatten_getElem
    ((piecesOf builder layout rows).map (pieceBlock builder layout)) j (by rwa [List.length_map])
  rw [List.getElem_map, ← List.map_take, List.map_map] at block
  have within := block.within
  refine ⟨written.records.trans block, ?_⟩
  rw [pieceStart, Nat.add_assoc]
  exact Nat.add_le_add_left within _

theorem entriesFrom_partitions (start : Nat) (pieces : List Piece) :
    (entriesFrom builder layout start pieces).map DirEntry.partition =
      (pieces.map Prod.fst).map fun run => (partitionOfRun run).toNat := by
  induction pieces generalizing start with
  | nil => rfl
  | cons piece rest inductionHypothesis =>
    rw [entriesFrom, List.map_cons, inductionHypothesis]
    rfl

theorem directoryOf_increasing (builder : Builder) (places : Places)
    (stretches : layout.stretches.length = (partitionRuns rows).length)
    (ordered : rows.Pairwise StagedRow.Before) :
    (directoryOf builder layout rows places).Pairwise fun first second =>
      first.partition < second.partition := by
  have partitions : (directoryOf builder layout rows places).map DirEntry.partition =
      (partitionRuns rows).map fun run => (partitionOfRun run).toNat := by
    rw [directoryOf, entriesFrom_partitions, piecesOf_runs stretches]
  have increasing := List.pairwise_map.mpr (runs_increasing ordered)
  rw [← partitions] at increasing
  exact List.pairwise_map.mp increasing

theorem directoryOf_count_ne_zero {d : DirEntry}
    (member : d ∈ directoryOf builder layout rows places) : d.count ≠ 0 := by
  obtain ⟨j, piece, located, rfl⟩ := mem_directoryOf member
  have run := List.mem_of_getElem? (piecesOf_getElem? located).1
  exact Nat.ne_of_gt (List.length_pos_iff.mpr (partitionRuns_ne_nil run))

end Pieces

/-! ### Slots -/

/-- Slots in increasing order of their partitions, from `next` on. -/
structure Ascending (next : Nat) (directory : List DirEntry) : Prop where
  increasing : directory.Pairwise fun first second => first.partition < second.partition
  above : ∀ d ∈ directory, next ≤ d.partition
  below : ∀ d ∈ directory, d.partition < 2 ^ 64

section Slots

variable {width next : Nat} {directory : List DirEntry}

theorem Ascending.tail {d : DirEntry} {rest : List DirEntry}
    (ascending : Ascending next (d :: rest)) :
    Ascending ((d.partition + 1) % 2 ^ 64) rest where
  increasing := (List.pairwise_cons.mp ascending.increasing).2
  above other member :=
    le_trans (Nat.mod_le _ _) ((List.pairwise_cons.mp ascending.increasing).1 other member)
  below other member := ascending.below other (List.mem_cons_of_mem _ member)

/-- In a dense directory a slot is found at its partition. -/
theorem denseSlots_getElem? (ascending : Ascending next directory) {k : Nat} {d : DirEntry}
    (located : (denseSlots width next directory)[k]? = some d) :
    d.partition = next + k ∧ (d ∈ directory ∨ d = gapSlot width d.partition) := by
  induction directory generalizing next k with
  | nil => nomatch located
  | cons head rest inductionHypothesis =>
    have start := ascending.above head List.mem_cons_self
    have gaps : ((List.range' next (head.partition - next)).map (gapSlot width)).length =
        head.partition - next := by rw [List.length_map, List.length_range']
    rw [denseSlots] at located
    rcases Nat.lt_trichotomy k (head.partition - next) with gap | here | later
    · rw [List.getElem?_append_left (by rwa [gaps]), List.getElem?_map,
        List.getElem?_range' gap] at located
      obtain rfl := Option.some.inj located
      exact ⟨by simp [gapSlot], Or.inr rfl⟩
    · rw [List.getElem?_append_right (by omega), gaps, here, Nat.sub_self] at located
      obtain rfl := Option.some.inj located
      exact ⟨by omega, Or.inl List.mem_cons_self⟩
    · obtain ⟨past, exact⟩ := Nat.exists_eq_add_of_lt later
      rw [List.getElem?_append_right (by omega), gaps,
        show k - (head.partition - next) = past + 1 by omega, List.getElem?_cons_succ] at located
      obtain ⟨partition, kind⟩ := inductionHypothesis ascending.tail located
      refine ⟨?_, kind.imp_left (List.mem_cons_of_mem _)⟩
      cases rest with
      | nil => nomatch located
      | cons second rest =>
        have order := (List.pairwise_cons.mp ascending.increasing).1 second List.mem_cons_self
        have bound := ascending.below second (by simp)
        rw [partition, Nat.mod_eq_of_lt (by omega)]
        omega

/-- A slot is that of a partition with records, or a gap of a dense directory. -/
theorem directorySlots_getElem? {dense : Bool} (ascending : Ascending 0 directory) {k : Nat}
    {d : DirEntry} (located : (directorySlots dense width directory)[k]? = some d) :
    (dense = true → d.partition = k) ∧
      (d ∈ directory ∨ dense = true ∧ d = gapSlot width k) := by
  unfold directorySlots at located
  split at located
  · rename_i isDense
    obtain ⟨partition, kind⟩ := denseSlots_getElem? ascending located
    rw [Nat.zero_add] at partition
    exact ⟨fun _ => partition, kind.imp_right fun gap => ⟨isDense, by rw [← partition, ← gap]⟩⟩
  · rename_i sparse
    exact ⟨fun isDense => absurd isDense sparse, Or.inl (List.mem_of_getElem? located)⟩

/-- Without the gaps the slots are those of the partitions with records. -/
theorem denseSlots_filter (occupied : ∀ d ∈ directory, d.count ≠ 0) :
    (denseSlots width next directory).filter (fun d => d.count ≠ 0) = directory := by
  induction directory generalizing next with
  | nil => rfl
  | cons head rest inductionHypothesis =>
    have gaps : ((List.range' next (head.partition - next)).map (gapSlot width)).filter
        (fun d => d.count ≠ 0) = [] := by
      refine List.filter_eq_nil_iff.mpr fun d member => ?_
      obtain ⟨partition, -, rfl⟩ := List.mem_map.mp member
      simp [gapSlot]
    rw [denseSlots, List.filter_append, gaps, List.nil_append,
      List.filter_cons_of_pos (by simpa using occupied head List.mem_cons_self),
      inductionHypothesis fun d member => occupied d (List.mem_cons_of_mem _ member)]

end Slots

section SlotsOf

variable {builder : Builder} {layout : Layout} {rows : List StagedRow} {places : Places}

theorem directoryOf_ascending (stretches : layout.stretches.length = (partitionRuns rows).length)
    (ordered : rows.Pairwise StagedRow.Before) :
    Ascending 0 (directoryOf builder layout rows places) where
  increasing := directoryOf_increasing builder places stretches ordered
  above _ _ := Nat.zero_le _
  below d member := by
    obtain ⟨j, piece, -, rfl⟩ := mem_directoryOf member
    exact UInt64.toNat_lt _

theorem slotsOf_filter : (slotsOf builder layout rows places).filter (fun d => d.count ≠ 0) =
    directoryOf builder layout rows places := by
  have occupied (d : DirEntry) (member : d ∈ directoryOf builder layout rows places) :=
    directoryOf_count_ne_zero member
  unfold slotsOf directorySlots
  split
  · exact denseSlots_filter occupied
  · exact List.filter_eq_self.mpr fun d member => by simpa using occupied d member

theorem slotsOf_getElem? (stretches : layout.stretches.length = (partitionRuns rows).length)
    (ordered : rows.Pairwise StagedRow.Before) {k : Nat} {d : DirEntry}
    (located : (slotsOf builder layout rows places)[k]? = some d) :
    (denseOf builder layout rows places = true → d.partition = k) ∧
      (d ∈ directoryOf builder layout rows places ∨
        denseOf builder layout rows places = true ∧ d = gapSlot layout.addressWidth k) :=
  directorySlots_getElem? (directoryOf_ascending stretches ordered) located

end SlotsOf

/-! ### Packing -/

/-- A slot as its bytes keep it: one byte is the most an address width gets. -/
def DirEntry.stored (d : DirEntry) : DirEntry := { d with addressWidth := d.addressWidth % 2 ^ 8 }

theorem leBytes_mod_of_le_one {width : Nat} (narrow : width ≤ 1) (value : Nat) :
    leBytes width (value % 2 ^ 8) = leBytes width value := by
  obtain rfl | rfl : width = 0 ∨ width = 1 := by omega
  · rfl
  · rw [leBytes, leBytes, leBytes, leBytes, List.cons.injEq]
    exact ⟨UInt8.toNat_inj.mp (by simp), rfl⟩

theorem encodeDirEntry_stored {layout : DirLayout} (wellFormed : layout.WellFormed)
    (narrow : layout.addrWidth ≤ 1) (d : DirEntry) :
    encodeDirEntry layout d.stored = encodeDirEntry layout d := by
  rw [encodeDirEntry_eq wellFormed, encodeDirEntry_eq wellFormed]
  simp only [DirEntry.stored, pack_cons, pack_nil, leBytes_mod_of_le_one narrow]

theorem foldl_max_le_iff (values : List Nat) (start bound : Nat) :
    values.foldl max start ≤ bound ↔ start ≤ bound ∧ ∀ value ∈ values, value ≤ bound := by
  induction values generalizing start with
  | nil => simp
  | cons value rest inductionHypothesis =>
    rw [List.foldl_cons, inductionHypothesis, Nat.max_le, List.forall_mem_cons, and_assoc]

theorem largest_le_iff (values : List Nat) (bound : Nat) :
    largest values ≤ bound ↔ ∀ value ∈ values, value ≤ bound := by
  rw [largest, foldl_max_le_iff]
  exact ⟨And.right, fun all => ⟨Nat.zero_le _, all⟩⟩

theorem le_largest {values : List Nat} {value : Nat} (member : value ∈ values) :
    value ≤ largest values := (largest_le_iff _ _).mp (Nat.le_refl _) value member

/-- A value fits the width chosen for the largest one. -/
theorem lt_pow_of_mem {values : List Nat} {value : Nat} (below : ∀ value ∈ values, value < 2 ^ 64)
    (member : value ∈ values) : value < 256 ^ widthFor (largest values) := by
  have most : largest values ≤ 2 ^ 64 - 1 :=
    (largest_le_iff _ _).mpr fun other inside => Nat.le_sub_one_of_lt (below other inside)
  exact lt_pow_widthFor (le_largest member) (by omega)

section Packing

variable {builder : Builder} {layout : Layout} {rows : List StagedRow} {places : Places}

theorem directoryLayoutFor_wellFormed (dense : Bool) (addressWidth : Nat)
    (directory : List DirEntry) :
    (directoryLayoutFor dense addressWidth directory).WellFormed := by
  unfold directoryLayoutFor
  have offset := widthFor_le (largest (directory.map (·.offset)))
  have count := widthFor_le (largest (directory.map (·.count)))
  refine makeDirLayout_wellFormed ?_ offset count ?_ ?_ ?_ ?_
  · split
    · exact Nat.zero_le _
    · exact widthFor_le _
  · split <;> omega
  · split
    · exact widthFor_le _
    · exact Nat.zero_le _
  · split <;> omega
  · split <;> omega

/-- The numbers of a partition's slot fit their fields. -/
structure EntrySmall (d : DirEntry) : Prop where
  partition : d.partition < 2 ^ 64
  offset : d.offset < 2 ^ 64
  count : d.count < 2 ^ 64
  schemaId : d.schemaId ≤ maxLocalWidth
  remapCount : d.remapCount < 2 ^ 32
  remapped : d.schemaId ≠ 0 → d.remapCount ≠ 0
  addressWidth : d.addressWidth < 2 ^ 8
  addressSkip : d.addressSkip < 2 ^ 8

theorem PlanKind.length_lt {run : List StagedRow} {plan : PartitionPlan}
    (kind : PlanKind layout run plan) : plan.remapTable.length < 2 ^ 32 := by
  cases kind with
  | plain schemaId remapTable =>
    rw [remapTable]
    exact Nat.two_pow_pos 32
  | remapped interned positive small remapTable some fits =>
    have power : 256 ^ plan.schemaId ≤ 256 ^ 2 := Nat.pow_le_pow_right (by decide) small
    rw [remapTable]
    omega

theorem length_le_of_mem_runs {run : List StagedRow} (member : run ∈ partitionRuns rows) :
    run.length ≤ rows.length := by
  have whole := (List.sublist_flatten_of_mem member).length_le
  rwa [partitionRuns_flatten] at whole

/-- The numbers of a slot are those of its plan, of its place and of its records. -/
theorem PlanKind.slotOf_small {run : List StagedRow} {plan : PartitionPlan}
    (kind : PlanKind layout run plan) (skip : plan.skip < 2 ^ 8) (width : plan.width < 2 ^ 8)
    (partition : UInt64) {offset count : Nat} (place : offset < 2 ^ 64) (few : count < 2 ^ 64) :
    EntrySmall (slotOf plan partition offset count) where
  partition := UInt64.toNat_lt _
  offset := place
  count := few
  schemaId := by
    cases kind with
    | plain schemaId remapTable => exact le_trans (Nat.le_of_eq schemaId) (Nat.zero_le _)
    | remapped interned positive small remapTable some fits => exact small
  remapCount := Nat.mod_lt _ (Nat.two_pow_pos 32)
  remapped := by
    intro remapped
    simp only [slotOf, Nat.mod_eq_of_lt kind.length_lt]
    cases kind with
    | plain schemaId remapTable => exact absurd schemaId remapped
    | remapped interned positive small remapTable some fits =>
      rw [remapTable]
      exact List.length_eq_zero_iff.not.mpr some
  addressWidth := width
  addressSkip := skip

theorem Written.entry_small {image : List UInt8}
    (written : Written builder layout rows image places)
    (short : image.length < 2 ^ 64) (few : rows.length < 2 ^ 64)
    (bytes : ∀ stretch ∈ layout.stretches, stretch.1 < 2 ^ 8 ∧ stretch.2 < 2 ^ 8)
    {d : DirEntry} (member : d ∈ directoryOf builder layout rows places) : EntrySmall d := by
  obtain ⟨j, piece, located, rfl⟩ := mem_directoryOf member
  obtain ⟨run, stretch, priced, planned⟩ := piecesOf_getElem? located
  have kind := planPartition_kind builder layout piece.1 stretch
  have cut := planPartition_stretch builder layout piece.1 stretch
  rw [← planned] at kind cut
  obtain ⟨skip, width⟩ := bytes stretch (List.mem_of_getElem? priced)
  rw [← cut] at skip width
  have place := (written.piece located).2
  have directory := written.recordsEnd
  have slots := written.slots.within
  have count := length_le_of_mem_runs (List.mem_of_getElem? run)
  exact kind.slotOf_small skip width _ (by omega) (lt_of_le_of_lt count few)

theorem fieldFits_absent (value : Nat) : FieldFits 0 value value :=
  (if_neg (not_not.mpr rfl)).mpr rfl

theorem fieldFits_present {width implied value : Nat} (positive : 0 < width)
    (fits : value < 256 ^ width) : FieldFits width implied value :=
  (if_pos (Nat.ne_of_gt positive)).mpr fits

/-- A field that may be left out fits when it is either way what it must be. -/
theorem fieldFits_of_optional {present : Prop} [Decidable present] {width implied value : Nat}
    (fits : present → 0 < width ∧ value < 256 ^ width) (absent : ¬ present → value = implied) :
    FieldFits (if present then width else 0) implied value := by
  by_cases holds : present
  · rw [if_pos holds]
    exact fieldFits_present (fits holds).1 (fits holds).2
  · rw [if_neg holds, absent holds]
    exact fieldFits_absent implied

theorem fits_of_gap (addressWidth k : Nat) (directory : List DirEntry) :
    SlotFits (directoryLayoutFor true addressWidth directory) k (addressWidth % 2 ^ 8)
      (gapSlot addressWidth k).stored where
  partition := fieldFits_absent k
  offset := Nat.pow_pos (by decide)
  count := Nat.pow_pos (by decide)
  schemaId := fieldFits_of_optional (fun _ => ⟨by decide, Nat.pow_pos (by decide)⟩) fun _ => rfl
  remapCount := fieldFits_of_optional
    (fun _ => ⟨widthFor_pos _, Nat.pow_pos (by decide)⟩) fun _ => rfl
  addressWidth := fieldFits_of_optional (fun _ => ⟨by decide, Nat.mod_lt _ (by decide)⟩)
    fun _ => rfl
  addressSkip := fieldFits_of_optional (fun _ => ⟨by decide, Nat.pow_pos (by decide)⟩) fun _ => rfl
  schemaId_lt := Nat.two_pow_pos 32
  remapCount_lt := Nat.two_pow_pos 32
  addressWidth_lt := lt_trans (Nat.mod_lt _ (by decide : 0 < 2 ^ 8)) (by decide)
  addressSkip_lt := Nat.two_pow_pos 32

theorem fits_of_member {dense : Bool} {addressWidth k : Nat} {directory : List DirEntry}
    (small : ∀ d ∈ directory, EntrySmall d) {d : DirEntry}
    (atIndex : dense = true → d.partition = k) (member : d ∈ directory) :
    SlotFits (directoryLayoutFor dense addressWidth directory) k (addressWidth % 2 ^ 8)
      d.stored := by
  have here := small d member
  have fits (number : DirEntry → Nat) (below : ∀ d ∈ directory, number d < 2 ^ 64) :
      number d < 256 ^ widthFor (largest (directory.map number)) :=
    lt_pow_of_mem (by simpa using below) (List.mem_map_of_mem member)
  have none (number : DirEntry → Nat) (zero : ¬ largest (directory.map number) ≠ 0) :
      number d = 0 := by
    have most := le_largest (List.mem_map_of_mem (f := number) member)
    omega
  refine
    { partition := ?_
      offset := fits (·.offset) fun other inside => (small other inside).offset
      count := fits (·.count) fun other inside => (small other inside).count
      schemaId := fieldFits_of_optional (fun _ => ⟨by decide, ?_⟩) fun zero => ?_
      remapCount := fieldFits_of_optional (fun _ => ⟨widthFor_pos _, ?_⟩) (none (·.remapCount))
      addressWidth := fieldFits_of_optional (fun _ => ⟨by decide, Nat.mod_lt _ (by decide)⟩)
        fun untrimmed => ?_
      addressSkip := fieldFits_of_optional (fun _ => ⟨by decide, here.addressSkip⟩)
        (none (·.addressSkip))
      schemaId_lt := lt_of_le_of_lt here.schemaId (by decide)
      remapCount_lt := here.remapCount
      addressWidth_lt := lt_trans (Nat.mod_lt _ (by decide : 0 < 2 ^ 8)) (by decide)
      addressSkip_lt := lt_trans here.addressSkip (by decide) }
  · cases dense with
    | true =>
      rw [← atIndex rfl]
      exact fieldFits_absent _
    | false =>
      exact fieldFits_present (widthFor_pos _)
        (fits (·.partition) fun other inside => (small other inside).partition)
  · exact lt_of_le_of_lt here.schemaId (by decide)
  · exact not_not.mp fun remapped => here.remapped remapped (none (·.remapCount) zero)
  · exact fits (·.remapCount) fun other inside =>
      lt_trans (small other inside).remapCount (by decide)
  · have same : d.addressWidth = addressWidth := by
      by_contra other
      exact untrimmed (List.any_eq_true.mpr ⟨d, member, decide_eq_true other⟩)
    rw [DirEntry.stored, same]

/-- A slot of a directory survives being packed, its address width as one byte. -/
theorem directorySlots_fits {dense : Bool} {addressWidth : Nat} {directory : List DirEntry}
    (ascending : Ascending 0 directory) (small : ∀ d ∈ directory, EntrySmall d) {k : Nat}
    {d : DirEntry} (located : (directorySlots dense addressWidth directory)[k]? = some d) :
    SlotFits (directoryLayoutFor dense addressWidth directory) k (addressWidth % 2 ^ 8)
      d.stored := by
  obtain ⟨atIndex, member | ⟨rfl, rfl⟩⟩ := directorySlots_getElem? ascending located
  · exact fits_of_member small atIndex member
  · exact fits_of_gap addressWidth k directory

theorem Written.slot_fits {image : List UInt8} (written : Written builder layout rows image places)
    (short : image.length < 2 ^ 64) (few : rows.length < 2 ^ 64)
    (ordered : rows.Pairwise StagedRow.Before)
    (bytes : ∀ stretch ∈ layout.stretches, stretch.1 < 2 ^ 8 ∧ stretch.2 < 2 ^ 8)
    {k : Nat} {d : DirEntry} (located : (slotsOf builder layout rows places)[k]? = some d) :
    SlotFits (dirLayoutOf builder layout rows places) k (layout.addressWidth % 2 ^ 8) d.stored :=
  directorySlots_fits (directoryOf_ascending written.stretches ordered)
    (fun _ member => written.entry_small short few bytes member) located

end Packing

end Mmpack
