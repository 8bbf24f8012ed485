/-
This file is about what the choice of `address_bits` costs. A finer cut has narrower
addresses, and lumps fewer records together: each of its partitions stores a part of the
bytes that the coarse partition around it stores. So it never stores more address bytes.
-/

import Mmpack.Costs
import Mmpack.Grain
import Mmpack.Trimming

namespace Groups

/-! ### Weighed groups -/

section Weighed

variable {Item Other Key : Type} {weight : List Item → Nat} {weight' : List Other → Nat}

/-- The items of some groups, each with the weight of its group. -/
def weighed (weight : List Item → Nat) (groups : List (List Item)) : List (Item × Nat) :=
  groups.flatMap fun group => group.map fun item => (item, weight group)

theorem weighed_items (groups : List (List Item)) :
    (weighed weight groups).map Prod.fst = groups.flatten := by
  rw [weighed, List.map_flatMap, ← List.flatMap_id]
  refine congrArg (List.flatMap · groups) (funext fun group => ?_)
  rw [List.map_map]
  exact List.map_id group

theorem weighed_sum (groups : List (List Item)) :
    ((weighed weight groups).map Prod.snd).sum =
      (groups.map fun group => group.length * weight group).sum := by
  rw [weighed, List.map_flatMap, List.flatMap, List.sum_flatten, List.map_map]
  refine congrArg List.sum (List.map_congr_left fun group _ => ?_)
  rw [Function.comp_apply, List.map_map]
  exact (congrArg List.sum List.map_const).trans List.sum_replicate_nat

theorem mem_weighed {groups : List (List Item)} {pair : Item × Nat}
    (member : pair ∈ weighed weight groups) :
    ∃ group ∈ groups, pair.1 ∈ group ∧ pair.2 = weight group := by
  obtain ⟨group, inGroups, inside⟩ := List.mem_flatMap.mp member
  obtain ⟨item, inGroup, rfl⟩ := List.mem_map.mp inside
  exact ⟨group, inGroups, inGroup, rfl⟩

theorem sum_weights_le {Stands : Item → Key → Prop} {Stands' : Other → Key → Prop}
    {pairs : List (Item × Nat)} {pairs' : List (Other × Nat)} {keys : List Key}
    (stands : List.Forall₂ (fun pair key => Stands pair.1 key) pairs keys)
    (stands' : List.Forall₂ (fun pair key => Stands' pair.1 key) pairs' keys)
    (lighter : ∀ pair ∈ pairs, ∀ pair' ∈ pairs', ∀ key, Stands pair.1 key →
      Stands' pair'.1 key → pair.2 ≤ pair'.2) :
    (pairs.map Prod.snd).sum ≤ (pairs'.map Prod.snd).sum := by
  induction stands generalizing pairs' with
  | nil => exact Nat.zero_le _
  | @cons pair key rest keys here _ inductionHypothesis =>
    cases stands' with
    | @cons pair' _ rest' _ there others =>
      rw [List.map_cons, List.map_cons, List.sum_cons, List.sum_cons]
      refine Nat.add_le_add (lighter pair List.mem_cons_self pair' List.mem_cons_self key here
        there) (inductionHypothesis others fun pair member pair' member' => ?_)
      exact lighter pair (List.mem_cons_of_mem _ member) pair' (List.mem_cons_of_mem _ member')

/-- Two ways of grouping what stands for the same keys. Where every group that holds a key is no
heavier than the other group that holds it, all groups together are no heavier. -/
theorem sum_groups_le {Stands : Item → Key → Prop} {Stands' : Other → Key → Prop}
    {groups : List (List Item)} {groups' : List (List Other)} {keys : List Key}
    (stands : List.Forall₂ Stands groups.flatten keys)
    (stands' : List.Forall₂ Stands' groups'.flatten keys)
    (lighter : ∀ group ∈ groups, ∀ group' ∈ groups', ∀ item ∈ group, ∀ item' ∈ group', ∀ key,
      Stands item key → Stands' item' key → weight group ≤ weight' group') :
    (groups.map fun group => group.length * weight group).sum ≤
      (groups'.map fun group => group.length * weight' group).sum := by
  rw [← @weighed_items _ weight, List.forall₂_map_left_iff] at stands
  rw [← @weighed_items _ weight', List.forall₂_map_left_iff] at stands'
  rw [← weighed_sum, ← weighed_sum]
  refine sum_weights_le stands stands' fun pair member pair' member' key here there => ?_
  obtain ⟨group, inGroups, inGroup, same⟩ := mem_weighed member
  obtain ⟨group', inGroups', inGroup', same'⟩ := mem_weighed member'
  rw [same, same']
  exact lighter group inGroups group' inGroups' _ inGroup _ inGroup' key here there

end Weighed

end Groups

namespace Mmpack

open ByteList Checked Cursor

/-! ### Two cuts of a key -/

theorem partitionOf_of_finer {bits bits' : Nat} (bound : bits ≤ 64) (finer : bits' ≤ bits)
    (key : UInt64) :
    (partitionOf bits key).toNat = (partitionOf bits' key).toNat / 2 ^ (bits - bits') := by
  rw [partitionOf_toNat bound, partitionOf_toNat (finer.trans bound), Nat.div_div_eq_div_mul,
    ← Nat.pow_add, Nat.add_sub_of_le finer]

theorem addressOf_of_finer {bits bits' : Nat} (bound : bits ≤ 64) (finer : bits' ≤ bits)
    (key : UInt64) :
    (addressOf bits' key).toNat = (addressOf bits key).toNat % 2 ^ bits' := by
  rw [addressOf_toNat (finer.trans bound), addressOf_toNat bound,
    Nat.mod_mod_of_dvd _ (Nat.pow_dvd_pow 2 finer)]

/-- A digit that is cut off is zero. -/
theorem digit_of_mod {value bits i : Nat} (nonzero : value % 2 ^ bits / 256 ^ i % 256 ≠ 0) :
    value / 256 ^ i % 256 ≠ 0 := by
  rw [pow_256] at nonzero ⊢
  intro zero
  refine nonzero (Nat.eq_of_testBit_eq fun j => ?_)
  have bit := congrArg (Nat.testBit · j) zero
  have byte (digit : Nat) : digit % 256 = digit % 2 ^ 8 := rfl
  simp only [byte, Nat.testBit_mod_two_pow, Nat.testBit_div_two_pow, Nat.zero_testBit] at bit ⊢
  rw [Bool.and_left_comm, bit, Bool.and_false]

/-! ### The rows of a cut -/

/-- A row has the partition and the address of a key. -/
structure StagedRow.HasKey (bits : Nat) (row : StagedRow) (key : UInt64) : Prop where
  partition : row.partition = partitionOf bits key
  address : row.address = addressOf bits key

/-- The rows of a builder are some keys, cut at a bit. -/
structure Builder.Cut (builder : Builder) (bits : Nat) (keys : List UInt64) : Prop where
  bound : bits ≤ 64
  narrow : builder.blob.isSome = false
  rows : List.Forall₂ (StagedRow.HasKey bits) builder.rows keys

section Cuts

variable {build build' : Build} {builder builder' : Builder} {bits bits' : Nat}
  {keys : List UInt64}

theorem Builder.Cut.key (cut : builder.Cut bits keys) {row : StagedRow}
    (member : row ∈ builder.rows) : ∃ key ∈ keys, row.HasKey bits key := by
  obtain ⟨k, inside, rfl⟩ := List.mem_iff_getElem.mp member
  have inside' := cut.rows.length_eq ▸ inside
  exact ⟨_, List.getElem_mem inside', cut.rows.get inside inside'⟩

theorem Builder.Cut.row (cut : builder.Cut bits keys) {key : UInt64} (member : key ∈ keys) :
    ∃ row ∈ builder.rows, row.HasKey bits key := by
  obtain ⟨k, inside, rfl⟩ := List.mem_iff_getElem.mp member
  have inside' := cut.rows.length_eq.symm ▸ inside
  exact ⟨_, List.getElem_mem inside', cut.rows.get inside' inside⟩

/-- Rows of keys in place stand for them. -/
theorem hasKey_of_place {row : StagedRow} {key : UInt64} (integer : row.addressBytes = [])
    (place : row.place = keyPlace bits key) : row.HasKey bits key := by
  obtain ⟨partition, address⟩ := Prod.mk.inj (toLex_inj.mp place)
  rw [integer] at address
  exact ⟨UInt64.toNat_inj.mp partition, UInt64.toNat_inj.mp address⟩

/-- A keyed build is finished with its keys, cut where its options say. -/
theorem Built.cut (built : Built build builder) (keyed : ∀ call ∈ build.calls, call.Keyed) :
    builder.Cut build.options.addressBits build.keys := by
  obtain ⟨-, ofKeys, same⟩ := Build.ofKeys keyed
  have bound := build.addressBits_le
  have narrow : builder.blob.isSome = false := by
    refine Bool.eq_false_iff.mpr fun wide => ?_
    have mode := ofKeys.mode
    rw [← built.mode, built.wide.mp wide] at mode
    rcases mode with undecided | keyed
    · cases undecided
    · cases keyed
  refine ⟨bound, narrow, ?_⟩
  rw [Build.keys, List.forall₂_map_right_iff]
  obtain ⟨length, stages⟩ := List.forall₂_iff_get.mp built.stages
  refine List.forall₂_iff_get.mpr ⟨length, fun k inside inside' => ?_⟩
  have staged := stages k inside inside'
  have member := Log.mem_sorted.mp (List.get_mem build.log.sorted ⟨k, inside'⟩)
  obtain ⟨integer, -⟩ := ofKeys.committed _ member
  rw [← same] at bound ⊢
  obtain ⟨key, packed, place, -⟩ := ofKeys.place bound (Nat.zero_le 64) member
  refine hasKey_of_place (staged.addressBytes.trans integer) ?_
  rw [packed, ← place, StagedRow.place, Committed.place, staged.partition, staged.address,
    staged.addressBytes]

/-! ### A finer cut -/

theorem foldl_max_lt {rows : List StagedRow} {start : UInt64} {bound : Nat}
    (first : start.toNat < bound) (below : ∀ row ∈ rows, row.address.toNat < bound) :
    (rows.foldl (fun most row => max most row.address) start).toNat < bound := by
  induction rows generalizing start with
  | nil => exact first
  | cons row rest inductionHypothesis =>
    have larger : max start row.address = if start ≤ row.address then row.address else start :=
      rfl
    have most : (max start row.address).toNat < bound := by
      rw [larger]
      split
      · exact below row List.mem_cons_self
      · exact first
    exact inductionHypothesis most fun other member => below other (List.mem_cons_of_mem _ member)

/-- The addresses of a finer cut are no wider. -/
theorem Builder.Cut.addressWidth_le (cut : builder.Cut bits keys) (cut' : builder'.Cut bits' keys)
    (finer : bits' ≤ bits) : builder'.layout.addressWidth ≤ builder.layout.addressWidth := by
  have positive : 0 < builder.layout.addressWidth := by
    rw [narrow_layout cut.narrow]
    exact exactWidthFor_pos _
  rw [narrow_layout cut'.narrow]
  refine exactWidthFor_least positive (foldl_max_lt (by positivity) fun row' member' => ?_)
  obtain ⟨key, member, has'⟩ := cut'.key member'
  obtain ⟨row, inRows, has⟩ := cut.row member
  have bound := address_lt cut.narrow inRows
  rw [has'.address, addressOf_of_finer cut.bound finer, ← has.address]
  exact lt_of_le_of_lt (Nat.mod_le _ _) bound

/-- A byte that a finer cut does not trim is not zero on the coarser one. -/
theorem Builder.Cut.marked (cut : builder.Cut bits keys) (cut' : builder'.Cut bits' keys)
    (finer : bits' ≤ bits) {row row' : StagedRow} {key : UInt64} (has : row.HasKey bits key)
    (has' : row'.HasKey bits' key) {i : Nat} (marked : Marked (fullBytes builder' row') i) :
    Marked (fullBytes builder row) i := by
  have width := cut.addressWidth_le cut' finer
  rw [fullBytes, if_neg (by rw [cut'.narrow]; exact Bool.false_ne_true)] at marked
  rw [fullBytes, if_neg (by rw [cut.narrow]; exact Bool.false_ne_true)]
  obtain ⟨inside, nonzero⟩ := marked_leBytes_iff.mp marked
  rw [has'.address, addressOf_of_finer cut.bound finer, ← has.address] at nonzero
  exact marked_leBytes_iff.mpr ⟨by omega, digit_of_mod nonzero⟩

/-- The stretch of a partition lies in that of the coarser partition which has one of its
records. -/
theorem Builder.Cut.stretch (cut : builder.Cut bits keys) (cut' : builder'.Cut bits' keys)
    (finer : bits' ≤ bits) (built : Built build builder)
    (trims : builder'.options.partitionAddressWidth = builder.options.partitionAddressWidth)
    {run run' : List StagedRow} (member : run ∈ partitionRuns builder.rows)
    (member' : run' ∈ partitionRuns builder'.rows) {key : UInt64}
    (holds : partitionOfRun run = partitionOf bits key)
    (holds' : partitionOfRun run' = partitionOf bits' key)
    (some : (derivedStretch builder' run').2 ≠ 0) :
    (derivedStretch builder run).1 ≤ (derivedStretch builder' run').1 ∧
      (derivedStretch builder' run').1 + (derivedStretch builder' run').2 ≤
        (derivedStretch builder run).1 + (derivedStretch builder run).2 := by
  cases on : builder.options.partitionAddressWidth with
  | false =>
    have width := cut.addressWidth_le cut' finer
    rw [derivedStretch, derivedStretch, trims, on]
    exact ⟨Nat.le_refl 0, Nat.add_le_add_left width 0⟩
  | true =>
    -- A mark of the finer partition is a mark of the coarser one, at the same place.
    have within {i : Nat} (found : ∃ row' ∈ run', Marked (fullBytes builder' row') i) :
        (derivedStretch builder run).1 ≤ i ∧
          i < (derivedStretch builder run).1 + (derivedStretch builder run).2 := by
      obtain ⟨row', inside', marked⟩ := found
      obtain ⟨other, inKeys, has'⟩ := cut'.key (mem_rows_of_mem_run member' inside')
      obtain ⟨row, inRows, has⟩ := cut.row inKeys
      have fine := (has'.partition.symm.trans (partition_of_run member' inside')).trans holds'
      have coarse : row.partition = partitionOfRun run := by
        rw [has.partition, holds, ← UInt64.toNat_inj, partitionOf_of_finer cut.bound finer, fine,
          ← partitionOf_of_finer cut.bound finer]
      have inside := built.mem_run member inRows coarse
      exact (built.confined member inside).of_marked (cut.marked cut' finer has has' marked)
    rw [@derivedStretch.eq_def builder' run', trims, on] at some ⊢
    simp only [if_true] at some ⊢
    obtain ⟨first, last⟩ := Built.stretchOf_marked member' some
    have low := within first
    have high := within last
    omega

/-- All partitions of a finer cut together store no more address bytes. -/
theorem Builder.Cut.total (cut : builder.Cut bits keys) (cut' : builder'.Cut bits' keys)
    (finer : bits' ≤ bits) (built : Built build builder)
    (trims : builder'.options.partitionAddressWidth = builder.options.partitionAddressWidth) :
    ((partitionRuns builder'.rows).map fun run =>
        run.length * (derivedStretch builder' run).2).sum ≤
      ((partitionRuns builder.rows).map fun run =>
        run.length * (derivedStretch builder run).2).sum := by
  have rows := cut.rows
  have rows' := cut'.rows
  rw [← partitionRuns_flatten builder.rows] at rows
  rw [← partitionRuns_flatten builder'.rows] at rows'
  refine Groups.sum_groups_le rows' rows
    fun run' member' run member row' inside' row inside key has' has => ?_
  by_cases none : (derivedStretch builder' run').2 = 0
  · exact none.trans_le (Nat.zero_le _)
  · have within := cut.stretch cut' finer built trims member member'
      ((partition_of_run member inside).symm.trans has.partition)
      ((partition_of_run member' inside').symm.trans has'.partition) none
    omega

end Cuts

/-! ### Finer partitions -/

section Finer

variable {build : Build} {report report' : BuildReport} {bits : Nat}

/-- The stretch of one slot lies in that of another. -/
structure DirEntry.Within (fine coarse : DirEntry) : Prop where
  skip : coarse.addressSkip ≤ fine.addressSkip
  width : fine.addressSkip + fine.addressWidth ≤ coarse.addressSkip + coarse.addressWidth

/-- The report has the address bytes of the stretches. -/
theorem Build.addressBytes_reported (returned : build.finished.outcome = .ok report)
    (fits : build.addressTotal < 2 ^ 64) : report.addressBytesTotal = build.addressTotal := by
  obtain ⟨partitions, finishes, built⟩ := build.finishes returned
  obtain ⟨flag, reported⟩ := finishes.report
  rw [reported]
  exact build.addressTotal_eq built fits

/-- The report has the partitions of the keys. -/
theorem Build.partitions_reported (returned : build.finished.outcome = .ok report) :
    report.partitions = (partitionRuns build.finished.builder.rows).length := by
  obtain ⟨partitions, finishes, -⟩ := build.finishes returned
  obtain ⟨flag, reported⟩ := finishes.report
  have plans := congrArg List.length (build.walked finishes).plans
  rw [List.length_map, List.length_map] at plans
  rw [reported]
  exact plans

/-- The slots of a keyed build have the stretches derived for its runs. -/
theorem Build.run_of_stretch (keyed : ∀ call ∈ build.calls, call.Keyed)
    (returned : build.finished.outcome = .ok report) {slot : DirEntry}
    (member : slot ∈ build.directory) :
    ∃ run ∈ partitionRuns build.finished.builder.rows,
      (partitionOfRun run).toNat = slot.partition ∧
      derivedStretch build.finished.builder run = (slot.addressSkip, slot.addressWidth) := by
  obtain ⟨-, -, built⟩ := build.finishes returned
  obtain ⟨-, ofKeys, -⟩ := Build.ofKeys keyed
  obtain ⟨run, inRuns, same⟩ := build.run_of_slot returned member
  have spans (entry : Committed) (inLog : entry ∈ build.log.committed) :
      entry.addressBytes.length ≤ 255 := by
    rw [(ofKeys.committed entry inLog).1]
    exact Nat.zero_le _
  have skip : (planOf build.finished.builder run).skip = slot.addressSkip :=
    congrArg DirEntry.addressSkip same
  have width : (planOf build.finished.builder run).width = slot.addressWidth :=
    congrArg DirEntry.addressWidth same
  refine ⟨run, inRuns, congrArg DirEntry.partition same, ?_⟩
  rw [← built.planOf_stretch spans inRuns, skip, width]

/-- A finer cut has no fewer partitions. -/
theorem Builder.Cut.partitions_le {builder builder' : Builder} {bits bits' : Nat}
    {keys : List UInt64} (cut : builder.Cut bits keys) (cut' : builder'.Cut bits' keys)
    (finer : bits' ≤ bits) (built : Built build builder) :
    (partitionRuns builder.rows).length ≤ (partitionRuns builder'.rows).length := by
  let numbers (builder : Builder) : List Nat :=
    (partitionRuns builder.rows).map fun run => (partitionOfRun run).toNat
  have distinct : (numbers builder).Nodup :=
    List.pairwise_map.mpr ((runs_increasing built.ordered).imp ne_of_lt)
  have shifted : numbers builder ⊆ (numbers builder').map (· / 2 ^ (bits - bits')) := by
    intro number member
    obtain ⟨run, inRuns, rfl⟩ := List.mem_map.mp member
    obtain ⟨row, inside⟩ := List.exists_mem_of_ne_nil run (partitionRuns_ne_nil inRuns)
    obtain ⟨key, inKeys, has⟩ := cut.key (mem_rows_of_mem_run inRuns inside)
    obtain ⟨row', inRows', has'⟩ := cut'.row inKeys
    rw [← partitionRuns_flatten builder'.rows] at inRows'
    obtain ⟨run', inRuns', inside'⟩ := List.mem_flatten.mp inRows'
    refine List.mem_map.mpr ⟨_, List.mem_map_of_mem inRuns', ?_⟩
    rw [← partition_of_run inRuns inside, ← partition_of_run inRuns' inside', has.partition,
      has'.partition, partitionOf_of_finer cut.bound finer]
  have lengths := (List.subperm_of_subset distinct shifted).length_le
  rwa [List.length_map, List.length_map, List.length_map] at lengths

/-- A finer cut of the same keys has no fewer partitions and no wider addresses, and stores no more
address bytes. The partition of a key stores a part of what the coarser one of that key does. -/
theorem Build.finer_partitions (finer : bits ≤ build.options.addressBits)
    (keyed : ∀ call ∈ build.calls, call.Keyed) (returned : build.finished.outcome = .ok report)
    (returned' : (build.recut bits (le_trans finer build.addressBits_le)).finished.outcome =
      .ok report')
    (fits : report.records * report.addressWidth < 2 ^ 64) :
    report.partitions ≤ report'.partitions ∧ report'.addressWidth ≤ report.addressWidth ∧
      report'.addressBytesTotal ≤ report.addressBytesTotal ∧
      ∀ key, ∀ slot ∈ build.directory,
        ∀ slot' ∈ (build.recut bits (le_trans finer build.addressBits_le)).directory,
          slot.partition = (partitionOf build.options.addressBits key).toNat →
          slot'.partition = (partitionOf bits key).toNat → slot'.addressWidth ≠ 0 →
            slot'.Within slot := by
  generalize le_trans finer build.addressBits_le = bound' at *
  obtain ⟨-, finishes, built⟩ := build.finishes returned
  obtain ⟨-, finishes', built'⟩ := (build.recut bits bound').finishes returned'
  have keyed' : ∀ call ∈ (build.recut bits bound').calls, call.Keyed := keyed
  have cut := built.cut keyed
  have cut' : (build.recut bits bound').finished.builder.Cut bits build.keys :=
    @Build.recut_keys build bits bound' keyed ▸ built'.cut keyed'
  have trims : (build.recut bits bound').finished.builder.options.partitionAddressWidth =
      build.finished.builder.options.partitionAddressWidth := by
    rw [built.options, built'.options]
    rfl
  have width := cut.addressWidth_le cut' finer
  have total : (build.recut bits bound').addressTotal ≤ build.addressTotal :=
    cut.total cut' finer built trims
  have whole := build.addressTotal_le returned
  rw [(build.report_numbers returned).1, (build.report_layout returned).2] at fits
  refine ⟨?_, ?_, ?_, ?_⟩
  · rw [build.partitions_reported returned, Build.partitions_reported returned']
    exact cut.partitions_le cut' finer built
  · rw [(build.report_layout returned).2, (Build.report_layout returned').2]
    exact width
  · rw [build.addressBytes_reported returned (by omega),
      Build.addressBytes_reported returned' (lt_of_le_of_lt total (by omega))]
    exact total
  · intro key slot member slot' member' holds holds' some
    obtain ⟨run, inRuns, partition, stretch⟩ := Build.run_of_stretch keyed returned member
    obtain ⟨run', inRuns', partition', stretch'⟩ := Build.run_of_stretch keyed' returned' member'
    have within := @Builder.Cut.stretch _ _ _ _ _ _ cut cut' finer built trims run run' inRuns
      inRuns' key (UInt64.toNat_inj.mp (partition.trans holds))
      (UInt64.toNat_inj.mp (partition'.trans holds'))
    rw [stretch, stretch'] at within
    exact ⟨(within some).1, (within some).2⟩

end Finer

/-- The sample keys share a partition of 40 bits, where the one makes the other pay for five bytes.
On 32 bits each has a partition of its own. -/
theorem sample_finer_partitions : ∃ report report', coarseBuild.finished.outcome = .ok report ∧
    (coarseBuild.recut 32 (by decide)).finished.outcome = .ok report' ∧
    report.partitions ≤ report'.partitions ∧
    report'.addressBytesTotal ≤ report.addressBytesTotal := by
  have calls : coarseBuild.calls = [.beginRecord 5, .set 0 0 (.uint 7),
    .set 0 1 (.text [0x61, 0x62]), .commit 0, .beginRecord 0x200000001, .set 1 0 (.uint 1000),
    .commit 1] := (Build.of_spec _ _ _ _).2.2
  have keyed : ∀ call ∈ coarseBuild.calls, call.Keyed := by
    rw [calls]
    simp [Call.Keyed]
  obtain ⟨report, returned⟩ := coarseBuild.exists_report (by decide +kernel)
  obtain ⟨report', returned'⟩ :=
    (coarseBuild.recut 32 (by decide)).exists_report (by decide +kernel)
  have fits : report.records * report.addressWidth < 2 ^ 64 := by
    rw [(Build.report_numbers returned).1, (Build.report_layout returned).2]
    decide +kernel
  obtain ⟨partitions, -, bytes, -⟩ :=
    @Build.finer_partitions coarseBuild report report' 32 (by decide) keyed returned returned' fits
  exact ⟨report, report', returned, returned', partitions, bytes⟩

end Mmpack
