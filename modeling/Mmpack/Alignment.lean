/-
This file is about the option to align the fields of a tuple. A field should start at
the least multiple of its width where the one before it ends; the mask that rounds
its place up does that for a power of two. For a byte field of another width it does
only after some ends, which are listed here by their residue, and in a tuple of more
than 4 GiB the places wrap around.
-/

import Mmpack.Fields
import Mmpack.Interning
import Mathlib.Order.Bounds.Basic

namespace Mmpack

open ByteList

/-! ### Rounding up -/

/-- The next multiple of a width. -/
def roundUp (stop width : Nat) : Nat := (stop + (width - 1)) / width * width

/-- The places a field of a width may start at after an end. -/
def multiplesFrom (stop width : Nat) : Set Nat := {place | stop ≤ place ∧ width ∣ place}

theorem roundUp_isLeast (stop : Nat) {width : Nat} (positive : 0 < width) :
    IsLeast (multiplesFrom stop width) (roundUp stop width) := by
  refine ⟨⟨?_, Nat.dvd_mul_left _ _⟩, ?_⟩
  · have split := Nat.div_add_mod (stop + (width - 1)) width
    have small := Nat.mod_lt (stop + (width - 1)) positive
    rw [roundUp, Nat.mul_comm]
    omega
  · rintro place ⟨after, ⟨count, rfl⟩⟩
    have quotient : (stop + (width - 1)) / width ≤ count := by
      refine Nat.le_of_lt_succ ((Nat.div_lt_iff_lt_mul positive).mpr ?_)
      rw [Nat.succ_mul, Nat.mul_comm count]
      omega
    rw [roundUp, Nat.mul_comm]
    exact Nat.mul_le_mul_left width quotient

theorem roundUp_add (shift stop : Nat) {width : Nat} (positive : 0 < width)
    (multiple : width ∣ shift) : roundUp (shift + stop) width = shift + roundUp stop width := by
  obtain ⟨count, rfl⟩ := multiple
  rw [roundUp, roundUp, Nat.add_assoc, Nat.mul_add_div positive, Nat.add_mul,
    Nat.mul_comm count]

theorem alignUp_add {shift stop width : Nat} (positive : 0 < width) (small : width ≤ 8)
    (bound : shift + stop + 8 ≤ 2 ^ 64) (multiple : 8 ∣ shift) :
    alignUp (shift + stop) width = shift + alignUp stop width := by
  obtain ⟨count, rfl⟩ := multiple
  rw [alignUp_eq positive small bound, alignUp_eq positive small (by omega), Nat.add_assoc,
    Nat.mul_add_div (by decide), Nat.mul_add_mod]
  omega

/-- The ends after which the mask finds the next multiple of a width that is no power of two,
modulo the least common multiple of eight and the width. -/
def residues : Nat → List Nat
  | 3 => [0, 7, 9, 10, 12, 19, 21, 22]
  | 5 => [0, 6, 10, 21, 25, 31, 35, 36]
  | 6 => [0, 13, 14, 17, 18, 19, 20, 23]
  | 7 => [0, 43, 45, 47, 49, 50, 52, 54]
  | _ => []

/-- The mask finds the next multiple after an end. -/
def MaskRounds (stop width : Nat) : Prop :=
  width ∈ [1, 2, 4, 8] ∨ stop % Nat.lcm 8 width ∈ residues width

instance (stop width : Nat) : Decidable (MaskRounds stop width) := by
  unfold MaskRounds
  infer_instance

/-- Both ways of rounding repeat after the least common multiple of eight and the width, and the
table has one period. -/
theorem alignUp_eq_roundUp_iff {stop width : Nat} (positive : 0 < width) (small : width ≤ 8)
    (bound : stop + 8 ≤ 2 ^ 64) :
    alignUp stop width = roundUp stop width ↔ MaskRounds stop width := by
  have period : ∀ width : Fin 9, 0 < width.val → ∀ stop : Fin (Nat.lcm 8 width.val),
      (alignUp stop.val width.val = roundUp stop.val width.val ↔
        MaskRounds stop.val width.val) := by decide +kernel
  have inPeriod : stop % Nat.lcm 8 width < Nat.lcm 8 width :=
    Nat.mod_lt _ (Nat.lcm_pos (by decide) positive)
  have one := period ⟨width, by omega⟩ positive ⟨stop % Nat.lcm 8 width, inPeriod⟩
  have split : Nat.lcm 8 width * (stop / Nat.lcm 8 width) + stop % Nat.lcm 8 width = stop :=
    Nat.div_add_mod _ _
  have left := @alignUp_add (Nat.lcm 8 width * (stop / Nat.lcm 8 width)) (stop % Nat.lcm 8 width)
    width positive small (by omega) ((Nat.dvd_lcm_left 8 width).mul_right _)
  have right := roundUp_add (Nat.lcm 8 width * (stop / Nat.lcm 8 width))
    (stop % Nat.lcm 8 width) positive ((Nat.dvd_lcm_right 8 width).mul_right _)
  rw [split] at left right
  have residue : MaskRounds (stop % Nat.lcm 8 width) width ↔ MaskRounds stop width := by
    unfold MaskRounds
    rw [Nat.mod_mod]
  rw [left, right, Nat.add_left_cancel_iff, ← residue]
  exact one

/-! ### Aligned tuples -/

/-- Where the fields before one end. -/
def endBefore (start : Nat) : List FieldDesc → Nat → Nat
  | [], _ => start
  | _, 0 => start
  | d :: rest, i + 1 => endBefore (d.offset + d.width) rest i

/-- A tuple whose fields are aligned: each starts at the least multiple of its width where the one
before it ends, so that no two meet, and the tuple ends with the last one. -/
structure AlignedFrom (start : Nat) (placed : List FieldDesc) (stride : Nat) : Prop where
  least : ∀ i d, placed[i]? = some d →
    IsLeast (multiplesFrom (endBefore start placed i) d.width) d.offset
  apart : placed.Pairwise Follows
  stride : stride = endBefore start placed placed.length

/-- The end of fields of some widths, each aligned. -/
def alignedEnd : Nat → List Nat → Nat
  | stop, [] => stop
  | stop, width :: rest => alignedEnd (roundUp stop width + width) rest

/-- The mask finds the place of every field. -/
def AllRound : Nat → List Nat → Prop
  | _, [] => True
  | stop, width :: rest => MaskRounds stop width ∧ AllRound (roundUp stop width + width) rest

section Aligned

variable {start stride : Nat} {d : FieldDesc} {descs placed rest : List FieldDesc}

theorem alignedFrom_nil : AlignedFrom start [] stride ↔ stride = start :=
  ⟨fun aligned => aligned.stride,
    fun same => ⟨fun _ _ found => (nomatch found), List.Pairwise.nil, same⟩⟩

/-- The fields of an aligned tuple start where it starts, or later. -/
theorem AlignedFrom.le_offset (aligned : AlignedFrom start placed stride)
    (positive : ∀ d ∈ placed, 0 < d.width) : ∀ d ∈ placed, start ≤ d.offset := by
  cases placed with
  | nil => exact fun _ member => nomatch member
  | cons first rest =>
    have here : start ≤ first.offset := (aligned.least 0 first rfl).1.1
    intro d member
    rcases List.mem_cons.mp member with rfl | later
    · exact here
    · have after : first.offset + first.width ≤ d.offset :=
        (List.pairwise_cons.mp aligned.apart).1 d later
      omega

theorem alignedFrom_cons (positive : ∀ other ∈ rest, 0 < other.width) :
    AlignedFrom start (d :: rest) stride ↔
      IsLeast (multiplesFrom start d.width) d.offset ∧
        AlignedFrom (d.offset + d.width) rest stride := by
  constructor
  · intro aligned
    exact ⟨aligned.least 0 d rfl, fun i other found => aligned.least (i + 1) other found,
      (List.pairwise_cons.mp aligned.apart).2, aligned.stride⟩
  · rintro ⟨first, aligned⟩
    refine ⟨fun i other found => ?_, List.pairwise_cons.mpr ⟨fun other member => ?_,
      aligned.apart⟩, aligned.stride⟩
    · cases i with
      | zero =>
        obtain rfl := Option.some.inj found
        exact first
      | succ i => exact aligned.least i other found
    · exact aligned.le_offset positive other member

theorem le_alignedEnd (stop : Nat) {widths : List Nat} (positive : ∀ width ∈ widths, 0 < width) :
    stop ≤ alignedEnd stop widths := by
  induction widths generalizing stop with
  | nil => exact Nat.le_refl _
  | cons width rest inductionHypothesis =>
    have here : stop ≤ roundUp stop width :=
      (roundUp_isLeast stop (positive width List.mem_cons_self)).1.1
    have later := inductionHypothesis (roundUp stop width + width)
      fun other member => positive other (List.mem_cons_of_mem _ member)
    rw [alignedEnd]
    omega

/-- All places are 32-bit numbers, so a tuple that is aligned starts below 4 GiB. -/
theorem AlignedFrom.start_lt {align : Bool} {place : Nat} (bound : place < 2 ^ 32)
    (narrow : Narrow descs)
    (aligned : AlignedFrom start (placeFields align place descs).1
      (placeFields align place descs).2) : start < 2 ^ 32 := by
  cases descs with
  | nil => exact lt_of_eq_of_lt (alignedFrom_nil.mp aligned).symm bound
  | cons d rest =>
    have first := placeFields_offset_lt align (d :: rest) bound
    exact lt_of_le_of_lt (aligned.le_offset (narrow.placed align place).positive _
      List.mem_cons_self) (first _ List.mem_cons_self)

/-- Fields are placed aligned exactly if the mask finds the place of each, and the tuple ends below
4 GiB. -/
theorem placeFields_aligned_iff (narrow : Narrow descs) (bound : start < 2 ^ 32) :
    AlignedFrom start (placeFields true start descs).1 (placeFields true start descs).2 ↔
      alignedEnd start (descs.map (·.width)) < 2 ^ 32 ∧ AllRound start (descs.map (·.width)) := by
  induction descs generalizing start with
  | nil => exact alignedFrom_nil.trans (iff_of_true rfl ⟨bound, trivial⟩)
  | cons d rest inductionHypothesis =>
    obtain ⟨positive, small⟩ := narrow.head
    have least := roundUp_isLeast start positive
    have rounds := alignUp_eq_roundUp_iff positive small (show start + 8 ≤ 2 ^ 64 by omega)
    have high := alignUp_le start d.width
    have restPositive : ∀ width ∈ rest.map (·.width), 0 < width := fun width member => by
      obtain ⟨other, inside, rfl⟩ := List.mem_map.mp member
      exact (narrow.tail other inside).1
    have after : start ≤ roundUp start d.width := least.1.1
    simp only [placeFields, if_true, List.map_cons, alignedEnd, AllRound]
    rw [alignedFrom_cons (narrow.tail.placed true _).positive]
    constructor
    · rintro ⟨here, later⟩
      have place : alignUp start d.width % 2 ^ 32 = roundUp start d.width := here.unique least
      have stop := later.start_lt (Nat.mod_lt _ (by decide)) narrow.tail
      simp only [place] at stop later
      rw [Nat.mod_eq_of_lt stop] at later
      obtain ⟨short, others⟩ := (inductionHypothesis narrow.tail stop).mp later
      exact ⟨short, rounds.mp (by omega), others⟩
    · rintro ⟨short, here, others⟩
      have stop : roundUp start d.width + d.width < 2 ^ 32 :=
        lt_of_le_of_lt (le_alignedEnd _ restPositive) short
      have place : alignUp start d.width % 2 ^ 32 = roundUp start d.width := by
        rw [rounds.mpr here]
        exact Nat.mod_eq_of_lt (by omega)
      simp only [place, Nat.mod_eq_of_lt stop]
      exact ⟨least, (inductionHypothesis narrow.tail stop).mpr ⟨short, others⟩⟩

end Aligned

/-! ### The widths of a build -/

namespace Builder

variable {builder : Builder}

/-- The width a field needs: a declared one, or enough for what the data spans. -/
def widthOf (builder : Builder) (i : Nat) (decl : FieldDecl) : Nat :=
  match decl.kind with
  | .uint | .sint =>
    widthFor ((builder.statsAt i).range.2 - (builder.statsAt i).range.1).toNat
  | .f32 => 4
  | .f64 => 8
  | .bytes => decl.fixedWidth
  | .text => widthFor ((builder.dictOf i).size - 1)

def widths (builder : Builder) : List Nat := builder.schema.fields.mapIdx builder.widthOf

theorem fieldShape_widthOf (builder : Builder) (i : Nat) (decl : FieldDecl) :
    (fieldShape builder i decl).width = builder.widthOf i decl := by
  unfold fieldShape shapeField widthOf dictOf
  cases decl.kind <;> simp only
  split
  · rename_i empty
    rw [empty]
  · rfl

theorem shapeFields_widths (statCount : builder.stats.length = builder.schema.fields.length) :
    (shapeFields builder).map (·.width) = builder.widths := by
  refine List.ext_getElem? fun i => ?_
  rw [List.getElem?_map, widths, List.getElem?_mapIdx]
  cases declared : builder.schema.fields[i]? with
  | none =>
    rw [List.getElem?_eq_none (by
      rw [shapeFields_length statCount]
      exact List.getElem?_eq_none_iff.mp declared)]
    rfl
  | some decl =>
    rw [shapeFields_getElem? statCount declared]
    exact congrArg some (fieldShape_widthOf builder i decl)

end Builder

open Builder

/-- With the option on, the fields of a build are aligned exactly if the mask finds the place of
each, which only byte fields of three, five, six or seven bytes can miss, and the tuple so aligned
is shorter than 4 GiB. -/
theorem Build.aligned_iff (build : Build) (aligns : build.options.alignFields = true)
    (running : build.session.builder.finished = false) :
    let layout := chooseLayout build.finished.builder build.finished.builder.rows
    let widths := build.session.builder.widths
    (∀ report, build.finished.outcome = .ok report → report.valueStride = layout.valueStride) ∧
      (AlignedFrom 0 layout.descs layout.valueStride ↔
        alignedEnd 0 widths < 2 ^ 32 ∧ AllRound 0 widths) := by
  intro layout widths
  have tracks := build.tracks running
  refine ⟨fun report returned => ?_, ?_⟩
  · obtain ⟨partitions, finishes, -⟩ := build.finishes returned
    obtain ⟨flag, same⟩ := finishes.report
    rw [same]
    rfl
  · have statCount := tracks.sound.statCount
    have shapes : shapeFields build.finished.builder = shapeFields build.session.builder := by
      obtain ⟨staging, nextObject, same⟩ := finish_builder build.session.builder
      rw [Build.finished, same]
      rfl
    have options : build.finished.builder.options.alignFields = true := by
      obtain ⟨staging, nextObject, same⟩ := finish_builder build.session.builder
      rw [Build.finished, same, ← aligns, ← tracks.options]
    have iff := @placeFields_aligned_iff 0 (shapeFields build.session.builder)
      (shapeFields_narrow statCount) (by decide)
    rw [shapeFields_widths statCount] at iff
    rw [chooseLayout_descs, chooseLayout_valueStride, options, shapes]
    exact iff

/-- A record of an integer and some bytes, aligned. -/
def alignedBuild (width : Nat) (allowed : 1 ≤ width ∧ width ≤ 8) : Build :=
  Build.of { fields := [⟨[0x66], .uint, 0⟩, ⟨[0x62], .bytes, width⟩], named := by simp
             distinct := by simp, declared := by simpa [FieldKind.Declares] using allowed
             length_lt := by simp } { BuildOptions.default with alignFields := true }
    [.beginRecord 1, .set 0 0 (.uint 7), .set 0 1 (.bytes (List.replicate width 1)), .commit 0]
    (by simp) BuildOptions.default_addressBits (by simp) (by simp [Call.BuiltIn])

theorem alignedBuild_aligned :
    let builder := (alignedBuild 2 (by decide)).finished.builder
    AlignedFrom 0 (chooseLayout builder builder.rows).descs
      (chooseLayout builder builder.rows).valueStride := by
  refine ((alignedBuild 2 (by decide)).aligned_iff (by decide +kernel) (by decide +kernel)).2.mpr ?_
  have widths : (alignedBuild 2 (by decide)).session.builder.widths = [1, 2] := by decide +kernel
  rw [widths]
  exact ⟨by decide, Or.inl (by decide), Or.inl (by decide), trivial⟩

/-- Three bytes after one go to place one, which is no multiple of three. -/
theorem alignedBuild_misplaces :
    let build := alignedBuild 3 (by decide)
    let layout := chooseLayout build.finished.builder build.finished.builder.rows
    build.options.alignFields = true ∧ build.finished.outcome.isOk = true ∧
      layout.descs.map (fun d => (d.offset, d.width)) = [(0, 1), (1, 3)] ∧
        ¬ AlignedFrom 0 layout.descs layout.valueStride := by
  intro build layout
  have places : layout.descs.map (fun d => (d.offset, d.width)) = [(0, 1), (1, 3)] := by
    decide +kernel
  refine ⟨by decide +kernel, by decide +kernel, places, fun aligned => ?_⟩
  have second : (layout.descs.map (fun d => (d.offset, d.width)))[1]? = some (1, 3) := by
    rw [places]
    rfl
  rw [List.getElem?_map] at second
  obtain ⟨d, found, same⟩ := Option.map_eq_some_iff.mp second
  obtain ⟨offset, width⟩ := Prod.mk.inj same
  have multiple := (aligned.least 1 d found).1.2
  rw [offset, width] at multiple
  omega

end Mmpack
