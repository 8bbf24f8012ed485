/-
This file says when the value of a field survives: subtracting the bias,
truncating to the width and adding the bias gives a raw value back exactly when
its distance from the bias fits the width. The shape chosen for a field fits every
value it was ever given.
-/

import Mmpack.Shape
import Mmpack.Elements

namespace Mmpack

open ByteList

/-! ### There and back -/

/-- What a field reads back of a raw value. -/
def FieldDesc.readBack (d : FieldDesc) (raw : UInt64) : UInt64 :=
  UInt64.ofNat ((raw - UInt64.ofNat d.bias).toNat % 256 ^ d.width + d.bias)

/-- A value is read back when it lies less than the field's range above the bias. -/
theorem FieldDesc.readBack_eq_iff (d : FieldDesc) (raw : UInt64) :
    d.readBack raw = raw ↔ (raw - UInt64.ofNat d.bias).toNat < 256 ^ d.width := by
  have positive : 0 < 256 ^ d.width := Nat.pow_pos (by decide)
  have bound := (raw - UInt64.ofNat d.bias).toNat_lt
  have below := Nat.mod_le (raw - UInt64.ofNat d.bias).toNat (256 ^ d.width)
  rw [readBack, UInt64.ofNat_add, ← UInt64.eq_sub_iff_add_eq, ← UInt64.toNat_inj,
    UInt64.toNat_ofNat', Nat.mod_eq_of_lt (a := _ % 256 ^ d.width) (by omega)]
  constructor
  · intro same
    rw [← same]
    exact Nat.mod_lt _ positive
  · exact Nat.mod_eq_of_lt

/-! ### Distances in the order of a kind -/

theorem FieldKind.rank_eq (kind : FieldKind) (raw : UInt64) :
    kind.rank raw = raw.toNat ∨ kind.rank raw = raw.toNat - 2 ^ 64 := by
  unfold rank
  split
  · have cast : raw.toInt64.toInt = raw.toBitVec.toInt := rfl
    rw [cast, BitVec.toInt_eq_toNat_cond]
    split
    · exact Or.inl rfl
    · exact Or.inr rfl
  · exact Or.inl rfl

theorem FieldKind.rank_range (kind : FieldKind) :
    ∃ least : Int, ∀ raw, least ≤ kind.rank raw ∧ kind.rank raw < least + 2 ^ 64 := by
  by_cases signed : kind = .sint
  · refine ⟨-2 ^ 63, fun raw => ?_⟩
    rw [rank, if_pos signed]
    have low := raw.toInt64.le_toInt
    have high := raw.toInt64.toInt_lt
    omega
  · refine ⟨0, fun raw => ?_⟩
    rw [rank, if_neg signed]
    have bound := raw.toNat_lt
    omega

/-- The wrapped difference of two values is their distance in the order of the kind. -/
theorem FieldKind.toNat_sub (kind : FieldKind) {low high : UInt64}
    (ordered : kind.rank low ≤ kind.rank high) :
    ((high - low).toNat : Int) = kind.rank high - kind.rank low := by
  obtain ⟨least, range⟩ := kind.rank_range
  have lowRange := range low
  have highRange := range high
  have lowRank := kind.rank_eq low
  have highRank := kind.rank_eq high
  have lowBound := low.toNat_lt
  have highBound := high.toNat_lt
  rw [UInt64.toNat_sub]
  omega

/-! ### The shape of a field -/

/-- The shape chosen for a field of a builder. -/
def fieldShape (builder : Builder) (i : Nat) (decl : FieldDecl) : FieldDesc :=
  shapeField builder i decl (builder.statsAt i)

section FieldShape

variable {build : Build} {builder : Builder} {i : Nat}
  {decl : FieldDecl}

theorem fieldShape_kind (builder : Builder) (i : Nat) (decl : FieldDecl) :
    (fieldShape builder i decl).kind = decl.kind.code := by
  unfold fieldShape shapeField
  cases kind : decl.kind <;> rfl

theorem fieldShape_bias_lt (builder : Builder) (i : Nat) (decl : FieldDecl) :
    (fieldShape builder i decl).bias < 2 ^ 64 := by
  unfold fieldShape shapeField
  cases decl.kind <;> first | exact UInt64.toNat_lt _ | exact Nat.two_pow_pos 64

theorem fieldShape_dictIndex_lt (builder : Builder) (i : Nat) (decl : FieldDecl) :
    (fieldShape builder i decl).dictIndex < 2 ^ 16 := by
  unfold fieldShape shapeField
  cases decl.kind <;> first | exact Nat.mod_lt _ (by decide) | exact Nat.two_pow_pos 16

/-- A declared field gets a width its kind allows. -/
theorem fieldShape_width (builder : Builder) (i : Nat)
    (declares : decl.kind.Declares decl.fixedWidth) :
    SchemaView.kindAllows decl.kind.code (fieldShape builder i decl).width = true := by
  unfold fieldShape shapeField
  unfold FieldKind.Declares at declares
  cases kind : decl.kind <;> rw [kind] at declares <;> simp only [SchemaView.kindAllows,
    FieldKind.code]
  · exact widthFor_valid _
  · exact widthFor_valid _
  · rfl
  · rfl
  · simp only at declares
    simp only [ne_eq, decide_not, Nat.reduceEqDiff, if_false, if_true, Bool.and_eq_true,
      Bool.not_eq_eq_eq_not, Bool.not_true, decide_eq_false_iff_not, decide_eq_true_eq]
    omega
  · exact widthFor_valid _

theorem kindAllows_pos {kind width : Nat} (allowed : SchemaView.kindAllows kind width = true) :
    0 < width := by
  unfold SchemaView.kindAllows at allowed
  split at allowed
  · rw [beq_iff_eq.mp allowed]
    decide
  · split at allowed
    · rw [beq_iff_eq.mp allowed]
      decide
    · split at allowed
      · simp only [ne_eq, decide_not, Bool.and_eq_true, Bool.not_eq_eq_eq_not, Bool.not_true,
          decide_eq_false_iff_not] at allowed
        exact Nat.pos_of_ne_zero allowed.1
      · exact isValidWidth_pos allowed

/-- The range a scalar field was observed in. -/
theorem Built.range (built : Built build builder)
    (declared : builder.schema.fields[i]? = some decl) {raw : UInt64}
    (member : raw ∈ observedAt build.log.observed i) :
    (builder.statsAt i).range = ((builder.statsAt i).min, (builder.statsAt i).max) ∧
      decl.kind.rank (builder.statsAt i).min ≤ decl.kind.rank raw ∧
      decl.kind.rank raw ≤ decl.kind.rank (builder.statsAt i).max := by
  have spans := built.stats i decl declared
  have some := List.ne_nil_of_mem member
  exact ⟨if_pos (spans.seen.mpr some), (spans.min some).2 raw member, (spans.max some).2 raw member⟩

/-- A scalar lies less than the field's range above its bias. -/
theorem Built.scalar_fits (built : Built build builder)
    (declared : builder.schema.fields[i]? = some decl) {raw : UInt64}
    (scalar : decl.kind = .uint ∨ decl.kind = .sint)
    (member : raw ∈ observedAt build.log.observed i) :
    (raw - UInt64.ofNat (fieldShape builder i decl).bias).toNat <
      256 ^ (fieldShape builder i decl).width := by
  obtain ⟨range, low, high⟩ := built.range declared member
  have distance := decl.kind.toNat_sub low
  have span := decl.kind.toNat_sub (le_trans low high)
  have fits : (raw - (builder.statsAt i).min).toNat <
      256 ^ widthFor ((builder.statsAt i).max - (builder.statsAt i).min).toNat :=
    lt_pow_widthFor (by omega) (UInt64.toNat_lt _)
  have biased : (fieldShape builder i decl).bias = (builder.statsAt i).min.toNat ∧
      (fieldShape builder i decl).width =
        widthFor ((builder.statsAt i).max - (builder.statsAt i).min).toNat := by
    unfold fieldShape shapeField
    rw [range]
    rcases scalar with kind | kind <;> rw [kind] <;> exact ⟨rfl, rfl⟩
  rw [biased.1, biased.2, UInt64.ofNat_toNat]
  exact fits

/-- A kind without statistics has no bias. -/
theorem fieldShape_bias (plain : decl.kind ≠ .uint ∧ decl.kind ≠ .sint) :
    (fieldShape builder i decl).bias = 0 := by
  unfold fieldShape shapeField
  cases kind : decl.kind <;> simp_all

/-- What was set on a field reads back. -/
theorem Built.readBack_of_keeps (built : Built build builder)
    (declared : builder.schema.fields[i]? = some decl) {value : Builder.FieldValue} {raw : UInt64}
    (keeps : builder.Keeps i decl value raw) (observed : (i, value) ∈ build.log.observed) :
    (fieldShape builder i decl).readBack raw = raw := by
  rw [FieldDesc.readBack_eq_iff]
  have plain (noStats : decl.kind ≠ .uint ∧ decl.kind ≠ .sint)
      (fits : raw.toNat < 256 ^ (fieldShape builder i decl).width) :
      (raw - UInt64.ofNat (fieldShape builder i decl).bias).toNat <
        256 ^ (fieldShape builder i decl).width := by
    rwa [fieldShape_bias noStats, show UInt64.ofNat 0 = 0 from rfl, UInt64.sub_zero]
  cases value with
  | uint v =>
    obtain ⟨kind, rfl⟩ := keeps
    exact built.scalar_fits declared (Or.inl kind) (mem_observedAt observed rfl)
  | sint v =>
    obtain ⟨kind, rfl⟩ := keeps
    exact built.scalar_fits declared (Or.inr kind) (mem_observedAt observed rfl)
  | f32 bits =>
    obtain ⟨kind, rfl⟩ := keeps
    refine plain (by simp [kind]) ?_
    have width : (fieldShape builder i decl).width = 4 := by
      unfold fieldShape shapeField
      rw [kind]
    have bound := bits.toNat_lt
    rw [width, UInt32.toNat_toUInt64]
    omega
  | f64 bits =>
    obtain ⟨kind, rfl⟩ := keeps
    refine plain (by simp [kind]) ?_
    have width : (fieldShape builder i decl).width = 8 := by
      unfold fieldShape shapeField
      rw [kind]
    rw [width]
    exact raw.toNat_lt
  | text v =>
    obtain ⟨kind, found⟩ := keeps
    refine plain (by simp [kind]) ?_
    have inside := (List.getElem?_eq_some_iff.mp found).1
    have few := (builder.dictOf i).size_lt
    have width : (fieldShape builder i decl).width =
        widthFor ((builder.dictOf i).order.length - 1) := by
      unfold fieldShape shapeField
      rw [kind]
      simp only
      have size : (builder.textDicts.getD (Builder.textSlot builder.schema i) .empty).size =
        (builder.dictOf i).order.length := rfl
      rw [size, if_neg (by omega)]
    rw [width]
    exact lt_pow_widthFor (by omega) (by omega)
  | bytes v =>
    obtain ⟨kind, length, rfl⟩ := keeps
    refine plain (by simp [kind]) ?_
    have width : (fieldShape builder i decl).width = decl.fixedWidth := by
      unfold fieldShape shapeField
      rw [kind]
    have bound := leNat_lt v
    rw [width, UInt64.toNat_ofNat', ← length]
    exact lt_of_le_of_lt (Nat.mod_le _ _) bound

/-- An unset field reads back zero exactly when zero is less than the field's range above its
bias. -/
theorem readBack_zero_iff (builder : Builder) (i : Nat) (decl : FieldDecl) :
    (fieldShape builder i decl).readBack 0 = 0 ↔
      (0 - UInt64.ofNat (fieldShape builder i decl).bias).toNat <
        256 ^ (fieldShape builder i decl).width :=
  FieldDesc.readBack_eq_iff _ 0

end FieldShape

/-! ### The fields of a layout -/

section LayoutFields

variable {build : Build} {builder : Builder} {rows : List StagedRow}

theorem shapeFields_length (statCount : builder.stats.length = builder.schema.fields.length) :
    (shapeFields builder).length = builder.schema.fields.length := by
  rw [shapeFields, List.length_mapIdx, List.length_zip, statCount, Nat.min_self]

theorem shapeFields_getElem? (statCount : builder.stats.length = builder.schema.fields.length)
    {i : Nat} {decl : FieldDecl} (declared : builder.schema.fields[i]? = some decl) :
    (shapeFields builder)[i]? = some (fieldShape builder i decl) := by
  obtain ⟨inside, same⟩ := List.getElem?_eq_some_iff.mp declared
  have counted : i < builder.stats.length := by rwa [statCount]
  have stat : builder.statsAt i = builder.stats[i] := by
    rw [Builder.statsAt, List.getD_eq_getElem?_getD, List.getElem?_eq_getElem counted]
    rfl
  have zipped : (builder.schema.fields.zip builder.stats)[i]? = some (decl, builder.stats[i]) :=
    List.getElem?_zip_eq_some.mpr ⟨declared, List.getElem?_eq_getElem counted⟩
  rw [shapeFields, List.getElem?_mapIdx, zipped, fieldShape, stat]
  rfl

theorem shapeFields_narrow (statCount : builder.stats.length = builder.schema.fields.length) :
    Narrow (shapeFields builder) := by
  intro d member
  obtain ⟨i, inside, rfl⟩ := List.getElem_of_mem member
  rw [shapeFields_length statCount] at inside
  have declared := List.getElem?_eq_getElem inside
  have shaped := shapeFields_getElem? statCount declared
  obtain ⟨inShape, same⟩ := List.getElem?_eq_some_iff.mp shaped
  rw [same]
  have allowed := fieldShape_width builder i
    (builder.schema.declared _ (List.getElem_mem inside))
  exact ⟨kindAllows_pos allowed, Table.kindAllows_le allowed⟩

theorem Built.shape_narrow (built : Built build builder) : Narrow (shapeFields builder) :=
  shapeFields_narrow built.statCount

theorem chooseLayout_descs (builder : Builder) (rows : List StagedRow) :
    (chooseLayout builder rows).descs =
      (placeFields builder.options.alignFields 0 (shapeFields builder)).1 := rfl

theorem chooseLayout_valueStride (builder : Builder) (rows : List StagedRow) :
    (chooseLayout builder rows).valueStride =
      (placeFields builder.options.alignFields 0 (shapeFields builder)).2 := rfl

theorem descs_length (statCount : builder.stats.length = builder.schema.fields.length)
    (rows : List StagedRow) :
    (chooseLayout builder rows).descs.length = builder.schema.fields.length := by
  rw [chooseLayout_descs, placeFields_length, shapeFields_length statCount]

/-- A field of the layout is the shape of the declared field at some place. -/
theorem descs_getElem? (statCount : builder.stats.length = builder.schema.fields.length)
    (rows : List StagedRow) {i : Nat} {decl : FieldDecl}
    (declared : builder.schema.fields[i]? = some decl) :
    ∃ place, (chooseLayout builder rows).descs[i]? =
      some { fieldShape builder i decl with offset := place } := by
  obtain ⟨place, found⟩ := placeFields_getElem? builder.options.alignFields 0
    (shapeFields builder) i
  rw [shapeFields_getElem? statCount declared] at found
  exact ⟨place, found⟩

/-- The natural size of a value tuple. -/
def tupleSize (builder : Builder) : Nat :=
  tupleEnd builder.options.alignFields 0 (shapeFields builder)

/-- In a tuple shorter than 4 GiB every field holds its value. -/
theorem Built.tuple_field (built : Built build builder)
    (short : tupleSize builder < 2 ^ 32) (few : builder.schema.fields.length < 2 ^ 32)
    (rows : List StagedRow) {values : List UInt64}
    (count : values.length = builder.schema.fields.length) {i : Nat} {d : FieldDesc} {raw : UInt64}
    (located : (chooseLayout builder rows).descs[i]? = some d) (value : values[i]? = some raw) :
    d.offset + d.width ≤ (chooseLayout builder rows).valueStride ∧
      slice (encodeTuple (chooseLayout builder rows) values) d.offset d.width =
        leBytes d.width (raw - UInt64.ofNat d.bias).toNat := by
  have narrow := built.shape_narrow
  have size := shapeFields_length built.statCount
  obtain ⟨stride, apart, inside⟩ := placeFields_spec narrow short (by omega) (by decide)
  rw [encodeTuple_eq, chooseLayout_valueStride, stride]
  rw [chooseLayout_descs] at located ⊢
  have placedNarrow := narrow.placed builder.options.alignFields 0
  have placedCount :
      (placeFields builder.options.alignFields 0 (shapeFields builder)).1.length ≤
        values.length := by
    rw [placeFields_length, size, count]
  generalize (placeFields builder.options.alignFields 0 (shapeFields builder)).1 = descs at *
  have member : (d, raw) ∈ descs.zip values :=
    List.mem_of_getElem? (List.getElem?_zip_eq_some.mpr ⟨located, value⟩)
  have firsts : (descs.zip values).map Prod.fst = descs := List.map_fst_zip placedCount
  have inFields (field : FieldDesc × UInt64) (inZip : field ∈ descs.zip values) :
      field.1 ∈ descs := by
    rw [← firsts]
    exact List.mem_map_of_mem inZip
  refine ⟨(inside d (inFields _ member)).2, ?_⟩
  refine foldl_storeField_slice (fun field inZip => (placedNarrow _ (inFields field inZip)).2)
    (fun field inZip => ?_) ?_ member
  · rw [List.length_replicate]
    exact (inside _ (inFields field inZip)).2
  · rw [← firsts, List.pairwise_map] at apart
    exact apart

end LayoutFields

end Mmpack
