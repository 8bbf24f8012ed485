/-
This file proves that untrusted images are memory safe. The iterators a caller can
come by are the start, the end, the results of lookups and what stepping makes of
those; on an opened table each of them is settled: it is on a record or at the
end. Every read through a settled iterator stays inside the image.
-/

import Mmpack.Elements

namespace Mmpack

open ByteList Checked Cursor

/-- The action reads only inside its region. -/
def Runs {Value : Type} (action : Read Value) : Prop := ∃ value, action = .ok value

namespace Table

/-- The iterators a caller can come by. Stepping back from the first position is the caller's
error. -/
inductive Reachable (table : Table) : Position → Prop
  | begin {it : Position} : table.begin = .ok it → Reachable table it
  | «end» : Reachable table table.end
  | lookup {it : Position} (lookup : Lookup) (target : Target) :
    table.lookup lookup target = .ok it → Reachable table it
  | next {it following : Position} :
    Reachable table it → table.next it = .ok following → Reachable table following
  | previous {it preceding : Position} :
    Reachable table it → table.begin ≠ .ok it → table.previous it = .ok preceding →
      Reachable table preceding

/-- Whatever is asked of the table reads only inside the image. -/
structure Safe (table : Table) : Prop where
  begin : Runs table.begin
  lookup : ∀ lookup target, Runs (table.lookup lookup target)
  next : ∀ it, Reachable table it → Runs (table.next it)
  previous : ∀ it, Reachable table it → table.begin ≠ .ok it → Runs (table.previous it)
  uint : ∀ it id, Reachable table it → Runs (table.uint it id)
  sint : ∀ it id, Reachable table it → Runs (table.sint it id)
  f32 : ∀ it id, Reachable table it → Runs (table.f32 it id)
  f64 : ∀ it id, Reachable table it → Runs (table.f64 it id)
  bytes : ∀ it id, Reachable table it → Runs (table.bytes it id)
  text : ∀ it id, Reachable table it → Runs (table.text it id)
  field : ∀ name, Runs (table.field name)
  name : ∀ id < table.schema.fieldCount, Runs (table.schema.name table.region id)
  partitionCount : Runs table.partitionCount
  partition : ∀ it, Reachable table it → it ≠ table.end → Runs (table.partition it)
  address : ∀ it, Reachable table it → it ≠ table.end → Runs (table.address it)
  addressBytes : ∀ it, Reachable table it → it ≠ table.end → Runs (table.addressBytes it)
  addressSkip : ∀ it, Reachable table it → it ≠ table.end → Runs (table.addressSkip it)
  addressInto : ∀ it out, Reachable table it → it ≠ table.end → Runs (table.addressInto it out)
  key : ∀ it, Reachable table it → it ≠ table.end → Runs (table.key it)

variable {table : Table}

theorem probeFits_narrow (narrow : table.narrowAddress = true) (value : Nat) :
    table.ProbeFits (.narrow value) := narrow

/-- The position a target is looked up at. -/
def targetPosition (table : Table) (lookup : Lookup) : Target → Position
  | .key key =>
    if table.hasKeyMapping = true ∧ table.narrowAddress = true then
      table.position lookup (table.schema.partitionOf key.toNat)
        (.narrow (table.schema.addressOf key.toNat))
    else table.end
  | .integer partition address =>
    if table.narrowAddress = true then
      table.position lookup partition.toNat (.narrow address.toNat)
    else table.end
  | .bytes partition address =>
    if address.length = table.addressWidth then
      table.position lookup partition.toNat
        (if table.narrowAddress = true then .narrow (leNat address) else .wide address)
    else table.end

theorem addressOf_lt (schema : SchemaView) {key : Nat} (bound : key < 2 ^ 64) :
    schema.addressOf key < 2 ^ 64 := by
  unfold SchemaView.addressOf
  split
  · exact bound
  · exact lt_of_le_of_lt Nat.and_le_left bound

theorem narrow_width (valid : table.Valid) (narrow : table.narrowAddress = true) :
    table.addressWidth ≤ 8 := by
  rw [valid.addressWidth_eq]
  exact of_decide_eq_true narrow

theorem atInteger_eq (valid : table.Valid) (lookup : Lookup) (partition : Nat) {address : Nat}
    (typed : address < 2 ^ 64) :
    table.atInteger lookup partition address =
      .ok (if table.narrowAddress = true then table.position lookup partition (.narrow address)
        else table.end) := by
  unfold atInteger
  cases narrow : table.narrowAddress with
  | false => rfl
  | true => exact parts_eq valid (probeFits_narrow narrow _) typed lookup partition

theorem leNat_lt_64 (valid : table.Valid) (narrow : table.narrowAddress = true)
    {address : List UInt8} (width : address.length = table.addressWidth) :
    leNat address < 2 ^ 64 := by
  have small := narrow_width valid narrow
  have bound := leNat_lt address
  have power : 256 ^ address.length ≤ 256 ^ 8 := Nat.pow_le_pow_right (by decide) (by omega)
  omega

theorem atBytes_eq (valid : table.Valid) (lookup : Lookup) (partition : Nat)
    (address : List UInt8) :
    table.atBytes lookup partition address =
      .ok (if address.length = table.addressWidth then
          table.position lookup partition
            (if table.narrowAddress = true then .narrow (leNat address) else .wide address)
        else table.end) := by
  unfold atBytes
  by_cases width : address.length = table.addressWidth
  · rw [if_neg (not_not.mpr width), if_pos width]
    cases narrow : table.narrowAddress with
    | true =>
      have small := narrow_width valid narrow
      have whole : valueAt address 0 table.addressWidth = leNat address := by
        rw [valueAt, ← width, slice_zero_length]
      simp only [if_true]
      rw [loadUint_eq small (by omega), ok_bind, whole]
      exact parts_eq valid (probeFits_narrow narrow _) (leNat_lt_64 valid narrow width) lookup _
    | false =>
      simp only [Bool.false_eq_true, if_false]
      exact parts_eq valid (show table.ProbeFits (.wide address) from width) trivial lookup _
  · rw [if_pos width, if_neg width]
    rfl

/-- Every lookup in every form runs, and lands where its target is looked up. -/
theorem lookup_eq (valid : table.Valid) (lookup : Lookup) (target : Target) :
    table.lookup lookup target = .ok (table.targetPosition lookup target) := by
  cases target with
  | key key =>
    simp only [Table.lookup, atKey, targetPosition]
    cases mapped : table.hasKeyMapping with
    | false => rfl
    | true =>
      simp only [true_and, Bool.true_eq_false, if_false]
      exact atInteger_eq valid lookup _ (addressOf_lt _ key.toNat_lt)
  | integer partition address => exact atInteger_eq valid lookup _ address.toNat_lt
  | bytes partition address => exact atBytes_eq valid lookup _ address

theorem targetPosition_settled (lookup : Lookup) (target : Target) :
    Settled table.countAt table.dirCount (table.targetPosition lookup target) := by
  have orEnd {condition : Prop} [Decidable condition] {position : Position}
      (lands : Settled table.countAt table.dirCount position) :
      Settled table.countAt table.dirCount (if condition then position else table.end) := by
    split
    · exact lands
    · exact table.end_settled
  cases target with
  | key key => exact orEnd (position_settled lookup _ _)
  | integer partition address => exact orEnd (position_settled lookup _ _)
  | bytes partition address => exact orEnd (position_settled lookup _ _)

/-! ### Reachable iterators are settled -/

theorem first_spec : Settled table.countAt table.dirCount table.first ∧
    rank table.countAt table.first = 0 := by
  obtain ⟨isSettled, same⟩ := @settled_spec table.countAt table.dirCount
    ⟨0, 0⟩ (Nat.zero_le _) (fun _ => Nat.zero_le _) fun _ => rfl
  refine ⟨isSettled, same.trans ?_⟩
  rw [rank, itemsBefore_zero, Nat.add_zero]

/-- Past the first position there are records. -/
theorem rank_pos (valid : table.Valid) {it : Position}
    (isSettled : Settled table.countAt table.dirCount it) (past : table.begin ≠ .ok it) :
    0 < rank table.countAt it := by
  obtain ⟨firstSettled, firstRank⟩ : Settled table.countAt table.dirCount table.first ∧ _ :=
    first_spec
  refine Nat.pos_of_ne_zero fun zero => past ?_
  rw [begin_eq valid, firstSettled.eq_of_rank_eq isSettled (by rw [firstRank, zero])]

theorem next_eq (valid : table.Valid) {it : Position}
    (isSettled : Settled table.countAt table.dirCount it) :
    table.next it = .ok (settled table.countAt table.dirCount ⟨it.slot, it.index + 1⟩) :=
  normalize_eq valid _ isSettled.slot_le

theorem previous_eq (valid : table.Valid) {it : Position}
    (isSettled : Settled table.countAt table.dirCount it) :
    table.previous it = .ok (back table.countAt it) :=
  retreat_eq valid isSettled.slot_le

theorem Reachable.settled (valid : table.Valid) {it : Position}
    (reachable : Reachable table it) : Settled table.countAt table.dirCount it := by
  induction reachable with
  | begin runs =>
    rw [begin_eq valid] at runs
    obtain rfl := Except.ok.inj runs
    exact first_spec.1
  | «end» => exact table.end_settled
  | lookup lookup target runs =>
    rw [lookup_eq valid] at runs
    obtain rfl := Except.ok.inj runs
    exact targetPosition_settled lookup target
  | next _ runs inductionHypothesis =>
    rw [next_eq valid inductionHypothesis] at runs
    obtain rfl := Except.ok.inj runs
    exact settled_settled inductionHypothesis.slot_le
  | previous _ past runs inductionHypothesis =>
    rw [previous_eq valid inductionHypothesis] at runs
    obtain rfl := Except.ok.inj runs
    exact Or.inl (back_spec inductionHypothesis (rank_pos valid inductionHypothesis past)).1

/-! ### Reads through a settled iterator -/

theorem readScalar_runs (valid : table.Valid) {it : Position}
    (isSettled : Settled table.countAt table.dirCount it) (id : Nat) (expected : FieldKind) :
    Runs (table.readScalar it id expected) := by
  rcases isSettled with names | rfl
  · exact ⟨_, readScalar_eq valid names id expected⟩
  · exact ⟨_, readScalar_end valid id expected⟩

theorem Runs.map {Value Result : Type} {action : Read Value} (runs : Runs action)
    (change : Value → Result) : Runs (do return change (← action)) := by
  obtain ⟨value, equation⟩ := runs
  exact ⟨change value, by rw [equation]; rfl⟩

theorem bytes_runs (valid : table.Valid) {it : Position}
    (isSettled : Settled table.countAt table.dirCount it) (id : Nat) :
    Runs (table.bytes it id) := by
  rcases isSettled with names | rfl
  · exact ⟨_, bytes_eq valid names id⟩
  · exact ⟨_, bytes_end valid id⟩

theorem text_runs_of_settled (valid : table.Valid) {it : Position}
    (isSettled : Settled table.countAt table.dirCount it) (id : Nat) : Runs (table.text it id) := by
  rcases isSettled with names | rfl
  · exact text_runs valid names id
  · exact ⟨_, text_end valid id⟩

theorem Valid.safe (valid : table.Valid) : table.Safe := by
  have names {it : Position} (reachable : Reachable table it) (notEnd : it ≠ table.end) :
      Names table.countAt table.dirCount it :=
    (reachable.settled valid).resolve_right notEnd
  exact
    { begin := ⟨_, begin_eq valid⟩
      lookup := fun lookup target => ⟨_, lookup_eq valid lookup target⟩
      next := fun it reachable => ⟨_, next_eq valid (reachable.settled valid)⟩
      previous := fun it reachable _ => ⟨_, previous_eq valid (reachable.settled valid)⟩
      uint := fun it id reachable => readScalar_runs valid (reachable.settled valid) id _
      sint := fun it id reachable =>
        Runs.map (readScalar_runs valid (reachable.settled valid) id _) _
      f32 := fun it id reachable =>
        Runs.map (readScalar_runs valid (reachable.settled valid) id _) _
      f64 := fun it id reachable => readScalar_runs valid (reachable.settled valid) id _
      bytes := fun it id reachable => bytes_runs valid (reachable.settled valid) id
      text := fun it id reachable => text_runs_of_settled valid (reachable.settled valid) id
      field := fun name => ⟨_, field_eq valid name⟩
      name := fun id inside => ⟨_, name_eq valid inside⟩
      partitionCount := partitionCountFrom_eq valid (Nat.zero_add _)
      partition := fun it reachable notEnd => ⟨_, partition_eq valid (names reachable notEnd)⟩
      address := fun it reachable notEnd => ⟨_, address_eq valid (names reachable notEnd)⟩
      addressBytes := fun it reachable notEnd =>
        ⟨_, addressBytes_eq valid (names reachable notEnd)⟩
      addressSkip := fun it reachable notEnd => ⟨_, addressSkip_eq valid (names reachable notEnd)⟩
      addressInto := fun it out reachable notEnd =>
        ⟨_, addressInto_eq valid (names reachable notEnd) out⟩
      key := fun it reachable notEnd => ⟨_, key_eq valid (names reachable notEnd)⟩ }

/-- For every byte string, opening reads only inside it, and once it is accepted so does
everything asked of the table. -/
theorem tryOpen_safe (image : Image) :
    (∀ fault, (tryOpen (some image)).run ≠ .error fault) ∧
      ∀ table, tryOpen (some image) = pure table → table.image = image ∧ table.Safe := by
  have ensures := tryOpen_ensures image
  refine ⟨ensures.no_fault, fun table accepted => ?_⟩
  obtain ⟨same, valid⟩ := ensures.of_accepts accepted
  exact ⟨same, valid.safe⟩

end Table

end Mmpack
