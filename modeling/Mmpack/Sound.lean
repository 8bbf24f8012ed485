/-
This file gives the invariant of a builder with its built-in staging: `Sound`
says how the key mode decides the staging, and that the flag of a staging tells
whether it is sorted. What a new builder looks like starts every run of it.
-/

import Mmpack.KeyOrder
import Mmpack.Ranges

namespace Mmpack

open ByteList

namespace Builder

/-! ### The invariant -/

/-- The rows staged so far. -/
def rows (builder : Builder) : List StagedRow :=
  match builder.staging with
  | some owned => owned.staging.view
  | none => []

/-- The statistics of a field. -/
def statsAt (builder : Builder) (i : Nat) : FieldStats := builder.stats.getD i .empty

/-- The dictionary of a text field. -/
def dictOf (builder : Builder) (i : Nat) : BlobDictionaryBuilder :=
  builder.textDicts.getD (textSlot builder.schema i) .empty

/-- The staging that goes with the key mode. -/
def StagingOk (builder : Builder) : Prop :=
  match builder.mode with
  | .undecided => builder.staging = none ∧ builder.blob = none
  | .keyed => builder.blob = none ∧ ∃ id staging,
      builder.staging = some ⟨id, .memory staging⟩ ∧
        staging.addressBits = builder.options.addressBits
  | .explicit => builder.blob = none ∧ ∃ id staging, builder.staging = some ⟨id, .wide staging⟩
  | .explicitWide => ∃ id staging, builder.staging = some ⟨id, .blob staging⟩ ∧
      builder.blob = some id ∧ staging.width = builder.wideWidth ∧
      ∀ row ∈ staging.rows, row.address.length = builder.wideWidth ∧ 0 < builder.wideWidth

structure Sound (builder : Builder) : Prop where
  fields : builder.schema.fields ≠ []
  addressBits : builder.options.addressBits ≤ 64
  statCount : builder.stats.length = builder.schema.fields.length
  dictCount : builder.textDicts.length = builder.schema.fields.countP (·.kind = .text)
  slotCount : builder.slots.length = builder.schema.fields.length
  width : builder.wideWidth < 2 ^ 32
  staging : builder.StagingOk
  ordered : ∀ owned, builder.staging = some owned →
    (owned.staging.isSorted = true ↔ owned.staging.view.Pairwise StagedRow.Before)
  count : builder.count = builder.rows.length

/-- A handle the builder has given out, in the key mode it is in. -/
def Begun (builder : Builder) (rec : RecordRef) : Prop :=
  match builder.mode with
  | .undecided => False
  | .keyed => ∃ key, rec =
      { partition := partitionOf builder.options.addressBits key
        address := addressOf builder.options.addressBits key }
  | .explicit => True
  | .explicitWide => rec.address = 0 ∧ 0 < builder.wideWidth ∧
      builder.pendingAddress.length = builder.wideWidth

/-- What only entering a key mode may change is the mode and the staging it needs. -/
structure Kept (earlier later : Builder) : Prop where
  schema : later.schema = earlier.schema
  options : later.options = earlier.options
  slots : later.slots = earlier.slots
  tuples : later.tuples = earlier.tuples
  stats : later.stats = earlier.stats
  textDicts : later.textDicts = earlier.textDicts
  rows : later.rows = earlier.rows
  pendingAddress : later.pendingAddress = earlier.pendingAddress
  finished : later.finished = earlier.finished
  decided : earlier.mode ≠ .undecided → later = earlier

theorem kept_refl (builder : Builder) : Kept builder builder :=
  ⟨rfl, rfl, rfl, rfl, rfl, rfl, rfl, rfl, rfl, fun _ => rfl⟩

variable {builder : Builder}

/-- Before a mode is decided there is no staging. -/
theorem Sound.fresh (sound : builder.Sound) (undecided : builder.mode = .undecided) :
    builder.staging = none ∧ builder.blob = none := by
  have staging := sound.staging
  rw [StagingOk, undecided] at staging
  exact staging

theorem Sound.wide_iff (sound : builder.Sound) :
    builder.blob.isSome = true ↔ builder.mode = .explicitWide := by
  have staging := sound.staging
  unfold StagingOk at staging
  rcases mode : builder.mode with _ | _ | _ | _ <;> rw [mode] at staging
  · simp [staging.2]
  · simp [staging.1]
  · simp [staging.1]
  · obtain ⟨id, owned, -, blob, -⟩ := staging
    simp [blob]

/-- The rows of a keyed build are keys taken apart. -/
theorem Sound.keyed_row (sound : builder.Sound)
    (keyed : builder.mode = .keyed ∨ builder.mode = .undecided) {row : StagedRow}
    (member : row ∈ builder.rows) : ∃ key,
      row.partition = partitionOf builder.options.addressBits key ∧
        row.address = addressOf builder.options.addressBits key := by
  have staging := sound.staging
  unfold StagingOk at staging
  rcases keyed with keyed | undecided
  swap
  · rw [undecided] at staging
    rw [rows, staging.1] at member
    nomatch member
  rw [keyed] at staging
  obtain ⟨-, id, memory, equation, bits⟩ := staging
  rw [rows, equation] at member
  obtain ⟨stored, -, rfl⟩ := List.mem_map.mp member
  exact ⟨stored.key, by rw [← bits], by rw [← bits]⟩

/-- What a row of the built-in staging looks like. -/
theorem Sound.row (sound : builder.Sound) {row : StagedRow} (member : row ∈ builder.rows) :
    if builder.blob.isSome then
      row.address = 0 ∧ row.addressBytes.length = builder.wideWidth ∧ 0 < builder.wideWidth
    else row.addressBytes = [] := by
  have staging := sound.staging
  unfold StagingOk at staging
  unfold rows at member
  cases mode : builder.mode with
  | undecided =>
    rw [mode] at staging
    rw [staging.1] at member
    nomatch member
  | keyed =>
    rw [mode] at staging
    obtain ⟨narrow, id, owned, equation, -⟩ := staging
    rw [equation] at member
    obtain ⟨inner, -, rfl⟩ := List.mem_map.mp member
    simp [narrow]
  | explicit =>
    rw [mode] at staging
    obtain ⟨narrow, id, owned, equation⟩ := staging
    rw [equation] at member
    obtain ⟨inner, -, rfl⟩ := List.mem_map.mp member
    simp [narrow]
  | explicitWide =>
    rw [mode] at staging
    obtain ⟨id, owned, equation, wide, -, lengths⟩ := staging
    rw [equation] at member
    obtain ⟨inner, inside, rfl⟩ := List.mem_map.mp member
    simpa [wide] using lengths inner inside

/-! ### Making a builder -/

/-- The builder no call has touched. -/
def blank (schema : SchemaBuilder) (options : BuildOptions) : Builder where
  schema := schema
  options := options
  staging := none
  slots := List.replicate schema.fields.length 0
  tuples := []
  stats := List.replicate schema.fields.length .empty
  textDicts := (schema.fields.filter (·.kind = .text)).map fun _ => .empty
  index := []
  count := 0
  lastPartition := 0
  lastAddress := 0
  mode := .undecided
  blob := none
  wideWidth := 0
  pendingAddress := []
  lastWide := []
  dedupActive := true
  finished := false
  nextObject := 0

theorem make_blank {schema : SchemaBuilder} {options : BuildOptions} {builder : Builder}
    (made : make schema options = .ok builder) :
    schema.fields ≠ [] ∧ options.addressBits ≤ 64 ∧ builder = blank schema options := by
  unfold make at made
  split at made
  · cases made
  · rename_i fields
    split at made
    · cases made
    · rename_i bits
      exact ⟨fields, Nat.le_of_not_lt bits, (Except.ok.inj made).symm⟩

theorem make_eq {schema : SchemaBuilder} {options : BuildOptions} {builder : Builder}
    (made : make schema options = .ok builder) :
    builder.Sound ∧ builder.schema = schema ∧ builder.options = options ∧ builder.rows = [] ∧
      builder.mode = .undecided ∧ builder.finished = false ∧ builder.pendingAddress = [] ∧
      builder.slots = List.replicate schema.fields.length 0 ∧
      builder.stats = List.replicate schema.fields.length .empty ∧
      ∀ i, (builder.dictOf i).order = [] := by
  obtain ⟨fields, addressBits, rfl⟩ := make_blank made
  refine ⟨?_, rfl, rfl, rfl, rfl, rfl, rfl, rfl, rfl, fun i => ?_⟩
  · exact
      { fields := fields
        addressBits := addressBits
        statCount := List.length_replicate
        dictCount := by simp [blank, List.countP_eq_length_filter]
        slotCount := List.length_replicate
        width := Nat.two_pow_pos 32
        staging := ⟨rfl, rfl⟩
        ordered := fun owned impossible => by cases impossible
        count := rfl }
  · simp only [blank, dictOf, List.getD_eq_getElem?_getD, List.getElem?_map]
    cases (schema.fields.filter (·.kind = .text))[textSlot schema i]? <;> rfl

end Builder

end Mmpack
