/-
This file embeds the read side of `schema.hpp`: the view of a serialized schema
block, its validator and its accessors.

`SchemaView.open` rejects a block for many reasons, and later code leans on each
of them. `SchemaView.Valid` lists what acceptance establishes, and
`open_ensures` is the one walk along the validator: it reads only inside the
block, its arithmetic never wraps, and what it accepts is valid.
-/

import Mmpack.Schema

namespace Mmpack

open ByteList Checked

/-! ### The view -/

/-- Where the parts of a schema block lie in the region. -/
structure SchemaView where
  head : SchemaHeader
  fields : Nat
  dicts : Nat
  names : Nat
  deriving DecidableEq, Repr

namespace SchemaView

def fieldCount (view : SchemaView) : Nat := view.head.fieldCount
def dictCount (view : SchemaView) : Nat := view.head.dictCount
def recordStride (view : SchemaView) : Nat := view.head.recordStride
def valueStride (view : SchemaView) : Nat := view.head.valueStride
def addressWidth (view : SchemaView) : Nat := view.head.addressWidth
def addressBits (view : SchemaView) : Nat := view.head.addressBits
def refWidth (view : SchemaView) : Nat := view.head.refWidth
def valueDict (view : SchemaView) : Nat := view.head.valueDict

/-- Narrow addresses compare numerically, wide ones lexicographically. -/
def narrowAddress (view : SchemaView) : Bool := view.head.addressWidth ≤ 8

def interned (view : SchemaView) : Bool := view.head.mode == 1

def hasKeyMapping (view : SchemaView) : Bool := view.head.addressBits ≠ noKeyMapping

def directoryLayout (view : SchemaView) : DirLayout :=
  makeDirLayout view.head.dirPartitionWidth view.head.dirOffsetWidth view.head.dirCountWidth
    (if view.head.dirRemapWidth ≠ 0 then 1 else 0) view.head.dirRemapWidth
    view.head.dirAddrWidth view.head.dirSkipWidth

def partitionOf (view : SchemaView) (key : Nat) : Nat :=
  if 64 ≤ view.head.addressBits then 0 else key >>> view.head.addressBits

def addressOf (view : SchemaView) (key : Nat) : Nat :=
  if 64 ≤ view.head.addressBits then key else key &&& (2 ^ view.head.addressBits - 1)

def field (region : List UInt8) (view : SchemaView) (id : Nat) : Read FieldDesc :=
  loadStruct FieldDesc.parse fieldDescSize region (view.fields + id * fieldDescSize)

def dictionary (region : List UInt8) (view : SchemaView) (index : Nat) : Read DictEntry :=
  loadStruct DictEntry.parse dictEntrySize region (view.dicts + index * dictEntrySize)

/-- The bytes of a NUL-terminated string, read one by one. The steps allowed are as many as the
region has bytes, so a string that uses them up has left the region. -/
def readCString (region : List UInt8) : Nat → Nat → Read (List UInt8)
  | 0, _ => throw .outOfBounds
  | steps + 1, position => do
    let byte ← readBytes region position 1
    if byte = [0] then return []
    return byte ++ (← readCString region steps (position + 1))

def name (region : List UInt8) (view : SchemaView) (id : Nat) : Read (List UInt8) := do
  let desc ← view.field region id
  readCString region (region.length + 1) (view.names + desc.nameOffset)

/-- The search of `find` over the fields from `id` on. -/
def findFrom (region : List UInt8) (view : SchemaView) (wanted : List UInt8) :
    Nat → Nat → Read (Option Nat)
  | 0, _ => pure none
  | remaining + 1, id => do
    if (← view.name region id) = wanted then return some id
    findFrom region view wanted remaining (id + 1)

def find (region : List UInt8) (view : SchemaView) (wanted : List UInt8) : Read (Option Nat) :=
  findFrom region view wanted view.fieldCount 0

/-! ### The validator -/

/-- Whether one of the next bytes is NUL. -/
def hasNul (region : List UInt8) : Nat → Nat → Read Bool
  | 0, _ => pure false
  | remaining + 1, position => do
    if (← load region position 1) = 0 then return true
    hasNul region remaining (position + 1)

/-- The widths the validator allows a stored field of a kind. -/
def kindAllows (kind width : Nat) : Bool :=
  if kind = FieldKind.f32.code then width == 4
  else if kind = FieldKind.f64.code then width == 8
  else if kind = FieldKind.bytes.code then width ≠ 0 && width ≤ 8
  else isValidWidth width

def checkField (region : List UInt8) (view : SchemaView) (id : Nat) : Try Unit Unit := do
  let desc ← view.field region id
  rejectIf () (maxFieldKind < desc.kind)
  rejectIf () (kindAllows desc.kind desc.width = false)
  rejectIf () (view.valueStride < desc.offset)
  let room ← checkedSub view.valueStride desc.offset
  rejectIf () (room < desc.width)
  rejectIf () (desc.kind = FieldKind.text.code ∧ view.dictCount ≤ desc.dictIndex)
  rejectIf () (view.head.nameBytes ≤ desc.nameOffset)
  let terminated ← hasNul region (view.head.nameBytes - desc.nameOffset)
    (view.names + desc.nameOffset)
  rejectIf () (terminated = false)

def checkFields (region : List UInt8) (view : SchemaView) : Nat → Nat → Try Unit Unit
  | 0, _ => pure ()
  | remaining + 1, id => do
    checkField region view id
    checkFields region view remaining (id + 1)

/-- The width checks of the header that come before anything is sized from it. -/
def checkHeader (head : SchemaHeader) : Try Unit Unit := do
  rejectIf () (head.addressWidth = 0)
  rejectIf () (64 < head.addressBits ∧ head.addressBits ≠ noKeyMapping)
  rejectIf () (head.dirPartitionWidth ≠ 0 ∧ isValidWidth head.dirPartitionWidth = false)
  rejectIf () (isValidWidth head.dirOffsetWidth = false)
  rejectIf () (isValidWidth head.dirCountWidth = false)
  rejectIf () (head.dirRemapWidth ≠ 0 ∧ isValidWidth head.dirRemapWidth = false)
  rejectIf () (1 < head.dirAddrWidth ∨ 1 < head.dirSkipWidth)
  rejectIf () (1 < head.mode)
  rejectIf () (head.valueStride = 0 ∧ head.fieldCount ≠ 0)

/-- The least record stride the header allows: the address and what follows it. -/
def minimumStride (head : SchemaHeader) : Try Unit Nat := do
  if head.mode = 1 then
    rejectIf () (isValidWidth head.refWidth = false)
    rejectIf () (head.dictCount ≤ head.valueDict)
    checkedAdd 64 head.addressWidth head.refWidth
  else
    checkedAdd 64 head.addressWidth head.valueStride

/-- `schema_view::open` on the block of `size` bytes at `block`. -/
def «open» (region : List UInt8) (block size : Nat) : Try Unit SchemaView := do
  rejectIf () (size < schemaHeaderSize)
  let head ← SchemaHeader.load region block
  rejectIf () (head.magic ≠ schemaMagic)
  let fieldsBytes ← checkedMul 64 head.fieldCount fieldDescSize
  let dictsBytes ← checkedMul 64 head.dictCount dictEntrySize
  let fieldsEnd ← checkedAdd 64 schemaHeaderSize fieldsBytes
  let dictsEnd ← checkedAdd 64 fieldsEnd dictsBytes
  let total ← checkedAdd 64 dictsEnd head.nameBytes
  rejectIf () (size < total)
  checkHeader head
  let minimum ← minimumStride head
  rejectIf () (head.recordStride < minimum)
  let view : SchemaView :=
    { head
      fields := block + schemaHeaderSize
      dicts := block + schemaHeaderSize + fieldsBytes
      names := block + schemaHeaderSize + fieldsBytes + dictsBytes }
  checkFields region view head.fieldCount 0
  return view

/-! ### What the validator establishes -/

/-- The descriptor stored for a field. -/
def descAt (region : List UInt8) (view : SchemaView) (id : Nat) : FieldDesc :=
  FieldDesc.parse (slice region (view.fields + id * fieldDescSize) fieldDescSize)

/-- The dictionary table entry stored at an index. -/
def dictAt (region : List UInt8) (view : SchemaView) (index : Nat) : DictEntry :=
  DictEntry.parse (slice region (view.dicts + index * dictEntrySize) dictEntrySize)

/-- A stored field as the validator leaves it. -/
structure FieldValid (region : List UInt8) (view : SchemaView) (desc : FieldDesc) : Prop where
  kind : desc.kind ≤ maxFieldKind
  width : kindAllows desc.kind desc.width = true
  inTuple : desc.offset + desc.width ≤ view.valueStride
  dictIndex : desc.kind = FieldKind.text.code → desc.dictIndex < view.dictCount
  nameOffset : desc.nameOffset < view.head.nameBytes
  terminated : 0 ∈ slice region (view.names + desc.nameOffset)
    (view.head.nameBytes - desc.nameOffset)

/-- A header as the validator leaves it. -/
structure HeaderValid (head : SchemaHeader) : Prop where
  addressWidth : head.addressWidth ≠ 0
  addressBits : head.addressBits ≤ 64 ∨ head.addressBits = noKeyMapping
  dirPartitionWidth : head.dirPartitionWidth = 0 ∨ isValidWidth head.dirPartitionWidth = true
  dirOffsetWidth : isValidWidth head.dirOffsetWidth = true
  dirCountWidth : isValidWidth head.dirCountWidth = true
  dirRemapWidth : head.dirRemapWidth = 0 ∨ isValidWidth head.dirRemapWidth = true
  dirAddrWidth : head.dirAddrWidth ≤ 1
  dirSkipWidth : head.dirSkipWidth ≤ 1
  mode : head.mode ≤ 1
  valueStride : head.valueStride ≠ 0 ∨ head.fieldCount = 0

/-- A view as the validator leaves it, over the block of `size` bytes at `block`. -/
structure Valid (region : List UInt8) (block size : Nat) (view : SchemaView) : Prop where
  large : schemaHeaderSize ≤ size
  head : view.head = SchemaHeader.parse (slice region block schemaHeaderSize)
  magic : view.head.magic = schemaMagic
  fields : view.fields = block + schemaHeaderSize
  dicts : view.dicts = view.fields + view.fieldCount * fieldDescSize
  names : view.names = view.dicts + view.dictCount * dictEntrySize
  within : view.names + view.head.nameBytes ≤ block + size
  header : HeaderValid view.head
  interned : view.interned = true → isValidWidth view.refWidth = true ∧
    view.valueDict < view.dictCount ∧ view.addressWidth + view.refWidth ≤ view.recordStride
  inline : view.interned = false → view.addressWidth + view.valueStride ≤ view.recordStride
  field : ∀ id < view.fieldCount, FieldValid region view (view.descAt region id)

theorem SchemaHeader.parse_lt (bytes : List UInt8) :
    (SchemaHeader.parse bytes).Fits where
  magic := valueAt_lt _ _ _
  fieldCount := valueAt_lt _ _ _
  dictCount := valueAt_lt _ _ _
  recordStride := valueAt_lt _ _ _
  valueStride := valueAt_lt _ _ _
  nameBytes := valueAt_lt _ _ _
  addressWidth := valueAt_lt _ _ _
  addressBits := valueAt_lt _ _ _
  mode := valueAt_lt _ _ _
  refWidth := valueAt_lt _ _ _
  valueDict := valueAt_lt _ _ _
  dirPartitionWidth := valueAt_lt _ _ _
  dirOffsetWidth := valueAt_lt _ _ _
  dirCountWidth := valueAt_lt _ _ _
  dirRemapWidth := valueAt_lt _ _ _
  dirAddrWidth := valueAt_lt _ _ _
  dirSkipWidth := valueAt_lt _ _ _

theorem field_eq {region : List UInt8} {view : SchemaView} {id : Nat}
    (within : view.fields + id * fieldDescSize + fieldDescSize ≤ region.length) :
    view.field region id = .ok (view.descAt region id) :=
  loadStruct_eq _ within

theorem dictionary_eq {region : List UInt8} {view : SchemaView} {index : Nat}
    (within : view.dicts + index * dictEntrySize + dictEntrySize ≤ region.length) :
    view.dictionary region index = .ok (view.dictAt region index) :=
  loadStruct_eq _ within

/-- The first item of a slice and the rest of it. -/
theorem slice_succ {region : List UInt8} {position remaining : Nat}
    (within : position + (remaining + 1) ≤ region.length) :
    slice region position (remaining + 1) =
      region[position] :: slice region (position + 1) remaining := by
  rw [slice, slice, List.drop_eq_getElem_cons (by omega), List.take_succ_cons]

theorem slice_one {region : List UInt8} {position : Nat} (within : position + 1 ≤ region.length) :
    slice region position 1 = [region[position]] := by
  rw [slice_succ within, slice_count_zero]

theorem load_byte {region : List UInt8} {position : Nat} (within : position + 1 ≤ region.length) :
    load region position 1 = .ok region[position].toNat := by
  rw [load_eq within, valueAt, slice_one within, leNat, leNat, Nat.mul_zero, Nat.add_zero]

theorem hasNul_eq {region : List UInt8} {remaining position : Nat}
    (within : position + remaining ≤ region.length) :
    hasNul region remaining position = .ok (decide (0 ∈ slice region position remaining)) := by
  induction remaining generalizing position with
  | zero => rfl
  | succ remaining inductionHypothesis =>
    rw [hasNul, load_byte (by omega), ok_bind, slice_succ within]
    by_cases nul : region[position] = 0
    · rw [if_pos (by rw [nul]; rfl), decide_eq_true (by rw [nul]; exact List.mem_cons_self)]
      rfl
    · have nonzero : ¬ region[position].toNat = 0 := fun zero => nul (UInt8.toNat_inj.mp zero)
      rw [if_neg nonzero, inductionHypothesis (by omega)]
      refine congrArg Except.ok (decide_eq_decide.mpr ?_)
      rw [List.mem_cons]
      exact ⟨Or.inr, fun member => member.resolve_left (Ne.symm nul)⟩

/-- A string with a NUL among the next bytes of the region is read up to that NUL. -/
theorem readCString_eq {region : List UInt8} {steps remaining position : Nat}
    (enough : remaining < steps) (within : position + remaining ≤ region.length)
    (terminated : 0 ∈ slice region position remaining) :
    readCString region steps position =
      .ok ((slice region position remaining).takeWhile (· ≠ 0)) := by
  induction remaining generalizing position steps with
  | zero => exact absurd terminated (by simp)
  | succ remaining inductionHypothesis =>
    obtain ⟨steps, rfl⟩ := Nat.exists_eq_add_of_lt (Nat.lt_of_le_of_lt (Nat.zero_le _) enough)
    rw [Nat.zero_add, readCString, readBytes_eq (by omega), ok_bind, slice_one (by omega)]
    rw [slice_succ within] at terminated ⊢
    by_cases nul : region[position] = 0
    · rw [if_pos (by rw [nul]), List.takeWhile_cons_of_neg (by simp [nul])]
      rfl
    · have later := (List.mem_cons.mp terminated).resolve_left (Ne.symm nul)
      rw [if_neg (by simpa using nul), inductionHypothesis (by omega) (by omega) later, ok_bind,
        List.takeWhile_cons_of_pos (by simpa using nul)]
      rfl

theorem checkField_ensures {region : List UInt8} {view : SchemaView} {id : Nat}
    (descWithin : view.fields + id * fieldDescSize + fieldDescSize ≤ region.length)
    (namesWithin : view.names + view.head.nameBytes ≤ region.length) :
    Ensures (checkField region view id) fun _ =>
      FieldValid region view (view.descAt region id) := by
  unfold checkField
  refine ensures_lift_bind (field_eq descWithin) ?_
  generalize view.descAt region id = desc
  refine ensures_rejectIf_bind fun kind => ensures_rejectIf_bind fun width =>
    ensures_rejectIf_bind fun offset => ?_
  refine ensures_lift_bind (checkedSub_eq (Nat.le_of_not_lt offset)) ?_
  refine ensures_rejectIf_bind fun room => ensures_rejectIf_bind fun dictIndex =>
    ensures_rejectIf_bind fun nameOffset => ?_
  refine ensures_lift_bind (hasNul_eq (by omega)) ?_
  refine ensures_mono ensures_rejectIf fun _ terminated => ?_
  exact
    { kind := Nat.le_of_not_lt kind
      width := by simpa using width
      inTuple := by omega
      dictIndex := fun isText => Nat.lt_of_not_le fun past => dictIndex ⟨isText, past⟩
      nameOffset := Nat.lt_of_not_le nameOffset
      terminated := by simpa using terminated }

theorem checkFields_ensures {region : List UInt8} {view : SchemaView} {remaining id : Nat}
    (descsWithin : view.fields + (id + remaining) * fieldDescSize ≤ region.length)
    (namesWithin : view.names + view.head.nameBytes ≤ region.length) :
    Ensures (checkFields region view remaining id) fun _ =>
      ∀ other, id ≤ other → other < id + remaining →
        FieldValid region view (view.descAt region other) := by
  induction remaining generalizing id with
  | zero => exact ensures_pure fun other above below => absurd below (by omega)
  | succ remaining inductionHypothesis =>
    have here : view.fields + id * fieldDescSize + fieldDescSize ≤ region.length := by
      simp only [fieldDescSize] at descsWithin ⊢
      omega
    refine ensures_bind (checkField_ensures here namesWithin) fun _ first => ?_
    refine ensures_mono (inductionHypothesis (by rwa [Nat.add_assoc, Nat.add_comm 1]))
      fun _ rest other above below => ?_
    rcases Nat.eq_or_lt_of_le above with rfl | later
    · exact first
    · exact rest other later (by omega)

theorem checkHeader_ensures (head : SchemaHeader) :
    Ensures (checkHeader head) fun _ => HeaderValid head := by
  unfold checkHeader
  refine ensures_rejectIf_bind fun addressWidth => ensures_rejectIf_bind fun addressBits =>
    ensures_rejectIf_bind fun dirPartitionWidth => ensures_rejectIf_bind fun dirOffsetWidth =>
    ensures_rejectIf_bind fun dirCountWidth => ensures_rejectIf_bind fun dirRemapWidth =>
    ensures_rejectIf_bind fun dirAddrSkipWidth => ensures_rejectIf_bind fun mode => ?_
  refine ensures_mono ensures_rejectIf fun _ valueStride => ?_
  have orValid {width : Nat} (legal : ¬ (width ≠ 0 ∧ isValidWidth width = false)) :
      width = 0 ∨ isValidWidth width = true := by
    by_cases zero : width = 0
    · exact Or.inl zero
    · exact Or.inr (by simpa [zero] using legal)
  exact
    { addressWidth := addressWidth
      addressBits := by omega
      dirPartitionWidth := orValid dirPartitionWidth
      dirOffsetWidth := by simpa using dirOffsetWidth
      dirCountWidth := by simpa using dirCountWidth
      dirRemapWidth := orValid dirRemapWidth
      dirAddrWidth := by omega
      dirSkipWidth := by omega
      mode := by omega
      valueStride := by omega }

theorem minimumStride_ensures {head : SchemaHeader} (fits : head.Fits) :
    Ensures (minimumStride head) fun minimum =>
      (head.mode = 1 → isValidWidth head.refWidth = true ∧ head.valueDict < head.dictCount ∧
        minimum = head.addressWidth + head.refWidth) ∧
      (head.mode ≠ 1 → minimum = head.addressWidth + head.valueStride) := by
  have addressWidth := fits.addressWidth
  have refWidth := fits.refWidth
  have valueStride := fits.valueStride
  unfold minimumStride
  by_cases interned : head.mode = 1
  · rw [if_pos interned]
    refine ensures_rejectIf_bind fun valid => ensures_rejectIf_bind fun inTable => ?_
    rw [checkedAdd_eq (by omega), lift_ok]
    exact ensures_pure ⟨fun _ => ⟨by simpa using valid, by omega, rfl⟩, fun other =>
      absurd interned other⟩
  · rw [if_neg interned, checkedAdd_eq (by omega), lift_ok]
    exact ensures_pure ⟨fun other => absurd other interned, fun _ => rfl⟩

/-- Opening a block that lies in the region reads only inside it, never wraps, and accepts only
valid schemas. -/
theorem open_ensures {region : List UInt8} {block size : Nat}
    (within : block + size ≤ region.length) :
    Ensures («open» region block size) fun view => view.Valid region block size := by
  unfold «open»
  refine ensures_rejectIf_bind fun sizeOk => ?_
  refine ensures_lift_bind (loadStruct_eq _ (by omega)) ?_
  have fits := SchemaHeader.parse_lt (slice region block schemaHeaderSize)
  generalize parsed : SchemaHeader.parse (slice region block schemaHeaderSize) = head at fits ⊢
  have fieldCount := fits.fieldCount
  have dictCount := fits.dictCount
  have nameBytes := fits.nameBytes
  refine ensures_rejectIf_bind fun magic => ?_
  refine ensures_lift_bind (checkedMul_eq (by simp only [fieldDescSize]; omega)) ?_
  refine ensures_lift_bind (checkedMul_eq (by simp only [dictEntrySize]; omega)) ?_
  refine ensures_lift_bind
    (checkedAdd_eq (by simp only [schemaHeaderSize, fieldDescSize]; omega)) ?_
  refine ensures_lift_bind
    (checkedAdd_eq (by simp only [schemaHeaderSize, fieldDescSize, dictEntrySize]; omega)) ?_
  refine ensures_lift_bind
    (checkedAdd_eq (by simp only [schemaHeaderSize, fieldDescSize, dictEntrySize]; omega)) ?_
  refine ensures_rejectIf_bind fun total => ?_
  refine ensures_bind (checkHeader_ensures head) fun _ header => ?_
  refine ensures_bind (minimumStride_ensures fits) fun minimum minimumSpec => ?_
  refine ensures_rejectIf_bind fun stride => ?_
  refine ensures_bind (checkFields_ensures (by rw [Nat.zero_add]; simp only; omega)
    (by simp only; omega))
    fun _ fields => ?_
  refine ensures_pure ?_
  exact
    { large := by omega
      head := parsed.symm
      magic := by simpa using magic
      fields := rfl
      dicts := rfl
      names := rfl
      within := by simp only; omega
      header := header
      interned := fun interned => by
        have mode : head.mode = 1 := by simpa [SchemaView.interned] using interned
        obtain ⟨valid, inTable, sum⟩ := minimumSpec.1 mode
        exact ⟨valid, inTable, by simp only [addressWidth, refWidth, recordStride]; omega⟩
      inline := fun inline => by
        have mode : head.mode ≠ 1 := by simpa [SchemaView.interned] using inline
        have sum := minimumSpec.2 mode
        simp only [addressWidth, valueStride, recordStride]
        omega
      field := fun id bound => fields id (Nat.zero_le _) (by rw [Nat.zero_add]; exact bound) }

end SchemaView

end Mmpack
