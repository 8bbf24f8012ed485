/-
This file embeds the read side of `dictionary.hpp`: the views over a fixed and a
blob dictionary, and the validators that open them.

Each validator has two lemmas. The first is for arbitrary bytes: it stays inside
its block and what it accepts satisfies `Valid`, which makes every later access
safe. The second is for the bytes the build side wrote: they are accepted, and
the view gives back the entries.
-/

import Mmpack.Dictionary

namespace Mmpack

open ByteList Checked

/-! ### The views -/

structure FixedDictionaryView where
  elements : Nat
  count : Nat
  elemSize : Nat
  deriving DecidableEq, Repr

/-- A default-constructed view: empty. -/
def FixedDictionaryView.empty : FixedDictionaryView where
  elements := 0
  count := 0
  elemSize := 0

def FixedDictionaryView.open (region : List UInt8) (block size : Nat) :
    Try Unit FixedDictionaryView := do
  rejectIf () (size < dictHeaderSize)
  let head ← DictHeader.load region block
  rejectIf () (head.magic ≠ dictionaryMagic ∨ head.type ≠ fixedType)
  let bytes ← checkedMul 64 head.count head.payload
  let total ← checkedAdd 64 dictHeaderSize bytes
  rejectIf () (size < total)
  return { elements := block + dictHeaderSize, count := head.count, elemSize := head.payload }

/-- Base of an entry, or nothing if the id is out of range. -/
def FixedDictionaryView.element (view : FixedDictionaryView) (id : Nat) : Option Nat :=
  if view.count ≤ id then none else some (view.elements + id * view.elemSize)

structure BlobDictionaryView where
  offsets : Nat
  blob : Nat
  count : Nat
  deriving DecidableEq, Repr

def BlobDictionaryView.empty : BlobDictionaryView where
  offsets := 0
  blob := 0
  count := 0

/-- The validation loop over the offset table, with the last offset seen. -/
def checkOffsets (region : List UInt8) (offsets payload : Nat) : Nat → Nat → Nat → Try Unit Nat
  | 0, _, previous => pure previous
  | remaining + 1, index, previous => do
    let value ← load region (offsets + index * 4) 4
    rejectIf () (value < previous ∨ payload < value)
    checkOffsets region offsets payload remaining (index + 1) value

def BlobDictionaryView.open (region : List UInt8) (block size : Nat) :
    Try Unit BlobDictionaryView := do
  rejectIf () (size < dictHeaderSize)
  let head ← DictHeader.load region block
  rejectIf () (head.magic ≠ dictionaryMagic ∨ head.type ≠ blobType)
  let entries ← checkedAdd 64 head.count 1
  let offsetsBytes ← checkedMul 64 entries 4
  let offsetsEnd ← checkedAdd 64 dictHeaderSize offsetsBytes
  let total ← checkedAdd 64 offsetsEnd head.payload
  rejectIf () (size < total)
  let last ← checkOffsets region (block + dictHeaderSize) head.payload (head.count + 1) 0 0
  rejectIf () (last ≠ head.payload)
  return { offsets := block + dictHeaderSize, blob := block + dictHeaderSize + offsetsBytes
           count := head.count }

/-- The bytes of an entry, resolved through the offset table. -/
def BlobDictionaryView.bytes (region : List UInt8) (view : BlobDictionaryView) (id : Nat) :
    Read (Option (List UInt8)) := do
  if view.count ≤ id then return none
  let start ← load region (view.offsets + id * 4) 4
  let stop ← load region (view.offsets + (id + 1) * 4) 4
  let size ← checkedSub stop start
  return some (← readBytes region (view.blob + start) size)

def BlobDictionaryView.text (region : List UInt8) (view : BlobDictionaryView) (id : Nat) :
    Read (Option (List UInt8)) :=
  view.bytes region id

/-! ### What the validators establish -/

structure FixedDictionaryView.Valid (block size : Nat) (view : FixedDictionaryView) : Prop where
  elements : view.elements = block + dictHeaderSize
  within : view.elements + view.count * view.elemSize ≤ block + size

theorem FixedDictionaryView.open_ensures {region : List UInt8} {block size : Nat}
    (within : block + size ≤ region.length) :
    Ensures (FixedDictionaryView.open region block size) fun view => view.Valid block size := by
  unfold FixedDictionaryView.open
  refine ensures_rejectIf_bind fun large => ?_
  refine ensures_lift_bind (loadStruct_eq _ (by omega)) ?_
  generalize parsed : DictHeader.parse (slice region block dictHeaderSize) = head
  have count : head.count < 256 ^ 4 := by rw [← parsed]; exact valueAt_lt _ _ _
  have payload : head.payload < 256 ^ 4 := by rw [← parsed]; exact valueAt_lt _ _ _
  have product : head.count * head.payload ≤ (256 ^ 4 - 1) * (256 ^ 4 - 1) :=
    Nat.mul_le_mul (by omega) (by omega)
  refine ensures_rejectIf_bind fun _ => ?_
  refine ensures_lift_bind (checkedMul_eq (by omega)) ?_
  refine ensures_lift_bind (checkedAdd_eq (by simp only [dictHeaderSize]; omega)) ?_
  refine ensures_rejectIf_bind fun total => ensures_pure ?_
  exact { elements := rfl, within := by simp only; omega }

/-- The offset stored at an index of a blob dictionary. -/
def BlobDictionaryView.offsetAt (region : List UInt8) (view : BlobDictionaryView)
    (index : Nat) : Nat :=
  valueAt region (view.offsets + index * 4) 4

structure BlobDictionaryView.Valid (region : List UInt8) (block size : Nat)
    (view : BlobDictionaryView) : Prop where
  offsets : view.offsets = block + dictHeaderSize
  blob : view.blob = view.offsets + (view.count + 1) * 4
  ordered : ∀ index < view.count, view.offsetAt region index ≤ view.offsetAt region (index + 1)
  within : ∀ index ≤ view.count, view.blob + view.offsetAt region index ≤ block + size
  table : view.blob ≤ block + size

theorem checkOffsets_ensures {region : List UInt8} {offsets payload remaining index previous : Nat}
    (within : offsets + (index + remaining) * 4 ≤ region.length) :
    Ensures (checkOffsets region offsets payload remaining index previous) fun _ =>
      (∀ other, index ≤ other → other < index + remaining →
        previous ≤ valueAt region (offsets + other * 4) 4 ∧
          valueAt region (offsets + other * 4) 4 ≤ payload) ∧
      ∀ other, index ≤ other → other + 1 < index + remaining →
        valueAt region (offsets + other * 4) 4 ≤
          valueAt region (offsets + (other + 1) * 4) 4 := by
  induction remaining generalizing index previous with
  | zero =>
    exact ensures_pure ⟨fun other above below => absurd below (by omega),
      fun other above below => absurd below (by omega)⟩
  | succ remaining inductionHypothesis =>
    unfold checkOffsets
    refine ensures_lift_bind (load_eq (by omega)) ?_
    refine ensures_rejectIf_bind fun ordered => ?_
    refine ensures_mono (inductionHypothesis (by omega)) fun _ rest => ?_
    obtain ⟨bounds, steps⟩ := rest
    refine ⟨fun other above below => ?_, fun other above below => ?_⟩
    · rcases Nat.eq_or_lt_of_le above with rfl | later
      · omega
      · have later := bounds other later (by omega)
        omega
    · rcases Nat.eq_or_lt_of_le above with rfl | later
      · exact (bounds (index + 1) (Nat.le_refl _) (by omega)).1
      · exact steps other later (by omega)

theorem BlobDictionaryView.open_ensures {region : List UInt8} {block size : Nat}
    (within : block + size ≤ region.length) :
    Ensures (BlobDictionaryView.open region block size) fun view =>
      view.Valid region block size := by
  unfold BlobDictionaryView.open
  refine ensures_rejectIf_bind fun large => ?_
  refine ensures_lift_bind (loadStruct_eq _ (by omega)) ?_
  generalize parsed : DictHeader.parse (slice region block dictHeaderSize) = head
  have count : head.count < 256 ^ 4 := by rw [← parsed]; exact valueAt_lt _ _ _
  have payload : head.payload < 256 ^ 4 := by rw [← parsed]; exact valueAt_lt _ _ _
  refine ensures_rejectIf_bind fun _ => ?_
  refine ensures_lift_bind (checkedAdd_eq (by omega)) ?_
  refine ensures_lift_bind (checkedMul_eq (by omega)) ?_
  refine ensures_lift_bind (checkedAdd_eq (by simp only [dictHeaderSize]; omega)) ?_
  refine ensures_lift_bind (checkedAdd_eq (by simp only [dictHeaderSize]; omega)) ?_
  refine ensures_rejectIf_bind fun total => ?_
  refine ensures_bind (checkOffsets_ensures (by omega)) fun _ table => ?_
  obtain ⟨bounds, steps⟩ := table
  refine ensures_rejectIf_bind fun _ => ensures_pure ?_
  exact
    { offsets := rfl
      blob := rfl
      ordered := fun index inside => steps index (Nat.zero_le _) (by simp only at inside; omega)
      within := fun index inside => by
        have bound := (bounds index (Nat.zero_le _) (by simp only at inside; omega)).2
        simp only [offsetAt]
        omega
      table := by simp only; omega }

/-- An entry of a valid dictionary is the stretch between its two offsets. -/
theorem BlobDictionaryView.bytes_eq {region : List UInt8} {block size : Nat}
    {view : BlobDictionaryView} (valid : view.Valid region block size)
    (within : block + size ≤ region.length) (id : Nat) :
    view.bytes region id = .ok (if id < view.count then
      some (slice region (view.blob + view.offsetAt region id)
        (view.offsetAt region (id + 1) - view.offsetAt region id)) else none) := by
  unfold BlobDictionaryView.bytes
  by_cases inside : id < view.count
  · have blob := valid.blob
    have table := valid.table
    have ordered := valid.ordered id inside
    have stop := valid.within (id + 1) inside
    have size : view.blob + view.offsetAt region id +
        (view.offsetAt region (id + 1) - view.offsetAt region id) ≤ region.length := by omega
    rw [if_neg (by omega), if_pos inside, load_eq (by omega), ok_bind, load_eq (by omega), ok_bind]
    unfold offsetAt at ordered size ⊢
    rw [checkedSub_eq ordered, ok_bind, readBytes_eq size, ok_bind]
    rfl
  · rw [if_pos (by omega), if_neg inside]
    rfl

/-! ### What the build side wrote is accepted -/

/-- The view over a written fixed dictionary. -/
theorem FixedDictionaryView.open_of_holds {region : List UInt8} {block size count elemSize : Nat}
    (countFits : count < 2 ^ 32) (elemFits : elemSize < 2 ^ 32)
    (holds : Holds region block (fixedHeader count elemSize).encode)
    (large : dictHeaderSize + count * elemSize ≤ size) :
    FixedDictionaryView.open region block size =
      pure { elements := block + dictHeaderSize, count, elemSize } := by
  have product : count * elemSize ≤ (2 ^ 32 - 1) * (2 ^ 32 - 1) :=
    Nat.mul_le_mul (by omega) (by omega)
  have room := holds.within
  have stored := holds.slice_eq
  rw [DictHeader.encode_length] at room stored
  unfold FixedDictionaryView.open
  rw [rejectIf_eq (by omega), pure_bind, DictHeader.load, loadStruct_eq _ room, stored,
    fixedHeader_parse countFits elemFits, lift_ok, pure_bind, rejectIf_eq (by simp [fixedHeader]),
    pure_bind]
  simp only [fixedHeader]
  rw [checkedMul_eq (by omega), lift_ok, pure_bind,
    checkedAdd_eq (by simp only [dictHeaderSize]; omega), lift_ok, pure_bind,
    rejectIf_eq (by omega), pure_bind]

/-- An offset table that is ordered and bounded passes the loop, which ends on its last entry. -/
theorem checkOffsets_eq {region : List UInt8} {offsets payload remaining index previous : Nat}
    (within : offsets + (index + remaining) * 4 ≤ region.length)
    (first : 0 < remaining → previous ≤ valueAt region (offsets + index * 4) 4)
    (bounded : ∀ other, index ≤ other → other < index + remaining →
      valueAt region (offsets + other * 4) 4 ≤ payload)
    (ordered : ∀ other, index ≤ other → other + 1 < index + remaining →
      valueAt region (offsets + other * 4) 4 ≤ valueAt region (offsets + (other + 1) * 4) 4) :
    checkOffsets region offsets payload remaining index previous =
      pure (if 0 < remaining then valueAt region (offsets + (index + remaining - 1) * 4) 4
        else previous) := by
  induction remaining generalizing index previous with
  | zero => rfl
  | succ remaining inductionHypothesis =>
    have here := bounded index (Nat.le_refl _) (by omega)
    have start := first (by omega)
    unfold checkOffsets
    rw [load_eq (by omega), lift_ok, pure_bind, rejectIf_eq (by omega), pure_bind,
      inductionHypothesis (by omega) (fun more => ordered index (Nat.le_refl _) (by omega))
        (fun other above below => bounded other (by omega) (by omega))
        (fun other above below => ordered other (by omega) (by omega)),
      if_pos (Nat.succ_pos remaining)]
    refine congrArg pure ?_
    split
    · congr 3
      omega
    · congr 3
      omega

namespace BlobDictionaryBuilder

/-- The view over a written blob dictionary. -/
def viewAt (dict : BlobDictionaryBuilder) (block : Nat) : BlobDictionaryView where
  offsets := block + dictHeaderSize
  blob := block + dictHeaderSize + (dict.order.length + 1) * 4
  count := dict.order.length

/-- The bytes of the entries before one. -/
def sizeBefore (dict : BlobDictionaryBuilder) (index : Nat) : Nat :=
  ((dict.order.take index).map List.length).sum

theorem sizeBefore_succ {dict : BlobDictionaryBuilder} {index : Nat}
    (bound : index < dict.order.length) :
    dict.sizeBefore (index + 1) = dict.sizeBefore index + dict.order[index].length := by
  rw [sizeBefore, sizeBefore, List.take_succ_eq_append_getElem bound, List.map_append,
    List.sum_append, List.map_singleton, List.sum_singleton]

theorem sizeBefore_le (dict : BlobDictionaryBuilder) (index : Nat) :
    dict.sizeBefore index ≤ dict.blobSize := by
  rw [sizeBefore, dict.blobSize_eq]
  have split := congrArg (fun entries => (entries.map List.length).sum)
    (List.take_append_drop index dict.order)
  simp only [List.map_append, List.sum_append] at split
  omega

theorem sizeBefore_all (dict : BlobDictionaryBuilder) :
    dict.sizeBefore dict.order.length = dict.blobSize := by
  rw [sizeBefore, List.take_length, dict.blobSize_eq]

/-- The offset table of a written dictionary. -/
theorem offsetAt_of_holds {region : List UInt8} {block : Nat} {dict : BlobDictionaryBuilder}
    (holds : Holds region block dict.write) {index : Nat} (bound : index ≤ dict.order.length) :
    (dict.viewAt block).offsetAt region index = dict.sizeBefore index := by
  have fits : 0 + (dict.order.map List.length).sum < 2 ^ 32 := by
    rw [← dict.blobSize_eq, Nat.zero_add]
    exact dict.blobSize_lt
  have inTable : index < (offsetsFrom 0 dict.order).length := by
    rw [offsetsFrom_length]
    omega
  have table := holds.left.right
  rw [DictHeader.encode_length] at table
  have entry := holds_flatten ((offsetsFrom 0 dict.order).map (leBytes 4)) 4 index (by simp)
    (by rwa [List.length_map])
  rw [List.getElem_map, offsetsFrom_getElem fits inTable, Nat.zero_add] at entry
  have small := dict.sizeBefore_le index
  have total := dict.blobSize_lt
  exact valueAt_of_holds_of_lt (table.trans entry) (by simp only [sizeBefore] at small ⊢; omega)

/-- A written blob dictionary is accepted, whatever follows it in its block. -/
theorem open_of_holds {region : List UInt8} {block size : Nat} {dict : BlobDictionaryBuilder}
    (holds : Holds region block dict.write) (large : dict.serializedSize ≤ size) :
    BlobDictionaryView.open region block size = pure (dict.viewAt block) := by
  have count := dict.size_lt
  have total := dict.blobSize_lt
  have room := holds.within
  rw [write_length] at room
  have stored := holds.left.left.slice_eq
  have headerRoom := holds.left.left.within
  rw [DictHeader.encode_length] at stored headerRoom
  simp only [serializedSize] at large room
  have offset (index : Nat) (bound : index ≤ dict.order.length) :
      valueAt region (block + dictHeaderSize + index * 4) 4 = dict.sizeBefore index :=
    offsetAt_of_holds holds bound
  have last := offset dict.order.length (Nat.le_refl _)
  rw [sizeBefore_all] at last
  unfold BlobDictionaryView.open
  rw [rejectIf_eq (by omega), pure_bind, DictHeader.load, loadStruct_eq _ headerRoom, stored,
    header_parse, lift_ok, pure_bind, rejectIf_eq (by simp [header]), pure_bind]
  simp only [header, Nat.mod_eq_of_lt count]
  rw [checkedAdd_eq (by omega), lift_ok, pure_bind, checkedMul_eq (by omega), lift_ok, pure_bind,
    checkedAdd_eq (by simp only [dictHeaderSize]; omega), lift_ok, pure_bind,
    checkedAdd_eq (by simp only [dictHeaderSize]; omega), lift_ok, pure_bind,
    rejectIf_eq (by omega), pure_bind,
    checkOffsets_eq (by omega) (fun _ => Nat.zero_le _)
      (fun other _ below => by rw [offset other (by omega)]; exact dict.sizeBefore_le other)
      (fun other _ below => by
        rw [offset other (by omega), offset (other + 1) (by omega),
          sizeBefore_succ (by omega)]
        omega),
    pure_bind, if_pos (by omega)]
  rw [show 0 + (dict.order.length + 1) - 1 = dict.order.length by omega, last,
    rejectIf_eq (by simp), pure_bind]
  rfl

theorem holds_entry {dict : BlobDictionaryBuilder} {id : Nat} (bound : id < dict.order.length) :
    Holds dict.order.flatten (dict.sizeBefore id) dict.order[id] :=
  holds_flatten_getElem _ _ bound

/-- A written dictionary gives back its entries, and nothing past them. -/
theorem bytes_of_holds {region : List UInt8} {block : Nat} {dict : BlobDictionaryBuilder}
    (holds : Holds region block dict.write) (id : Nat) :
    (dict.viewAt block).bytes region id = .ok dict.order[id]? := by
  have room := holds.within
  rw [write_length, serializedSize] at room
  have valid : (dict.viewAt block).Valid region block dict.serializedSize :=
    { offsets := rfl
      blob := rfl
      ordered := fun index inside => by
        rw [offsetAt_of_holds holds (Nat.le_of_lt inside), offsetAt_of_holds holds inside,
          sizeBefore_succ inside]
        omega
      within := fun index inside => by
        have small := dict.sizeBefore_le index
        rw [offsetAt_of_holds holds inside, viewAt, serializedSize]
        simp only
        omega
      table := by
        rw [viewAt, serializedSize]
        simp only
        omega }
  rw [BlobDictionaryView.bytes_eq valid (by rw [serializedSize]; omega)]
  refine congrArg Except.ok ?_
  by_cases inside : id < dict.order.length
  · have entries := holds.right
    have table : (((offsetsFrom 0 dict.order).map (leBytes 4)).flatten).length =
        (dict.order.length + 1) * 4 := by
      rw [flatten_length_of_uniform 4 (by simp), List.length_map, offsetsFrom_length]
    rw [List.length_append, DictHeader.encode_length, table] at entries
    have entry := (entries.trans (holds_entry inside)).slice_eq
    have counted : id < (dict.viewAt block).count := inside
    rw [if_pos counted, offsetAt_of_holds holds (Nat.le_of_lt inside),
      offsetAt_of_holds holds inside, sizeBefore_succ inside, Nat.add_sub_cancel_left,
      List.getElem?_eq_getElem inside]
    have place : (dict.viewAt block).blob + dict.sizeBefore id =
        block + (dictHeaderSize + (dict.order.length + 1) * 4) + dict.sizeBefore id := by
      simp only [viewAt]
      omega
    rw [place, entry]
  · have counted : ¬ id < (dict.viewAt block).count := inside
    rw [if_neg counted, List.getElem?_eq_none (by omega)]

end BlobDictionaryBuilder

end Mmpack
