/-
This file gives the order of staged rows. Whatever staging holds them, rows are
ordered by partition and then by address, a wide address in the lexicographic
order of its bytes. The comparisons of the three stagings and of the builder are
all this order, and a staging whose flag still says sorted is in it.
-/

import Mmpack.Session
import Mathlib.Data.Prod.Lex

namespace Mmpack

open ByteList

/-! ### Splitting keys -/

theorem shiftAmount_toNat {bits : Nat} (bound : bits < 64) :
    (UInt64.ofNat bits).toNat % 64 = bits := by
  rw [UInt64.toNat_ofNat']
  omega

theorem partitionOf_toNat {bits : Nat} (bound : bits ≤ 64) (key : UInt64) :
    (partitionOf bits key).toNat = key.toNat / 2 ^ bits := by
  unfold partitionOf
  split
  · obtain rfl : bits = 64 := by omega
    exact (Nat.div_eq_of_lt key.toNat_lt).symm
  · rw [UInt64.toNat_shiftRight, shiftAmount_toNat (by omega), Nat.shiftRight_eq_div_pow]

theorem lowMask_toNat {bits : Nat} (bound : bits < 64) :
    ((1 <<< UInt64.ofNat bits) - 1 : UInt64).toNat = 2 ^ bits - 1 := by
  have power : 2 ^ bits < 2 ^ 64 := Nat.pow_lt_pow_right (by decide) bound
  have shifted : (1 <<< UInt64.ofNat bits : UInt64).toNat = 2 ^ bits := by
    rw [UInt64.toNat_shiftLeft, shiftAmount_toNat bound, Nat.shiftLeft_eq,
      show (1 : UInt64).toNat = 1 from rfl, Nat.one_mul, Nat.mod_eq_of_lt power]
  have one : (1 : UInt64) ≤ 1 <<< UInt64.ofNat bits := by
    rw [UInt64.le_iff_toNat_le, shifted]
    exact Nat.one_le_two_pow
  rw [UInt64.toNat_sub_of_le _ _ one, shifted]
  rfl

theorem addressOf_toNat {bits : Nat} (bound : bits ≤ 64) (key : UInt64) :
    (addressOf bits key).toNat = key.toNat % 2 ^ bits := by
  unfold addressOf
  split
  · obtain rfl : bits = 64 := by omega
    exact (Nat.mod_eq_of_lt key.toNat_lt).symm
  · rw [UInt64.toNat_and, lowMask_toNat (by omega), Nat.and_two_pow_sub_one_eq_mod]

/-- Packing the parts of a key gives the key back. -/
theorem packKey_split {bits : Nat} (bound : bits ≤ 64) (key : UInt64) :
    packKey bits (partitionOf bits key) (addressOf bits key) = key := by
  refine UInt64.toNat_inj.mp ?_
  have address := addressOf_toNat bound key
  unfold packKey
  split
  · obtain rfl : bits = 64 := by omega
    rw [address, Nat.mod_eq_of_lt key.toNat_lt]
  · have low : key.toNat % 2 ^ bits < 2 ^ bits := Nat.mod_lt _ (by positivity)
    have high : key.toNat / 2 ^ bits * 2 ^ bits ≤ key.toNat := Nat.div_mul_le_self _ _
    have total := key.toNat_lt
    rw [UInt64.toNat_or, UInt64.toNat_shiftLeft, shiftAmount_toNat (by omega),
      partitionOf_toNat bound, address, Nat.shiftLeft_eq, Nat.mod_eq_of_lt (by omega),
      ← Nat.shiftLeft_eq, ← Nat.shiftLeft_add_eq_or_of_lt low, Nat.shiftLeft_eq]
    exact Nat.div_add_mod' key.toNat (2 ^ bits)

theorem packKey_toNat {bits : Nat} (partition address : UInt64) :
    (packKey bits partition address).toNat =
      if 64 ≤ bits then address.toNat
      else partition.toNat <<< bits % 2 ^ 64 ||| address.toNat := by
  unfold packKey
  split
  · rfl
  · rw [UInt64.toNat_or, UInt64.toNat_shiftLeft, shiftAmount_toNat (by omega)]

/-- Numbers are ordered by quotient and then by remainder. -/
theorem lt_iff_div_mod_lt {base first second : Nat} (positive : 0 < base) :
    toLex (first / base, first % base) < toLex (second / base, second % base) ↔
      first < second := by
  rw [Prod.Lex.toLex_lt_toLex]
  simp only
  have split := Nat.div_add_mod first base
  have split' := Nat.div_add_mod second base
  have low := Nat.mod_lt first positive
  have low' := Nat.mod_lt second positive
  constructor
  · rintro (quotient | ⟨quotient, remainder⟩)
    · have scaled := Nat.mul_le_mul_left base quotient
      rw [Nat.mul_succ] at scaled
      omega
    · rw [quotient] at split
      omega
  · intro less
    rcases Nat.lt_or_ge (first / base) (second / base) with lower | higher
    · exact Or.inl lower
    · have same : first / base = second / base :=
        Nat.le_antisymm (Nat.div_le_div_right (Nat.le_of_lt less)) higher
      rw [same] at split
      exact Or.inr ⟨same, by omega⟩

/-! ### The order of rows -/

namespace StagedRow

/-- Where a row stands: its partition, then its address as a number. The bytes of a wide address
are a big-endian one, and one of the two addresses is always zero. -/
def place (row : StagedRow) : ℕ ×ₗ ℕ :=
  toLex (row.partition.toNat, row.address.toNat + beNat row.addressBytes)

def Before (first second : StagedRow) : Prop := first.place < second.place

theorem Before.trans {first second third : StagedRow} (step : first.Before second)
    (rest : second.Before third) : first.Before third := lt_trans (α := ℕ ×ₗ ℕ) step rest

theorem before_iff (first second : StagedRow) :
    first.Before second ↔ first.partition < second.partition ∨
      first.partition = second.partition ∧
        first.address.toNat + beNat first.addressBytes <
          second.address.toNat + beNat second.addressBytes := by
  unfold Before place
  rw [Prod.Lex.toLex_lt_toLex, UInt64.toNat_inj, UInt64.lt_iff_toNat_lt]

/-- Rows with one more appended are in order when it comes after the last. -/
theorem pairwise_push {rows : List StagedRow} {row : StagedRow} :
    (rows ++ [row]).Pairwise Before ↔
      rows.Pairwise Before ∧ ∀ before, rows.getLast? = some before → before.Before row := by
  rw [List.pairwise_append]
  constructor
  · rintro ⟨ordered, -, across⟩
    exact ⟨ordered, fun before isLast =>
      across before (List.mem_of_getLast? isLast) row (List.mem_singleton_self row)⟩
  · rintro ⟨ordered, last⟩
    refine ⟨ordered, List.pairwise_singleton _ _, fun other member new => ?_⟩
    rw [List.mem_singleton]
    rintro rfl
    obtain ⟨front, before, rfl⟩ := List.eq_nil_or_concat' rows |>.resolve_left
      (List.ne_nil_of_mem member)
    have step := last before List.getLast?_concat
    rcases List.mem_append.mp member with earlier | same
    · exact ((List.pairwise_append.mp ordered).2.2 other earlier before
        (List.mem_singleton_self _)).trans step
    · rwa [List.mem_singleton.mp same]

/-- Rows each before the next are in order. -/
theorem pairwise_of_steps {rows : List StagedRow} (steps : rows.IsChain Before) :
    rows.Pairwise Before := by
  have : Trans Before Before Before := ⟨fun step rest => step.trans rest⟩
  exact List.isChain_iff_pairwise.mp steps

/-- There is one way to put rows in strict order. -/
theorem eq_of_perm {rows rows' : List StagedRow} (perm : rows.Perm rows')
    (ordered : rows.Pairwise Before) (ordered' : rows'.Pairwise Before) : rows = rows' :=
  perm.eq_of_pairwise (fun _ _ _ _ less less' => absurd less (not_lt_of_gt less')) ordered ordered'

end StagedRow

/-! ### The stagings -/

namespace MemoryStaging

variable {staging : MemoryStaging}

theorem view_push (staging : MemoryStaging) (partition address : UInt64) (tuple : Nat) :
    (staging.push partition address tuple).view = staging.view ++
      [{ partition := partitionOf staging.addressBits
           (packKey staging.addressBits partition address)
         address := addressOf staging.addressBits (packKey staging.addressBits partition address)
         addressBytes := [], tuple }] := by
  simp [push, view]

/-- The parts of a key are ordered as the keys are. -/
theorem before_iff {bits : Nat} (bound : bits ≤ 64) (first second : UInt64) (tuple tuple' : Nat) :
    StagedRow.Before ⟨partitionOf bits first, addressOf bits first, [], tuple⟩
      ⟨partitionOf bits second, addressOf bits second, [], tuple'⟩ ↔ first < second := by
  unfold StagedRow.Before StagedRow.place
  simp only [beNat, Nat.add_zero, partitionOf_toNat bound, addressOf_toNat bound]
  rw [lt_iff_div_mod_lt (by positivity), UInt64.lt_iff_toNat_lt]

/-- The flag tells whether the rows are in order, also after a push. -/
theorem push_ordered (bound : staging.addressBits ≤ 64)
    (ordered : staging.sorted = true ↔ staging.view.Pairwise StagedRow.Before)
    (partition address : UInt64) (tuple : Nat) :
    (staging.push partition address tuple).sorted = true ↔
      (staging.push partition address tuple).view.Pairwise StagedRow.Before := by
  rw [view_push, StagedRow.pairwise_push, ← ordered, and_comm, view, List.getLast?_map]
  simp only [push, Bool.if_false_left, Bool.and_eq_true]
  refine and_congr_left fun _ => ?_
  cases staging.rows.getLast? with
  | none => simp
  | some last => simp [before_iff bound]

end MemoryStaging

namespace WideStaging

variable {staging : WideStaging}

theorem view_push (staging : WideStaging) (partition address : UInt64) (tuple : Nat) :
    (staging.push partition address tuple).view =
      staging.view ++ [{ partition, address, addressBytes := [], tuple }] := by
  simp [push, view]

theorem before_iff (first second : WideRow) :
    StagedRow.Before ⟨first.partition, first.address, [], first.tuple⟩
      ⟨second.partition, second.address, [], second.tuple⟩ ↔ before first second = true := by
  rw [StagedRow.before_iff]
  unfold before
  by_cases same : first.partition = second.partition
  · simp [same, beNat, UInt64.lt_iff_toNat_lt]
  · simp [same]

theorem push_ordered (ordered : staging.sorted = true ↔ staging.view.Pairwise StagedRow.Before)
    (partition address : UInt64) (tuple : Nat) :
    (staging.push partition address tuple).sorted = true ↔
      (staging.push partition address tuple).view.Pairwise StagedRow.Before := by
  rw [view_push, StagedRow.pairwise_push, ← ordered, and_comm, view, List.getLast?_map]
  simp only [push, Bool.if_false_left, Bool.and_eq_true]
  refine and_congr_left fun _ => ?_
  cases staging.rows.getLast? with
  | none => simp
  | some last => simp [before_iff last ⟨partition, address, tuple⟩]

end WideStaging

namespace BlobStaging

variable {staging : BlobStaging}

theorem before_iff {width : Nat} {first second : BlobRow} (length : first.address.length = width)
    (length' : second.address.length = width) :
    StagedRow.Before ⟨first.partition, 0, first.address, first.tuple⟩
      ⟨second.partition, 0, second.address, second.tuple⟩ ↔ before width first second = true := by
  rw [StagedRow.before_iff]
  unfold before
  rw [List.take_of_length_le (by omega), List.take_of_length_le (by omega)]
  by_cases same : first.partition = second.partition
  · simp [same, memcmp_lt_zero (length.trans length'.symm)]
  · simp [same]

/-- What a push does: nothing but append, to rows of one width. -/
theorem pushBytes_eq (partition : UInt64) {address : List UInt8}
    (length : address.length = staging.width) (tuple : Nat) :
    ∃ pushed, staging.pushBytes partition address tuple = .ok pushed ∧
      pushed.width = staging.width ∧
      pushed.rows = staging.rows ++ [⟨partition, address, tuple⟩] ∧
      (pushed.sorted = true ↔ staging.sorted = true ∧ ∀ last, staging.rows.getLast? = some last →
        before staging.width last ⟨partition, address, tuple⟩ = true) := by
  unfold pushBytes
  rw [if_neg (not_not.mpr length)]
  refine ⟨_, rfl, rfl, rfl, ?_⟩
  simp only [Bool.if_false_left, Bool.and_eq_true]
  rw [and_comm]
  refine and_congr_right fun _ => ?_
  cases staging.rows.getLast? with
  | none => simp
  | some last => simp

end BlobStaging

/-! ### Sorting -/

theorem MemoryStaging.sort_perm (staging : MemoryStaging) :
    staging.sort.view.Perm staging.view :=
  (List.perm_insertionSort _ staging.rows).map _

theorem BlobStaging.sort_perm (staging : BlobStaging) : staging.sort.view.Perm staging.view :=
  (List.perm_insertionSort _ staging.rows).map _

theorem WideStaging.sort_perm (staging : WideStaging) : staging.sort.view.Perm staging.view :=
  (List.perm_insertionSort _ staging.rows).map _

end Mmpack
