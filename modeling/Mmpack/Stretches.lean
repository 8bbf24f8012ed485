/-
This file says that trimming loses nothing. The OR of the addresses of a partition
has a bit wherever one of them does, so the stretch cut from it holds every nonzero
byte of every address, and an address is its stretch put back among zeros.
-/

import Mmpack.Attached
import Mmpack.Windows
import Mathlib.Data.List.TakeWhile

namespace Mmpack

open ByteList

/-! ### Trimming bytes -/

theorem takeWhile_zero {bytes : List UInt8} {byte : UInt8}
    (member : byte ∈ bytes.takeWhile (· = 0)) : byte = 0 := by
  simpa using List.mem_takeWhile_imp member

theorem trimBytes_spec (bytes : List UInt8) :
    (trimBytes bytes).1 + (trimBytes bytes).2 ≤ bytes.length ∧
      Confined bytes (trimBytes bytes).1 (trimBytes bytes).2 := by
  have split := List.takeWhile_append_dropWhile (p := (· = 0)) (l := bytes)
  have lengths := congrArg List.length split
  rw [List.length_append] at lengths
  unfold trimBytes
  simp only
  by_cases all : (bytes.takeWhile (· = 0)).length = bytes.length
  · rw [if_pos all]
    have whole : bytes.takeWhile (· = 0) = bytes :=
      (List.takeWhile_prefix _).eq_of_length all
    refine ⟨Nat.zero_le _, fun i byte found nonzero => absurd ?_ nonzero⟩
    rw [← whole] at found
    exact takeWhile_zero (List.mem_of_getElem? found)
  · rw [if_neg all]
    have rest := congrArg (List.drop (bytes.takeWhile (· = 0)).length) split
    rw [List.drop_left] at rest
    rw [← rest]
    generalize bytes.dropWhile (· = 0) = middle at *
    have split' := List.takeWhile_append_dropWhile (p := (· = 0)) (l := middle.reverse)
    have shape : middle = (middle.reverse.dropWhile (· = 0)).reverse ++
        (middle.reverse.takeWhile (· = 0)).reverse := by
      rw [← List.reverse_append, split', List.reverse_reverse]
    have lengths' := congrArg List.length shape
    rw [List.length_append, List.length_reverse, List.length_reverse] at lengths'
    have size : bytes.length - (middle.reverse.takeWhile (· = 0)).length -
        (bytes.takeWhile (· = 0)).length = (middle.reverse.dropWhile (· = 0)).reverse.length := by
      rw [List.length_reverse]
      omega
    rw [size]
    refine ⟨by rw [List.length_reverse]; omega, ?_⟩
    have whole : bytes = bytes.takeWhile (· = 0) ++ (middle.reverse.dropWhile (· = 0)).reverse ++
        (middle.reverse.takeWhile (· = 0)).reverse := by
      rw [List.append_assoc, ← shape, split]
    have confined := confined_append (bytes.takeWhile (· = 0))
      (middle.reverse.dropWhile (· = 0)).reverse (middle.reverse.takeWhile (· = 0)).reverse
      (fun byte => takeWhile_zero)
      fun byte member => takeWhile_zero (List.mem_reverse.mp member)
    rwa [← whole] at confined

/-- The OR of wide addresses has a bit wherever one of them does. -/
theorem foldl_or_covers {width : Nat} {run : List StagedRow}
    (lengths : ∀ row ∈ run, row.addressBytes.length = width) {start : List UInt8}
    (length : start.length = width) :
    Covers (run.foldl (fun bytes row => List.zipWith (· ||| ·) bytes row.addressBytes) start)
        start ∧
      ∀ row ∈ run, Covers
        (run.foldl (fun bytes row => List.zipWith (· ||| ·) bytes row.addressBytes) start)
        row.addressBytes := by
  induction run generalizing start with
  | nil => exact ⟨covers_refl start, fun row member => nomatch member⟩
  | cons first rest inductionHypothesis =>
    obtain ⟨old, new⟩ := covers_or (length.trans (lengths first List.mem_cons_self).symm)
    obtain ⟨whole, each⟩ := inductionHypothesis
      (fun row member => lengths row (List.mem_cons_of_mem _ member)) (old.1.trans length)
    refine ⟨whole.trans old, fun row member => ?_⟩
    rcases List.mem_cons.mp member with rfl | later
    · exact whole.trans new
    · exact each row later

theorem orBytes_covers {width : Nat} {run : List StagedRow}
    (lengths : ∀ row ∈ run, row.addressBytes.length = width) {row : StagedRow}
    (member : row ∈ run) : Covers (orBytes width run) row.addressBytes :=
  (foldl_or_covers lengths List.length_replicate).2 row member

/-! ### Trimming integers -/

/-- One number has every bit of another. -/
def Contains (bits value : Nat) : Prop := value ||| bits = bits

theorem Contains.trans {bits middle value : Nat} (contains : Contains bits middle)
    (contains' : Contains middle value) : Contains bits value := by
  unfold Contains at *
  rw [← contains, ← Nat.or_assoc, contains']

theorem foldl_or_contains (run : List StagedRow) (start : UInt64) :
    Contains (run.foldl (fun bits row => bits ||| row.address) start).toNat start.toNat ∧
      ∀ row ∈ run, Contains (run.foldl (fun bits row => bits ||| row.address) start).toNat
        row.address.toNat := by
  induction run generalizing start with
  | nil => exact ⟨Nat.or_self _, fun row member => nomatch member⟩
  | cons first rest inductionHypothesis =>
    obtain ⟨whole, each⟩ := inductionHypothesis (start ||| first.address)
    have old : Contains (start ||| first.address).toNat start.toNat := by
      rw [Contains, UInt64.toNat_or, ← Nat.or_assoc, Nat.or_self]
    have new : Contains (start ||| first.address).toNat first.address.toNat := by
      rw [Contains, UInt64.toNat_or, Nat.or_comm start.toNat, ← Nat.or_assoc, Nat.or_self]
    refine ⟨whole.trans old, fun row member => ?_⟩
    rcases List.mem_cons.mp member with rfl | later
    · exact whole.trans new
    · exact each row later

theorem orBits_contains {run : List StagedRow} {row : StagedRow} (member : row ∈ run) :
    Contains (orBits run).toNat row.address.toNat := (foldl_or_contains run 0).2 row member

theorem foldl_or_lt {exponent : Nat} {run : List StagedRow}
    (bounds : ∀ row ∈ run, row.address.toNat < 2 ^ exponent) {start : UInt64}
    (bound : start.toNat < 2 ^ exponent) :
    (run.foldl (fun bits row => bits ||| row.address) start).toNat < 2 ^ exponent := by
  induction run generalizing start with
  | nil => exact bound
  | cons first rest inductionHypothesis =>
    refine inductionHypothesis (fun row member => bounds row (List.mem_cons_of_mem _ member)) ?_
    rw [UInt64.toNat_or]
    exact Nat.or_lt_two_pow bound (bounds first List.mem_cons_self)

/-- Dropping low zero bytes divides by a power of the byte that goes into the value. -/
theorem trimLow_spec (steps bits skip : Nat) :
    ∃ dropped, trimLow steps bits skip = (bits / 256 ^ dropped, skip + dropped) ∧
      bits % 256 ^ dropped = 0 := by
  induction steps generalizing bits skip with
  | zero => exact ⟨0, by simp [trimLow], Nat.mod_one bits⟩
  | succ steps inductionHypothesis =>
    rw [trimLow]
    split
    · rename_i low
      obtain ⟨dropped, trimmed, divides⟩ := inductionHypothesis (bits >>> 8) (skip + 1)
      rw [Nat.and_two_pow_sub_one_eq_mod bits 8] at low
      rw [Nat.shiftRight_eq_div_pow] at trimmed divides
      refine ⟨dropped + 1, ?_, ?_⟩
      · rw [Nat.shiftRight_eq_div_pow, trimmed, Nat.div_div_eq_div_mul, ← Nat.pow_succ',
          Nat.add_assoc, Nat.add_comm 1]
      · rw [Nat.pow_succ', Nat.mod_mul, divides, low]
    · exact ⟨0, by simp, Nat.mod_one bits⟩

/-- The stretch of a number holds all of it. -/
theorem trimBits_spec {bits width : Nat} (narrow : width ≤ 8) (bound : bits < 256 ^ width) :
    (trimBits bits).1 + (trimBits bits).2 ≤ width ∧ bits % 256 ^ (trimBits bits).1 = 0 ∧
      bits / 256 ^ (trimBits bits).1 < 256 ^ (trimBits bits).2 := by
  unfold trimBits
  by_cases zero : bits = 0
  · simp [zero]
  · rw [if_neg zero]
    obtain ⟨dropped, trimmed, divides⟩ := trimLow_spec 8 bits 0
    rw [trimmed, Nat.zero_add]
    simp only
    have below : dropped < width := by
      by_contra past
      have power : 256 ^ width ≤ 256 ^ dropped := Nat.pow_le_pow_right (by decide) (by omega)
      rw [Nat.mod_eq_of_lt (by omega)] at divides
      exact zero divides
    obtain ⟨rest, rfl⟩ := Nat.exists_eq_add_of_lt below
    have shifted : bits / 256 ^ dropped < 256 ^ (rest + 1) := by
      rw [Nat.div_lt_iff_lt_mul (by positivity), ← Nat.pow_add]
      rwa [Nat.add_comm _ dropped, ← Nat.add_assoc]
    have large : bits / 256 ^ dropped < 2 ^ 64 :=
      lt_of_lt_of_le shifted (le_trans (Nat.pow_le_pow_right (by decide) (by omega : rest + 1 ≤ 8))
        (by norm_num))
    have least := exactWidthFor_least (Nat.succ_pos rest) shifted
    exact ⟨by omega, divides, lt_pow_exactWidthFor large⟩

theorem Contains.stretch {bits value skip width : Nat} (contains : Contains bits value)
    (divides : bits % 256 ^ skip = 0) (fits : bits / 256 ^ skip < 256 ^ width) :
    value % 256 ^ skip = 0 ∧ value / 256 ^ skip < 256 ^ width := by
  unfold Contains at contains
  rw [pow_256] at *
  have low := congrArg (· % 2 ^ (8 * skip)) contains
  have high := congrArg (· >>> (8 * skip)) contains
  simp only [Nat.or_mod_two_pow, divides, Nat.or_zero] at low
  simp only [Nat.shiftRight_or_distrib] at high
  have below : value / 2 ^ (8 * skip) ≤ bits / 2 ^ (8 * skip) := by
    rw [← Nat.shiftRight_eq_div_pow, ← Nat.shiftRight_eq_div_pow, ← high]
    exact Nat.left_le_or
  exact ⟨low, lt_of_le_of_lt below fits⟩

/-- A number is its stretch among zeros. -/
theorem overwrite_leBytes {value skip width size : Nat} (fits : skip + width ≤ size)
    (divides : value % 256 ^ skip = 0) (bound : value / 256 ^ skip < 256 ^ width)
    (small : value < 256 ^ size) :
    overwrite (List.replicate size 0) skip (leBytes width (value / 256 ^ skip)) =
      leBytes size value := by
  refine leNat_inj (by simp) ?_
  rw [leNat_overwrite_zeros (by rwa [leBytes_length]), leNat_leBytes_of_lt bound,
    leNat_leBytes_of_lt small]
  exact Nat.div_mul_cancel (Nat.dvd_of_mod_eq_zero divides)

/-! ### The addresses of a build -/

/-- The address field of a row, before trimming. -/
def fullBytes (builder : Builder) (row : StagedRow) : List UInt8 :=
  if builder.blob.isSome then row.addressBytes
  else leBytes builder.layout.addressWidth row.address.toNat

/-- The stretch stored for a partition. -/
def storedStretch (builder : Builder) (run : List StagedRow) : Nat × Nat :=
  if builder.options.partitionAddressWidth then
    ((stretchOf builder run).1 % 2 ^ 8, (stretchOf builder run).2 % 2 ^ 8)
  else (0, builder.layout.addressWidth % 2 ^ 8)

theorem layout_stretches (builder : Builder) :
    builder.layout.stretches = (partitionRuns builder.rows).map (storedStretch builder) := rfl

theorem foldl_max_address (rows : List StagedRow) (start : UInt64) :
    start.toNat ≤ (rows.foldl (fun most row => max most row.address) start).toNat ∧
      ∀ row ∈ rows, row.address.toNat ≤
        (rows.foldl (fun most row => max most row.address) start).toNat := by
  induction rows generalizing start with
  | nil => exact ⟨Nat.le_refl _, fun row member => nomatch member⟩
  | cons first rest inductionHypothesis =>
    obtain ⟨whole, each⟩ := inductionHypothesis (max start first.address)
    have most : max start first.address = if start ≤ first.address then first.address else start :=
      rfl
    have both : start.toNat ≤ (max start first.address).toNat ∧
        first.address.toNat ≤ (max start first.address).toNat := by
      rw [most]
      split
      · rename_i ordered
        exact ⟨UInt64.le_iff_toNat_le.mp ordered, Nat.le_refl _⟩
      · rename_i ordered
        rw [UInt64.le_iff_toNat_le] at ordered
        exact ⟨Nat.le_refl _, by omega⟩
    refine ⟨le_trans both.1 whole, fun row member => ?_⟩
    rcases List.mem_cons.mp member with rfl | later
    · exact le_trans both.2 whole
    · exact each row later

section Addresses

variable {build : Build} {builder : Builder}

/-- Narrow builds have addresses of at most eight bytes. -/
theorem narrow_layout (narrow : builder.blob.isSome = false) :
    builder.layout.addressWidth = exactWidthFor (maxAddress builder.rows).toNat := by
  simp only [chooseLayout, globalAddressWidth, narrow, Bool.false_eq_true, if_false]

theorem wide_layout (wide : builder.blob.isSome = true) :
    builder.layout.addressWidth = builder.wideWidth := by
  simp only [chooseLayout, globalAddressWidth, wide, if_true]

/-- An integer address fits the width of the build. -/
theorem address_lt (narrow : builder.blob.isSome = false) {row : StagedRow}
    (member : row ∈ builder.rows) : row.address.toNat < 256 ^ builder.layout.addressWidth := by
  rw [narrow_layout narrow]
  exact lt_of_le_of_lt ((foldl_max_address builder.rows 0).2 row member)
    (lt_pow_exactWidthFor (UInt64.toNat_lt _))

theorem Built.fullBytes_length (built : Built build builder) {row : StagedRow}
    (member : row ∈ builder.rows) :
    (fullBytes builder row).length = builder.layout.addressWidth := by
  have shaped := built.shaped row member
  unfold Builder.Shaped at shaped
  unfold fullBytes
  cases wide : builder.blob.isSome with
  | true =>
    rw [wide] at shaped
    rw [wide_layout wide]
    exact shaped.2.1
  | false => exact leBytes_length _ _

theorem mem_rows_of_mem_run {run : List StagedRow} (member : run ∈ partitionRuns builder.rows)
    {row : StagedRow} (inside : row ∈ run) : row ∈ builder.rows := by
  rw [← partitionRuns_flatten builder.rows]
  exact List.mem_flatten_of_mem member inside

/-- The stretch of a partition holds everything of its addresses. -/
theorem Built.stretchOf_spec (built : Built build builder) {run : List StagedRow}
    (member : run ∈ partitionRuns builder.rows) {row : StagedRow} (inside : row ∈ run) :
    (stretchOf builder run).1 + (stretchOf builder run).2 ≤ builder.layout.addressWidth ∧
      overwrite (List.replicate builder.layout.addressWidth 0) (stretchOf builder run).1
        (slice (fullBytes builder row) (stretchOf builder run).1 (stretchOf builder run).2) =
          fullBytes builder row := by
  have ofRows {other : StagedRow} (here : other ∈ run) := mem_rows_of_mem_run member here
  have length := built.fullBytes_length (ofRows inside)
  unfold stretchOf
  cases wide : builder.blob.isSome with
  | true =>
    simp only [if_true]
    have lengths (other : StagedRow) (here : other ∈ run) :
        other.addressBytes.length = builder.wideWidth := by
      have shaped := built.shaped other (ofRows here)
      unfold Builder.Shaped at shaped
      rw [wide] at shaped
      exact shaped.2.1
    obtain ⟨within, confined⟩ := trimBytes_spec (orBytes builder.wideWidth run)
    have covers := orBytes_covers lengths inside
    have full : fullBytes builder row = row.addressBytes := if_pos wide
    rw [full] at length ⊢
    rw [covers.1, length] at within
    refine ⟨within, ?_⟩
    rw [← length] at within ⊢
    exact (covers.confined confined).overwrite_slice within
  | false =>
    simp only [Bool.false_eq_true, if_false]
    have narrow := narrow_layout wide
    have eight : builder.layout.addressWidth ≤ 8 := by
      rw [narrow]
      exact exactWidthFor_le _
    have bound : (orBits run).toNat < 256 ^ builder.layout.addressWidth := by
      rw [pow_256]
      refine foldl_or_lt (fun other here => ?_) (Nat.two_pow_pos _)
      rw [← pow_256]
      exact address_lt wide (ofRows here)
    obtain ⟨within, divides, fits⟩ := trimBits_spec eight bound
    obtain ⟨divides', fits'⟩ := (orBits_contains inside).stretch divides fits
    have full : fullBytes builder row =
        leBytes builder.layout.addressWidth row.address.toNat := if_neg (by simp [wide])
    refine ⟨within, ?_⟩
    rw [full, slice_leBytes _ within]
    exact overwrite_leBytes within divides' fits' (address_lt wide (ofRows inside))

/-- So does the stretch as it is stored, when addresses are short enough for its bytes. -/
theorem Built.storedStretch_spec (built : Built build builder)
    (small : builder.layout.addressWidth < 2 ^ 8) {run : List StagedRow}
    (member : run ∈ partitionRuns builder.rows) {row : StagedRow} (inside : row ∈ run) :
    (storedStretch builder run).1 + (storedStretch builder run).2 ≤ builder.layout.addressWidth ∧
      overwrite (List.replicate builder.layout.addressWidth 0) (storedStretch builder run).1
        (slice (fullBytes builder row) (storedStretch builder run).1
          (storedStretch builder run).2) = fullBytes builder row := by
  unfold storedStretch
  by_cases trims : builder.options.partitionAddressWidth = true
  · obtain ⟨within, whole⟩ := built.stretchOf_spec member inside
    rw [if_pos trims, Nat.mod_eq_of_lt (by omega), Nat.mod_eq_of_lt (by omega)]
    exact ⟨within, whole⟩
  · have length := built.fullBytes_length (mem_rows_of_mem_run member inside)
    rw [if_neg trims, Nat.mod_eq_of_lt small]
    refine ⟨Nat.le_of_eq (Nat.zero_add _), ?_⟩
    have cut := slice_zero_length (fullBytes builder row)
    rw [length] at cut
    simp only
    rw [cut, overwrite_zeros (by rw [length, Nat.zero_add]), length]
    simp

end Addresses

end Mmpack
