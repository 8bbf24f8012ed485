/-
This file embeds the shaping half of `table_builder`: the width, the bias and the
place of every field, the stretch of the address each partition stores, the plan
for remapping a partition's references, and the cost model that chooses between
inline and interned tuples.
-/

import Mmpack.Builder
import Mathlib.Data.List.SplitBy

namespace Mmpack

open ByteList

/-! ### Fields -/

/-- The range a field was observed in, with the value of one never set. -/
def FieldStats.range (stats : FieldStats) : UInt64 × UInt64 :=
  if stats.seen then (stats.min, stats.max) else (0, 0)

/-- The bias and the width of a field, and the dictionary of a text field. -/
def shapeField (builder : Builder) (i : Nat) (decl : FieldDecl) (stats : FieldStats) : FieldDesc :=
  let plain : FieldDesc :=
    { offset := 0, nameOffset := 0, bias := 0, width := 0, kind := decl.kind.code, dictIndex := 0 }
  let (min, max) := stats.range
  match decl.kind with
  | .uint => { plain with bias := min.toNat, width := widthFor (max - min).toNat }
  | .sint => { plain with bias := min.toNat, width := widthFor (max - min).toNat }
  | .f32 => { plain with width := 4 }
  | .f64 => { plain with width := 8 }
  | .bytes => { plain with width := decl.fixedWidth }
  | .text =>
    let slot := Builder.textSlot builder.schema i
    let entries := (builder.textDicts.getD slot .empty).size
    { plain with
      width := widthFor (if entries = 0 then 0 else entries - 1)
      dictIndex := slot % 2 ^ 16 }

/-- Give every field its offset from `offset` on, in 32 bits. The second result is the offset
after the last one. -/
def placeFields (align : Bool) : Nat → List FieldDesc → List FieldDesc × Nat
  | offset, [] => ([], offset)
  | offset, d :: rest =>
    let start := if align then alignUp offset d.width % 2 ^ 32 else offset
    let (placed, stride) := placeFields align ((start + d.width) % 2 ^ 32) rest
    ({ d with offset := start } :: placed, stride)

/-! ### Addresses -/

/-- The groups of consecutive rows of one partition. -/
def partitionRuns (rows : List StagedRow) : List (List StagedRow) :=
  rows.splitBy fun first second => first.partition == second.partition

/-- Drop the low zero bytes of a value and count them. -/
def trimLow : Nat → Nat → Nat → Nat × Nat
  | 0, bits, skip => (bits, skip)
  | steps + 1, bits, skip =>
    if bits &&& 0xff = 0 then trimLow steps (bits >>> 8) (skip + 1) else (bits, skip)

/-- The stretch of an integer address, as the bytes skipped and the width of the rest. -/
def trimBits (bits : Nat) : Nat × Nat :=
  if bits = 0 then (0, 0)
  else
    let (rest, skip) := trimLow 8 bits 0
    (skip, exactWidthFor rest)

/-- The stretch from the first nonzero byte to the last. -/
def trimBytes (bytes : List UInt8) : Nat × Nat :=
  let lo := (bytes.takeWhile (· = 0)).length
  if lo = bytes.length then (0, 0)
  else
    let hi := bytes.length - ((bytes.drop lo).reverse.takeWhile (· = 0)).length
    (lo, hi - lo)

/-- The OR of integer addresses. -/
def orBits (run : List StagedRow) : UInt64 := run.foldl (fun bits row => bits ||| row.address) 0

/-- The OR of wide addresses, byte by byte. -/
def orBytes (width : Nat) (run : List StagedRow) : List UInt8 :=
  run.foldl (fun bytes row => List.zipWith (· ||| ·) bytes row.addressBytes)
    (List.replicate width 0)

/-- The stretch a partition needs. -/
def stretchOf (builder : Builder) (run : List StagedRow) : Nat × Nat :=
  if builder.blob.isSome then trimBytes (orBytes builder.wideWidth run)
  else trimBits (orBits run).toNat

def maxAddress (rows : List StagedRow) : UInt64 :=
  rows.foldl (fun most row => max most row.address) 0

/-! ### Remapping -/

/-- The ids of a list in the order they first appear. -/
def firstAppearances (ids : List Nat) : List Nat :=
  ids.foldl (fun seen id => if id ∈ seen then seen else seen ++ [id]) []

/-- The distinct tuples of a partition. -/
def distinctTuples (run : List StagedRow) : List Nat := firstAppearances (run.map (·.tuple))

/-- `plan_remap`: the local reference width, 0 for none, and the bytes it saves. -/
def planRemap (options : BuildOptions) (refWidth distinctHere count : Nat) : Nat × Nat :=
  if options.partitionRemap = false ∨ distinctHere = 0 then (0, 0)
  else
    let localWidth := widthFor (distinctHere - 1)
    if refWidth ≤ localWidth ∨ maxLocalWidth < localWidth then (0, 0)
    else
      let table := distinctHere * 4 % 2 ^ 64
      let saved := count * (refWidth - localWidth) % 2 ^ 64
      if saved ≤ table then (0, 0) else (localWidth, saved - table)

/-! ### The layout -/

/-- What `choose_layout` settles, and the numbers it settles it from. -/
structure Layout where
  descs : List FieldDesc
  valueStride : Nat
  refWidth : Nat
  /-- `partition_skip_` and `partition_width_`, which hold bytes. -/
  stretches : List (Nat × Nat)
  addressWidth : Nat
  interned : Bool
  recordStride : Nat
  narrowedPartitions : Nat
  addressBytesTotal : Nat
  addressSavedBytes : Nat
  inlineEstimate : Nat
  internedEstimate : Nat
  deriving DecidableEq, Repr

def shapeFields (builder : Builder) : List FieldDesc :=
  (builder.schema.fields.zip builder.stats).mapIdx fun i field =>
    shapeField builder i field.1 field.2

def globalAddressWidth (builder : Builder) (rows : List StagedRow) : Nat :=
  if builder.blob.isSome then builder.wideWidth else exactWidthFor (maxAddress rows).toNat

/-- The stretch each partition stores, cast to bytes. -/
def chooseStretches (builder : Builder) (addressWidth : Nat) (runs : List (List StagedRow)) :
    List (Nat × Nat) :=
  runs.map fun run =>
    if builder.options.partitionAddressWidth then
      ((stretchOf builder run).1 % 2 ^ 8, (stretchOf builder run).2 % 2 ^ 8)
    else (0, addressWidth % 2 ^ 8)

/-- The address bytes the cost model counts. -/
def priceAddresses (builder : Builder) (addressWidth : Nat) (runs : List (List StagedRow)) : Nat :=
  if builder.options.partitionAddressWidth then
    (runs.map fun run => run.length * (stretchOf builder run).2).sum % 2 ^ 64
  else builder.count * addressWidth % 2 ^ 64

/-- What remapping saves over all partitions. -/
def priceRemaps (builder : Builder) (refWidth : Nat) (runs : List (List StagedRow)) : Nat :=
  (runs.map fun run =>
    (planRemap builder.options refWidth (distinctTuples run).length run.length).2).sum % 2 ^ 64

def chooseLayout (builder : Builder) (rows : List StagedRow) : Layout :=
  let placed := placeFields builder.options.alignFields 0 (shapeFields builder)
  let valueStride := placed.2
  let distinct := builder.tuples.length
  let refWidth := widthFor (if distinct = 0 then 0 else distinct - 1)
  let runs := partitionRuns rows
  let addressWidth := globalAddressWidth builder rows
  let stretches := chooseStretches builder addressWidth runs
  let addressBytes := priceAddresses builder addressWidth runs
  let inlineBytes := (addressBytes + builder.count * valueStride) % 2 ^ 64
  let internedBytes := (addressBytes + builder.count * refWidth +
    fixedDictionarySize distinct valueStride) % 2 ^ 64
  let internedBytes := internedBytes - min internedBytes (priceRemaps builder refWidth runs)
  let interned : Bool := match builder.options.valueInterning with
    | .always => true
    | .never => false
    | .automatic => decide (internedBytes < inlineBytes)
  { descs := placed.1
    valueStride
    refWidth
    stretches
    addressWidth
    interned
    recordStride := (addressWidth + if interned then refWidth else valueStride) % 2 ^ 32
    narrowedPartitions := stretches.countP fun stretch =>
      decide (stretch.2 ≠ addressWidth) || decide (stretch.1 ≠ 0)
    addressBytesTotal := addressBytes
    addressSavedBytes := (builder.count * addressWidth + (2 ^ 64 - addressBytes)) % 2 ^ 64
    inlineEstimate := inlineBytes
    internedEstimate := internedBytes }

end Mmpack
