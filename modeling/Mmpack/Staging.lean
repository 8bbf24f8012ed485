/-
This file embeds the staging of `builder.hpp`: where records wait between the
moment they are committed and the moment the image is laid out.

There are three stagings of the source's own, one for each key world, and an
interface that a caller may implement. What the builder sees of any of them are
its rows, in the order they would be written.
-/

import Mmpack.Errors
import Mmpack.Bytes
import Mathlib.Data.List.Sort

namespace Mmpack

open ByteList

/-- What the staging interface answers about one record. -/
structure StagedRow where
  partition : UInt64
  address : UInt64
  /-- Empty where the address is an integer. -/
  addressBytes : List UInt8
  tuple : Nat
  deriving DecidableEq, Repr

/-! ### Splitting a key -/

def partitionOf (addressBits : Nat) (key : UInt64) : UInt64 :=
  if 64 ≤ addressBits then 0 else key >>> UInt64.ofNat addressBits

def addressOf (addressBits : Nat) (key : UInt64) : UInt64 :=
  if 64 ≤ addressBits then key else key &&& ((1 <<< UInt64.ofNat addressBits) - 1)

def packKey (addressBits : Nat) (partition address : UInt64) : UInt64 :=
  if 64 ≤ addressBits then address else (partition <<< UInt64.ofNat addressBits) ||| address

/-! ### Keyed builds -/

structure MemoryRow where
  key : UInt64
  tuple : Nat
  deriving DecidableEq, Repr

/-- `memory_staging`: the two parts packed back into one word. -/
structure MemoryStaging where
  addressBits : Nat
  rows : List MemoryRow
  sorted : Bool
  deriving DecidableEq, Repr

namespace MemoryStaging

def push (staging : MemoryStaging) (partition address : UInt64) (tuple : Nat) : MemoryStaging :=
  let key := packKey staging.addressBits partition address
  let disordered := match staging.rows.getLast? with
    | some last => decide (key ≤ last.key)
    | none => false
  { staging with
    rows := staging.rows ++ [{ key, tuple }]
    sorted := if disordered then false else staging.sorted }

/-- The strict order of the sort. -/
def before (first second : MemoryRow) : Bool := first.key < second.key

def sort (staging : MemoryStaging) : MemoryStaging :=
  { staging with
    rows := staging.rows.insertionSort fun first second => ¬ before second first
    sorted := true }

def view (staging : MemoryStaging) : List StagedRow :=
  staging.rows.map fun row =>
    { partition := partitionOf staging.addressBits row.key
      address := addressOf staging.addressBits row.key
      addressBytes := []
      tuple := row.tuple }

end MemoryStaging

/-! ### Wide addresses -/

structure BlobRow where
  partition : UInt64
  address : List UInt8
  tuple : Nat
  deriving DecidableEq, Repr

/-- `blob_staging`: addresses too wide for a scalar, of one width. -/
structure BlobStaging where
  width : Nat
  rows : List BlobRow
  sorted : Bool
  deriving DecidableEq, Repr

namespace BlobStaging

/-- By partition, then by the bytes of the address. -/
def before (width : Nat) (first second : BlobRow) : Bool :=
  if first.partition ≠ second.partition then decide (first.partition < second.partition)
  else decide (memcmp (first.address.take width) (second.address.take width) < 0)

def pushBytes (staging : BlobStaging) (partition : UInt64) (address : List UInt8) (tuple : Nat) :
    Except BuildError BlobStaging :=
  if address.length ≠ staging.width then .error .addressWidthChanged
  else
    let row : BlobRow := { partition, address, tuple }
    let disordered := match staging.rows.getLast? with
      | some last => !before staging.width last row
      | none => false
    .ok { staging with
      rows := staging.rows ++ [row]
      sorted := if disordered then false else staging.sorted }

def sort (staging : BlobStaging) : BlobStaging :=
  { staging with
    rows := staging.rows.insertionSort fun first second => ¬ before staging.width second first
    sorted := true }

def view (staging : BlobStaging) : List StagedRow :=
  staging.rows.map fun row =>
    { partition := row.partition, address := 0, addressBytes := row.address, tuple := row.tuple }

end BlobStaging

/-! ### Caller-split keys -/

structure WideRow where
  partition : UInt64
  address : UInt64
  tuple : Nat
  deriving DecidableEq, Repr

/-- `wide_staging`: parts that need not share a 64-bit word. -/
structure WideStaging where
  rows : List WideRow
  sorted : Bool
  deriving DecidableEq, Repr

namespace WideStaging

def before (first second : WideRow) : Bool :=
  if first.partition ≠ second.partition then decide (first.partition < second.partition)
  else decide (first.address < second.address)

def push (staging : WideStaging) (partition address : UInt64) (tuple : Nat) : WideStaging :=
  let row : WideRow := { partition, address, tuple }
  let disordered := match staging.rows.getLast? with
    | some last => !before last row
    | none => false
  { rows := staging.rows ++ [row]
    sorted := if disordered then false else staging.sorted }

def sort (staging : WideStaging) : WideStaging where
  rows := staging.rows.insertionSort fun first second => ¬ before second first
  sorted := true

def view (staging : WideStaging) : List StagedRow :=
  staging.rows.map fun row =>
    { partition := row.partition, address := row.address, addressBytes := [], tuple := row.tuple }

end WideStaging

/-! ### The interface -/

/-- What happens to a staging of the caller's own. -/
inductive StagingEvent
  | push (partition address : UInt64) (tuple : Nat)
  | sort
  deriving DecidableEq, Repr

/-- A staging of the caller's own: what it answers after some events. -/
structure StagingBehaviour where
  isSorted : List StagingEvent → Bool
  view : List StagingEvent → List StagedRow

/-- A `record_staging`. -/
inductive Staging
  | memory (staging : MemoryStaging)
  | blob (staging : BlobStaging)
  | wide (staging : WideStaging)
  | other (behaviour : StagingBehaviour) (events : List StagingEvent)

namespace Staging

def push (partition address : UInt64) (tuple : Nat) : Staging → Except BuildError Staging
  | .memory staging => .ok (.memory (staging.push partition address tuple))
  | .blob _ => .error .blobStagingNeedsBytes
  | .wide staging => .ok (.wide (staging.push partition address tuple))
  | .other behaviour events => .ok (.other behaviour (events ++ [.push partition address tuple]))

def isSorted : Staging → Bool
  | .memory staging => staging.sorted
  | .blob staging => staging.sorted
  | .wide staging => staging.sorted
  | .other behaviour events => behaviour.isSorted events

def sort : Staging → Staging
  | .memory staging => .memory staging.sort
  | .blob staging => .blob staging.sort
  | .wide staging => .wide staging.sort
  | .other behaviour events => .other behaviour (events ++ [.sort])

/-- The rows the interface gives access to, by index. -/
def view : Staging → List StagedRow
  | .memory staging => staging.view
  | .blob staging => staging.view
  | .wide staging => staging.view
  | .other behaviour events => behaviour.view events

def size (staging : Staging) : Nat := staging.view.length

end Staging

end Mmpack
