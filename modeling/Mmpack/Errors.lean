/-
This file embeds `error.hpp`: the reasons for which a mapped region is rejected,
and the errors the build side throws, with their texts.

A C++ string is a byte string, so names and messages are lists of bytes.
-/

import Mathlib.Data.List.Basic

namespace Mmpack

/-- Why a mapped region was rejected. -/
inductive Status
  | tooSmall
  | badMagic
  | badVersion
  | badSize
  | badDirectory
  | badSchema
  | badDictionary
  | badUserRegion
  deriving DecidableEq, Repr

def Status.toString : Status → String
  | .tooSmall => "region too small"
  | .badMagic => "bad magic"
  | .badVersion => "unsupported format version"
  | .badSize => "image size does not match region length"
  | .badDirectory => "corrupt partition directory"
  | .badSchema => "corrupt or inconsistent schema"
  | .badDictionary => "corrupt dictionary"
  | .badUserRegion => "corrupt user region"

/-- What the build side throws. -/
inductive BuildError
  | bytesFieldWidth (name : List UInt8)
  | emptyFieldName
  | fieldNameContainsNul (name : List UInt8)
  | duplicateFieldName (name : List UInt8)
  | dictionaryBlobTooLarge
  | fixedDictionaryTooLarge
  | blobStagingNeedsBytes
  | addressWidthChanged
  | schemaHasNoFields
  | addressBitsTooLarge
  | stagingAfterFirstRecord
  | emptyWideAddress
  | addressWidthMismatch (got after : Nat)
  | commitAfterFinish
  | notIncreasing (partition : Nat)
  | finishCalledTwice
  | inputNotSorted
  | recordsAfterFinish
  | mixedKeyModes
  | duplicateKey (partition address : Nat)
  | partitionRangesOutOfStep
  | fieldIdOutOfRange
  | notUintField (name : List UInt8)
  | notSintField (name : List UInt8)
  | notF32Field (name : List UInt8)
  | notF64Field (name : List UInt8)
  | notTextField (name : List UInt8)
  | notBytesField (name : List UInt8)
  | bytesFieldSize (name : List UInt8) (width : Nat)
  /-- Not a `build_error`: the allocation failure that ends a schema before its 32-bit field
  ids run out. -/
  | outOfMemory
  /-- Not a `build_error`: a push to a staging object that is no longer there, which the language
  leaves undefined. -/
  | danglingStaging
  deriving DecidableEq, Repr

/-- The bytes of a string literal. -/
def text (literal : String) : List UInt8 := literal.toUTF8.data.toList

/-- `build_error::what()`. -/
def BuildError.what (error : BuildError) : List UInt8 :=
  text "mmpack: " ++
    match error with
    | .bytesFieldWidth name =>
      text "bytes field '" ++ name ++ text "' must be 1..8 bytes wide; use a text field for more"
    | .emptyFieldName => text "field name must not be empty"
    | .fieldNameContainsNul name =>
      text "field name must not contain NUL: '" ++ name ++ text "'"
    | .duplicateFieldName name => text "duplicate field name: '" ++ name ++ text "'"
    | .dictionaryBlobTooLarge => text "dictionary blob exceeds 4 GiB"
    | .fixedDictionaryTooLarge => text "fixed dictionary exceeds 2^32 entries"
    | .blobStagingNeedsBytes => text "blob_staging needs the address bytes; use push_bytes()"
    | .addressWidthChanged => text "address width changed mid-build"
    | .schemaHasNoFields => text "schema has no fields"
    | .addressBitsTooLarge => text "address_bits must be <= 64"
    | .stagingAfterFirstRecord => text "set_staging() after the first record"
    | .emptyWideAddress => text "a wide address must have at least one byte"
    | .addressWidthMismatch got after =>
      text "every address must be the same width: got " ++ text (toString got) ++
        text " after " ++ text (toString after)
    | .commitAfterFinish => text "commit() after finish()"
    | .notIncreasing partition =>
      text "keys must arrive strictly increasing at partition " ++ text (toString partition)
    | .finishCalledTwice => text "finish() called twice"
    | .inputNotSorted => text "input was not key-sorted"
    | .recordsAfterFinish => text "records added after finish()"
    | .mixedKeyModes =>
      text "a build is either keyed or caller-split, not both: begin_record() and " ++
        text "begin_record_at() cannot be mixed"
    | .duplicateKey partition address =>
      text "duplicate key after sorting: (" ++ text (toString partition) ++ text ", " ++
        text (toString address) ++ text ")"
    | .partitionRangesOutOfStep => text "partition ranges out of step"
    | .fieldIdOutOfRange => text "field id out of range"
    | .notUintField name => text "field '" ++ name ++ text "' is not a uint field"
    | .notSintField name => text "field '" ++ name ++ text "' is not a sint field"
    | .notF32Field name => text "field '" ++ name ++ text "' is not an f32 field"
    | .notF64Field name => text "field '" ++ name ++ text "' is not an f64 field"
    | .notTextField name => text "field '" ++ name ++ text "' is not a text field"
    | .notBytesField name => text "field '" ++ name ++ text "' is not a bytes field"
    | .bytesFieldSize name width =>
      text "field '" ++ name ++ text "' expects exactly " ++ text (toString width) ++
        text " bytes"
    | .outOfMemory => text "std::bad_alloc"
    | .danglingStaging => text "undefined behaviour"

end Mmpack
