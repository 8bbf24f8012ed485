/-
This file embeds the build side of `dictionary.hpp`: the two kinds of
dictionaries records refer to by index, and their serialized forms.

The builder of a blob dictionary keeps its entries in id order. The hash index of
the source maps each entry to its position there and holds nothing else, so
looking a text up is finding its position.
-/

import Mmpack.Errors
import Mmpack.Bits
import Mmpack.Counting

namespace Mmpack

open ByteList Checked

def dictionaryMagic : Nat := 0x4d444943

/-- `dict_type::fixed` and `dict_type::blob`. -/
def fixedType : Nat := 0
def blobType : Nat := 1

structure DictHeader where
  magic : Nat
  type : Nat
  count : Nat
  /-- fixed: the element size; blob: the total of the blob bytes. -/
  payload : Nat
  deriving DecidableEq, Repr

/-- `sizeof(dict_header)`. -/
def dictHeaderSize : Nat := 16

def DictHeader.parse (bytes : List UInt8) : DictHeader where
  magic := valueAt bytes 0 4
  type := valueAt bytes 4 4
  count := valueAt bytes 8 4
  payload := valueAt bytes 12 4

def DictHeader.load (region : List UInt8) (position : Nat) : Read DictHeader :=
  loadStruct DictHeader.parse dictHeaderSize region position

def DictHeader.encode (head : DictHeader) : List UInt8 :=
  pack [(4, head.magic), (4, head.type), (4, head.count), (4, head.payload)]

@[simp] theorem DictHeader.encode_length (head : DictHeader) :
    head.encode.length = dictHeaderSize := by
  simp [encode, dictHeaderSize]

theorem DictHeader.parse_encode {head : DictHeader} (magic : head.magic < 256 ^ 4)
    (type : head.type < 256 ^ 4) (count : head.count < 256 ^ 4)
    (payload : head.payload < 256 ^ 4) : parse head.encode = head := by
  simp only [parse, encode, pack_cons, pack_nil, List.append_nil, valueAt_append_skip,
    leBytes_length, Nat.reduceLeDiff, Nat.le_refl, Nat.reduceSub, Nat.sub_self,
    valueAt_leBytes_append, valueAt_leBytes, Nat.mod_eq_of_lt magic, Nat.mod_eq_of_lt type,
    Nat.mod_eq_of_lt count, Nat.mod_eq_of_lt payload]

/-! ### Build side -/

structure BlobDictionaryBuilder where
  /-- The entries in id order. -/
  order : List (List UInt8)
  /-- A 32-bit count of their bytes. -/
  blobSize : Nat
  distinct : order.Nodup
  blobSize_eq : blobSize = (order.map List.length).sum
  blobSize_lt : blobSize < 2 ^ 32

namespace BlobDictionaryBuilder

def empty : BlobDictionaryBuilder where
  order := []
  blobSize := 0
  distinct := List.nodup_nil
  blobSize_eq := List.sum_nil.symm
  blobSize_lt := by decide

def size (dict : BlobDictionaryBuilder) : Nat := dict.order.length

def find (dict : BlobDictionaryBuilder) (text : List UInt8) : Option Nat :=
  dict.order.idxOf? text

theorem find_eq_none {dict : BlobDictionaryBuilder} {text : List UInt8} :
    dict.find text = none ↔ text ∉ dict.order := List.idxOf?_eq_none_iff

def intern (dict : BlobDictionaryBuilder) (text : List UInt8) :
    Except BuildError (BlobDictionaryBuilder × Nat) :=
  match found : dict.find text with
  | some id => .ok (dict, id)
  | none =>
    if room : dict.blobSize + text.length ≤ 2 ^ 32 - 1 then
      .ok ({ order := dict.order ++ [text]
             blobSize := dict.blobSize + text.length
             distinct := by
              rw [List.nodup_append]
              refine ⟨dict.distinct, List.nodup_singleton text, ?_⟩
              intro old member new last same
              rw [List.mem_singleton.mp last] at same
              exact find_eq_none.mp found (same ▸ member)
             blobSize_eq := by
              rw [dict.blobSize_eq, List.map_append, List.sum_append, List.map_singleton,
                List.sum_singleton]
             blobSize_lt := by omega },
        dict.order.length)
    else .error .dictionaryBlobTooLarge

def serializedSize (dict : BlobDictionaryBuilder) : Nat :=
  dictHeaderSize + (dict.order.length + 1) * 4 + dict.blobSize

/-- The running 32-bit offsets of the entries, and the end of the last one. -/
def offsetsFrom (running : Nat) : List (List UInt8) → List Nat
  | [] => [running]
  | entry :: rest => running :: offsetsFrom ((running + entry.length) % 2 ^ 32) rest

def header (dict : BlobDictionaryBuilder) : DictHeader where
  magic := dictionaryMagic
  type := blobType
  count := dict.order.length % 2 ^ 32
  payload := dict.blobSize

theorem header_parse (dict : BlobDictionaryBuilder) :
    DictHeader.parse dict.header.encode = dict.header := by
  refine DictHeader.parse_encode ?_ ?_ ?_ ?_ <;>
    simp only [header, dictionaryMagic, blobType]
  · decide
  · decide
  · omega
  · exact dict.blobSize_lt

/-- The bytes `write` appends to a sink. -/
def write (dict : BlobDictionaryBuilder) : List UInt8 :=
  dict.header.encode ++ ((offsetsFrom 0 dict.order).map (leBytes 4)).flatten ++
    dict.order.flatten

theorem offsetsFrom_length (running : Nat) (entries : List (List UInt8)) :
    (offsetsFrom running entries).length = entries.length + 1 := by
  induction entries generalizing running with
  | nil => rfl
  | cons entry rest inductionHypothesis =>
    rw [offsetsFrom, List.length_cons, inductionHypothesis, List.length_cons]

/-- While the total stays in 32 bits, the offset of an entry is the bytes before it. -/
theorem offsetsFrom_getElem {running : Nat} {entries : List (List UInt8)}
    (fits : running + (entries.map List.length).sum < 2 ^ 32) {index : Nat}
    (bound : index < (offsetsFrom running entries).length) :
    (offsetsFrom running entries)[index] =
      running + ((entries.take index).map List.length).sum := by
  induction entries generalizing running index with
  | nil =>
    obtain rfl : index = 0 := by simpa [offsetsFrom] using bound
    rfl
  | cons entry rest inductionHypothesis =>
    rw [List.map_cons, List.sum_cons] at fits
    cases index with
    | zero => rfl
    | succ index =>
      have noWrap : (running + entry.length) % 2 ^ 32 = running + entry.length :=
        Nat.mod_eq_of_lt (by omega)
      simp only [offsetsFrom, noWrap, List.getElem_cons_succ, List.take_succ_cons, List.map_cons,
        List.sum_cons]
      rw [inductionHypothesis (by omega)]
      omega

/-- Distinct entries of less than 4 GiB in all are less than `2 ^ 32`. -/
theorem size_lt (dict : BlobDictionaryBuilder) : dict.order.length < 2 ^ 32 := by
  have room := distinct_strings_size dict.distinct 1
  have total := dict.blobSize_lt
  rw [dict.blobSize_eq] at total
  omega

theorem write_length (dict : BlobDictionaryBuilder) :
    dict.write.length = dict.serializedSize := by
  have offsets : (((offsetsFrom 0 dict.order).map (leBytes 4)).flatten).length =
      (dict.order.length + 1) * 4 := by
    rw [flatten_length_of_uniform 4 (by simp), List.length_map, offsetsFrom_length]
  rw [write, List.length_append, List.length_append, DictHeader.encode_length, offsets,
    List.length_flatten, ← dict.blobSize_eq, serializedSize]

end BlobDictionaryBuilder

/-- `fixed_dictionary_size`, in 64 bits. -/
def fixedDictionarySize (count elemSize : Nat) : Nat :=
  (dictHeaderSize + count * elemSize) % 2 ^ 64

def fixedHeader (count elemSize : Nat) : DictHeader where
  magic := dictionaryMagic
  type := fixedType
  count := count
  payload := elemSize

theorem fixedHeader_parse {count elemSize : Nat} (countFits : count < 2 ^ 32)
    (elemFits : elemSize < 2 ^ 32) :
    DictHeader.parse (fixedHeader count elemSize).encode = fixedHeader count elemSize := by
  refine DictHeader.parse_encode ?_ ?_ ?_ ?_ <;>
    simp only [fixedHeader, dictionaryMagic, fixedType]
  · decide
  · decide
  · exact countFits
  · exact elemFits

/-- The bytes `write_fixed_dictionary_header` appends to a sink. -/
def writeFixedDictionaryHeader (count elemSize : Nat) : Except BuildError (List UInt8) :=
  if 2 ^ 32 - 1 < count then .error .fixedDictionaryTooLarge
  else .ok (fixedHeader count elemSize).encode

end Mmpack
