/-
This file follows a blob dictionary from the calls of `intern` to its bytes and back.
The builder keeps its entries numbered by first appearance, whatever is refused on
the way, and the view over the bytes it writes has the same entries under the same
ids.
-/

import Mmpack.Numbering
import Mmpack.DictionaryView

namespace Mmpack

open ByteList Checked Numbering

namespace BlobDictionaryBuilder

variable {dict : BlobDictionaryBuilder} {text : List UInt8} {given : List (Nat × List UInt8)}

/-! ### Calls of `intern` -/

/-- A call finds its text, adds it at the end, or is refused for want of room. -/
theorem intern_cases (dict : BlobDictionaryBuilder) (text : List UInt8) :
    (∃ id, dict.order[id]? = some text ∧ dict.intern text = .ok (dict, id)) ∨
      (text ∉ dict.order ∧ dict.blobSize + text.length ≤ 2 ^ 32 - 1 ∧ ∃ grown,
        grown.order = dict.order ++ [text] ∧
          dict.intern text = .ok (grown, dict.order.length)) ∨
      (text ∉ dict.order ∧ 2 ^ 32 - 1 < dict.blobSize + text.length ∧
        dict.intern text = .error .dictionaryBlobTooLarge) := by
  unfold intern
  split
  · rename_i id found
    obtain ⟨inside, same, -⟩ := List.idxOf?_eq_some_iff.mp found
    exact Or.inl ⟨id, by rw [List.getElem?_eq_getElem inside, same], rfl⟩
  · rename_i missed
    have unseen := find_eq_none.mp missed
    split
    · rename_i room
      exact Or.inr (Or.inl ⟨unseen, room, _, rfl, rfl⟩)
    · rename_i full
      exact Or.inr (Or.inr ⟨unseen, Nat.lt_of_not_le full, rfl⟩)

/-- What a call answers, and the dictionary it leaves. What is thrown is thrown before anything
has changed. -/
def call (dict : BlobDictionaryBuilder) (text : List UInt8) :
    Except BuildError Nat × BlobDictionaryBuilder :=
  match dict.intern text with
  | .ok (grown, id) => (.ok id, grown)
  | .error error => (.error error, dict)

/-- The dictionary after some calls. What they throw is caught. -/
def calls (dict : BlobDictionaryBuilder) (texts : List (List UInt8)) : BlobDictionaryBuilder :=
  texts.foldl (fun dict text => (dict.call text).2) dict

/-- The id a call returned, with what it was for. -/
def returned (dict : BlobDictionaryBuilder) (text : List UInt8) : List (Nat × List UInt8) :=
  match (dict.call text).1 with
  | .ok id => [(id, text)]
  | .error _ => []

/-- The ids that some calls returned, in order. -/
def allReturned (dict : BlobDictionaryBuilder) : List (List UInt8) → List (Nat × List UInt8)
  | [] => []
  | text :: rest => dict.returned text ++ (dict.call text).2.allReturned rest

/-- A call keeps the entries numbered by first appearance. -/
theorem call_numbered (numbered : Numbered dict.order given) (text : List UInt8) :
    Numbered (dict.call text).2.order (given ++ dict.returned text) := by
  unfold returned call
  rcases dict.intern_cases text with ⟨id, found, answer⟩ | ⟨unseen, -, grown, order, answer⟩ |
    ⟨-, -, answer⟩
  · rw [answer]
    exact numbered.again found
  · rw [answer]
    simp only [order]
    exact numbered.fresh unseen
  · rw [answer]
    simpa using numbered

theorem calls_numbered (numbered : Numbered dict.order given) (texts : List (List UInt8)) :
    Numbered (dict.calls texts).order (given ++ dict.allReturned texts) := by
  induction texts generalizing dict given with
  | nil => rwa [allReturned, List.append_nil]
  | cons text rest inductionHypothesis =>
    rw [allReturned, ← List.append_assoc]
    exact inductionHypothesis (call_numbered numbered text)

/-- A call that throws leaves the dictionary as it was, and does so only where a new text does not
fit into the 4 GiB. -/
theorem call_refused {error : BuildError} (thrown : (dict.call text).1 = .error error) :
    (dict.call text).2 = dict ∧ text ∉ dict.order ∧
      2 ^ 32 - 1 < dict.blobSize + text.length := by
  unfold call at thrown ⊢
  rcases dict.intern_cases text with ⟨id, -, answer⟩ | ⟨-, -, grown, -, answer⟩ |
    ⟨unseen, full, answer⟩
  · rw [answer] at thrown
    nomatch thrown
  · rw [answer] at thrown
    nomatch thrown
  · rw [answer]
    exact ⟨rfl, unseen, full⟩

/-! ### The bytes and back -/

/-- What is written is read back, alone or with anything after it. -/
theorem open_written (dict : BlobDictionaryBuilder) (trailing : List UInt8) :
    let region := dict.write ++ trailing
    ∃ view, BlobDictionaryView.open region 0 region.length = pure view ∧
      view.count = dict.size ∧ ∀ id, view.text region id = .ok dict.order[id]? := by
  intro region
  have holds : Holds region 0 dict.write := ⟨[], trailing, rfl, rfl⟩
  have large : dict.serializedSize ≤ region.length := by
    rw [← write_length, List.length_append]
    exact Nat.le_add_right _ _
  exact ⟨dict.viewAt 0, open_of_holds holds large, rfl, bytes_of_holds holds⟩

/-- A dictionary and the ids its calls returned: equal strings have equal ids, and only those; the
ids are `0` to `size - 1` in the order the strings first appeared; a refused call changes nothing;
and the bytes written, with anything after them, open to a view of the same size that has every
string under its id and nothing past them. -/
structure RoundTrips (dict : BlobDictionaryBuilder) (given : List (Nat × List UInt8))
    (trailing : List UInt8) : Prop where
  equal : ∀ first ∈ given, ∀ second ∈ given, first.1 = second.1 ↔ first.2 = second.2
  order : dict.order = firstSeen (given.map Prod.snd)
  ids : ∀ entry ∈ given, entry.1 < dict.size ∧ entry.1 = dict.order.idxOf entry.2
  used : ∀ id < dict.size, ∃ text, (id, text) ∈ given
  refused : ∀ text error, (dict.call text).1 = .error error → (dict.call text).2 = dict ∧
    2 ^ 32 - 1 < dict.blobSize + text.length
  length : dict.write.length = dict.serializedSize
  opens : ∃ view, BlobDictionaryView.open (dict.write ++ trailing) 0
      (dict.write ++ trailing).length = pure view ∧ view.count = dict.size ∧
    (∀ entry ∈ given, view.text (dict.write ++ trailing) entry.1 = .ok (some entry.2)) ∧
    ∀ id, dict.size ≤ id → view.text (dict.write ++ trailing) id = .ok none

/-- A dictionary filled by any calls gives its strings their ids and reads back under them. -/
theorem intern_round_trip (texts : List (List UInt8)) (trailing : List UInt8) :
    (empty.calls texts).RoundTrips (empty.allReturned texts) trailing := by
  have numbered := @calls_numbered empty [] numbered_nil texts
  refine ⟨fun first left second right => numbered.eq_iff left right, numbered.seen,
    fun entry member => ⟨?_, numbered.numbers entry member⟩, fun id => numbered.exists_given,
    fun text error thrown => ?_, write_length _, ?_⟩
  · exact (List.getElem?_eq_some_iff.mp (numbered.found member)).1
  · obtain ⟨same, -, full⟩ := call_refused thrown
    exact ⟨same, full⟩
  · obtain ⟨view, opened, count, reads⟩ := open_written (empty.calls texts) trailing
    refine ⟨view, opened, count, fun entry member => ?_, fun id outside => ?_⟩
    · rw [reads, numbered.found member]
    · rw [reads, List.getElem?_eq_none outside]

end BlobDictionaryBuilder

end Mmpack
