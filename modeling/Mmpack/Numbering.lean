/-
This file is about numbering things as they first appear. Whoever interns things
keeps the distinct ones in a table and hands out the position of each; `Numbered`
says that a table and the numbers handed out are in step, and has one lemma for
a thing met again and one for a new one.
-/

import Mathlib.Data.List.Nodup
import Mathlib.Data.Finset.Card

namespace Numbering

variable {Item : Type} [DecidableEq Item]

/-! ### First appearances -/

/-- The items of a list in the order they first appear. -/
def firstSeen (items : List Item) : List Item :=
  items.foldl (fun seen item => if item ∈ seen then seen else seen ++ [item]) []

theorem firstSeen_append (items more : List Item) :
    firstSeen (items ++ more) =
      more.foldl (fun seen item => if item ∈ seen then seen else seen ++ [item])
        (firstSeen items) := List.foldl_append

theorem firstSeen_snoc (items : List Item) (item : Item) :
    firstSeen (items ++ [item]) =
      if item ∈ firstSeen items then firstSeen items else firstSeen items ++ [item] :=
  firstSeen_append items [item]

@[simp] theorem mem_firstSeen {items : List Item} {item : Item} :
    item ∈ firstSeen items ↔ item ∈ items := by
  induction items using List.reverseRecOn with
  | nil => exact Iff.rfl
  | append_singleton items last inductionHypothesis =>
    rw [firstSeen_snoc, List.mem_append, List.mem_singleton]
    by_cases seen : last ∈ firstSeen items
    · rw [if_pos seen, inductionHypothesis]
      refine ⟨Or.inl, fun either => either.elim id fun same => ?_⟩
      exact same ▸ inductionHypothesis.mp (same ▸ seen)
    · rw [if_neg seen, List.mem_append, List.mem_singleton, inductionHypothesis]

theorem firstSeen_nodup (items : List Item) : (firstSeen items).Nodup := by
  induction items using List.reverseRecOn with
  | nil => exact List.nodup_nil
  | append_singleton items last inductionHypothesis =>
    rw [firstSeen_snoc]
    split
    · exact inductionHypothesis
    · rename_i unseen
      exact inductionHypothesis.append (List.nodup_singleton last)
        (List.disjoint_singleton.mpr unseen)

theorem firstSeen_length (items : List Item) :
    (firstSeen items).length = items.toFinset.card := by
  rw [← List.toFinset_card_of_nodup (firstSeen_nodup items)]
  congr 1
  ext item
  simp

/-! ### Tables in step with what was handed out -/

variable [BEq Item]

/-- A table of distinct items, and the items that were given numbers, in order. -/
structure Numbered (table : List Item) (given : List (Nat × Item)) : Prop where
  seen : table = firstSeen (given.map Prod.snd)
  numbers : ∀ entry ∈ given, entry.1 = table.idxOf entry.2

variable {table : List Item} {given : List (Nat × Item)}

theorem numbered_nil : Numbered ([] : List Item) [] :=
  ⟨rfl, fun _ member => nomatch member⟩

theorem Numbered.nodup (numbered : Numbered table given) : table.Nodup :=
  numbered.seen ▸ firstSeen_nodup _

theorem Numbered.mem_iff (numbered : Numbered table given) {item : Item} :
    item ∈ table ↔ item ∈ given.map Prod.snd := by
  rw [numbered.seen, mem_firstSeen]

theorem Numbered.length (numbered : Numbered table given) :
    table.length = (given.map Prod.snd).toFinset.card := by
  rw [numbered.seen, firstSeen_length]

variable [LawfulBEq Item]

/-- The number of an item is where the table has it. -/
theorem Numbered.found (numbered : Numbered table given) {entry : Nat × Item}
    (member : entry ∈ given) : table[entry.1]? = some entry.2 := by
  have inside : entry.2 ∈ table :=
    numbered.mem_iff.mpr (List.mem_map_of_mem member)
  rw [numbered.numbers entry member]
  exact List.getElem?_idxOf inside

/-- Two items have one number exactly when they are the same. -/
theorem Numbered.eq_iff (numbered : Numbered table given) {first second : Nat × Item}
    (left : first ∈ given) (right : second ∈ given) :
    first.1 = second.1 ↔ first.2 = second.2 := by
  refine ⟨fun same => ?_, fun same => ?_⟩
  · have found := numbered.found left
    rw [same, numbered.found right] at found
    exact (Option.some.inj found).symm
  · rw [numbered.numbers first left, numbered.numbers second right, same]

/-- An item met again is given the number it has. -/
theorem Numbered.again (numbered : Numbered table given) {number : Nat} {item : Item}
    (found : table[number]? = some item) : Numbered table (given ++ [(number, item)]) := by
  obtain ⟨inside, same⟩ := List.getElem?_eq_some_iff.mp found
  have member : item ∈ table := List.mem_of_getElem? found
  refine ⟨?_, fun entry among => ?_⟩
  · rw [List.map_append, List.map_singleton, firstSeen_snoc, ← numbered.seen, if_pos member]
  · rcases List.mem_append.mp among with old | new
    · exact numbered.numbers entry old
    · rw [List.mem_singleton.mp new]
      simp only
      rw [← same, numbered.nodup.idxOf_getElem]

/-- A new item is given the next number. -/
theorem Numbered.fresh (numbered : Numbered table given) {item : Item} (new : item ∉ table) :
    Numbered (table ++ [item]) (given ++ [(table.length, item)]) := by
  refine ⟨?_, fun entry among => ?_⟩
  · rw [List.map_append, List.map_singleton, firstSeen_snoc, ← numbered.seen, if_neg new]
  · rcases List.mem_append.mp among with old | last
    · have member := numbered.mem_iff.mpr (List.mem_map_of_mem (f := Prod.snd) old)
      rw [List.idxOf_append_of_mem member]
      exact numbered.numbers entry old
    · rw [List.mem_singleton.mp last, List.idxOf_append_of_notMem new, List.idxOf_cons_self,
        Nat.add_zero]

/-- Every number below the size of the table was given to an item. -/
theorem Numbered.exists_given (numbered : Numbered table given) {number : Nat}
    (inside : number < table.length) : ∃ item, (number, item) ∈ given := by
  obtain ⟨entry, member, same⟩ :=
    List.mem_map.mp (numbered.mem_iff.mp (List.getElem_mem inside))
  refine ⟨entry.2, ?_⟩
  have number_eq := numbered.numbers entry member
  rw [same, numbered.nodup.idxOf_getElem] at number_eq
  rwa [← number_eq]

end Numbering
