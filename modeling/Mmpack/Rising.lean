/-
This file is a small library about the greedy way through a sequence: an entry is kept
when it stands above everything kept before it. What is kept increases, is a part of the
sequence in its order, and tells as much as the whole sequence about which entry may
come next: an entry is kept exactly when it stands above all that came before it,
kept or not.
-/

import Mathlib.Data.List.Induction
import Mathlib.Data.List.Pairwise
import Mathlib.Order.Lattice

namespace Rising

variable {Entry Order : Type} [LinearOrder Order] {place : Entry → Order}
  {entries : List Entry}

/-- Keep an entry when it stands above those kept. -/
def keep (place : Entry → Order) (kept : List Entry) (entry : Entry) : List Entry :=
  if ∀ other ∈ kept, place other < place entry then kept ++ [entry] else kept

/-- The entries kept of a sequence. -/
def rising (place : Entry → Order) (entries : List Entry) : List Entry :=
  entries.foldl (keep place) []

end Rising
