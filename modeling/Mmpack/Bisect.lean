/-
This file is a small library of binary search by half-intervals: the loop that
keeps a lower end and a length, over any test and in any monad.

Without any assumption on the test, the result is a place where the test changes
from true to false, the two ends counting as such. When the test holds on an
initial segment only, the result is its length.
-/

import Mathlib.Tactic.SplitIfs
import Mathlib.Order.Basic

namespace Bisect

variable {M : Type → Type} [Monad M]

/-- The loop: `length` candidates from `low` on. The steps allowed are the candidates at the
start, and every round drops one at least. -/
def loop (before : Nat → M Bool) : Nat → Nat → Nat → M Nat
  | 0, low, _ => pure low
  | steps + 1, low, length =>
    if length = 0 then pure low
    else do
      if ← before (low + length / 2) then
        loop before steps (low + length / 2 + 1) (length - (length / 2 + 1))
      else
        loop before steps low (length / 2)

def search (before : Nat → M Bool) (count : Nat) : M Nat := loop before count 0 count

/-- The loop on a test that cannot fail. -/
def pointLoop (before : Nat → Bool) : Nat → Nat → Nat → Nat
  | 0, low, _ => low
  | steps + 1, low, length =>
    if length = 0 then low
    else if before (low + length / 2) then
      pointLoop before steps (low + length / 2 + 1) (length - (length / 2 + 1))
    else
      pointLoop before steps low (length / 2)

/-- Where the search ends. -/
def point (before : Nat → Bool) (count : Nat) : Nat := pointLoop before count 0 count

theorem loop_eq [LawfulMonad M] {test : Nat → M Bool} {before : Nat → Bool}
    {steps low length : Nat}
    (runs : ∀ index, low ≤ index → index < low + length → test index = pure (before index)) :
    loop test steps low length = pure (pointLoop before steps low length) := by
  induction steps generalizing low length with
  | zero => rfl
  | succ steps inductionHypothesis =>
    unfold loop pointLoop
    by_cases empty : length = 0
    · rw [if_pos empty, if_pos empty]
    · rw [if_neg empty, if_neg empty, runs _ (by omega) (by omega), pure_bind]
      split
      · exact inductionHypothesis fun index above below => runs index (by omega) (by omega)
      · exact inductionHypothesis fun index above below => runs index (by omega) (by omega)

/-- A search whose test never fails is the pure search. -/
theorem search_eq [LawfulMonad M] {test : Nat → M Bool} (before : Nat → Bool) {count : Nat}
    (runs : ∀ index < count, test index = pure (before index)) :
    search test count = pure (point before count) :=
  loop_eq fun index _ below => runs index (by omega)

/-- The loop's invariant: everything it keeps lies between a true and a false. -/
theorem pointLoop_boundary {before : Nat → Bool} {count steps low length : Nat}
    (enough : length ≤ steps) (inside : low + length ≤ count)
    (left : 0 < low → before (low - 1) = true)
    (right : low + length < count → before (low + length) = false) :
    pointLoop before steps low length ≤ count ∧
      (0 < pointLoop before steps low length →
        before (pointLoop before steps low length - 1) = true) ∧
      (pointLoop before steps low length < count →
        before (pointLoop before steps low length) = false) := by
  induction steps generalizing low length with
  | zero =>
    obtain rfl : length = 0 := by omega
    exact ⟨inside, left, right⟩
  | succ steps inductionHypothesis =>
    unfold pointLoop
    by_cases empty : length = 0
    · subst empty
      rw [if_pos rfl]
      exact ⟨inside, left, right⟩
    · rw [if_neg empty]
      split
      · rename_i goesRight
        refine inductionHypothesis (by omega) (by omega) (fun _ => ?_) fun more => ?_
        · rwa [Nat.add_sub_cancel]
        · have ends : low + length / 2 + 1 + (length - (length / 2 + 1)) = low + length := by omega
          rw [ends] at more ⊢
          exact right more
      · rename_i goesLeft
        refine inductionHypothesis (by omega) (by omega) left fun _ => ?_
        simpa using goesLeft

theorem point_boundary (before : Nat → Bool) (count : Nat) :
    point before count ≤ count ∧
      (0 < point before count → before (point before count - 1) = true) ∧
      (point before count < count → before (point before count) = false) :=
  pointLoop_boundary (Nat.le_refl _) (by omega) (fun positive => absurd positive (by omega))
    fun more => absurd more (by omega)

theorem point_le (before : Nat → Bool) (count : Nat) : point before count ≤ count :=
  (point_boundary before count).1

/-- A test that, once false, stays false. -/
def Downward (before : Nat → Bool) (count : Nat) : Prop :=
  ∀ lower upper, lower ≤ upper → upper < count → before upper = true → before lower = true

theorem before_of_lt_point {before : Nat → Bool} {count index : Nat}
    (downward : Downward before count) (below : index < point before count) :
    before index = true := by
  obtain ⟨inside, left, -⟩ := point_boundary before count
  exact downward index (point before count - 1) (by omega) (by omega) (left (by omega))

theorem not_before_of_point_le {before : Nat → Bool} {count index : Nat}
    (downward : Downward before count) (above : point before count ≤ index)
    (inside : index < count) : before index = false := by
  obtain ⟨-, -, right⟩ := point_boundary before count
  by_contra holds
  have here := downward (point before count) index above inside (by simpa using holds)
  rw [right (by omega)] at here
  exact Bool.false_ne_true here

end Bisect
