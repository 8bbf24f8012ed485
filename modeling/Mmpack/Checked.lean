/-
This file is a small library of computations that read a byte region and do
machine arithmetic, and that may go wrong in ways the machine would not report:
a load past the region, an unsigned operation that wraps, a division by zero. A
`Read` stops at the first such fault; a `Try` may besides reject its input for a
stated reason, which is an ordinary answer.

`Ensures` is the partial-correctness judgement for `Try`: no fault, and the
postcondition whenever the input is not rejected. Its rules follow the
constructors of the computation, so a proof about a validator is a walk along
its text.
-/

import Mmpack.Slices
import Mmpack.Bytes

namespace Checked

open ByteList

/-! ### Computations -/

/-- What a computation can do wrong. -/
inductive Fault
  /-- A byte outside the region was read. -/
  | outOfBounds
  /-- An unsigned operation left the range of its type. -/
  | wraps
  /-- A division by zero. -/
  | dividesByZero
  deriving DecidableEq, Repr

/-- A computation that reads, and may fault. -/
abbrev Read (Value : Type) := Except Fault Value

/-- A computation that may also reject its input. -/
abbrev Try (Reason Value : Type) := ExceptT Reason (Except Fault) Value

variable {Reason Value Result : Type}

/-- Reject for the given reason when the condition holds. -/
def rejectIf (reason : Reason) (condition : Prop) [Decidable condition] : Try Reason Unit :=
  if condition then throw reason else pure ()

/-- Run a computation that rejects without a reason, and supply one. -/
def orReject (reason : Reason) (attempt : Try Unit Value) : Try Reason Value :=
  ExceptT.adapt (fun _ => reason) attempt

/-- The attempt accepts, with a value that passes the check. -/
def acceptsWith (attempt : Try Reason Value) (check : Value → Bool) : Bool :=
  match attempt.run with
  | .ok (.ok value) => check value
  | _ => false

theorem exists_of_acceptsWith {attempt : Try Reason Value} {check : Value → Bool}
    (accepted : acceptsWith attempt check = true) :
    ∃ value, attempt = pure value ∧ check value = true := by
  unfold acceptsWith at accepted
  split at accepted
  · rename_i value runs
    exact ⟨value, runs, accepted⟩
  · nomatch accepted

/-- The bytes of a region in `[start, start + count)`. -/
def readBytes (region : List UInt8) (start count : Nat) : Read (List UInt8) :=
  if start + count ≤ region.length then pure (slice region start count) else throw .outOfBounds

/-- An unsigned addition in `bits` bits. -/
def checkedAdd (bits first second : Nat) : Read Nat :=
  if first + second < 2 ^ bits then pure (first + second) else throw .wraps

/-- An unsigned subtraction. -/
def checkedSub (first second : Nat) : Read Nat :=
  if second ≤ first then pure (first - second) else throw .wraps

/-- An unsigned multiplication in `bits` bits. -/
def checkedMul (bits first second : Nat) : Read Nat :=
  if first * second < 2 ^ bits then pure (first * second) else throw .wraps

/-- An unsigned division. -/
def checkedDiv (first second : Nat) : Read Nat :=
  if second = 0 then throw .dividesByZero else pure (first / second)

theorem readBytes_eq {region : List UInt8} {start count : Nat}
    (within : start + count ≤ region.length) :
    readBytes region start count = .ok (slice region start count) := if_pos within

theorem checkedAdd_eq {bits first second : Nat} (fits : first + second < 2 ^ bits) :
    checkedAdd bits first second = .ok (first + second) := if_pos fits

theorem checkedSub_eq {first second : Nat} (ordered : second ≤ first) :
    checkedSub first second = .ok (first - second) := if_pos ordered

theorem checkedMul_eq {bits first second : Nat} (fits : first * second < 2 ^ bits) :
    checkedMul bits first second = .ok (first * second) := if_pos fits

theorem checkedDiv_eq {first second : Nat} (nonzero : second ≠ 0) :
    checkedDiv first second = .ok (first / second) := if_neg nonzero

theorem rejectIf_eq {reason : Reason} {condition : Prop} [Decidable condition]
    (fails : ¬ condition) : rejectIf reason condition = pure () := if_neg fails

theorem ok_bind (value : Value) (next : Value → Read Result) :
    ((Except.ok value : Read Value) >>= next) = next value := rfl

/-- A read that succeeds, run inside an attempt. -/
theorem lift_ok (value : Value) :
    (liftM (Except.ok value : Read Value) : Try Reason Value) = pure value := rfl

theorem orReject_pure (reason : Reason) (value : Value) :
    orReject reason (pure value : Try Unit Value) = pure value := rfl

/-- A rejection test that fails is passed. -/
theorem rejectIf_bind {reason : Reason} {condition : Prop} [Decidable condition]
    {next : Unit → Try Reason Result} (fails : ¬ condition) :
    (rejectIf reason condition >>= next) = next () := by
  rw [rejectIf_eq fails, pure_bind]

/-- A read that succeeds passes its value on. -/
theorem lift_bind {action : Read Value} {value : Value} {next : Value → Try Reason Result}
    (runs : action = .ok value) : (liftM action >>= next) = next value := by
  rw [runs, lift_ok, pure_bind]

/-! ### The judgement -/

/-- The attempt does not fault, and what it accepts satisfies the postcondition. -/
def Ensures (attempt : Try Reason Value) (post : Value → Prop) : Prop :=
  ∃ outcome, attempt.run = .ok outcome ∧ ∀ value, outcome = .ok value → post value

theorem ensures_pure {value : Value} {post : Value → Prop} (holds : post value) :
    Ensures (pure value : Try Reason Value) post :=
  ⟨.ok value, rfl, by rintro _ ⟨⟩; exact holds⟩

theorem ensures_throw {reason : Reason} {post : Value → Prop} :
    Ensures (throw reason : Try Reason Value) post :=
  ⟨.error reason, rfl, by rintro _ ⟨⟩⟩

theorem ensures_bind {attempt : Try Reason Value} {next : Value → Try Reason Result}
    {middle : Value → Prop} {post : Result → Prop} (first : Ensures attempt middle)
    (second : ∀ value, middle value → Ensures (next value) post) :
    Ensures (attempt >>= next) post := by
  obtain ⟨outcome, runs, holds⟩ := first
  cases outcome with
  | error reason =>
    refine ⟨.error reason, ?_, by rintro _ ⟨⟩⟩
    rw [ExceptT.run_bind, runs]
    rfl
  | ok value =>
    obtain ⟨outcome', runs', holds'⟩ := second value (holds value rfl)
    refine ⟨outcome', ?_, holds'⟩
    rw [ExceptT.run_bind, runs]
    exact runs'

theorem ensures_mono {attempt : Try Reason Value} {weaker stronger : Value → Prop}
    (ensures : Ensures attempt stronger) (implies : ∀ value, stronger value → weaker value) :
    Ensures attempt weaker := by
  obtain ⟨outcome, runs, holds⟩ := ensures
  exact ⟨outcome, runs, fun value accepted => implies value (holds value accepted)⟩

theorem ensures_rejectIf {reason : Reason} {condition : Prop} [Decidable condition] :
    Ensures (rejectIf reason condition) fun _ => ¬ condition := by
  by_cases holds : condition
  · rw [rejectIf, if_pos holds]
    exact ensures_throw
  · rw [rejectIf_eq holds]
    exact ensures_pure holds

/-- After a rejection test, the rest runs under the negated condition. -/
theorem ensures_rejectIf_bind {reason : Reason} {condition : Prop} [Decidable condition]
    {next : Unit → Try Reason Result} {post : Result → Prop}
    (rest : ¬ condition → Ensures (next ()) post) :
    Ensures (rejectIf reason condition >>= next) post :=
  ensures_bind ensures_rejectIf fun _ fails => rest fails

/-- A read known to succeed passes its value on. -/
theorem ensures_lift_bind {action : Read Value} {value : Value}
    {next : Value → Try Reason Result} {post : Result → Prop} (runs : action = .ok value)
    (rest : Ensures (next value) post) : Ensures (liftM action >>= next) post := by
  rw [runs, lift_ok, pure_bind]
  exact rest

/-- What `orReject` accepts, the attempt accepted. -/
theorem orReject_accepts {reason : Reason} {attempt : Try Unit Value} {value : Value}
    (accepts : orReject reason attempt = pure value) : attempt = pure value := by
  have runs : Except.mapError (fun _ => reason) <$> attempt.run = .ok (.ok value) := accepts
  obtain fault | reason' | found : (∃ fault, attempt.run = .error fault) ∨
      (∃ reason', attempt.run = .ok (.error reason')) ∨
      ∃ found, attempt.run = .ok (.ok found) := by
    rcases attempt.run with fault | reason' | found
    · exact Or.inl ⟨fault, rfl⟩
    · exact Or.inr (Or.inl ⟨reason', rfl⟩)
    · exact Or.inr (Or.inr ⟨found, rfl⟩)
  · obtain ⟨fault, equation⟩ := fault
    rw [equation] at runs
    nomatch runs
  · obtain ⟨reason', equation⟩ := reason'
    rw [equation] at runs
    nomatch runs
  · obtain ⟨found, equation⟩ := found
    rw [equation] at runs
    obtain rfl : found = value := Except.ok.inj (Except.ok.inj runs)
    exact equation

theorem ensures_orReject {reason : Reason} {attempt : Try Unit Value} {post : Value → Prop}
    (ensures : Ensures attempt post) : Ensures (orReject reason attempt) post := by
  obtain ⟨outcome, runs, holds⟩ := ensures
  cases outcome with
  | error _ =>
    refine ⟨.error reason, ?_, by rintro _ ⟨⟩⟩
    rw [orReject, ExceptT.run_adapt, runs]
    rfl
  | ok value =>
    refine ⟨.ok value, ?_, by rintro _ ⟨⟩; exact holds value rfl⟩
    rw [orReject, ExceptT.run_adapt, runs]
    rfl

/-- What an attempt accepts satisfies everything it ensures. -/
theorem Ensures.of_accepts {attempt : Try Reason Value} {post : Value → Prop} {value : Value}
    (ensures : Ensures attempt post) (accepts : attempt = pure value) : post value := by
  obtain ⟨outcome, runs, holds⟩ := ensures
  rw [accepts] at runs
  exact holds value (Except.ok.inj runs).symm

/-- The postcondition may mention that the value is what the attempt accepted. -/
theorem Ensures.accepted {attempt : Try Reason Value} {post : Value → Prop}
    (ensures : Ensures attempt post) :
    Ensures attempt fun value => attempt = pure value ∧ post value := by
  obtain ⟨outcome, runs, holds⟩ := ensures
  refine ⟨outcome, runs, ?_⟩
  rintro value rfl
  exact ⟨runs, holds value rfl⟩

theorem Ensures.no_fault {attempt : Try Reason Value} {post : Value → Prop}
    (ensures : Ensures attempt post) (fault : Fault) : attempt.run ≠ .error fault := by
  obtain ⟨outcome, runs, -⟩ := ensures
  rw [runs]
  rintro ⟨⟩

/-! ### What an accepted input went through -/

/-- What the attempt accepts satisfies the postcondition. Nothing is said about faults, so the
rules need not show that there are none. -/
def Yields (attempt : Try Reason Value) (post : Value → Prop) : Prop :=
  ∀ value, attempt = pure value → post value

theorem yields_pure {value : Value} {post : Value → Prop} (holds : post value) :
    Yields (pure value : Try Reason Value) post := by
  intro other same
  obtain rfl : value = other := Except.ok.inj (Except.ok.inj same)
  exact holds

theorem yields_bind {attempt : Try Reason Value} {next : Value → Try Reason Result}
    {post : Result → Prop} (rest : ∀ value, attempt = pure value → Yields (next value) post) :
    Yields (attempt >>= next) post := by
  intro result accepted
  have runs : (attempt >>= next).run = .ok (.ok result) := accepted
  rw [ExceptT.run_bind] at runs
  cases ran : attempt.run with
  | error fault =>
    rw [ran] at runs
    cases runs
  | ok outcome =>
    cases outcome with
    | error reason =>
      rw [ran] at runs
      cases runs
    | ok value =>
      rw [ran] at runs
      exact rest value ran result runs

/-- An accepted input has passed the rejection tests. -/
theorem yields_rejectIf_bind {reason : Reason} {condition : Prop} [Decidable condition]
    {next : Unit → Try Reason Result} {post : Result → Prop}
    (rest : ¬ condition → Yields (next ()) post) :
    Yields (rejectIf reason condition >>= next) post := by
  refine yields_bind fun _ passed => rest fun holds => ?_
  rw [rejectIf, if_pos holds] at passed
  cases passed

/-- The reads on the way have succeeded. -/
theorem yields_lift_bind {action : Read Value} {next : Value → Try Reason Result}
    {post : Result → Prop} (rest : ∀ value, action = .ok value → Yields (next value) post) :
    Yields (liftM action >>= next) post := by
  refine yields_bind fun value passed => rest value ?_
  cases action with
  | error fault => cases passed
  | ok other =>
    obtain rfl : other = value := Except.ok.inj (Except.ok.inj passed)
    rfl

theorem yields_mono {attempt : Try Reason Value} {weaker stronger : Value → Prop}
    (yields : Yields attempt stronger) (implies : ∀ value, stronger value → weaker value) :
    Yields attempt weaker :=
  fun value accepted => implies value (yields value accepted)

theorem checkedSub_ok {first second difference : Nat}
    (runs : checkedSub first second = .ok difference) :
    second ≤ first ∧ difference = first - second := by
  unfold checkedSub at runs
  split at runs
  · rename_i ordered
    exact ⟨ordered, (Except.ok.inj runs).symm⟩
  · cases runs

theorem checkedAdd_ok {bits first second sum : Nat}
    (runs : checkedAdd bits first second = .ok sum) : sum = first + second := by
  unfold checkedAdd at runs
  split at runs
  · exact (Except.ok.inj runs).symm
  · cases runs

theorem checkedMul_ok {bits first second product : Nat}
    (runs : checkedMul bits first second = .ok product) : product = first * second := by
  unfold checkedMul at runs
  split at runs
  · exact (Except.ok.inj runs).symm
  · cases runs

end Checked
