/-
This file is a small library about two machines that take the same inputs. Where a step
of one can be matched by a step of the other with the same output, so can a run. The
relation need only be kept as long as the first machine stays good, and goodness may be
asked for at the end of the run when no step leads back to it.
-/

import Mathlib.Data.List.Basic

namespace Lockstep

variable {State State' Input Output : Type}

/-- The state after some inputs. -/
def final (step : State → Input → Output × State) (state : State) (inputs : List Input) : State :=
  inputs.foldl (fun state input => (step state input).2) state

/-- What a machine puts out on the way. -/
def outputs (step : State → Input → Output × State) (state : State) : List Input → List Output
  | [] => []
  | input :: rest => (step state input).1 :: outputs step (step state input).2 rest

/-- The second machine matches every step of the first. -/
structure Simulation (step : State → Input → Output × State)
    (step' : State' → Input → Output × State') (Allowed : Input → Prop) (Good : State → Prop)
    (Related : State → State' → Prop) : Prop where
  back : ∀ state input, Allowed input → Good (step state input).2 → Good state
  output : ∀ state state' input, Related state state' → Allowed input →
    Good (step state input).2 → (step' state' input).1 = (step state input).1
  related : ∀ state state' input, Related state state' → Allowed input →
    Good (step state input).2 → Related (step state input).2 (step' state' input).2

namespace Simulation

variable {step : State → Input → Output × State} {step' : State' → Input → Output × State'}
  {Allowed : Input → Prop} {Good : State → Prop} {Related : State → State' → Prop}
  {state : State} {state' : State'} {inputs : List Input}

/-- A run that ends well was well throughout. -/
theorem good_of_final (simulation : Simulation step step' Allowed Good Related)
    (allowed : ∀ input ∈ inputs, Allowed input) (good : Good (final step state inputs)) :
    Good state := by
  induction inputs generalizing state with
  | nil => exact good
  | cons input rest inductionHypothesis =>
    exact simulation.back state input (allowed input List.mem_cons_self)
      (inductionHypothesis (fun other member => allowed other (List.mem_cons_of_mem _ member)) good)

/-- Runs put out the same and end in related states. -/
theorem run (simulation : Simulation step step' Allowed Good Related)
    (related : Related state state') (allowed : ∀ input ∈ inputs, Allowed input)
    (good : Good (final step state inputs)) :
    outputs step' state' inputs = outputs step state inputs ∧
      Related (final step state inputs) (final step' state' inputs) := by
  induction inputs generalizing state state' with
  | nil => exact ⟨rfl, related⟩
  | cons input rest inductionHypothesis =>
    have here := allowed input List.mem_cons_self
    have later : ∀ other ∈ rest, Allowed other :=
      fun other member => allowed other (List.mem_cons_of_mem _ member)
    have well : Good (step state input).2 := simulation.good_of_final later good
    obtain ⟨same, ends⟩ :=
      inductionHypothesis (simulation.related state state' input related here well) later good
    refine ⟨?_, ends⟩
    rw [outputs, outputs, simulation.output state state' input related here well, same]

end Simulation

end Lockstep
