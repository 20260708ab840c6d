import Mathlib.Logic.Relation
import Whippet.Library.Checked

/-!
Earlier and later states of one run.

Owns: what a run that is in one state can get to under a condition on its steps. Does not own: any
run.
-/

namespace Whippet

namespace System

variable {State Action Failure : Type} {system : System State Action Failure}
variable {allowed : State → Action → Prop} {before after : State}

/-- A run that is in the first state can get to the second one. -/
def Follows (system : System State Action Failure) (allowed : State → Action → Prop) :
    State → State → Prop :=
  Relation.ReflTransGen fun before after =>
    ∃ action, allowed before action ∧ system.step before action = .next after

/-- What an executed list of actions leads to follows, if the condition it was run with implies the
condition on the steps. -/
theorem Follows.of_runBy (checked : State → Action → Prop)
    [∀ state action, Decidable (checked state action)]
    (implied : ∀ state action, checked state action → allowed state action) (actions : List Action)
    (ran : runBy system.step checked before actions = .next after) :
    system.Follows allowed before after := by
  induction actions generalizing before with
  | nil =>
      cases ran
      exact .refl
  | cons action rest inductionHypothesis =>
      rw [runBy, Outcome.require_bind_eq_next, Outcome.bind_eq_next] at ran
      obtain ⟨permitted, middle, stepped, continued⟩ := ran
      exact .head ⟨action, implied _ _ permitted, stepped⟩ (inductionHypothesis continued)

end System

end Whippet
