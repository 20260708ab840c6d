import Whippet.Library.Checked

/-!
Contracts of checked programs.

A contract says which failures a program may end with, and what holds of its result when it goes on.
A program that is blocked meets every contract.

Owns: contracts with the rules for sequencing, checks and weakening. Does not own:
any program.
-/

namespace Whippet.Outcome

variable {Failure State Next : Type}

/-- The program fails in a tolerated way at most, and its result meets `post`. -/
def Ensures (outcome : Outcome Failure State) (tolerated : Failure → Prop) (post : State → Prop) :
    Prop :=
  match outcome with
  | disabled => True
  | failed failure => tolerated failure
  | next state => post state

variable {outcome : Outcome Failure State} {tolerated : Failure → Prop} {post : State → Prop}

namespace Ensures

/-- The contract of a sequence: the first program ensures what the second one needs. -/
theorem bind {continuation : State → Outcome Failure Next} {goal : Next → Prop}
    (first : outcome.Ensures tolerated post)
    (second : ∀ state, post state → (continuation state).Ensures tolerated goal) :
    (outcome >>= continuation).Ensures tolerated goal := by
  cases outcome with
  | disabled => trivial
  | failed failure => exact first
  | next state => exact second state first

theorem mono {weaker : State → Prop} (first : outcome.Ensures tolerated post)
    (implied : ∀ state, post state → weaker state) : outcome.Ensures tolerated weaker := by
  cases outcome with
  | disabled => trivial
  | failed failure => exact first
  | next state => exact implied state first

/-- More failures are tolerated. -/
theorem tolerate {more : Failure → Prop} (first : outcome.Ensures tolerated post)
    (implied : ∀ failure, tolerated failure → more failure) : outcome.Ensures more post := by
  cases outcome with
  | disabled => trivial
  | failed failure => exact implied failure first
  | next state => exact first

/-- What is ensured of a result that was reached. -/
theorem post_of_next {state : State} (first : outcome.Ensures tolerated post)
    (reached : outcome = next state) : post state := by
  rw [reached] at first
  exact first

theorem tolerated_of_failed {failure : Failure} (first : outcome.Ensures tolerated post)
    (ended : outcome = failed failure) : tolerated failure := by
  rw [ended] at first
  exact first

theorem require {condition : Prop} [Decidable condition] :
    (Outcome.require condition : Outcome Failure Unit).Ensures tolerated fun _ => condition := by
  by_cases holds : condition
  · rw [Outcome.require, if_pos holds]
    exact holds
  · rw [Outcome.require, if_neg holds]
    trivial

theorem check {condition : Prop} [Decidable condition] {failure : Failure}
    (isTolerated : ¬condition → tolerated failure) :
    (Outcome.check condition failure).Ensures tolerated fun _ => condition := by
  by_cases holds : condition
  · rw [Outcome.check, if_pos holds]
    exact holds
  · rw [Outcome.check, if_neg holds]
    exact isTolerated holds

/-- A program together with a case split on a condition. -/
theorem ite {condition : Prop} [Decidable condition] {other : Outcome Failure State}
    (first : condition → outcome.Ensures tolerated post)
    (second : ¬condition → other.Ensures tolerated post) :
    (if condition then outcome else other).Ensures tolerated post := by
  by_cases holds : condition
  · rw [if_pos holds]
    exact first holds
  · rw [if_neg holds]
    exact second holds

end Ensures

end Whippet.Outcome
