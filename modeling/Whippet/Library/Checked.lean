import Mathlib.Data.List.Basic

/-!
Checked transition systems.

A step of a checked program is disabled, fails one of the program's own checks, or goes on to a
next state. Steps are written as `do` blocks over `Outcome`: `require` blocks the step until its
condition holds, and `check` fails it when the condition does not hold.

Owns: the outcome monad with its inversion rules, executable runs, runs whose steps meet a given
condition, the invariant rule for such runs, and runs of programs without choices.
-/

namespace Whippet

/-- What one step of a checked program does. -/
inductive Outcome (Failure State : Type) where
  | disabled
  | failed (failure : Failure)
  | next (state : State)
  deriving DecidableEq, Repr

namespace Outcome

variable {Failure State Next : Type}

protected def bind (outcome : Outcome Failure State)
    (continuation : State → Outcome Failure Next) : Outcome Failure Next :=
  match outcome with
  | disabled => disabled
  | failed failure => failed failure
  | next state => continuation state

instance {Failure : Type} : Monad (Outcome Failure) where
  pure := next
  bind := Outcome.bind

/-- The step waits until `condition` holds. -/
def require (condition : Prop) [Decidable condition] : Outcome Failure Unit :=
  if condition then next () else disabled

/-- The step fails with `failure` unless `condition` holds. -/
def check (condition : Prop) [Decidable condition] (failure : Failure) : Outcome Failure Unit :=
  if condition then next () else failed failure

@[simp] theorem pure_eq_next (state : State) :
    (pure state : Outcome Failure State) = next state := rfl

@[simp] theorem bind_next (state : State) (continuation : State → Outcome Failure Next) :
    (next state >>= continuation) = continuation state := rfl

@[simp] theorem bind_failed (failure : Failure) (continuation : State → Outcome Failure Next) :
    (failed failure >>= continuation) = failed failure := rfl

@[simp] theorem bind_disabled (continuation : State → Outcome Failure Next) :
    ((disabled : Outcome Failure State) >>= continuation) = disabled := rfl

theorem bind_eq_next {outcome : Outcome Failure State}
    {continuation : State → Outcome Failure Next} {result : Next} :
    (outcome >>= continuation) = next result ↔
      ∃ state, outcome = next state ∧ continuation state = next result := by
  cases outcome <;> simp

theorem bind_eq_failed {outcome : Outcome Failure State}
    {continuation : State → Outcome Failure Next} {failure : Failure} :
    (outcome >>= continuation) = failed failure ↔
      outcome = failed failure ∨
        ∃ state, outcome = next state ∧ continuation state = failed failure := by
  cases outcome <;> simp

section Guards

variable {condition : Prop} [Decidable condition]
variable {continuation : Unit → Outcome Failure Next} {result : Next} {failure reported : Failure}

@[simp] theorem require_eq_next {value : Unit} :
    (require condition : Outcome Failure Unit) = next value ↔ condition := by
  by_cases holds : condition <;> simp [require, holds]

@[simp] theorem require_ne_failed :
    (require condition : Outcome Failure Unit) ≠ failed failure := by
  by_cases holds : condition <;> simp [require, holds]

@[simp] theorem check_eq_next {value : Unit} :
    check condition failure = next value ↔ condition := by
  by_cases holds : condition <;> simp [check, holds]

@[simp] theorem check_eq_failed :
    check condition failure = failed reported ↔ ¬condition ∧ failure = reported := by
  by_cases holds : condition <;> simp [check, holds]

@[simp] theorem require_bind_eq_next :
    (require condition >>= continuation) = next result ↔
      condition ∧ continuation () = next result := by
  by_cases holds : condition <;> simp [require, holds]

@[simp] theorem check_bind_eq_next :
    (check condition failure >>= continuation) = next result ↔
      condition ∧ continuation () = next result := by
  by_cases holds : condition <;> simp [check, holds]

theorem check_bind (holds : condition) :
    (check condition failure >>= continuation) = continuation () := by
  rw [check, if_pos holds, bind_next]

theorem check_bind_ne_disabled (goesOn : continuation () ≠ disabled) :
    (check condition failure >>= continuation) ≠ disabled := by
  by_cases holds : condition
  · rwa [check_bind holds]
  · rw [check, if_neg holds, bind_failed]
    exact nofun

@[simp] theorem require_bind_eq_failed :
    (require condition >>= continuation) = failed failure ↔
      condition ∧ continuation () = failed failure := by
  by_cases holds : condition <;> simp [require, holds]

@[simp] theorem check_bind_eq_failed :
    (check condition failure >>= continuation) = failed reported ↔
      (¬condition ∧ failure = reported) ∨
        (condition ∧ continuation () = failed reported) := by
  by_cases holds : condition <;> simp [check, holds]

end Guards

/-- The step goes on, to a state that meets the test. -/
def leadsTo (outcome : Outcome Failure State) (test : State → Bool) : Bool :=
  match outcome with
  | next state => test state
  | _ => false

theorem exists_next_of_leadsTo {outcome : Outcome Failure State} {test : State → Bool}
    (leads : outcome.leadsTo test = true) :
    ∃ state, outcome = next state ∧ test state = true := by
  cases outcome with
  | next state => exact ⟨state, rfl, leads⟩
  | disabled => cases leads
  | failed failure => cases leads

/-- The step fails with `failure`. -/
def failsWith [DecidableEq Failure] (outcome : Outcome Failure State) (failure : Failure) : Bool :=
  match outcome with
  | failed reported => decide (reported = failure)
  | _ => false

theorem eq_failed_of_failsWith [DecidableEq Failure] {outcome : Outcome Failure State}
    {failure : Failure} (fails : outcome.failsWith failure = true) : outcome = failed failure := by
  cases outcome with
  | failed reported => rw [of_decide_eq_true fails]
  | disabled => cases fails
  | next state => cases fails

/-- The step of a part, with its failures as failures of the whole. -/
def mapFailure {Whole : Type} (name : Failure → Whole) : Outcome Failure State →
    Outcome Whole State
  | disabled => disabled
  | failed failure => failed (name failure)
  | next state => next state

@[simp] theorem mapFailure_eq_next {Whole : Type} {name : Failure → Whole}
    {outcome : Outcome Failure State} {state : State} :
    outcome.mapFailure name = next state ↔ outcome = next state := by
  cases outcome <;> simp [mapFailure]

theorem mapFailure_eq_failed {Whole : Type} {name : Failure → Whole}
    {outcome : Outcome Failure State} {failure : Whole} :
    outcome.mapFailure name = failed failure ↔
      ∃ part, outcome = failed part ∧ name part = failure := by
  cases outcome <;> simp [mapFailure]

/-- Takes a number of steps of a program without choices. -/
def iterate (step : State → Outcome Failure State) : ℕ → State → Outcome Failure State
  | 0, state => next state
  | count + 1, state => do
      let after ← step state
      iterate step count after

end Outcome

/-- A program as its initial states and its checked steps. -/
structure System (State Action Failure : Type) where
  initial : State → Prop
  step : State → Action → Outcome Failure State

namespace System

variable {State Action Failure : Type} (system : System State Action Failure)

/-- The states of the runs whose every step meets `allowed` in the state it starts from. -/
inductive ReachableBy (allowed : State → Action → Prop) : State → Prop where
  | initial {state : State} (start : system.initial state) : ReachableBy allowed state
  | step {before after : State} {action : Action} (reached : ReachableBy allowed before)
      (permitted : allowed before action) (stepped : system.step before action = .next after) :
      ReachableBy allowed after

/-- The states of all runs. -/
abbrev Reachable : State → Prop := system.ReachableBy fun _ _ => True

/-- The invariant rule: what the initial states have and every permitted step keeps, every state
of a permitted run has. -/
theorem ReachableBy.invariant {allowed : State → Action → Prop} {holds : State → Prop}
    (base : ∀ state, system.initial state → holds state)
    (preserved : ∀ before action after, holds before → allowed before action →
      system.step before action = .next after → holds after)
    {state : State} (reached : system.ReachableBy allowed state) : holds state := by
  induction reached with
  | initial start => exact base _ start
  | step _ permitted stepped inductionHypothesis =>
      exact preserved _ _ _ inductionHypothesis permitted stepped

/-- Weakening the condition on steps keeps the states reached. -/
theorem ReachableBy.mono {strong weak : State → Action → Prop}
    (implied : ∀ state action, strong state action → weak state action)
    {state : State} (reached : system.ReachableBy strong state) :
    system.ReachableBy weak state := by
  induction reached with
  | initial start => exact .initial start
  | step _ permitted stepped inductionHypothesis =>
      exact .step inductionHypothesis (implied _ _ permitted) stepped

theorem ReachableBy.afterAction {allowed : State → Action → Prop} {before after : State}
    (reached : system.ReachableBy allowed before) (action : Action)
    (permitted : allowed before action) (stepped : system.step before action = .next after) :
    system.ReachableBy allowed after :=
  .step reached permitted stepped

/-- Runs a list of actions, and gives up at the first that does not meet `allowed`, is disabled,
or fails. -/
def runBy (step : State → Action → Outcome Failure State) (allowed : State → Action → Prop)
    [∀ state action, Decidable (allowed state action)] (state : State) :
    List Action → Outcome Failure State
  | [] => .next state
  | action :: rest => do
      Outcome.require (allowed state action)
      let after ← step state action
      runBy step allowed after rest

/-- What an executed list of actions leads to is reachable, if the condition it was run with
implies the condition on the steps. -/
theorem ReachableBy.of_runBy {allowed : State → Action → Prop}
    (checked : State → Action → Prop) [∀ state action, Decidable (checked state action)]
    (implied : ∀ state action, checked state action → allowed state action)
    {start final : State} (reached : system.ReachableBy allowed start) (actions : List Action)
    (ran : runBy system.step checked start actions = .next final) :
    system.ReachableBy allowed final := by
  induction actions generalizing start with
  | nil =>
      cases ran
      exact reached
  | cons action rest inductionHypothesis =>
      rw [runBy, Outcome.require_bind_eq_next, Outcome.bind_eq_next] at ran
      obtain ⟨permitted, middle, stepped, continued⟩ := ran
      exact inductionHypothesis (.step reached (implied _ _ permitted) stepped) continued

/-- The same for a list of choices of an action, each made in the state it is taken in. -/
theorem ReachableBy.of_runChoosing {allowed : State → Action → Prop}
    (checked : State → Action → Prop) [∀ state action, Decidable (checked state action)]
    (implied : ∀ state action, checked state action → allowed state action)
    {start final : State} (reached : system.ReachableBy allowed start)
    (choices : List (State → Action))
    (ran : runBy (fun state choose => system.step state (choose state))
      (fun state choose => checked state (choose state)) start choices = .next final) :
    system.ReachableBy allowed final := by
  induction choices generalizing start with
  | nil =>
      cases ran
      exact reached
  | cons choose rest inductionHypothesis =>
      rw [runBy, Outcome.require_bind_eq_next, Outcome.bind_eq_next] at ran
      obtain ⟨permitted, middle, stepped, continued⟩ := ran
      exact inductionHypothesis (.step reached (implied _ _ permitted) stepped) continued

end System

end Whippet
