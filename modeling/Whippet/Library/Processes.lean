import Mathlib
import Whippet.Library.Checked

/-!
Lists of processes that take their steps one at a time.

A process is an entry of a list, and a step of the process at an index sets that entry.

Owns: how a count and a measure of the processes change when one of them takes a step, that at
most one process is of a kind that is counted at most once, and the rule that a run can be
finished if there is always a step that makes a measure smaller.
-/

namespace Whippet.Processes

variable {Process : Type*} {processes : List Process} {index other : ℕ} {old new result : Process}

theorem getElem?_set_cases (found : (processes.set index new)[other]? = some result) :
    (other = index ∧ result = new) ∨ (other ≠ index ∧ processes[other]? = some result) := by
  rw [List.getElem?_set] at found
  split_ifs at found with same inRange
  · simp only [Option.some.injEq] at found
    exact .inl ⟨same.symm, found.symm⟩
  · exact .inr ⟨Ne.symm same, found⟩

theorem mem_set_cases (found : result ∈ processes.set index new) :
    result = new ∨ result ∈ processes := by
  obtain ⟨position, atPosition⟩ := List.mem_iff_getElem?.mp found
  rcases getElem?_set_cases atPosition with ⟨-, same⟩ | ⟨-, kept⟩
  · exact .inl same
  · exact .inr (List.mem_of_getElem? kept)

theorem sum_map_set (measure : Process → ℕ) (found : processes[index]? = some old) :
    ((processes.set index new).map measure).sum + measure old =
      (processes.map measure).sum + measure new := by
  induction processes generalizing index with
  | nil => simp at found
  | cons head tail inductionHypothesis =>
      cases index with
      | zero =>
          simp only [List.getElem?_cons_zero, Option.some.injEq] at found
          subst found
          rw [List.set_cons_zero, List.map_cons, List.sum_cons, List.map_cons, List.sum_cons]
          omega
      | succ index =>
          rw [List.getElem?_cons_succ] at found
          have rest := inductionHypothesis found
          rw [List.set_cons_succ, List.map_cons, List.sum_cons, List.map_cons, List.sum_cons]
          omega

/-- Another measure that only the process that takes the step may have changed. -/
theorem sum_map_set_of_others (before after : Process → ℕ) (found : processes[index]? = some old)
    (rest : Process)
    (others : ∀ process ∈ processes.set index rest, after process = before process) :
    ((processes.set index new).map after).sum + before old =
      (processes.map before).sum + after new := by
  have inRange : index < processes.length := (List.getElem?_eq_some_iff.mp found).1
  have atIndex : (processes.set index rest)[index]? = some rest := by
    rw [List.getElem?_set_self inRange]
  have parked : ((processes.set index rest).map before).sum + before old =
      (processes.map before).sum + before rest := sum_map_set before found
  have resumed : (((processes.set index rest).set index new).map after).sum + after rest =
      ((processes.set index rest).map after).sum + after new := sum_map_set after atIndex
  have same : (processes.set index rest).map after = (processes.set index rest).map before :=
    List.map_congr_left others
  have unchanged := others rest (List.mem_of_getElem? atIndex)
  rw [List.set_set, same] at resumed
  omega

theorem countP_set_add (counted : Process → Bool) (found : processes[index]? = some old) :
    (processes.set index new).countP counted + (counted old).toNat =
      processes.countP counted + (counted new).toNat := by
  induction processes generalizing index with
  | nil => simp at found
  | cons head tail inductionHypothesis =>
      cases index with
      | zero =>
          simp only [List.getElem?_cons_zero, Option.some.injEq] at found
          subst found
          rw [List.set_cons_zero, List.countP_cons, List.countP_cons]
          cases counted head <;> cases counted new <;> simp
      | succ index =>
          rw [List.getElem?_cons_succ] at found
          have rest := inductionHypothesis found
          rw [List.set_cons_succ, List.countP_cons, List.countP_cons]
          omega

/-- What is counted at most once is at one index at most. -/
theorem eq_of_countP_le_one {counted : Process → Bool} (once : processes.countP counted ≤ 1)
    (found : processes[index]? = some old) (isCounted : counted old = true)
    (foundOther : processes[other]? = some new) (isCountedOther : counted new = true) :
    other = index := by
  by_contra different
  have removed : (processes.eraseIdx index).countP counted = 0 := by
    have inRange : index < processes.length := (List.getElem?_eq_some_iff.mp found).1
    have split := (List.getElem_cons_eraseIdx_perm inRange).countP_eq counted
    rw [List.countP_cons, (List.getElem?_eq_some_iff.mp found).2, if_pos isCounted] at split
    omega
  have kept : new ∈ processes.eraseIdx index :=
    List.mem_eraseIdx_iff_getElem?.mpr ⟨other, different, foundOther⟩
  exact List.countP_eq_zero.mp removed new kept isCountedOther

end Whippet.Processes

namespace Whippet.System

variable {State Action Failure : Type} {step : State → Action → Outcome Failure State}

/-- If every state that is not finished has a step that makes the measure smaller, then a run
from it can be finished. -/
theorem exists_run_of_decreasing {holds finished : State → Prop} (measure : State → ℕ)
    (progress : ∀ state, holds state → ¬finished state →
      ∃ action after, step state action = .next after ∧ holds after ∧
        measure after < measure state)
    {state : State} (start : holds state) :
    ∃ actions final, runBy step (fun _ _ => True) state actions = .next final ∧
      holds final ∧ finished final := by
  induction bound : measure state using Nat.strongRecOn generalizing state with
  | ind value inductionHypothesis =>
      by_cases done : finished state
      · exact ⟨[], state, rfl, start, done⟩
      · obtain ⟨action, after, stepped, kept, smaller⟩ := progress state start done
        obtain ⟨actions, final, ran, finish⟩ :=
          inductionHypothesis _ (bound ▸ smaller) kept rfl
        refine ⟨action :: actions, final, ?_, finish⟩
        rw [runBy, Outcome.require_bind_eq_next]
        exact ⟨trivial, Outcome.bind_eq_next.mpr ⟨after, stepped, ran⟩⟩

/-- If every step makes the measure smaller, then it bounds the length of every run. -/
theorem length_le_of_decreasing {holds : State → Prop} (measure : State → ℕ)
    (decreasing : ∀ state action after, holds state → step state action = .next after →
      holds after ∧ measure after < measure state)
    {state final : State} (start : holds state) (actions : List Action)
    (ran : runBy step (fun _ _ => True) state actions = .next final) :
    actions.length ≤ measure state := by
  induction actions generalizing state with
  | nil => exact Nat.zero_le _
  | cons action rest inductionHypothesis =>
      rw [runBy, Outcome.require_bind_eq_next, Outcome.bind_eq_next] at ran
      obtain ⟨-, middle, stepped, continued⟩ := ran
      obtain ⟨kept, smaller⟩ := decreasing state action middle start stepped
      have shorter := inductionHypothesis kept continued
      rw [List.length_cons]
      omega

end Whippet.System

namespace Whippet.Outcome

variable {State Failure Measure : Type} [Preorder Measure] [WellFoundedLT Measure]

/-- A program without choices finishes if every step that it takes before makes the measure
smaller. -/
theorem exists_iterate_of_decreasing {step : State → Outcome Failure State}
    {holds finished : State → Prop} (measure : State → Measure)
    (progress : ∀ state, holds state → ¬finished state →
      ∃ after, step state = .next after ∧ holds after ∧ measure after < measure state)
    {state : State} (start : holds state) :
    ∃ count final, iterate step count state = .next final ∧ holds final ∧ finished final := by
  induction bound : measure state using WellFoundedLT.induction generalizing state with
  | ind value inductionHypothesis =>
      by_cases done : finished state
      · exact ⟨0, state, rfl, start, done⟩
      · obtain ⟨after, stepped, kept, smaller⟩ := progress state start done
        obtain ⟨count, final, ran, finish⟩ :=
          inductionHypothesis _ (bound ▸ smaller) kept rfl
        exact ⟨count + 1, final, bind_eq_next.mpr ⟨after, stepped, ran⟩, finish⟩

end Whippet.Outcome
