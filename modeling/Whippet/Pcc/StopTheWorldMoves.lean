import Whippet.Pcc.StopTheWorldRefinement

/-!
What one step of the mutators' protocol changes.

Every action but the end of a collection changes the phase of its own mutator only, and takes the
lock only to collect. A mutator that has called `trigger_collection` waits, collects, or returns.

Owns: the phases that a step leads to, and who has the lock after it. Does not own: what the
mutators do between the steps.
-/

namespace Whippet.Pcc

open Function

/-- What the mutator is, when it has called `trigger_collection` and not returned. -/
def Phase.Serves (generational : Bool) (requested : CollectionKind) : Phase → Prop
  | .paused (.trigger asked) _ => asked = requested
  | .stopping asked => asked = requested
  | .collecting kind =>
      ∃ oldSpaceHasRoom, kind = determineCollectionKind generational oldSpaceHasRoom requested
  | _ => False

/-- A step changes the phase of one mutator, and the only lock that anyone takes is for it to
collect. -/
structure Moves (world result : World) (mutator : Mutator) (becomes : Phase → Prop) : Prop where
  phase_eq : ∃ phase, becomes phase ∧ result.phase = update world.phase mutator phase
  lock_eq : result.lock = world.lock ∨
    world.lock = none ∧ result.lock = some mutator ∧ ∃ kind, result.phase mutator = .collecting kind

namespace Moves

variable {world result : World} {mutator other : Mutator} {becomes : Phase → Prop}

theorem becoming (phase : Phase) (isAllowed : becomes phase)
    (phaseEq : result.phase = update world.phase mutator phase)
    (lockEq : result.lock = world.lock) : Moves world result mutator becomes where
  phase_eq := ⟨phase, isAllowed, phaseEq⟩
  lock_eq := Or.inl lockEq

theorem mono {weaker : Phase → Prop} (moves : Moves world result mutator becomes)
    (implied : ∀ phase, becomes phase → weaker phase) : Moves world result mutator weaker where
  phase_eq := by
    obtain ⟨phase, isAllowed, phaseEq⟩ := moves.phase_eq
    exact ⟨phase, implied phase isAllowed, phaseEq⟩
  lock_eq := moves.lock_eq

theorem phase_self (moves : Moves world result mutator becomes) :
    becomes (result.phase mutator) := by
  obtain ⟨phase, isAllowed, phaseEq⟩ := moves.phase_eq
  rw [phaseEq, update_self]
  exact isAllowed

theorem phase_other (moves : Moves world result mutator becomes) (different : other ≠ mutator) :
    result.phase other = world.phase other := by
  obtain ⟨phase, -, phaseEq⟩ := moves.phase_eq
  rw [phaseEq, update_of_ne different]

end Moves

section Moves

variable {generational oldSpaceHasRoom : Bool} {world result : World} {mutator : Mutator}
variable {requested : CollectionKind}

theorem waitForMutatorsToStop_moves {asking : World} (free : world.lock = none)
    (phaseEq : asking.phase = world.phase) (lockEq : asking.lock = world.lock) :
    Moves world (waitForMutatorsToStop generational oldSpaceHasRoom asking mutator requested)
      mutator (Phase.Serves generational requested) := by
  unfold waitForMutatorsToStop
  split
  · let kind := determineCollectionKind generational oldSpaceHasRoom requested
    have serves : (Phase.collecting kind).Serves generational requested := ⟨oldSpaceHasRoom, rfl⟩
    exact
      { phase_eq := ⟨_, serves, by simp [collectStopped, World.setPhase, phaseEq, kind]⟩
        lock_eq := Or.inr ⟨free, rfl, kind, by simp [collectStopped, World.setPhase, kind]⟩ }
  · exact Moves.becoming (.stopping requested) rfl (by simp [World.setPhase, phaseEq]) lockEq

theorem collect_moves {asking : World} (free : world.lock = none)
    (phaseEq : asking.phase = world.phase) (lockEq : asking.lock = world.lock)
    (collected : collect generational oldSpaceHasRoom asking mutator requested = .next result) :
    Moves world result mutator (Phase.Serves generational requested) := by
  obtain ⟨-, rfl⟩ := collect_eq_next.mp collected
  exact waitForMutatorsToStop_moves free phaseEq lockEq

theorem pauseMutatorForCollection_moves {caller : PauseCaller}
    (paused : pauseMutatorForCollection world mutator caller = .next result) :
    Moves world result mutator fun phase => phase = .paused caller .minor := by
  simp only [pauseMutatorForCollection, Outcome.check_bind_eq_next, Outcome.pure_eq_next,
    Outcome.next.injEq] at paused
  obtain ⟨-, -, rfl⟩ := paused
  exact Moves.becoming _ rfl rfl rfl

theorem triggerCollection_moves (free : world.lock = none)
    (triggered : triggerCollection generational oldSpaceHasRoom world mutator requested =
      .next result) : Moves world result mutator (Phase.Serves generational requested) := by
  unfold triggerCollection at triggered
  split at triggered
  · apply (pauseMutatorForCollection_moves triggered).mono
    rintro _ rfl
    rfl
  · unfold triggerAfterPausing at triggered
    split at triggered
    · exact collect_moves free rfl rfl triggered
    next notBelow =>
      have nonnegative := requested.toInt_nonneg
      omega

theorem gcSafepointSlow_moves (stopped : gcSafepointSlow world mutator = .next result) :
    Moves world result mutator fun _ => True := by
  unfold gcSafepointSlow at stopped
  split at stopped
  · exact (pauseMutatorForCollection_moves stopped).mono fun _ _ => trivial
  · cases stopped
    exact Moves.becoming (world.phase mutator) trivial (update_eq_self _ _).symm rfl

/-- The answer of `pause_mutator_for_collection` to a mutator whose wait is over. -/
def World.pauseAnswer (generational : Bool) (world : World) (kind : CollectionKind) :
    CollectionKind :=
  if generational = false ∨ world.heap.isMinorCollection = false then .compacting else kind

/-- A return from a pause leads to another pause, to a collection of the mutator's own, or back to
the caller. -/
theorem resumePaused_moves {caller : PauseCaller} {kind : CollectionKind}
    (free : world.lock = none)
    (resumed : resumePaused generational oldSpaceHasRoom world mutator caller kind =
      .next result) :
    Moves world result mutator fun phase =>
      (∃ answer, phase = .paused caller answer) ∨
      (∃ requested, caller = .trigger requested ∧ phase.Serves generational requested) ∨
      phase = .running ∧ world.heap.collecting = false ∧ ∀ requested, caller = .trigger requested →
        requested.toInt ≤ (world.pauseAnswer generational kind).toInt := by
  unfold World.pauseAnswer
  dsimp only [resumePaused] at resumed
  generalize (if generational = false ∨ world.heap.isMinorCollection = false then
    CollectionKind.compacting else kind) = answer at resumed ⊢
  split at resumed
  · cases resumed
    exact Moves.becoming (.paused caller answer) (Or.inl ⟨_, rfl⟩) rfl rfl
  next calm =>
    rw [mutatorsAreStopping, Bool.not_eq_true] at calm
    cases caller with
    | safepoint =>
        cases resumed
        exact Moves.becoming .running (Or.inr (Or.inr ⟨rfl, calm, by simp⟩)) rfl rfl
    | trigger requested =>
        dsimp only [triggerAfterPausing] at resumed
        split at resumed
        · apply Moves.mono (collect_moves free (by rfl) (by rfl) resumed)
          exact fun phase serves => Or.inr (Or.inl ⟨requested, rfl, serves⟩)
        next covers =>
          cases resumed
          refine Moves.becoming .running (Or.inr (Or.inr ⟨rfl, calm, ?_⟩)) rfl rfl
          rintro _ ⟨rfl⟩
          exact not_lt.mp covers

theorem addMutator_moves : Moves world (addMutator world mutator) mutator fun _ => True := by
  unfold addMutator
  split
  · exact Moves.becoming .adding trivial rfl rfl
  · exact Moves.becoming .running trivial rfl rfl

theorem wake_moves (free : world.lock = none)
    (woken : wake generational oldSpaceHasRoom world mutator = .next result) :
    Moves world result mutator fun _ => True := by
  unfold wake at woken
  split at woken
  · cases woken
    exact addMutator_moves
  · exact (resumePaused_moves free woken).mono fun _ _ => trivial
  · cases woken
    exact (waitForMutatorsToStop_moves free rfl rfl).mono fun _ _ => trivial
  · split at woken
    · cases woken
      exact Moves.becoming (world.phase mutator) trivial (update_eq_self _ _).symm rfl
    · cases woken
      exact Moves.becoming .running trivial rfl rfl
  · cases woken

/-- A mutator that has called `trigger_collection` waits on, collects, or returns from its pause. -/
theorem wake_serves (free : world.lock = none)
    (serves : (world.phase mutator).Serves generational requested)
    (woken : wake generational oldSpaceHasRoom world mutator = .next result) :
    Moves world result mutator fun phase => phase.Serves generational requested ∨
      phase = .running ∧ world.heap.collecting = false ∧
        ∃ kind, world.phase mutator = .paused (.trigger requested) kind ∧
          requested.toInt ≤ (world.pauseAnswer generational kind).toInt := by
  unfold wake at woken
  split at woken
  next was =>
    rw [was] at serves
    cases serves
  next caller kind was =>
    rw [was] at serves
    cases caller with
    | safepoint => cases serves
    | trigger asked =>
        have same : asked = requested := serves
        subst same
        apply (resumePaused_moves free woken).mono
        rintro phase (⟨answer, rfl⟩ | ⟨_, ⟨rfl⟩, again⟩ | ⟨isRunning, calm, covers⟩)
        · exact Or.inl rfl
        · exact Or.inl again
        · exact Or.inr ⟨isRunning, calm, kind, was, covers asked rfl⟩
  next asked was =>
    rw [was] at serves
    have same : asked = requested := serves
    subst same
    cases woken
    exact (waitForMutatorsToStop_moves free rfl rfl).mono fun _ => Or.inl
  next was =>
    rw [was] at serves
    cases serves
  next => cases woken

/-- Every action but the end of a collection changes the phase of its mutator only, and leaves the
lock to whoever has it. -/
theorem step_moves {action : Action} (other : ∀ mutator, action ≠ .finishCollection mutator)
    (stepped : step generational world action = .next result) :
    Moves world result action.mutator fun _ => True := by
  cases action with
  | initForThread mutator =>
      simp only [step, Outcome.require_bind_eq_next] at stepped
      obtain ⟨-, -, equal⟩ := stepped
      cases equal
      exact addMutator_moves
  | finishForThread mutator =>
      simp only [step, Outcome.require_bind_eq_next] at stepped
      obtain ⟨-, -, equal⟩ := stepped
      cases equal
      exact Moves.becoming .absent trivial rfl rfl
  | deactivate mutator =>
      simp only [step, deactivateMutator, Outcome.require_bind_eq_next,
        Outcome.check_bind_eq_next] at stepped
      obtain ⟨-, -, -, equal⟩ := stepped
      cases equal
      exact Moves.becoming .deactivating trivial rfl rfl
  | deactivateLocked mutator =>
      simp only [step, Outcome.require_bind_eq_next] at stepped
      obtain ⟨-, -, equal⟩ := stepped
      cases equal
      exact Moves.becoming .inactive trivial rfl rfl
  | reactivate mutator =>
      simp only [step, reactivateMutator, Outcome.require_bind_eq_next,
        Outcome.check_bind_eq_next] at stepped
      obtain ⟨-, -, -, reactivated⟩ := stepped
      split at reactivated
      · cases reactivated
        exact Moves.becoming .reactivating trivial rfl rfl
      · cases reactivated
        exact Moves.becoming .running trivial rfl rfl
  | safepoint mutator =>
      simp only [step, Outcome.require_bind_eq_next] at stepped
      exact gcSafepointSlow_moves stepped.2.2
  | triggerCollection mutator requested oldSpaceHasRoom =>
      simp only [step, Outcome.require_bind_eq_next] at stepped
      exact (triggerCollection_moves stepped.2.1 stepped.2.2).mono fun _ _ => trivial
  | wake mutator oldSpaceHasRoom =>
      simp only [step, Outcome.require_bind_eq_next] at stepped
      exact wake_moves stepped.1 stepped.2
  | finishCollection mutator => exact absurd rfl (other mutator)

/-- The mutator that has the lock does nothing but collect. -/
theorem step_not_collecting {action : Action} {kind : CollectionKind}
    (other : ∀ mutator, action ≠ .finishCollection mutator)
    (stepped : step generational world action = .next result)
    (held : world.lock = some action.mutator) :
    world.phase action.mutator ≠ .collecting kind := by
  intro collecting
  cases action with
  | finishCollection mutator => exact absurd rfl (other mutator)
  | deactivate mutator | reactivate mutator =>
      rw [Action.mutator] at collecting
      simp [step, collecting] at stepped
  | _ =>
      rw [Action.mutator] at held
      simp [step, held, Outcome.bind_eq_next] at stepped

end Moves

end Whippet.Pcc
