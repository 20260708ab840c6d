import Whippet.Pcc.StopTheWorldRefinement

/-!
The stop-the-world bookkeeping of pcc.

Owns: the invariant of the protocol, the condition under which every action keeps it, and what
follows from it for whole runs: the counters are right, a collector that is past its wait is
alone, and no assertion fails.
-/

namespace Whippet.Pcc

open Function

/-! ## The invariant -/

/-- The rendezvous is consistent, and the fields it leaves out agree with the phases. -/
structure Invariant (world : World) : Prop where
  consistent : world.rendezvous.Consistent
  active_iff : ∀ mutator, (world.phase mutator).role.Registered →
    ((world.mutators.record mutator).active = true ↔ (world.phase mutator).role ≠ .inactive)
  maxActive_pos : ∀ mutator, (world.phase mutator).role.Registered →
    0 < world.heap.maxActiveMutatorCount

/-- The operation changes the phase of one active mutator to another active phase and leaves the
list of mutators alone. -/
def Continues (world result : World) (mutator : Mutator) : Prop :=
  result.mutators = world.mutators ∧
    (0 < world.heap.maxActiveMutatorCount → 0 < result.heap.maxActiveMutatorCount) ∧
    ∃ phase, result.phase = update world.phase mutator phase ∧
      phase.role.Registered ∧ phase.role ≠ .inactive

section Continuing

variable {world result : World} {mutator : Mutator}
variable {generational oldSpaceHasRoom : Bool} {requested : CollectionKind}

theorem pauseMutatorForCollection_continues {caller : PauseCaller}
    (paused : pauseMutatorForCollection world mutator caller = .next result) :
    Continues world result mutator := by
  simp only [pauseMutatorForCollection, Outcome.check_bind_eq_next] at paused
  obtain ⟨-, -, equal⟩ := paused
  cases equal
  exact ⟨rfl, id, .paused caller .minor, rfl, by simp, by simp⟩

theorem waitForMutatorsToStop_continues :
    Continues world
      (waitForMutatorsToStop generational oldSpaceHasRoom world mutator requested) mutator := by
  unfold waitForMutatorsToStop
  split
  · exact ⟨rfl, id, .collecting _, rfl, by simp, by simp⟩
  · exact ⟨rfl, id, .stopping requested, rfl, by simp, by simp⟩

theorem triggerAfterPausing_continues {prevKind : ℤ}
    (triggered : triggerAfterPausing generational oldSpaceHasRoom world mutator prevKind
      requested = .next result) : Continues world result mutator := by
  unfold triggerAfterPausing at triggered
  split at triggered
  · obtain ⟨-, rfl⟩ := collect_eq_next.mp triggered
    exact waitForMutatorsToStop_continues
  · cases triggered
    exact ⟨rfl, id, .running, rfl, by simp, by simp⟩

theorem triggerCollection_continues
    (triggered : triggerCollection generational oldSpaceHasRoom world mutator requested =
      .next result) : Continues world result mutator := by
  unfold triggerCollection at triggered
  split at triggered
  · exact pauseMutatorForCollection_continues triggered
  · exact triggerAfterPausing_continues triggered

theorem gcSafepointSlow_continues (was : world.phase mutator = .running)
    (stepped : gcSafepointSlow world mutator = .next result) :
    Continues world result mutator := by
  unfold gcSafepointSlow at stepped
  split at stepped
  · exact pauseMutatorForCollection_continues stepped
  · cases stepped
    refine ⟨rfl, id, .running, ?_, by simp, by simp⟩
    rw [← was, update_eq_self]

theorem resumePaused_continues {caller : PauseCaller} {collectionKind : CollectionKind}
    (resumed : resumePaused generational oldSpaceHasRoom world mutator caller collectionKind =
      .next result) : Continues world result mutator := by
  unfold resumePaused at resumed
  dsimp only at resumed
  split at resumed
  · cases resumed
    exact ⟨rfl, id, .paused caller _, rfl, by simp, by simp⟩
  · cases caller with
    | safepoint =>
        cases resumed
        exact ⟨rfl, id, .running, rfl, by simp, by simp⟩
    | trigger requested =>
        have continued := triggerAfterPausing_continues resumed
        exact continued

theorem finishCollection_continues
    (finished : finishCollection world mutator = .next result) :
    Continues world result mutator := by
  obtain ⟨-, -, -, rfl⟩ := finishCollection_eq_next.mp finished
  refine ⟨rfl, fun _ => ?_, .running, rfl, by simp, by simp⟩
  exact maxActive_le_maybeIncrease
    { world.heap with count := world.heap.count + 1, maxActiveMutatorCount := 1 }

end Continuing

namespace Invariant

variable {world result : World} {mutator : Mutator}

/-- The invariant after a change of one mutator's phase, activity and links. -/
theorem change (invariant : Invariant world) (mutator : Mutator) (steps : Refines world result)
    (phaseOther : ∀ other, other ≠ mutator → result.phase other = world.phase other)
    (activeOther : ∀ other, other ≠ mutator →
      (result.mutators.record other).active = (world.mutators.record other).active)
    (activeSelf : (result.phase mutator).role.Registered →
      ((result.mutators.record mutator).active = true ↔
        (result.phase mutator).role ≠ .inactive))
    (maxKept : 0 < world.heap.maxActiveMutatorCount → 0 < result.heap.maxActiveMutatorCount)
    (maxSelf : (result.phase mutator).role.Registered → 0 < result.heap.maxActiveMutatorCount) :
    Invariant result where
  consistent := invariant.consistent.steps steps
  active_iff := by
    intro other registered
    by_cases same : other = mutator
    · subst same
      exact activeSelf registered
    · rw [phaseOther other same] at registered ⊢
      rw [activeOther other same]
      exact invariant.active_iff other registered
  maxActive_pos := by
    intro other registered
    by_cases same : other = mutator
    · subst same
      exact maxSelf registered
    · rw [phaseOther other same] at registered
      exact maxKept (invariant.maxActive_pos other registered)

theorem continues (invariant : Invariant world) (steps : Refines world result)
    (registered : (world.phase mutator).role.Registered)
    (active : (world.phase mutator).role ≠ .inactive)
    (continued : Continues world result mutator) : Invariant result := by
  obtain ⟨mutatorsEq, maxKept, phase, phaseEq, newRegistered, newActive⟩ := continued
  refine invariant.change mutator steps ?_ ?_ ?_ maxKept ?_
  · intro other different
    rw [phaseEq, update_of_ne different]
  · intro other _
    rw [mutatorsEq]
  · intro _
    rw [phaseEq, update_self, mutatorsEq]
    simp [newActive, (invariant.active_iff mutator registered).mpr active]
  · intro _
    exact maxKept (invariant.maxActive_pos mutator registered)

/-- A thread that waits for a lock it does not get yet. -/
theorem setPhase (invariant : Invariant world) {phase : Phase}
    (sameRole : phase.role = (world.phase mutator).role) :
    Invariant (world.setPhase mutator phase) := by
  refine invariant.change mutator (setPhase_refines sameRole) ?_ ?_ ?_ id ?_
  · intro other different
    simp [World.setPhase, different]
  · intro other _
    rfl
  · intro registered
    simp only [World.setPhase, update_self, sameRole] at registered ⊢
    exact invariant.active_iff mutator registered
  · intro registered
    simp only [World.setPhase, update_self, sameRole] at registered
    exact invariant.maxActive_pos mutator registered

theorem addMutator (invariant : Invariant world) (free : world.lock = none)
    (was : (world.phase mutator).role = .absent) :
    Invariant (addMutator world mutator) := by
  have refined := addMutator_refines free was
  unfold Pcc.addMutator at refined ⊢
  split at refined
  next asked =>
    rw [if_pos asked]
    exact invariant.setPhase was.symm
  next calm =>
    rw [if_neg calm]
    have consistent := invariant.consistent.steps refined
    have positive : 0 < (addMutatorLocked world mutator).heap.maxActiveMutatorCount := by
      refine maxActive_maybeIncrease_pos ?_
      have below := consistent.inactive_lt_registered mutator
        (by simp [World.rendezvous, addMutatorLocked, World.setPhase])
        (by simp [World.rendezvous, addMutatorLocked, World.setPhase, Role.Inactive])
      simpa [World.rendezvous, addMutatorLocked] using below
    refine invariant.change mutator refined ?_ ?_ ?_ (fun _ => positive)
      fun _ => positive
    · intro other different
      simp [addMutatorLocked, World.setPhase, different]
    · intro other different
      simp [addMutatorLocked, different]
    · simp [addMutatorLocked, World.setPhase]

theorem removeMutator (invariant : Invariant world) (free : world.lock = none)
    (was : (world.phase mutator).role = .running) :
    Invariant (removeMutator world mutator) := by
  refine invariant.change mutator (removeMutator_refines invariant.consistent free was)
    ?_ ?_ ?_ id ?_
  · intro other different
    simp [Pcc.removeMutator, World.setPhase, different]
  · intro other different
    simp [Pcc.removeMutator, different]
  · simp [Pcc.removeMutator, World.setPhase]
  · simp [Pcc.removeMutator, World.setPhase]

theorem deactivateMutatorLocked (invariant : Invariant world) (free : world.lock = none)
    (was : (world.phase mutator).role = .running) :
    Invariant (deactivateMutatorLocked world mutator) := by
  refine invariant.change mutator (deactivateMutatorLocked_refines free was)
    ?_ ?_ ?_ id ?_
  · intro other different
    simp [Pcc.deactivateMutatorLocked, World.setPhase, different]
  · intro other different
    simp [Pcc.deactivateMutatorLocked, different]
  · simp [Pcc.deactivateMutatorLocked, World.setPhase]
  · intro _
    exact invariant.maxActive_pos mutator (by simp [was])

theorem reactivateMutatorLocked (invariant : Invariant world) (free : world.lock = none)
    (calm : world.heap.collecting = false) (was : (world.phase mutator).role = .inactive) :
    Invariant (reactivateMutatorLocked world mutator) := by
  have positive := invariant.maxActive_pos mutator (by simp [was])
  have kept : 0 < (Pcc.reactivateMutatorLocked world mutator).heap.maxActiveMutatorCount :=
    lt_of_lt_of_le positive (maxActive_le_maybeIncrease
      { world.heap with
        inactiveMutatorCount := sizeSub world.heap.inactiveMutatorCount 1 })
  refine invariant.change mutator
    (reactivateMutatorLocked_refines invariant.consistent free calm was)
    ?_ ?_ ?_ (fun _ => kept) fun _ => kept
  · intro other different
    simp [Pcc.reactivateMutatorLocked, World.setPhase, different]
  · intro other different
    simp [Pcc.reactivateMutatorLocked, different]
  · simp [Pcc.reactivateMutatorLocked, World.setPhase]

end Invariant

/-! ## Runs -/

/-- The actions that the code handles: a mutator is removed only while it is active, and
deactivated only when no mutator follows it in the list. -/
def Action.Handled (world : World) : Action → Prop
  | .finishForThread mutator => (world.mutators.record mutator).active = true
  | .deactivate mutator => (world.mutators.record mutator).next = none
  | _ => True

instance (world : World) (action : Action) : Decidable (action.Handled world) := by
  cases action <;> unfold Action.Handled <;> infer_instance

section Run

variable {generational : Bool} {world result : World}

theorem wake_invariant {oldSpaceHasRoom : Bool} {mutator : Mutator}
    (invariant : Invariant world) (free : world.lock = none)
    (woken : wake generational oldSpaceHasRoom world mutator = .next result) :
    Invariant result := by
  unfold wake at woken
  split at woken
  next was =>
    cases woken
    exact invariant.addMutator free (by simp [was])
  next caller collectionKind was =>
    have refined := resumePaused_refines invariant.consistent free (by simp [was]) woken
    exact invariant.continues refined (by simp [was]) (by simp [was])
      (resumePaused_continues woken)
  next requested was =>
    cases woken
    exact invariant.continues (waitForMutatorsToStop_refines free (by simp [was]))
      (by simp [was]) (by simp [was]) waitForMutatorsToStop_continues
  next was =>
    split at woken
    · cases woken
      exact invariant
    next notStopping =>
      cases woken
      have calm : world.heap.collecting = false := by
        simpa [mutatorsAreStopping] using notStopping
      exact invariant.reactivateMutatorLocked free calm (by simp [was])
  next => cases woken

/-- Every handled action keeps the invariant. -/
theorem step_invariant {action : Action} (invariant : Invariant world)
    (handled : action.Handled world) (stepped : step generational world action = .next result) :
    Invariant result := by
  cases action with
  | initForThread mutator =>
      simp only [step, Outcome.require_bind_eq_next] at stepped
      obtain ⟨was, free, equal⟩ := stepped
      cases equal
      exact invariant.addMutator free (by simp [was])
  | finishForThread mutator =>
      simp only [step, Outcome.require_bind_eq_next] at stepped
      obtain ⟨was, free, equal⟩ := stepped
      cases equal
      refine invariant.removeMutator free ?_
      rcases was with isRunning | isInactive
      · simp [isRunning]
      · have active := (invariant.active_iff mutator (by simp [isInactive])).mp handled
        simp [isInactive] at active
  | deactivate mutator =>
      simp only [step, deactivateMutator, Outcome.require_bind_eq_next,
        Outcome.check_bind_eq_next] at stepped
      obtain ⟨was, -, -, equal⟩ := stepped
      cases equal
      exact invariant.setPhase (by simp [was])
  | deactivateLocked mutator =>
      simp only [step, Outcome.require_bind_eq_next] at stepped
      obtain ⟨was, free, equal⟩ := stepped
      cases equal
      exact invariant.deactivateMutatorLocked free (by simp [was])
  | reactivate mutator =>
      simp only [step, reactivateMutator, Outcome.require_bind_eq_next,
        Outcome.check_bind_eq_next] at stepped
      obtain ⟨was, -, free, reactivated⟩ := stepped
      split at reactivated
      · cases reactivated
        exact invariant.setPhase (by simp [was])
      next notStopping =>
        cases reactivated
        have calm : world.heap.collecting = false := by
          simpa [mutatorsAreStopping] using notStopping
        exact invariant.reactivateMutatorLocked free calm (by simp [was])
  | safepoint mutator =>
      simp only [step, Outcome.require_bind_eq_next] at stepped
      obtain ⟨was, free, stopped⟩ := stepped
      have refined := gcSafepointSlow_refines free (by simp [was]) stopped
      exact invariant.continues refined (by simp [was]) (by simp [was])
        (gcSafepointSlow_continues was stopped)
  | triggerCollection mutator requested oldSpaceHasRoom =>
      simp only [step, Outcome.require_bind_eq_next] at stepped
      obtain ⟨was, free, triggered⟩ := stepped
      have refined := triggerCollection_refines free (by simp [was]) triggered
      exact invariant.continues refined (by simp [was]) (by simp [was])
        (triggerCollection_continues triggered)
  | wake mutator oldSpaceHasRoom =>
      simp only [step, Outcome.require_bind_eq_next] at stepped
      exact wake_invariant invariant stepped.1 stepped.2
  | finishCollection mutator =>
      simp only [step, Outcome.require_bind_eq_next] at stepped
      obtain ⟨held, finished⟩ := stepped
      have was : (world.phase mutator).role = .collecting :=
        (invariant.consistent.lock_iff mutator).mp held
      have refined := finishCollection_refines invariant.consistent held finished
      exact invariant.continues refined (by simp [was]) (by simp [was])
        (finishCollection_continues finished)

theorem initialWorld_invariant : Invariant initialWorld where
  consistent := Rendezvous.consistent_empty
  active_iff := by
    intro mutator registered
    simp [initialWorld] at registered
  maxActive_pos := by
    intro mutator registered
    simp [initialWorld] at registered

theorem reachable_invariant
    (reached : (system generational).ReachableBy (fun world action => action.Handled world)
      world) : Invariant world := by
  refine reached.invariant _ ?_ ?_
  · rintro state rfl
    exact initialWorld_invariant
  · intro before action after invariant handled stepped
    exact step_invariant invariant handled stepped

end Run

/-! ## Assertions -/

section NoFailure

variable {generational oldSpaceHasRoom : Bool} {world : World} {mutator : Mutator}
variable {assertion : Assertion}

theorem pauseMutatorForCollection_ne_failed {caller : PauseCaller} (invariant : Invariant world)
    (asked : world.heap.collecting = true) (was : (world.phase mutator).role = .running) :
    pauseMutatorForCollection world mutator caller ≠ .failed assertion := by
  have notStopped : ¬allMutatorsStopped world.heap :=
    invariant.consistent.not_allStopped_of_running was
  simp [pauseMutatorForCollection, mutatorsAreStopping, asked, notStopped, Outcome.check]

theorem triggerAfterPausing_ne_failed {prevKind : ℤ} {requested : CollectionKind}
    (calm : world.heap.collecting = false) :
    triggerAfterPausing generational oldSpaceHasRoom world mutator prevKind requested ≠
      .failed assertion := by
  unfold triggerAfterPausing
  split
  · simp [collect, requestMutatorsToStop, mutatorsAreStopping, calm, Outcome.check]
  · simp

theorem triggerCollection_ne_failed {requested : CollectionKind} (invariant : Invariant world)
    (was : (world.phase mutator).role = .running) :
    triggerCollection generational oldSpaceHasRoom world mutator requested ≠
      .failed assertion := by
  unfold triggerCollection
  split
  next asked => exact pauseMutatorForCollection_ne_failed invariant asked was
  next notStopping =>
    exact triggerAfterPausing_ne_failed (by simpa [mutatorsAreStopping] using notStopping)

theorem gcSafepointSlow_ne_failed (invariant : Invariant world)
    (was : (world.phase mutator).role = .running) :
    gcSafepointSlow world mutator ≠ .failed assertion := by
  unfold gcSafepointSlow
  split
  next asked => exact pauseMutatorForCollection_ne_failed invariant asked was
  next => simp

theorem wake_ne_failed : wake generational oldSpaceHasRoom world mutator ≠ .failed assertion := by
  unfold wake
  split
  · simp
  · unfold resumePaused
    dsimp only
    split
    · simp
    next caller _ _ notStopping =>
      cases caller with
      | safepoint => simp
      | trigger requested =>
          exact triggerAfterPausing_ne_failed (by simpa [mutatorsAreStopping] using notStopping)
  · simp
  · split <;> simp
  · simp

/-- A collector that ends finds the stop still on and everyone stopped. -/
theorem finishCollection_ne_failed (invariant : Invariant world)
    (held : world.lock = some mutator) : finishCollection world mutator ≠ .failed assertion := by
  have was : world.rendezvous.role mutator = .collecting :=
    (invariant.consistent.lock_iff mutator).mp held
  have asked : world.heap.collecting = true :=
    invariant.consistent.requested_iff.mpr ⟨mutator, Or.inr was⟩
  have maxActive : world.heap.maxActiveMutatorCount ≠ 0 := by
    have isCollecting : (world.phase mutator).role = .collecting := was
    exact (invariant.maxActive_pos mutator (by simp [isCollecting])).ne'
  have stopped : allMutatorsStopped world.heap := by
    refine invariant.consistent.allStopped_of_not_running ?_
    intro other
    by_cases same : other = mutator
    · subst same
      simp [was]
    · exact invariant.consistent.quiet mutator other was same
  intro failed
  have ended : ∃ result, finishCollection world mutator = .next result :=
    ⟨_, finishCollection_eq_next.mpr ⟨maxActive, asked, stopped, rfl⟩⟩
  obtain ⟨result, finished⟩ := ended
  rw [failed] at finished
  cases finished

/-- No handled action fails an assertion. -/
theorem step_ne_failed {action : Action} (invariant : Invariant world)
    (handled : action.Handled world) : step generational world action ≠ .failed assertion := by
  cases action with
  | initForThread mutator => simp [step]
  | finishForThread mutator => simp [step]
  | deactivate mutator =>
      intro failed
      simp only [step, deactivateMutator, Outcome.require_bind_eq_failed,
        Outcome.check_bind_eq_failed] at failed
      obtain ⟨was, ⟨notActive, -⟩ | ⟨-, ⟨notLast, -⟩ | ⟨-, equal⟩⟩⟩ := failed
      · exact notActive ((invariant.active_iff mutator (by simp [was])).mpr (by simp [was]))
      · exact notLast handled
      · cases equal
  | deactivateLocked mutator => simp [step]
  | reactivate mutator =>
      intro failed
      simp only [step, reactivateMutator, Outcome.require_bind_eq_failed,
        Outcome.check_bind_eq_failed] at failed
      obtain ⟨was, ⟨isActive, -⟩ | ⟨-, -, equal⟩⟩ := failed
      · have active := (invariant.active_iff mutator (by simp [was])).mp (by simpa using isActive)
        simp [was] at active
      · split at equal <;> cases equal
  | safepoint mutator =>
      intro failed
      simp only [step, Outcome.require_bind_eq_failed] at failed
      exact gcSafepointSlow_ne_failed invariant (by simp [failed.1]) failed.2.2
  | triggerCollection mutator requested oldSpaceHasRoom =>
      intro failed
      simp only [step, Outcome.require_bind_eq_failed] at failed
      exact triggerCollection_ne_failed invariant (by simp [failed.1]) failed.2.2
  | wake mutator oldSpaceHasRoom =>
      intro failed
      simp only [step, Outcome.require_bind_eq_failed] at failed
      exact wake_ne_failed failed.2
  | finishCollection mutator =>
      intro failed
      simp only [step, Outcome.require_bind_eq_failed] at failed
      exact finishCollection_ne_failed invariant failed.1 failed.2

end NoFailure

/-! ## The bookkeeping of whole runs -/

/-- A registered mutator: `add_mutator` is past its wait, and `remove_mutator` has not run. -/
def Phase.Registered (phase : Phase) : Prop := phase.role.Registered

/-- A mutator paused for a collection, its collector included. -/
def Phase.Paused (phase : Phase) : Prop := phase.role.Paused

def Phase.Inactive (phase : Phase) : Prop := phase.role.Inactive

/-- The heap's counters are the numbers of registered, paused and inactive mutators. -/
structure CountersExact (world : World) : Prop where
  mutatorCount_eq : world.heap.mutatorCount = population world.phase Phase.Registered
  pausedMutatorCount_eq : world.heap.pausedMutatorCount = population world.phase Phase.Paused
  inactiveMutatorCount_eq :
    world.heap.inactiveMutatorCount = population world.phase Phase.Inactive

/-- Past the wait of a collector, every other registered mutator is paused or inactive. -/
def CollectorAlone (world : World) : Prop :=
  ∀ mutator kind, world.phase mutator = .collecting kind →
    ∀ other, other ≠ mutator → (world.phase other).Registered →
      (world.phase other).Paused ∨ (world.phase other).Inactive

/-- No action that a thread can take next fails an assertion. -/
def AssertionsHold (generational : Bool) (allowed : World → Action → Prop) (world : World) :
    Prop :=
  ∀ action, allowed world action →
    ∀ assertion, step generational world action ≠ .failed assertion

theorem Invariant.countersExact {world : World} (invariant : Invariant world) :
    CountersExact world where
  mutatorCount_eq := invariant.consistent.registered_eq
  pausedMutatorCount_eq := invariant.consistent.paused_eq
  inactiveMutatorCount_eq := invariant.consistent.inactive_eq

theorem Invariant.collectorAlone {world : World} (invariant : Invariant world) :
    CollectorAlone world := by
  intro mutator kind isCollecting other different registered
  have was : world.rendezvous.role mutator = .collecting := by
    simp [World.rendezvous, isCollecting]
  rcases invariant.consistent.stopped_beside was different registered with
    isPaused | isInactive
  · exact Or.inl (Or.inl isPaused)
  · exact Or.inr isInactive

/-- In every run whose steps remove only active mutators and deactivate only mutators with none
behind them in the list, the bookkeeping is right in every state. -/
theorem stop_the_world_bookkeeping (generational : Bool) (world : World)
    (reached : (system generational).ReachableBy (fun state action => action.Handled state)
      world) :
    CountersExact world ∧ CollectorAlone world ∧
      AssertionsHold generational (fun state action => action.Handled state) world := by
  have invariant := reachable_invariant reached
  refine ⟨invariant.countersExact, invariant.collectorAlone, ?_⟩
  intro action handled assertion
  exact step_ne_failed invariant handled

/-- The removal of an inactive mutator makes `inactive_mutator_count` wrong. -/
theorem removeMutator_inactive_not_exact {world : World} {mutator : Mutator}
    (invariant : Invariant world) (was : (world.phase mutator).role = .inactive) :
    ¬CountersExact (removeMutator world mutator) := by
  intro countersExact
  have isInactive : (world.phase mutator).Inactive := was
  have finite : (members world.phase Phase.Inactive).Finite := invariant.consistent.finite_inactive
  have left : population (update world.phase mutator .absent) Phase.Inactive + 1 =
      population world.phase Phase.Inactive :=
    population_leave finite isInactive (by simp [Phase.Inactive, Role.Inactive])
  have counted : world.heap.inactiveMutatorCount = population world.phase Phase.Inactive :=
    invariant.countersExact.inactiveMutatorCount_eq
  have after : world.heap.inactiveMutatorCount =
      population (update world.phase mutator .absent) Phase.Inactive :=
    countersExact.inactiveMutatorCount_eq
  omega

/-- The condition is the exact one: in a state of such a run, any other action that a thread can
take fails an assertion or makes a counter wrong. -/
theorem step_breaks_of_not_handled {generational : Bool} {world : World} {action : Action}
    (invariant : Invariant world) (unhandled : ¬action.Handled world) :
    step generational world action = .disabled ∨
      (∃ assertion, step generational world action = .failed assertion) ∨
      ∃ result, step generational world action = .next result ∧ ¬CountersExact result := by
  cases stepped : step generational world action with
  | disabled => exact Or.inl rfl
  | failed assertion => exact Or.inr (Or.inl ⟨assertion, rfl⟩)
  | next result =>
      refine Or.inr (Or.inr ⟨result, rfl, ?_⟩)
      cases action with
      | finishForThread mutator =>
          simp only [step, Outcome.require_bind_eq_next] at stepped
          obtain ⟨was, -, equal⟩ := stepped
          cases equal
          rcases was with isRunning | isInactive
          · refine absurd ?_ unhandled
            exact (invariant.active_iff mutator (by simp [isRunning])).mpr (by simp [isRunning])
          · exact removeMutator_inactive_not_exact invariant (by simp [isInactive])
      | deactivate mutator =>
          simp only [step, deactivateMutator, Outcome.require_bind_eq_next,
            Outcome.check_bind_eq_next] at stepped
          exact absurd stepped.2.2.1 unhandled
      | _ => exact absurd trivial unhandled

/-- Two mutators, of which one stops for a collection of the other. -/
theorem stop_the_world_bookkeeping_paused :
    ∃ world, world.phase 1 = .paused .safepoint .minor ∧
      world.phase 0 = .collecting .minor ∧ CountersExact world ∧ CollectorAlone world ∧
      AssertionsHold true (fun state action => action.Handled state) world :=
  ⟨_, rfl, rfl, stop_the_world_bookkeeping true _
    (System.ReachableBy.of_runBy (system true)
      (fun state action => action.Handled state) (fun _ _ => id) (.initial rfl)
      [.initForThread 0, .initForThread 1, .triggerCollection 0 .minor true, .safepoint 1,
        .wake 0 true] rfl)⟩

/-- Removing an inactive mutator leaves it in `inactive_mutator_count`, where it stands in for a
running mutator: mutator 1 is past its wait while mutator 2 runs. -/
theorem stop_the_world_bookkeeping_fails :
    ¬∀ world, (system true).Reachable world →
      CountersExact world ∧ CollectorAlone world ∧
        AssertionsHold true (fun _ _ => True) world := by
  intro holds
  have reached : ∃ world, (system true).Reachable world ∧
      world.phase 1 = .collecting .minor ∧ world.phase 2 = .running :=
    ⟨_, System.ReachableBy.of_runBy (system true) (fun _ _ => True) (fun _ _ => id) (.initial rfl)
      [.initForThread 0, .initForThread 1, .deactivate 0, .deactivateLocked 0,
        .finishForThread 0, .initForThread 2, .triggerCollection 1 .minor true] rfl, rfl, rfl⟩
  obtain ⟨world, reachable, isCollecting, isRunning⟩ := reached
  have registered : (world.phase 2).Registered := by simp [Phase.Registered, isRunning]
  rcases (holds world reachable).2.1 1 .minor isCollecting 2 (by decide) registered with
    isPaused | isInactive
  · simp [Phase.Paused, isRunning, Role.Paused] at isPaused
  · simp [Phase.Inactive, isRunning, Role.Inactive] at isInactive

/-- Deactivating a mutator with another one behind it in the list fails the assertion on
`mut->next`. -/
theorem deactivate_not_last_fails :
    ∃ world, (system true).Reachable world ∧
      step true world (.deactivate 1) = .failed .deactivateNextNull :=
  ⟨_, System.ReachableBy.of_runBy (system true) (fun _ _ => True) (fun _ _ => id) (.initial rfl)
    [.initForThread 0, .initForThread 1] rfl, rfl⟩

end Whippet.Pcc
