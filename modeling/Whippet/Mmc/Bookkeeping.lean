import Whippet.Mmc.StopTheWorldRefinement

/-!
The stop-the-world bookkeeping of mmc.

Owns: the invariant that ties the counters and the `active` flags to the phases, and what follows
from it for whole runs: the counters are right, one thread collects at a time, and a collector
that is past its wait is alone until it lets the others continue. Does not own: which requests a
collection serves.
-/

namespace Whippet.Mmc

open Function

/-! ## The invariant -/

/-- The rendezvous is consistent, and the flags by which `remove_mutator` counts agree with the
phases. -/
structure Bookkept (world : World) : Prop where
  consistent : world.rendezvous.Consistent
  active_iff : ∀ mutator, (world.phase mutator).role.Registered →
    ((world.mutators.record mutator).active = true ↔ (world.phase mutator).role ≠ .inactive)

/-- The operation changes the phase of one active mutator to another active phase and leaves the
list of mutators alone. -/
def Continues (world result : World) (mutator : Mutator) : Prop :=
  result.mutators = world.mutators ∧
    ∃ phase, result.phase = update world.phase mutator phase ∧
      phase.role.Registered ∧ phase.role ≠ .inactive

section Continuing

variable {world result : World} {mutator : Mutator}
variable {generational : Bool} {statistics : Statistics} {requested : CollectionKind}

theorem pauseMutatorForCollection_continues {caller : PauseCaller}
    (paused : pauseMutatorForCollection world mutator caller = .next result) :
    Continues world result mutator := by
  obtain ⟨-, -, rfl⟩ := pauseMutatorForCollection_eq_next.mp paused
  exact ⟨rfl, .paused caller _ _, rfl, by simp, by simp⟩

theorem waitForMutatorsToStop_continues
    (waited : waitForMutatorsToStop generational statistics world mutator requested =
      .next result) : Continues world result mutator := by
  unfold waitForMutatorsToStop at waited
  split at waited
  · obtain ⟨kind, threshold, rfl⟩ := collectStopped_eq_next waited
    exact ⟨rfl, .collecting kind, rfl, by simp, by simp⟩
  · cases waited
    exact ⟨rfl, .stopping requested, rfl, by simp, by simp⟩

theorem triggerAfterPausing_continues {prevKind : ℤ}
    (triggered : triggerAfterPausing generational statistics world mutator prevKind requested =
      .next result) : Continues world result mutator := by
  unfold triggerAfterPausing at triggered
  split at triggered
  · simp only [collect, Outcome.bind_eq_next, requestMutatorsToStop_eq_next] at triggered
    obtain ⟨heap, ⟨-, rfl⟩, waited⟩ := triggered
    have continued := waitForMutatorsToStop_continues waited
    exact continued
  · cases triggered
    exact ⟨rfl, .running, rfl, by simp, by simp⟩

theorem triggerLocked_continues
    (triggered : triggerLocked generational statistics world mutator requested =
      .next result) : Continues world result mutator := by
  unfold triggerLocked at triggered
  split at triggered
  · exact pauseMutatorForCollection_continues triggered
  · exact triggerAfterPausing_continues triggered

theorem triggerCollection_continues {targetSize : Option ℕ}
    (was : world.phase mutator = .running) :
    Continues world (triggerCollection world mutator requested targetSize) mutator := by
  unfold triggerCollection
  dsimp only
  split
  · exact ⟨rfl, .requesting requested, rfl, by simp, by simp⟩
  · split
    · refine ⟨rfl, .running, ?_, by simp, by simp⟩
      rw [← was, update_eq_self]
      rfl
    · exact ⟨rfl, .requesting requested, rfl, by simp, by simp⟩

theorem gcSafepointSlow_continues (was : world.phase mutator = .running)
    (stepped : gcSafepointSlow world mutator = .next result) :
    Continues world result mutator := by
  unfold gcSafepointSlow at stepped
  split at stepped
  · exact pauseMutatorForCollection_continues stepped
  · cases stepped
    refine ⟨rfl, .running, ?_, by simp, by simp⟩
    rw [← was, update_eq_self]

theorem resumePaused_continues {caller : PauseCaller} {collectionKind : CollectionKind}
    (was : (world.phase mutator).role = .paused)
    (resumed : resumePaused generational statistics world mutator caller collectionKind =
      .next result) : Continues world result mutator := by
  unfold resumePaused at resumed
  dsimp only at resumed
  split at resumed
  · cases resumed
    exact ⟨rfl, world.phase mutator, (update_eq_self mutator _).symm, by simp [was],
      by simp [was]⟩
  · cases caller with
    | safepoint =>
        cases resumed
        exact ⟨rfl, .running, rfl, by simp, by simp⟩
    | trigger requested =>
        have continued := triggerAfterPausing_continues resumed
        exact continued

theorem finishCollection_continues {kind : CollectionKind} {newSizes : List ℕ}
    (finished : finishCollection world mutator kind newSizes = .next result) :
    Continues world result mutator := by
  obtain ⟨size, growth, -, -, rfl⟩ := finishCollection_eq_next finished
  exact ⟨rfl, .running, rfl, by simp, by simp⟩

end Continuing

namespace Bookkept

variable {world result : World} {mutator : Mutator}

/-- The invariant after a change of one mutator's phase, activity and links. -/
theorem change (bookkept : Bookkept world) (mutator : Mutator) (steps : Refines world result)
    (phaseOther : ∀ other, other ≠ mutator → result.phase other = world.phase other)
    (activeOther : ∀ other, other ≠ mutator →
      (result.mutators.record other).active = (world.mutators.record other).active)
    (activeSelf : (result.phase mutator).role.Registered →
      ((result.mutators.record mutator).active = true ↔
        (result.phase mutator).role ≠ .inactive)) :
    Bookkept result where
  consistent := bookkept.consistent.steps steps
  active_iff := by
    intro other registered
    by_cases same : other = mutator
    · subst same
      exact activeSelf registered
    · rw [phaseOther other same] at registered ⊢
      rw [activeOther other same]
      exact bookkept.active_iff other registered

theorem continues (bookkept : Bookkept world) (steps : Refines world result)
    (registered : (world.phase mutator).role.Registered)
    (active : (world.phase mutator).role ≠ .inactive)
    (continued : Continues world result mutator) : Bookkept result := by
  obtain ⟨mutatorsEq, phase, phaseEq, newRegistered, newActive⟩ := continued
  apply bookkept.change mutator steps
  · intro other different
    rw [phaseEq, update_of_ne different]
  · intro other _
    rw [mutatorsEq]
  · intro _
    rw [phaseEq, update_self, mutatorsEq]
    simp [newActive, (bookkept.active_iff mutator registered).mpr active]

/-- A thread that waits for a lock it does not get yet. -/
theorem setPhase (bookkept : Bookkept world) {phase : Phase}
    (sameRole : phase.role = (world.phase mutator).role) :
    Bookkept (world.setPhase mutator phase) := by
  apply bookkept.change mutator (setPhase_refines sameRole)
  · intro other different
    simp [World.setPhase, different]
  · intro other _
    rfl
  · intro registered
    simp only [World.setPhase, update_self, sameRole] at registered ⊢
    exact bookkept.active_iff mutator registered

theorem addMutator (bookkept : Bookkept world) (free : world.lock = none)
    (was : (world.phase mutator).role = .absent) : Bookkept (addMutator world mutator) := by
  have refined := addMutator_refines free was
  unfold Mmc.addMutator at refined ⊢
  split at refined
  next asked =>
    rw [if_pos asked]
    exact bookkept.setPhase was.symm
  next calm =>
    rw [if_neg calm]
    apply bookkept.change mutator refined
    · intro other different
      simp [addMutatorLocked, World.setPhase, different]
    · intro other different
      simp [addMutatorLocked, different]
    · simp [addMutatorLocked, World.setPhase]

/-- Whether the removed mutator was active decides which counters change. -/
theorem removeMutator (bookkept : Bookkept world) (free : world.lock = none)
    (was : world.phase mutator = .running ∨ world.phase mutator = .inactive) :
    Bookkept (removeMutator world mutator) := by
  have refined : Refines world (Mmc.removeMutator world mutator) := by
    rcases was with isRunning | isInactive
    · have active := (bookkept.active_iff mutator (by simp [isRunning])).mpr (by simp [isRunning])
      exact removeMutator_active_refines bookkept.consistent free (by simp [isRunning]) active
    · have inactive : (world.mutators.record mutator).active = false := by
        simpa [isInactive] using bookkept.active_iff mutator (by simp [isInactive])
      exact removeMutator_inactive_refines bookkept.consistent free (by simp [isInactive])
        inactive
  apply bookkept.change mutator refined
  · intro other different
    simp [Mmc.removeMutator, World.setPhase, different]
  · intro other different
    simp [Mmc.removeMutator, different]
  · simp [Mmc.removeMutator, World.setPhase]

theorem deactivateMutator (bookkept : Bookkept world)
    (was : (world.phase mutator).role = .running)
    (deactivated : deactivateMutator world mutator = .next result) : Bookkept result := by
  have refined := deactivateMutator_refines was deactivated
  obtain ⟨-, free, rfl⟩ := deactivateMutator_eq_next.mp deactivated
  apply bookkept.change mutator refined
  · intro other different
    simp [World.setPhase, different]
  · intro other different
    simp [different]
  · simp [World.setPhase]

theorem reactivateMutatorLocked (bookkept : Bookkept world) (free : world.lock = none)
    (calm : world.heap.collecting = false) (was : (world.phase mutator).role = .inactive) :
    Bookkept (reactivateMutatorLocked world mutator) := by
  apply bookkept.change mutator
    (reactivateMutatorLocked_refines bookkept.consistent free calm was)
  · intro other different
    simp [Mmc.reactivateMutatorLocked, World.setPhase, different]
  · intro other different
    simp [Mmc.reactivateMutatorLocked, different]
  · simp [Mmc.reactivateMutatorLocked, World.setPhase]

end Bookkept

/-! ## Runs -/

section Run

variable {generational : Bool} {world result : World}

theorem wake_bookkept {statistics : Statistics} {mutator : Mutator} (bookkept : Bookkept world)
    (free : world.lock = none)
    (woken : wake generational statistics world mutator = .next result) : Bookkept result := by
  unfold wake at woken
  split at woken
  next was =>
    cases woken
    exact bookkept.addMutator free (by simp [was])
  next caller collectionKind since was =>
    have isPaused : (world.phase mutator).role = .paused := by simp [was]
    have refined := resumePaused_refines bookkept.consistent free isPaused woken
    exact bookkept.continues refined (by simp [was]) (by simp [was])
      (resumePaused_continues isPaused woken)
  next requested was =>
    exact bookkept.continues (waitForMutatorsToStop_refines free (by simp [was]) woken)
      (by simp [was]) (by simp [was]) (waitForMutatorsToStop_continues woken)
  next was =>
    split at woken
    · cases woken
      exact bookkept
    next notStopping =>
      cases woken
      have calm : world.heap.collecting = false := by
        simpa [mutatorsAreStopping] using notStopping
      exact bookkept.reactivateMutatorLocked free calm (by simp [was])
  next => cases woken

/-- Every action keeps the invariant. -/
theorem step_bookkept {action : Action} (bookkept : Bookkept world)
    (stepped : step generational world action = .next result) : Bookkept result := by
  cases action with
  | initForThread mutator =>
      simp only [step, Outcome.require_bind_eq_next] at stepped
      obtain ⟨was, free, equal⟩ := stepped
      cases equal
      exact bookkept.addMutator free (by simp [was])
  | finishForThread mutator =>
      simp only [step, Outcome.require_bind_eq_next] at stepped
      obtain ⟨was, free, equal⟩ := stepped
      cases equal
      exact bookkept.removeMutator free was
  | deactivate mutator =>
      simp only [step, Outcome.require_bind_eq_next] at stepped
      exact bookkept.deactivateMutator (by simp [stepped.1]) stepped.2
  | reactivate mutator =>
      simp only [step, reactivateMutator, Outcome.require_bind_eq_next,
        Outcome.check_bind_eq_next] at stepped
      obtain ⟨was, -, free, reactivated⟩ := stepped
      split at reactivated
      · cases reactivated
        exact bookkept.setPhase (by simp [was])
      next notStopping =>
        cases reactivated
        have calm : world.heap.collecting = false := by
          simpa [mutatorsAreStopping] using notStopping
        exact bookkept.reactivateMutatorLocked free calm (by simp [was])
  | safepoint mutator =>
      simp only [step, Outcome.require_bind_eq_next] at stepped
      obtain ⟨was, free, stopped⟩ := stepped
      have refined := gcSafepointSlow_refines free (by simp [was]) stopped
      exact bookkept.continues refined (by simp [was]) (by simp [was])
        (gcSafepointSlow_continues was stopped)
  | triggerCollection mutator requested targetSize =>
      simp only [step, Outcome.require_bind_eq_next] at stepped
      obtain ⟨was, -, equal⟩ := stepped
      cases equal
      exact bookkept.continues (triggerCollection_refines (by simp [was])) (by simp [was])
        (by simp [was]) (triggerCollection_continues was)
  | triggerLocked mutator statistics =>
      simp only [step, Outcome.require_bind_eq_next] at stepped
      obtain ⟨free, triggered⟩ := stepped
      split at triggered
      next requested was =>
        exact bookkept.continues (triggerLocked_refines free (by simp [was]) triggered)
          (by simp [was]) (by simp [was]) (triggerLocked_continues triggered)
      next => cases triggered
  | wake mutator statistics =>
      simp only [step, Outcome.require_bind_eq_next] at stepped
      exact wake_bookkept bookkept stepped.1 stepped.2
  | finishCollection mutator newSizes =>
      simp only [step, Outcome.require_bind_eq_next] at stepped
      obtain ⟨held, finished⟩ := stepped
      split at finished
      next kind was =>
        have refined := finishCollection_refines bookkept.consistent held finished
        exact bookkept.continues refined (by simp [was]) (by simp [was])
          (finishCollection_continues finished)
      next => cases finished
  | setHeapSizeFromThread newSize =>
      simp only [step, Outcome.require_bind_eq_next] at stepped
      obtain ⟨-, equal⟩ := stepped
      cases equal
      obtain ⟨size, growth, resized⟩ := resizeHeap_eq world.heap newSize
      rw [resized]
      exact ⟨bookkept.consistent.steps (resize_refines size growth), bookkept.active_iff⟩

theorem initialWorld_bookkept (size : ℕ) : Bookkept (initialWorld size) where
  consistent := Rendezvous.consistent_empty
  active_iff := by
    intro mutator registered
    simp [initialWorld] at registered

theorem reachable_bookkept (reached : (system generational).Reachable world) :
    Bookkept world := by
  apply reached.invariant
  · rintro state ⟨size, rfl⟩
    exact initialWorld_bookkept size
  · intro before action after bookkept _ stepped
    exact step_bookkept bookkept stepped

end Run

/-! ## The bookkeeping of whole runs -/

/-- A registered mutator: `add_mutator` is past its wait, and `remove_mutator` has not run. -/
def Phase.Registered (phase : Phase) : Prop := phase.role.Registered

/-- A mutator paused for a collection, its collector included. -/
def Phase.Paused (phase : Phase) : Prop := phase.role.Paused

def Phase.Inactive (phase : Phase) : Prop := phase.role.Inactive

/-- In `collect`, waiting for the others or past the wait. -/
def Phase.Collects (phase : Phase) : Prop := phase.role.Collector

/-- The heap's counters are the numbers of registered, paused and inactive mutators. -/
structure CountersExact (world : World) : Prop where
  mutatorCount_eq : world.heap.mutatorCount = population world.phase Phase.Registered
  pausedMutatorCount_eq : world.heap.pausedMutatorCount = population world.phase Phase.Paused
  inactiveMutatorCount_eq :
    world.heap.inactiveMutatorCount = population world.phase Phase.Inactive

def SingleCollector (world : World) : Prop :=
  ∀ left right, (world.phase left).Collects → (world.phase right).Collects → left = right

/-- Past the wait of a collector, every other registered mutator is paused or inactive. -/
def CollectorAlone (world : World) : Prop :=
  ∀ mutator kind, world.phase mutator = .collecting kind →
    ∀ other, other ≠ mutator → (world.phase other).Registered →
      (world.phase other).Paused ∨ (world.phase other).Inactive

/-- Past the wait of a collector, what happens next is that it lets the mutators continue, and no
other mutator moves before that. -/
def CollectorUndisturbed (generational : Bool) (world : World) : Prop :=
  ∀ mutator kind, world.phase mutator = .collecting kind →
    ∀ action result, step generational world action = .next result →
      (∃ newSizes, action = .finishCollection mutator newSizes) ∧
        ∀ other, other ≠ mutator → result.phase other = world.phase other

namespace Bookkept

variable {world : World}

theorem countersExact (bookkept : Bookkept world) : CountersExact world where
  mutatorCount_eq := bookkept.consistent.registered_eq
  pausedMutatorCount_eq := bookkept.consistent.paused_eq
  inactiveMutatorCount_eq := bookkept.consistent.inactive_eq

theorem singleCollector (bookkept : Bookkept world) : SingleCollector world :=
  bookkept.consistent.unique

theorem collectorAlone (bookkept : Bookkept world) : CollectorAlone world := by
  intro mutator kind isCollecting other different registered
  have was : world.rendezvous.role mutator = .collecting := by
    simp [World.rendezvous, isCollecting]
  rcases bookkept.consistent.stopped_beside was different registered with
    isPaused | isInactive
  · exact Or.inl (Or.inl isPaused)
  · exact Or.inr isInactive

/-- Beside a collector past its wait there is no thread in a running phase. -/
theorem not_running_beside (bookkept : Bookkept world) {mutator other : Mutator}
    {kind : CollectionKind} (isCollecting : world.phase mutator = .collecting kind) :
    world.phase other ≠ .running := by
  intro isRunning
  have was : world.rendezvous.role mutator = .collecting := by
    simp [World.rendezvous, isCollecting]
  by_cases same : other = mutator
  · subst same
    rw [isCollecting] at isRunning
    cases isRunning
  · apply bookkept.consistent.quiet mutator other was same
    simp [World.rendezvous, isRunning]

/-- The lock keeps every thread but the collector out, and those that need no lock would have to
run. -/
theorem collectorUndisturbed (bookkept : Bookkept world) (generational : Bool) :
    CollectorUndisturbed generational world := by
  intro mutator kind isCollecting action result stepped
  have held : world.lock = some mutator :=
    (bookkept.consistent.lock_iff mutator).mpr (by simp [World.rendezvous, isCollecting])
  have taken : world.lock ≠ none := by simp [held]
  cases action with
  | finishCollection collector newSizes =>
      simp only [step, Outcome.require_bind_eq_next] at stepped
      obtain ⟨heldBy, finished⟩ := stepped
      have same : collector = mutator := by
        rw [held] at heldBy
        exact (Option.some.inj heldBy).symm
      subst same
      refine ⟨⟨newSizes, rfl⟩, ?_⟩
      intro other different
      rw [isCollecting] at finished
      obtain ⟨-, phase, phaseEq, -, -⟩ := finishCollection_continues finished
      rw [phaseEq, update_of_ne different]
  | initForThread other =>
      simp only [step, Outcome.require_bind_eq_next] at stepped
      exact absurd stepped.2.1 taken
  | finishForThread other =>
      simp only [step, Outcome.require_bind_eq_next] at stepped
      exact absurd stepped.2.1 taken
  | deactivate other =>
      simp only [step, Outcome.require_bind_eq_next] at stepped
      exact absurd stepped.1 (bookkept.not_running_beside isCollecting)
  | reactivate other =>
      simp only [step, reactivateMutator, Outcome.require_bind_eq_next,
        Outcome.check_bind_eq_next] at stepped
      exact absurd stepped.2.2.1 taken
  | safepoint other =>
      simp only [step, Outcome.require_bind_eq_next] at stepped
      exact absurd stepped.2.1 taken
  | triggerCollection other requested targetSize =>
      simp only [step, Outcome.require_bind_eq_next] at stepped
      exact absurd stepped.1 (bookkept.not_running_beside isCollecting)
  | triggerLocked other statistics =>
      simp only [step, Outcome.require_bind_eq_next] at stepped
      exact absurd stepped.1 taken
  | wake other statistics =>
      simp only [step, Outcome.require_bind_eq_next] at stepped
      exact absurd stepped.1 taken
  | setHeapSizeFromThread newSize =>
      simp only [step, Outcome.require_bind_eq_next] at stepped
      exact absurd stepped.1 taken

end Bookkept

/-- In every run the counters are exact, one thread collects at a time, and past its wait a
collector is alone and stays so until it lets the mutators continue. -/
theorem stop_the_world_safety (generational : Bool) (world : World)
    (reached : (system generational).Reachable world) :
    CountersExact world ∧ SingleCollector world ∧ CollectorAlone world ∧
      CollectorUndisturbed generational world := by
  have bookkept := reachable_bookkept reached
  exact ⟨bookkept.countersExact, bookkept.singleCollector, bookkept.collectorAlone,
    bookkept.collectorUndisturbed generational⟩

/-- One mutator collects while a second one is paused and a third one, deactivated, has been
removed. -/
theorem stop_the_world_safety_paused :
    ∃ world, world.phase 0 = .collecting .major ∧ world.phase 2 = .absent ∧
      CountersExact world ∧ SingleCollector world ∧ CollectorAlone world ∧
      CollectorUndisturbed true world :=
  ⟨_, rfl, rfl, stop_the_world_safety true _
    (System.ReachableBy.of_runBy (system true) (fun _ _ => True) (fun _ _ => id)
      (.initial ⟨0, rfl⟩)
      [.initForThread 0, .initForThread 1, .initForThread 2, .deactivate 2,
        .triggerCollection 0 .minor none, .triggerLocked 0 ⟨0, 0, 0, false⟩, .safepoint 1,
        .finishForThread 2, .wake 0 ⟨0, 0, 0, false⟩] rfl)⟩

end Whippet.Mmc
