import Whippet.Library.Rendezvous
import Whippet.Pcc.StopTheWorld

/-!
The mutators of pcc as a rendezvous.

The heap's counters and the threads' phases describe a state of the rendezvous, and every
operation of `StopTheWorld` is a sequence of rendezvous steps, but for the removal of an inactive
mutator.

Owns: the abstraction map, what the checked operations do when they go on, and the refinement of
each operation. Does not own: whole runs.
-/

namespace Whippet.Pcc

open Function Relation

/-! ## Abstraction -/

/-- The role a phase plays in the rendezvous. -/
def Phase.role : Phase → Role
  | .absent | .adding => .absent
  | .running | .deactivating => .running
  | .paused _ _ => .paused
  | .stopping _ => .stopping
  | .collecting _ => .collecting
  | .inactive | .reactivating => .inactive

section Roles

variable (caller : PauseCaller) (kind : CollectionKind)

@[simp] theorem role_absent : Phase.absent.role = .absent := rfl
@[simp] theorem role_adding : Phase.adding.role = .absent := rfl
@[simp] theorem role_running : Phase.running.role = .running := rfl
@[simp] theorem role_paused : (Phase.paused caller kind).role = .paused := rfl
@[simp] theorem role_stopping : (Phase.stopping kind).role = .stopping := rfl
@[simp] theorem role_collecting : (Phase.collecting kind).role = .collecting := rfl
@[simp] theorem role_deactivating : Phase.deactivating.role = .running := rfl
@[simp] theorem role_inactive : Phase.inactive.role = .inactive := rfl
@[simp] theorem role_reactivating : Phase.reactivating.role = .inactive := rfl

end Roles

/-- The rendezvous that the heap's counters and the threads' phases describe. -/
def World.rendezvous (world : World) : Rendezvous Mutator :=
  { role := fun mutator => (world.phase mutator).role
    stopRequested := world.heap.collecting
    lock := world.lock
    registered := world.heap.mutatorCount
    paused := world.heap.pausedMutatorCount
    inactive := world.heap.inactiveMutatorCount }

theorem role_update (phase : Mutator → Phase) (mutator : Mutator) (new : Phase) :
    (fun other => (update phase mutator new other).role) =
      update (fun other => (phase other).role) mutator new.role := by
  funext other
  by_cases same : other = mutator
  · subst same
    simp
  · simp [same]

theorem role_update_same {phase : Mutator → Phase} {mutator : Mutator} {new : Phase}
    (sameRole : new.role = (phase mutator).role) :
    (fun other => (update phase mutator new other).role) =
      fun other => (phase other).role := by
  rw [role_update, sameRole]
  exact update_eq_self mutator _

section MaybeIncrease

variable (heap : Heap)

@[simp] theorem maybeIncrease_collecting :
    (maybeIncreaseMaxActiveMutatorCount heap).collecting = heap.collecting := by
  unfold maybeIncreaseMaxActiveMutatorCount
  dsimp only
  split <;> rfl

@[simp] theorem maybeIncrease_isMinorCollection :
    (maybeIncreaseMaxActiveMutatorCount heap).isMinorCollection = heap.isMinorCollection := by
  unfold maybeIncreaseMaxActiveMutatorCount
  dsimp only
  split <;> rfl

@[simp] theorem maybeIncrease_mutatorCount :
    (maybeIncreaseMaxActiveMutatorCount heap).mutatorCount = heap.mutatorCount := by
  unfold maybeIncreaseMaxActiveMutatorCount
  dsimp only
  split <;> rfl

@[simp] theorem maybeIncrease_pausedMutatorCount :
    (maybeIncreaseMaxActiveMutatorCount heap).pausedMutatorCount = heap.pausedMutatorCount := by
  unfold maybeIncreaseMaxActiveMutatorCount
  dsimp only
  split <;> rfl

@[simp] theorem maybeIncrease_inactiveMutatorCount :
    (maybeIncreaseMaxActiveMutatorCount heap).inactiveMutatorCount =
      heap.inactiveMutatorCount := by
  unfold maybeIncreaseMaxActiveMutatorCount
  dsimp only
  split <;> rfl

theorem maxActive_le_maybeIncrease :
    heap.maxActiveMutatorCount ≤
      (maybeIncreaseMaxActiveMutatorCount heap).maxActiveMutatorCount := by
  unfold maybeIncreaseMaxActiveMutatorCount
  dsimp only
  split <;> (try simp only) <;> omega

/-- With an active mutator, the raised maximum is positive. -/
theorem maxActive_maybeIncrease_pos {heap : Heap}
    (active : heap.inactiveMutatorCount < heap.mutatorCount) :
    0 < (maybeIncreaseMaxActiveMutatorCount heap).maxActiveMutatorCount := by
  unfold maybeIncreaseMaxActiveMutatorCount
  dsimp only
  rw [sizeSub_of_le (Nat.le_of_lt active)]
  split <;> (try simp only) <;> omega

end MaybeIncrease

/-! ## What the checked operations do -/

theorem requestMutatorsToStop_eq_next {heap result : Heap} :
    requestMutatorsToStop heap = .next result ↔
      heap.collecting = false ∧ { heap with collecting := true } = result := by
  simp only [requestMutatorsToStop, Outcome.check_bind_eq_next, Outcome.pure_eq_next,
    Outcome.next.injEq]
  rfl

theorem collect_eq_next {generational oldSpaceHasRoom : Bool} {world result : World}
    {mutator : Mutator} {requested : CollectionKind} :
    collect generational oldSpaceHasRoom world mutator requested = .next result ↔
      world.heap.collecting = false ∧
        waitForMutatorsToStop generational oldSpaceHasRoom
          { world with heap :=
              { world.heap with collecting := true,
                                pausedMutatorCount := world.heap.pausedMutatorCount + 1 } }
          mutator requested = result := by
  simp [collect, Outcome.bind_eq_next, requestMutatorsToStop_eq_next]

theorem resizeForActiveMutatorCount_eq_next {heap result : Heap} :
    resizeForActiveMutatorCount heap = .next result ↔
      heap.maxActiveMutatorCount ≠ 0 ∧
        maybeIncreaseMaxActiveMutatorCount { heap with maxActiveMutatorCount := 1 } = result := by
  simp only [resizeForActiveMutatorCount, Outcome.check_bind_eq_next, Outcome.pure_eq_next,
    Outcome.next.injEq]

theorem allowMutatorsToContinue_eq_next {heap result : Heap} :
    allowMutatorsToContinue heap = .next result ↔
      heap.collecting = true ∧ allMutatorsStopped heap ∧
        { heap with collecting := false
                    pausedMutatorCount := sizeSub heap.pausedMutatorCount 1 } = result := by
  simp only [allowMutatorsToContinue, Outcome.check_bind_eq_next, Outcome.pure_eq_next,
    Outcome.next.injEq]
  simp only [mutatorsAreStopping, true_and]

theorem finishCollection_eq_next {world result : World} {mutator : Mutator} :
    finishCollection world mutator = .next result ↔
      world.heap.maxActiveMutatorCount ≠ 0 ∧ world.heap.collecting = true ∧
        allMutatorsStopped world.heap ∧
        { world.setPhase mutator .running with
          heap :=
            { maybeIncreaseMaxActiveMutatorCount
                { world.heap with count := world.heap.count + 1, maxActiveMutatorCount := 1 } with
              collecting := false
              pausedMutatorCount := sizeSub world.heap.pausedMutatorCount 1 }
          lock := none } = result := by
  simp [finishCollection, Outcome.bind_eq_next, resizeForActiveMutatorCount_eq_next,
    allowMutatorsToContinue_eq_next, allMutatorsStopped, and_assoc]

/-! ## The operations as rendezvous steps -/

section Steps

variable {world result : World} {mutator : Mutator}

abbrev Refines (world result : World) : Prop :=
  ReflTransGen Rendezvous.Step world.rendezvous result.rendezvous

theorem addMutatorLocked_refines (free : world.lock = none)
    (calm : world.heap.collecting = false) (was : (world.phase mutator).role = .absent) :
    Refines world (addMutatorLocked world mutator) := by
  have joined : Rendezvous.Step world.rendezvous _ := .join mutator free calm was
  refine ReflTransGen.single ?_
  simpa [World.rendezvous, addMutatorLocked, World.setPhase, Rendezvous.setRole, role_update] using
    joined

/-- Only an active mutator leaves the counters right: `inactive_mutator_count` is not touched. -/
theorem removeMutator_refines (consistent : world.rendezvous.Consistent)
    (free : world.lock = none) (was : (world.phase mutator).role = .running) :
    Refines world (removeMutator world mutator) := by
  have positive : 0 < world.heap.mutatorCount :=
    consistent.registered_pos mutator (by simp [World.rendezvous, was])
  have left : Rendezvous.Step world.rendezvous _ := .leave mutator free was
  refine ReflTransGen.single ?_
  simpa [World.rendezvous, removeMutator, World.setPhase, Rendezvous.setRole, role_update,
    sizeSub_of_le positive] using left

theorem deactivateMutatorLocked_refines (free : world.lock = none)
    (was : (world.phase mutator).role = .running) :
    Refines world (deactivateMutatorLocked world mutator) := by
  have deactivated : Rendezvous.Step world.rendezvous _ := .deactivate mutator free was
  refine ReflTransGen.single ?_
  simpa [World.rendezvous, deactivateMutatorLocked, World.setPhase, Rendezvous.setRole,
    role_update] using deactivated

theorem reactivateMutatorLocked_refines (consistent : world.rendezvous.Consistent)
    (free : world.lock = none) (calm : world.heap.collecting = false)
    (was : (world.phase mutator).role = .inactive) :
    Refines world (reactivateMutatorLocked world mutator) := by
  have positive : 0 < world.heap.inactiveMutatorCount :=
    consistent.inactive_pos mutator (by simp [World.rendezvous, was, Role.Inactive])
  have reactivated : Rendezvous.Step world.rendezvous _ := .reactivate mutator free calm was
  refine ReflTransGen.single ?_
  simpa [World.rendezvous, reactivateMutatorLocked, World.setPhase, Rendezvous.setRole,
    role_update, sizeSub_of_le positive] using reactivated

theorem setPhase_refines {phase : Phase} (sameRole : phase.role = (world.phase mutator).role) :
    Refines world (world.setPhase mutator phase) := by
  have unchanged : (world.setPhase mutator phase).rendezvous = world.rendezvous := by
    simp [World.rendezvous, World.setPhase, role_update_same sameRole]
  rw [Refines, unchanged]

theorem pauseMutatorForCollection_refines {caller : PauseCaller} (free : world.lock = none)
    (asked : world.heap.collecting = true) (was : (world.phase mutator).role = .running)
    (paused : pauseMutatorForCollection world mutator caller = .next result) :
    Refines world result := by
  simp only [pauseMutatorForCollection, Outcome.check_bind_eq_next] at paused
  obtain ⟨-, -, equal⟩ := paused
  cases equal
  have step : Rendezvous.Step world.rendezvous _ := .pause mutator free asked was
  refine ReflTransGen.single ?_
  simpa [World.rendezvous, World.setPhase, Rendezvous.setRole, role_update] using step

/-- Leaving the wait of the asking thread is the step to working alone. -/
theorem waitForMutatorsToStop_refines {generational oldSpaceHasRoom : Bool}
    {requested : CollectionKind} (free : world.lock = none)
    (was : (world.phase mutator).role = .stopping) :
    Refines world
      (waitForMutatorsToStop generational oldSpaceHasRoom world mutator requested) := by
  unfold waitForMutatorsToStop
  split
  next stopped =>
    have step : Rendezvous.Step world.rendezvous _ := .proceed mutator free was stopped
    refine ReflTransGen.single ?_
    simpa [World.rendezvous, collectStopped, World.setPhase, Rendezvous.setRole, role_update]
      using step
  next => exact setPhase_refines was.symm

/-- `collect` asks the others to stop, and may find that they already have. -/
theorem collect_refines {generational oldSpaceHasRoom : Bool} {requested : CollectionKind}
    (free : world.lock = none) (was : (world.phase mutator).role = .running)
    (collected : collect generational oldSpaceHasRoom world mutator requested = .next result) :
    Refines world result := by
  obtain ⟨calm, rfl⟩ := collect_eq_next.mp collected
  let heap :=
    { world.heap with collecting := true,
                      pausedMutatorCount := world.heap.pausedMutatorCount + 1 }
  let asking : World := { world.setPhase mutator (.stopping requested) with heap := heap }
  have asked : Rendezvous.Step world.rendezvous asking.rendezvous := by
    have step : Rendezvous.Step world.rendezvous _ := .request mutator free calm was
    simpa [World.rendezvous, asking, heap, World.setPhase, Rendezvous.setRole, role_update]
      using step
  have waited : Refines asking
      (waitForMutatorsToStop generational oldSpaceHasRoom asking mutator requested) :=
    waitForMutatorsToStop_refines free (by simp [asking, World.setPhase])
  have same : waitForMutatorsToStop generational oldSpaceHasRoom asking mutator requested =
      waitForMutatorsToStop generational oldSpaceHasRoom { world with heap := heap } mutator
        requested := by
    simp [waitForMutatorsToStop, collectStopped, asking, World.setPhase]
  rw [same] at waited
  exact ReflTransGen.head asked waited

theorem finishCollection_refines (consistent : world.rendezvous.Consistent)
    (held : world.lock = some mutator)
    (finished : finishCollection world mutator = .next result) : Refines world result := by
  obtain ⟨-, -, -, rfl⟩ := finishCollection_eq_next.mp finished
  have was : (world.phase mutator).role = .collecting := (consistent.lock_iff mutator).mp held
  have positive : 0 < world.heap.pausedMutatorCount :=
    consistent.paused_pos mutator (by simp [World.rendezvous, was, Role.Paused])
  have step : Rendezvous.Step world.rendezvous _ := .finish mutator was
  refine ReflTransGen.single ?_
  simpa [World.rendezvous, World.setPhase, Rendezvous.setRole, role_update,
    sizeSub_of_le positive] using step

theorem triggerAfterPausing_refines {generational oldSpaceHasRoom : Bool} {prevKind : ℤ}
    {requested : CollectionKind} (free : world.lock = none)
    (was : (world.phase mutator).role = .running)
    (triggered : triggerAfterPausing generational oldSpaceHasRoom world mutator prevKind
      requested = .next result) : Refines world result := by
  unfold triggerAfterPausing at triggered
  split at triggered
  · exact collect_refines free was triggered
  · cases triggered
    exact setPhase_refines was.symm

theorem triggerCollection_refines {generational oldSpaceHasRoom : Bool}
    {requested : CollectionKind} (free : world.lock = none)
    (was : (world.phase mutator).role = .running)
    (triggered : triggerCollection generational oldSpaceHasRoom world mutator requested =
      .next result) : Refines world result := by
  unfold triggerCollection at triggered
  split at triggered
  next asked => exact pauseMutatorForCollection_refines free asked was triggered
  next => exact triggerAfterPausing_refines free was triggered

theorem gcSafepointSlow_refines (free : world.lock = none)
    (was : (world.phase mutator).role = .running)
    (stepped : gcSafepointSlow world mutator = .next result) : Refines world result := by
  unfold gcSafepointSlow at stepped
  split at stepped
  next asked => exact pauseMutatorForCollection_refines free asked was stepped
  next =>
    cases stepped
    exact ReflTransGen.refl

/-- The paused mutator that finds the stop over counts itself out, before anything else. -/
private theorem resumed_refines (consistent : world.rendezvous.Consistent)
    (free : world.lock = none) (calm : world.heap.collecting = false)
    (was : (world.phase mutator).role = .paused) :
    Refines world
      { world.setPhase mutator .running with
        heap := { world.heap with
          pausedMutatorCount := sizeSub world.heap.pausedMutatorCount 1 } } := by
  have positive : 0 < world.heap.pausedMutatorCount :=
    consistent.paused_pos mutator (by simp [World.rendezvous, was, Role.Paused])
  have step : Rendezvous.Step world.rendezvous _ := .resume mutator free calm was
  refine ReflTransGen.single ?_
  simpa [World.rendezvous, World.setPhase, Rendezvous.setRole, role_update,
    sizeSub_of_le positive] using step

/-- Setting the phase before an operation that sets it anyway makes no difference. -/
private theorem triggerAfterPausing_setPhase {generational oldSpaceHasRoom : Bool}
    {prevKind : ℤ} {requested : CollectionKind} (mutator : Mutator) (phase : Phase) :
    triggerAfterPausing generational oldSpaceHasRoom (world.setPhase mutator phase) mutator
        prevKind requested =
      triggerAfterPausing generational oldSpaceHasRoom world mutator prevKind requested := by
  simp [triggerAfterPausing, collect, waitForMutatorsToStop, collectStopped, World.setPhase]

theorem resumePaused_refines {generational oldSpaceHasRoom : Bool} {caller : PauseCaller}
    {collectionKind : CollectionKind} (consistent : world.rendezvous.Consistent)
    (free : world.lock = none) (was : (world.phase mutator).role = .paused)
    (resumed : resumePaused generational oldSpaceHasRoom world mutator caller collectionKind =
      .next result) : Refines world result := by
  unfold resumePaused at resumed
  dsimp only at resumed
  split at resumed
  · cases resumed
    exact setPhase_refines was.symm
  next notStopping =>
    have calm : world.heap.collecting = false := by
      simpa [mutatorsAreStopping] using notStopping
    have counted := resumed_refines consistent free calm was
    cases caller with
    | safepoint =>
        cases resumed
        exact counted
    | trigger requested =>
        exact counted.trans (triggerAfterPausing_refines free (by simp [World.setPhase])
          ((triggerAfterPausing_setPhase mutator .running).trans resumed))

theorem addMutator_refines (free : world.lock = none)
    (was : (world.phase mutator).role = .absent) :
    Refines world (addMutator world mutator) := by
  unfold addMutator
  split
  next => exact setPhase_refines was.symm
  next notStopping =>
    have calm : world.heap.collecting = false := by
      simpa [mutatorsAreStopping] using notStopping
    exact addMutatorLocked_refines free calm was

end Steps

end Whippet.Pcc
