import Whippet.Library.Rendezvous
import Whippet.Mmc.StopTheWorld

/-!
The mutators of mmc as a rendezvous.

Every operation of `StopTheWorld` is a sequence of rendezvous steps. A mutator that is between
`trigger_collection` and the lock still runs.

Owns: the abstraction map, what the checked operations do when they go on, and the refinement of
each operation. Does not own: whole runs.
-/

namespace Whippet.Mmc

open Function Relation

/-! ## Abstraction -/

/-- The role a phase plays in the rendezvous. -/
def Phase.role : Phase → Role
  | .absent | .adding => .absent
  | .running | .requesting _ => .running
  | .paused _ _ _ => .paused
  | .stopping _ => .stopping
  | .collecting _ => .collecting
  | .inactive | .reactivating => .inactive

section Roles

variable (caller : PauseCaller) (kind : CollectionKind) (since : ℕ)

@[simp] theorem role_absent : Phase.absent.role = .absent := rfl
@[simp] theorem role_adding : Phase.adding.role = .absent := rfl
@[simp] theorem role_running : Phase.running.role = .running := rfl
@[simp] theorem role_requesting : (Phase.requesting kind).role = .running := rfl
@[simp] theorem role_paused : (Phase.paused caller kind since).role = .paused := rfl
@[simp] theorem role_stopping : (Phase.stopping kind).role = .stopping := rfl
@[simp] theorem role_collecting : (Phase.collecting kind).role = .collecting := rfl
@[simp] theorem role_inactive : Phase.inactive.role = .inactive := rfl
@[simp] theorem role_reactivating : Phase.reactivating.role = .inactive := rfl

end Roles

/-- The rendezvous that the heap's counters and the threads' phases describe. -/
def World.rendezvous (world : World) : Rendezvous Mutator :=
  { role := fun mutator => (world.phase mutator).role
    stopRequested := world.heap.collecting
    lock := world.lock
    registered := world.heap.mutatorCount
    paused := world.heap.pausedMutatorCount
    inactive := world.heap.inactiveMutatorCount }

theorem role_update (phase : Mutator → Phase) (mutator : Mutator) (new : Phase) :
    (fun other => (update phase mutator new other).role) =
      update (fun other => (phase other).role) mutator new.role := by
  funext other
  by_cases same : other = mutator
  · subst same
    simp
  · simp [same]

theorem role_update_same {phase : Mutator → Phase} {mutator : Mutator} {new : Phase}
    (sameRole : new.role = (phase mutator).role) :
    (fun other => (update phase mutator new other).role) =
      fun other => (phase other).role := by
  rw [role_update, sameRole]
  exact update_eq_self mutator _

/-! ## What the checked operations do -/

theorem requestMutatorsToStop_eq_next {heap after : Heap} :
    requestMutatorsToStop heap = .next after ↔
      heap.collecting = false ∧ { heap with collecting := true } = after := by
  simp only [requestMutatorsToStop, Outcome.check_bind_eq_next, Outcome.pure_eq_next,
    Outcome.next.injEq]
  rfl

theorem allowMutatorsToContinue_eq_next {heap after : Heap} :
    allowMutatorsToContinue heap = .next after ↔
      heap.collecting = true ∧ allMutatorsStopped heap ∧
        { heap with collecting := false
                    pausedMutatorCount := sizeSub heap.pausedMutatorCount 1 } = after := by
  simp only [allowMutatorsToContinue, Outcome.check_bind_eq_next, Outcome.pure_eq_next,
    Outcome.next.injEq]
  simp only [mutatorsAreStopping, true_and]

theorem pauseMutatorForCollection_eq_next {world result : World} {mutator : Mutator}
    {caller : PauseCaller} :
    pauseMutatorForCollection world mutator caller = .next result ↔
      world.heap.collecting = true ∧ ¬allMutatorsStopped world.heap ∧
        { world.setPhase mutator (.paused caller world.heap.gcKind world.heap.count) with
          heap := { world.heap with
            pausedMutatorCount := world.heap.pausedMutatorCount + 1 } } = result := by
  simp only [pauseMutatorForCollection, Outcome.check_bind_eq_next, Outcome.pure_eq_next,
    Outcome.next.injEq]
  rfl

/-- Resizing the heap changes its size and the record of its growth. -/
theorem resizeHeap_eq (heap : Heap) (newSize : ℕ) :
    ∃ size growth, resizeHeap heap newSize =
      { heap with size := size, countAtLastGrowth := growth } := by
  unfold resizeHeap
  split_ifs
  · exact ⟨heap.size, heap.countAtLastGrowth, rfl⟩
  · exact ⟨newSize, heap.countAtLastGrowth, rfl⟩
  · exact ⟨newSize, heap.count, rfl⟩

theorem foldl_resizeHeap_eq (heap : Heap) (newSizes : List ℕ) :
    ∃ size growth, newSizes.foldl resizeHeap heap =
      { heap with size := size, countAtLastGrowth := growth } := by
  induction newSizes generalizing heap with
  | nil => exact ⟨heap.size, heap.countAtLastGrowth, rfl⟩
  | cons newSize newSizes inductionHypothesis =>
      obtain ⟨size, growth, resized⟩ := resizeHeap_eq heap newSize
      rw [List.foldl_cons, resized]
      exact inductionHypothesis _

theorem maybeGrowHeapInsteadOfCollecting_eq (heap : Heap) (targetSize : ℕ) :
    ∃ size growth, (maybeGrowHeapInsteadOfCollecting heap targetSize).1 =
      { heap with size := size, countAtLastGrowth := growth } := by
  unfold maybeGrowHeapInsteadOfCollecting
  split_ifs
  · exact resizeHeap_eq heap _
  · exact ⟨heap.size, heap.countAtLastGrowth, rfl⟩

theorem finishCollection_eq_next {world result : World} {mutator : Mutator}
    {kind : CollectionKind} {newSizes : List ℕ}
    (finished : finishCollection world mutator kind newSizes = .next result) :
    ∃ size growth, world.heap.collecting = true ∧ allMutatorsStopped world.heap ∧
      { (world.setPhase mutator .running).record (.collected mutator kind) with
        heap := { world.heap with
          count := world.heap.count + 1, size := size, countAtLastGrowth := growth
          collecting := false
          pausedMutatorCount := sizeSub world.heap.pausedMutatorCount 1 }
        lock := none } = result := by
  obtain ⟨size, growth, resized⟩ :=
    foldl_resizeHeap_eq { world.heap with count := world.heap.count + 1 } newSizes
  simp only [finishCollection, resized, Outcome.bind_eq_next, allowMutatorsToContinue_eq_next,
    Outcome.pure_eq_next, Outcome.next.injEq] at finished
  obtain ⟨heap, ⟨asked, stopped, rfl⟩, equal⟩ := finished
  exact ⟨size, growth, asked, stopped, equal⟩

/-! ## The operations as rendezvous steps -/

abbrev Refines (world result : World) : Prop :=
  ReflTransGen Rendezvous.Step world.rendezvous result.rendezvous

section Steps

variable {world result : World} {mutator : Mutator}
variable {generational : Bool} {statistics : Statistics} {requested : CollectionKind}

theorem setPhase_refines {phase : Phase} (sameRole : phase.role = (world.phase mutator).role) :
    Refines world (world.setPhase mutator phase) := by
  have unchanged : (world.setPhase mutator phase).rendezvous = world.rendezvous := by
    simp [World.rendezvous, World.setPhase, role_update_same sameRole]
  rw [Refines, unchanged]

/-- The size of the heap and the record of its growth play no part in the rendezvous. -/
theorem resize_refines (size growth : ℕ) :
    Refines world
      { world with heap := { world.heap with size := size, countAtLastGrowth := growth } } :=
  ReflTransGen.refl

theorem addMutatorLocked_refines (free : world.lock = none)
    (calm : world.heap.collecting = false) (was : (world.phase mutator).role = .absent) :
    Refines world (addMutatorLocked world mutator) := by
  have joined : Rendezvous.Step world.rendezvous _ := .join mutator free calm was
  apply ReflTransGen.single
  simpa [World.rendezvous, addMutatorLocked, World.setPhase, Rendezvous.setRole, role_update]
    using joined

theorem addMutator_refines (free : world.lock = none)
    (was : (world.phase mutator).role = .absent) :
    Refines world (addMutator world mutator) := by
  unfold addMutator
  split
  next => exact setPhase_refines was.symm
  next notStopping =>
    have calm : world.heap.collecting = false := by
      simpa [mutatorsAreStopping] using notStopping
    exact addMutatorLocked_refines free calm was

theorem removeMutator_active_refines (consistent : world.rendezvous.Consistent)
    (free : world.lock = none) (was : (world.phase mutator).role = .running)
    (active : (world.mutators.record mutator).active = true) :
    Refines world (removeMutator world mutator) := by
  have positive : 0 < world.heap.mutatorCount :=
    consistent.registered_pos mutator (by simp [World.rendezvous, was])
  have left : Rendezvous.Step world.rendezvous _ := .leave mutator free was
  apply ReflTransGen.single
  simpa [World.rendezvous, removeMutator, World.setPhase, Rendezvous.setRole, role_update,
    sizeSub_of_le positive, active] using left

theorem removeMutator_inactive_refines (consistent : world.rendezvous.Consistent)
    (free : world.lock = none) (was : (world.phase mutator).role = .inactive)
    (inactive : (world.mutators.record mutator).active = false) :
    Refines world (removeMutator world mutator) := by
  have registered : 0 < world.heap.mutatorCount :=
    consistent.registered_pos mutator (by simp [World.rendezvous, was])
  have positive : 0 < world.heap.inactiveMutatorCount :=
    consistent.inactive_pos mutator (by simp [World.rendezvous, was, Role.Inactive])
  have left : Rendezvous.Step world.rendezvous _ := .leaveInactive mutator free was
  apply ReflTransGen.single
  simpa [World.rendezvous, removeMutator, World.setPhase, Rendezvous.setRole, role_update,
    sizeSub_of_le registered, sizeSub_of_le positive, inactive] using left

theorem deactivateMutator_eq_next :
    deactivateMutator world mutator = .next result ↔
      (world.mutators.record mutator).active = true ∧ world.lock = none ∧
        { world.setPhase mutator .inactive with
          heap := { world.heap with
            inactiveMutatorCount := world.heap.inactiveMutatorCount + 1 }
          mutators := world.mutators.setActive mutator false } = result := by
  simp only [deactivateMutator, Outcome.require_bind_eq_next, Outcome.check_bind_eq_next,
    Outcome.pure_eq_next, Outcome.next.injEq]

theorem deactivateMutator_refines (was : (world.phase mutator).role = .running)
    (deactivated : deactivateMutator world mutator = .next result) : Refines world result := by
  obtain ⟨-, free, rfl⟩ := deactivateMutator_eq_next.mp deactivated
  have step : Rendezvous.Step world.rendezvous _ := .deactivate mutator free was
  apply ReflTransGen.single
  simpa [World.rendezvous, World.setPhase, Rendezvous.setRole, role_update] using step

theorem reactivateMutatorLocked_refines (consistent : world.rendezvous.Consistent)
    (free : world.lock = none) (calm : world.heap.collecting = false)
    (was : (world.phase mutator).role = .inactive) :
    Refines world (reactivateMutatorLocked world mutator) := by
  have positive : 0 < world.heap.inactiveMutatorCount :=
    consistent.inactive_pos mutator (by simp [World.rendezvous, was, Role.Inactive])
  have step : Rendezvous.Step world.rendezvous _ := .reactivate mutator free calm was
  apply ReflTransGen.single
  simpa [World.rendezvous, reactivateMutatorLocked, World.setPhase, Rendezvous.setRole,
    role_update, sizeSub_of_le positive] using step

theorem pauseMutatorForCollection_refines {caller : PauseCaller} (free : world.lock = none)
    (was : (world.phase mutator).role = .running)
    (paused : pauseMutatorForCollection world mutator caller = .next result) :
    Refines world result := by
  obtain ⟨asked, -, rfl⟩ := pauseMutatorForCollection_eq_next.mp paused
  have step : Rendezvous.Step world.rendezvous _ := .pause mutator free asked was
  apply ReflTransGen.single
  simpa [World.rendezvous, World.setPhase, Rendezvous.setRole, role_update] using step

theorem collectStopped_eq_next
    (collected : collectStopped generational statistics world mutator requested =
      .next result) :
    ∃ kind threshold,
      { world.setPhase mutator (.collecting kind) with
        heap := { world.heap with gcKind := kind, majorGcYieldThreshold := threshold }
        lock := some mutator } = result := by
  simp only [collectStopped, Outcome.bind_eq_next, Outcome.pure_eq_next,
    Outcome.next.injEq] at collected
  obtain ⟨⟨heap, kind⟩, determined, equal⟩ := collected
  have heapEq := determineCollectionKind_eq_next determined
  dsimp only at equal
  rw [heapEq] at equal
  exact ⟨kind, heap.majorGcYieldThreshold, equal⟩

/-- Leaving the wait of the asking thread is the step to working alone. -/
theorem waitForMutatorsToStop_refines (free : world.lock = none)
    (was : (world.phase mutator).role = .stopping)
    (waited : waitForMutatorsToStop generational statistics world mutator requested =
      .next result) : Refines world result := by
  unfold waitForMutatorsToStop at waited
  split at waited
  next stopped =>
    obtain ⟨kind, threshold, rfl⟩ := collectStopped_eq_next waited
    have step : Rendezvous.Step world.rendezvous _ := .proceed mutator free was stopped
    apply ReflTransGen.single
    simpa [World.rendezvous, World.setPhase, Rendezvous.setRole, role_update] using step
  next =>
    cases waited
    exact setPhase_refines was.symm

/-- Setting the phase before a wait that sets it anyway makes no difference. -/
theorem waitForMutatorsToStop_setPhase (phase : Phase) :
    waitForMutatorsToStop generational statistics (world.setPhase mutator phase) mutator
        requested =
      waitForMutatorsToStop generational statistics world mutator requested := by
  simp [waitForMutatorsToStop, collectStopped, World.setPhase]

/-- `collect` asks the others to stop, and may find that they already have. -/
theorem collect_refines (free : world.lock = none) (was : (world.phase mutator).role = .running)
    (collected : collect generational statistics world mutator requested = .next result) :
    Refines world result := by
  simp only [collect, Outcome.bind_eq_next, requestMutatorsToStop_eq_next] at collected
  obtain ⟨heap, ⟨calm, rfl⟩, waited⟩ := collected
  let heap :=
    { world.heap with collecting := true,
                      pausedMutatorCount := world.heap.pausedMutatorCount + 1 }
  let asking : World := { world with heap := heap }
  have asked : Rendezvous.Step world.rendezvous
      (asking.setPhase mutator (.stopping requested)).rendezvous := by
    have step : Rendezvous.Step world.rendezvous _ := .request mutator free calm was
    simpa [World.rendezvous, asking, heap, World.setPhase, Rendezvous.setRole, role_update]
      using step
  have waited : waitForMutatorsToStop generational statistics
      (asking.setPhase mutator (.stopping requested)) mutator requested = .next result :=
    (waitForMutatorsToStop_setPhase _).trans waited
  have isStopping :
      ((asking.setPhase mutator (.stopping requested)).phase mutator).role = .stopping := by
    simp [World.setPhase]
  exact ReflTransGen.head asked (waitForMutatorsToStop_refines free isStopping waited)

theorem triggerAfterPausing_refines {prevKind : ℤ} (free : world.lock = none)
    (was : (world.phase mutator).role = .running)
    (triggered : triggerAfterPausing generational statistics world mutator prevKind requested =
      .next result) : Refines world result := by
  unfold triggerAfterPausing at triggered
  split at triggered
  · exact collect_refines free was triggered
  · cases triggered
    exact setPhase_refines was.symm

/-- Setting the phase before an operation that sets it anyway makes no difference. -/
theorem triggerAfterPausing_setPhase {prevKind : ℤ} (phase : Phase) :
    triggerAfterPausing generational statistics (world.setPhase mutator phase) mutator prevKind
        requested =
      triggerAfterPausing generational statistics world mutator prevKind requested := by
  simp [triggerAfterPausing, collect, waitForMutatorsToStop, collectStopped, World.setPhase,
    World.record]

theorem triggerLocked_refines (free : world.lock = none)
    (was : (world.phase mutator).role = .running)
    (triggered : triggerLocked generational statistics world mutator requested =
      .next result) : Refines world result := by
  unfold triggerLocked at triggered
  split at triggered
  · exact pauseMutatorForCollection_refines free was triggered
  · exact triggerAfterPausing_refines free was triggered

/-- Up to the lock, the mutator runs on. -/
theorem triggerCollection_refines {targetSize : Option ℕ}
    (was : (world.phase mutator).role = .running) :
    Refines world (triggerCollection world mutator requested targetSize) := by
  unfold triggerCollection
  dsimp only
  split
  next => exact setPhase_refines was.symm
  next targetSize =>
    obtain ⟨size, growth, grown⟩ := maybeGrowHeapInsteadOfCollecting_eq world.heap targetSize
    rw [grown]
    split
    · exact resize_refines size growth
    · apply ReflTransGen.trans (resize_refines size growth)
      exact setPhase_refines was.symm

theorem gcSafepointSlow_refines (free : world.lock = none)
    (was : (world.phase mutator).role = .running)
    (stepped : gcSafepointSlow world mutator = .next result) : Refines world result := by
  unfold gcSafepointSlow at stepped
  split at stepped
  next => exact pauseMutatorForCollection_refines free was stepped
  next =>
    cases stepped
    exact ReflTransGen.refl

/-- The paused mutator that finds the stop over counts itself out, before anything else. -/
private theorem countedOut_refines (consistent : world.rendezvous.Consistent)
    (free : world.lock = none) (calm : world.heap.collecting = false)
    (was : (world.phase mutator).role = .paused) :
    Refines world
      { world.setPhase mutator .running with
        heap := { world.heap with
          pausedMutatorCount := sizeSub world.heap.pausedMutatorCount 1 } } := by
  have positive : 0 < world.heap.pausedMutatorCount :=
    consistent.paused_pos mutator (by simp [World.rendezvous, was, Role.Paused])
  have step : Rendezvous.Step world.rendezvous _ := .resume mutator free calm was
  apply ReflTransGen.single
  simpa [World.rendezvous, World.setPhase, Rendezvous.setRole, role_update,
    sizeSub_of_le positive] using step

theorem resumePaused_refines {caller : PauseCaller} {collectionKind : CollectionKind}
    (consistent : world.rendezvous.Consistent) (free : world.lock = none)
    (was : (world.phase mutator).role = .paused)
    (resumed : resumePaused generational statistics world mutator caller collectionKind =
      .next result) : Refines world result := by
  unfold resumePaused at resumed
  dsimp only at resumed
  split at resumed
  · cases resumed
    exact ReflTransGen.refl
  next notStopping =>
    have calm : world.heap.collecting = false := by
      simpa [mutatorsAreStopping] using notStopping
    have counted := countedOut_refines consistent free calm was
    cases caller with
    | safepoint =>
        cases resumed
        exact counted
    | trigger requested =>
        exact counted.trans (triggerAfterPausing_refines free (by simp [World.setPhase])
          ((triggerAfterPausing_setPhase .running).trans resumed))

theorem finishCollection_refines {kind : CollectionKind} {newSizes : List ℕ}
    (consistent : world.rendezvous.Consistent) (held : world.lock = some mutator)
    (finished : finishCollection world mutator kind newSizes = .next result) :
    Refines world result := by
  obtain ⟨size, growth, -, -, rfl⟩ := finishCollection_eq_next finished
  have was : (world.phase mutator).role = .collecting := (consistent.lock_iff mutator).mp held
  have positive : 0 < world.heap.pausedMutatorCount :=
    consistent.paused_pos mutator (by simp [World.rendezvous, was, Role.Paused])
  have step : Rendezvous.Step world.rendezvous _ := .finish mutator was
  apply ReflTransGen.single
  simpa [World.rendezvous, World.setPhase, World.record, Rendezvous.setRole, role_update,
    sizeSub_of_le positive] using step

end Steps

end Whippet.Mmc
