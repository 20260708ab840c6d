import Whippet.Library.Checked
import Whippet.Types

/-!
The mutators of the parallel copying collector and how they stop (`pcc.c`).

One action is one critical section under `heap->lock`, from `heap_lock` or from a return of
`pthread_cond_wait` up to the next wait or `heap_unlock`; a thread that collects keeps the lock
from the end of its wait to the end of the collection. Signals carry no state, so a waiting
thread may return from its wait at any time, woken or spuriously, and tests its condition again.

Owns: `add_mutator`, `remove_mutator`, `wait_for_mutators_to_stop`,
`pause_mutator_for_collection`, `trigger_collection`, `gc_safepoint_slow`, `deactivate_mutator`,
`reactivate_mutator`, and the parts of `collect` that stop and restart the mutators. Does not own:
what a collection does to the heap.
-/

namespace Whippet.Pcc

open Function

/-- The assertions of these operations, by function and condition. -/
inductive Assertion where
  /-- `request_mutators_to_stop`: `!mutators_are_stopping(heap)`. -/
  | requestNotStopping
  /-- `allow_mutators_to_continue`: `mutators_are_stopping(heap)`. -/
  | allowStopping
  /-- `allow_mutators_to_continue`: `all_mutators_stopped(heap)`. -/
  | allowAllStopped
  /-- `allow_mutators_to_continue`: `!mutators_are_stopping(heap)`, after the store. -/
  | allowNotStopping
  /-- `pause_mutator_for_collection`: `mutators_are_stopping(heap)`. -/
  | pauseStopping
  /-- `pause_mutator_for_collection`: `!all_mutators_stopped(heap)`. -/
  | pauseNotAllStopped
  /-- `resize_for_active_mutator_count`: `mutators`. -/
  | resizeMutators
  /-- `gc_deactivate`, `deactivate_mutator`: `mut->active`. -/
  | deactivateActive
  /-- `deactivate_mutator`: `mut->next == NULL`. -/
  | deactivateNextNull
  /-- `gc_reactivate`, `reactivate_mutator`: `!mut->active`. -/
  | reactivateInactive
  deriving DecidableEq, Repr

/-- The fields of `struct gc_heap` that these operations read and write. -/
structure Heap where
  collecting : Bool
  isMinorCollection : Bool
  maxActiveMutatorCount : ℕ
  mutatorCount : ℕ
  pausedMutatorCount : ℕ
  inactiveMutatorCount : ℕ
  count : ℕ
  deriving DecidableEq, Repr

/-- Where a thread is between two of its critical sections. -/
inductive Phase where
  /-- There is no such mutator. -/
  | absent
  /-- Waits on `mutator_cond` in `add_mutator`. -/
  | adding
  | running
  /-- Waits on `mutator_cond` in `pause_mutator_for_collection`, with its `collection_kind`. -/
  | paused (caller : PauseCaller) (collectionKind : CollectionKind)
  /-- Waits on `collector_cond` in `wait_for_mutators_to_stop`. -/
  | stopping (requested : CollectionKind)
  /-- In `collect`, past the wait, with the lock. -/
  | collecting (kind : CollectionKind)
  /-- In `deactivate_mutator`, past the assertions, before the lock. -/
  | deactivating
  | inactive
  /-- Waits on `mutator_cond` in `reactivate_mutator`. -/
  | reactivating
  deriving DecidableEq, Repr

structure World where
  heap : Heap
  mutators : MutatorList
  /-- The thread that keeps `heap->lock` between two of its actions. -/
  lock : Option Mutator
  phase : Mutator → Phase

namespace World

def setPhase (world : World) (mutator : Mutator) (phase : Phase) : World :=
  { world with phase := update world.phase mutator phase }

end World

/-! ## The heap's counters -/

def mutatorsAreStopping (heap : Heap) : Bool := heap.collecting

def allMutatorsStopped (heap : Heap) : Prop :=
  heap.mutatorCount = heap.pausedMutatorCount + heap.inactiveMutatorCount

instance (heap : Heap) : Decidable (allMutatorsStopped heap) := by
  unfold allMutatorsStopped
  infer_instance

def maybeIncreaseMaxActiveMutatorCount (heap : Heap) : Heap :=
  let activeMutators := sizeSub heap.mutatorCount heap.inactiveMutatorCount
  if heap.maxActiveMutatorCount < activeMutators then
    { heap with maxActiveMutatorCount := activeMutators }
  else heap

/-- The counters' part of `resize_for_active_mutator_count`. -/
def resizeForActiveMutatorCount (heap : Heap) : Outcome Assertion Heap := do
  Outcome.check (heap.maxActiveMutatorCount ≠ 0) .resizeMutators
  pure (maybeIncreaseMaxActiveMutatorCount { heap with maxActiveMutatorCount := 1 })

def requestMutatorsToStop (heap : Heap) : Outcome Assertion Heap := do
  Outcome.check (mutatorsAreStopping heap = false) .requestNotStopping
  pure { heap with collecting := true }

def allowMutatorsToContinue (heap : Heap) : Outcome Assertion Heap := do
  Outcome.check (mutatorsAreStopping heap = true) .allowStopping
  Outcome.check (allMutatorsStopped heap) .allowAllStopped
  let heap := { heap with pausedMutatorCount := sizeSub heap.pausedMutatorCount 1 }
  let heap := { heap with collecting := false }
  Outcome.check (mutatorsAreStopping heap = false) .allowNotStopping
  pure heap

/-! ## Adding and removing mutators -/

/-- `add_mutator` past its wait. -/
def addMutatorLocked (world : World) (mutator : Mutator) : World :=
  let heap := { world.heap with mutatorCount := world.heap.mutatorCount + 1 }
  { world.setPhase mutator .running with
    heap := maybeIncreaseMaxActiveMutatorCount heap
    mutators := world.mutators.link mutator }

def addMutator (world : World) (mutator : Mutator) : World :=
  if mutatorsAreStopping world.heap then world.setPhase mutator .adding
  else addMutatorLocked world mutator

/-- `inactive_mutator_count` is left as it is, also when the mutator is inactive. -/
def removeMutator (world : World) (mutator : Mutator) : World :=
  { world.setPhase mutator .absent with
    heap := { world.heap with mutatorCount := sizeSub world.heap.mutatorCount 1 }
    mutators := world.mutators.unlink mutator }

/-! ## Collections -/

/-- `heap_can_minor_gc`, given whether the old space can take a nursery's worth of bytes. -/
def heapCanMinorGc (generational oldSpaceHasRoom : Bool) : Bool :=
  generational && oldSpaceHasRoom

def determineCollectionKind (generational oldSpaceHasRoom : Bool)
    (requested : CollectionKind) : CollectionKind :=
  if requested = .minor ∧ heapCanMinorGc generational oldSpaceHasRoom = true then .minor
  else .compacting

/-- `collect` past `wait_for_mutators_to_stop`. -/
def collectStopped (generational oldSpaceHasRoom : Bool) (world : World) (mutator : Mutator)
    (requested : CollectionKind) : World :=
  let kind := determineCollectionKind generational oldSpaceHasRoom requested
  { world.setPhase mutator (.collecting kind) with
    heap := { world.heap with isMinorCollection := generational && decide (kind = .minor) }
    lock := some mutator }

/-- The loop of `wait_for_mutators_to_stop`: waits on, or leaves it. -/
def waitForMutatorsToStop (generational oldSpaceHasRoom : Bool) (world : World)
    (mutator : Mutator) (requested : CollectionKind) : World :=
  if allMutatorsStopped world.heap then
    collectStopped generational oldSpaceHasRoom world mutator requested
  else world.setPhase mutator (.stopping requested)

/-- `collect` up to its wait, or past it if nobody is left to wait for. -/
def collect (generational oldSpaceHasRoom : Bool) (world : World) (mutator : Mutator)
    (requested : CollectionKind) : Outcome Assertion World := do
  let heap ← requestMutatorsToStop world.heap
  let heap := { heap with pausedMutatorCount := heap.pausedMutatorCount + 1 }
  pure (waitForMutatorsToStop generational oldSpaceHasRoom { world with heap := heap } mutator
    requested)

/-- The end of `collect`, and the `heap_unlock` of `trigger_collection` behind it. -/
def finishCollection (world : World) (mutator : Mutator) : Outcome Assertion World := do
  let heap := { world.heap with count := world.heap.count + 1 }
  let heap ← resizeForActiveMutatorCount heap
  let heap ← allowMutatorsToContinue heap
  pure { world.setPhase mutator .running with heap := heap, lock := none }

/-- `pause_mutator_for_collection` up to its wait. -/
def pauseMutatorForCollection (world : World) (mutator : Mutator) (caller : PauseCaller) :
    Outcome Assertion World := do
  Outcome.check (mutatorsAreStopping world.heap = true) .pauseStopping
  Outcome.check (¬allMutatorsStopped world.heap) .pauseNotAllStopped
  let heap := { world.heap with pausedMutatorCount := world.heap.pausedMutatorCount + 1 }
  pure { world.setPhase mutator (.paused caller .minor) with heap := heap }

/-- `trigger_collection` past its pausing loop. -/
def triggerAfterPausing (generational oldSpaceHasRoom : Bool) (world : World) (mutator : Mutator)
    (prevKind : ℤ) (requested : CollectionKind) : Outcome Assertion World :=
  if prevKind < requested.toInt then
    collect generational oldSpaceHasRoom world mutator requested
  else pure (world.setPhase mutator .running)

def triggerCollection (generational oldSpaceHasRoom : Bool) (world : World) (mutator : Mutator)
    (requested : CollectionKind) : Outcome Assertion World :=
  if mutatorsAreStopping world.heap then
    pauseMutatorForCollection world mutator (.trigger requested)
  else triggerAfterPausing generational oldSpaceHasRoom world mutator (-1) requested

def gcSafepointSlow (world : World) (mutator : Mutator) : Outcome Assertion World :=
  if mutatorsAreStopping world.heap then
    pauseMutatorForCollection world mutator .safepoint
  else pure world

/-- A return from the wait of `pause_mutator_for_collection`: the kind is read before the stop
flag is tested again. -/
def resumePaused (generational oldSpaceHasRoom : Bool) (world : World) (mutator : Mutator)
    (caller : PauseCaller) (collectionKind : CollectionKind) : Outcome Assertion World :=
  let kind :=
    if generational = false ∨ world.heap.isMinorCollection = false then .compacting
    else collectionKind
  if mutatorsAreStopping world.heap then pure (world.setPhase mutator (.paused caller kind))
  else
    let heap :=
      { world.heap with pausedMutatorCount := sizeSub world.heap.pausedMutatorCount 1 }
    let world := { world with heap := heap }
    match caller with
    | .safepoint => pure (world.setPhase mutator .running)
    | .trigger requested =>
        triggerAfterPausing generational oldSpaceHasRoom world mutator kind.toInt requested

/-! ## Leaving and entering managed code -/

/-- `gc_deactivate` up to the lock. -/
def deactivateMutator (world : World) (mutator : Mutator) : Outcome Assertion World := do
  Outcome.check ((world.mutators.record mutator).active = true) .deactivateActive
  Outcome.check ((world.mutators.record mutator).next = none) .deactivateNextNull
  pure (world.setPhase mutator .deactivating)

def deactivateMutatorLocked (world : World) (mutator : Mutator) : World :=
  let count := world.heap.inactiveMutatorCount + 1
  { world.setPhase mutator .inactive with
    heap := { world.heap with inactiveMutatorCount := count }
    mutators := world.mutators.setActive mutator false }

/-- `reactivate_mutator` past its wait. -/
def reactivateMutatorLocked (world : World) (mutator : Mutator) : World :=
  let count := sizeSub world.heap.inactiveMutatorCount 1
  { world.setPhase mutator .running with
    heap := maybeIncreaseMaxActiveMutatorCount { world.heap with inactiveMutatorCount := count }
    mutators := world.mutators.setActive mutator true }

def reactivateMutator (world : World) (mutator : Mutator) : Outcome Assertion World := do
  Outcome.check ((world.mutators.record mutator).active = false) .reactivateInactive
  Outcome.require (world.lock = none)
  if mutatorsAreStopping world.heap then pure (world.setPhase mutator .reactivating)
  else pure (reactivateMutatorLocked world mutator)

/-! ## Actions -/

/-- What a thread may do next. `oldSpaceHasRoom` is what `heap_can_minor_gc` finds, should the
action begin a collection. -/
inductive Action where
  | initForThread (mutator : Mutator)
  | finishForThread (mutator : Mutator)
  | deactivate (mutator : Mutator)
  | deactivateLocked (mutator : Mutator)
  | reactivate (mutator : Mutator)
  | safepoint (mutator : Mutator)
  | triggerCollection (mutator : Mutator) (requested : CollectionKind) (oldSpaceHasRoom : Bool)
  /-- A return from `pthread_cond_wait`. -/
  | wake (mutator : Mutator) (oldSpaceHasRoom : Bool)
  | finishCollection (mutator : Mutator)
  deriving DecidableEq, Repr

/-- The mutator whose action it is. -/
def Action.mutator : Action → Mutator
  | .initForThread mutator | .finishForThread mutator | .deactivate mutator
  | .deactivateLocked mutator | .reactivate mutator | .safepoint mutator
  | .triggerCollection mutator _ _ | .wake mutator _ | .finishCollection mutator => mutator

def wake (generational oldSpaceHasRoom : Bool) (world : World) (mutator : Mutator) :
    Outcome Assertion World :=
  match world.phase mutator with
  | .adding => pure (addMutator world mutator)
  | .paused caller collectionKind =>
      resumePaused generational oldSpaceHasRoom world mutator caller collectionKind
  | .stopping requested =>
      pure (waitForMutatorsToStop generational oldSpaceHasRoom world mutator requested)
  | .reactivating =>
      if mutatorsAreStopping world.heap then pure world
      else pure (reactivateMutatorLocked world mutator)
  | _ => .disabled

def step (generational : Bool) (world : World) : Action → Outcome Assertion World
  | .initForThread mutator => do
      Outcome.require (world.phase mutator = .absent)
      Outcome.require (world.lock = none)
      pure (addMutator world mutator)
  | .finishForThread mutator => do
      Outcome.require (world.phase mutator = .running ∨ world.phase mutator = .inactive)
      Outcome.require (world.lock = none)
      pure (removeMutator world mutator)
  | .deactivate mutator => do
      Outcome.require (world.phase mutator = .running)
      deactivateMutator world mutator
  | .deactivateLocked mutator => do
      Outcome.require (world.phase mutator = .deactivating)
      Outcome.require (world.lock = none)
      pure (deactivateMutatorLocked world mutator)
  | .reactivate mutator => do
      Outcome.require (world.phase mutator = .inactive)
      reactivateMutator world mutator
  | .safepoint mutator => do
      Outcome.require (world.phase mutator = .running)
      Outcome.require (world.lock = none)
      gcSafepointSlow world mutator
  | .triggerCollection mutator requested oldSpaceHasRoom => do
      Outcome.require (world.phase mutator = .running)
      Outcome.require (world.lock = none)
      triggerCollection generational oldSpaceHasRoom world mutator requested
  | .wake mutator oldSpaceHasRoom => do
      Outcome.require (world.lock = none)
      wake generational oldSpaceHasRoom world mutator
  | .finishCollection mutator => do
      Outcome.require (world.lock = some mutator)
      finishCollection world mutator

/-- The heap of `gc_init` before its first `add_mutator`. -/
def initialWorld : World :=
  { heap :=
      { collecting := false, isMinorCollection := false, maxActiveMutatorCount := 1,
        mutatorCount := 0, pausedMutatorCount := 0, inactiveMutatorCount := 0, count := 0 }
    mutators :=
      { head := none, record := fun _ => { next := none, prev := none, active := false } }
    lock := none
    phase := fun _ => .absent }

/-- The stop-the-world protocol of pcc, in a generational build or not. -/
def system (generational : Bool) : System World Action Assertion :=
  { initial := fun world => world = initialWorld
    step := step generational }

end Whippet.Pcc
