import Whippet.Mmc.CollectionKind

/-!
The mutators of the mostly marking collector and how they stop (`mmc.c`).

As in the parallel copying collector, one action is one critical section under `heap->lock`, and
a waiting thread may return from its wait at any time. The world also keeps the history of
requests and collections, which the code does not read.

Owns: `add_mutator`, `remove_mutator`, `wait_for_mutators_to_stop`,
`pause_mutator_for_collection`, `trigger_collection` with
`maybe_grow_heap_instead_of_collecting`, `gc_safepoint_slow`, `deactivate_mutator`,
`reactivate_mutator`, and the parts of `collect` that stop and restart the mutators and choose the
kind. Does not own: what a collection does to the heap, and how the sizer chooses a size.
-/

namespace Whippet.Mmc

open Function
open Nofl (NOFL_BLOCK_SIZE alignUp)

/-- Where a thread is between two of its critical sections. -/
inductive Phase where
  /-- There is no such mutator. -/
  | absent
  /-- Waits on `mutator_cond` in `add_mutator`. -/
  | adding
  | running
  /-- In `trigger_collection`, past `maybe_grow_heap_instead_of_collecting`, before the lock. -/
  | requesting (requested : CollectionKind)
  /-- Waits on `mutator_cond` in `pause_mutator_for_collection`, with its `collection_kind`;
  `since` is the count of collections when it began to wait. -/
  | paused (caller : PauseCaller) (collectionKind : CollectionKind) (since : ℕ)
  /-- Waits on `collector_cond` in `wait_for_mutators_to_stop`. -/
  | stopping (requested : CollectionKind)
  /-- In `collect`, past the wait, with the lock. -/
  | collecting (kind : CollectionKind)
  | inactive
  /-- Waits on `mutator_cond` in `reactivate_mutator`. -/
  | reactivating
  deriving DecidableEq, Repr

/-- What the history of a run tells about collection requests. -/
inductive Event where
  /-- A call of `trigger_collection`. -/
  | called (mutator : Mutator) (requested : CollectionKind)
  /-- It returns, having grown the heap. -/
  | grew (mutator : Mutator)
  /-- It returns without having collected or grown the heap. -/
  | waited (mutator : Mutator)
  /-- A collection is over, and the `trigger_collection` that did it returns. -/
  | collected (mutator : Mutator) (kind : CollectionKind)
  deriving DecidableEq, Repr

/-- The mutator whose call of `trigger_collection` the event begins or ends. -/
def Event.mutator : Event → Mutator
  | called mutator _ | grew mutator | waited mutator | collected mutator _ => mutator

structure World where
  heap : Heap
  mutators : MutatorList
  /-- The thread that keeps `heap->lock` between two of its actions. -/
  lock : Option Mutator
  phase : Mutator → Phase
  /-- The events so far, the latest first. -/
  history : List Event

namespace World

def setPhase (world : World) (mutator : Mutator) (phase : Phase) : World :=
  { world with phase := update world.phase mutator phase }

def record (world : World) (event : Event) : World :=
  { world with history := event :: world.history }

end World

/-! ## The heap's counters -/

def mutatorsAreStopping (heap : Heap) : Bool := heap.collecting

def allMutatorsStopped (heap : Heap) : Prop :=
  heap.mutatorCount = heap.pausedMutatorCount + heap.inactiveMutatorCount

instance (heap : Heap) : Decidable (allMutatorsStopped heap) := by
  unfold allMutatorsStopped
  infer_instance

def requestMutatorsToStop (heap : Heap) : Outcome Assertion Heap := do
  Outcome.check (mutatorsAreStopping heap = false) .requestNotStopping
  pure { heap with collecting := true }

def allowMutatorsToContinue (heap : Heap) : Outcome Assertion Heap := do
  Outcome.check (mutatorsAreStopping heap = true) .allowStopping
  Outcome.check (allMutatorsStopped heap) .allowAllStopped
  let heap := { heap with pausedMutatorCount := sizeSub heap.pausedMutatorCount 1 }
  let heap := { heap with collecting := false }
  Outcome.check (mutatorsAreStopping heap = false) .allowNotStopping
  pure heap

/-- `resize_heap`, without what it does to the blocks. -/
def resizeHeap (heap : Heap) (newSize : ℕ) : Heap :=
  if newSize = heap.size then heap
  else if newSize < heap.size then { heap with size := newSize }
  else { heap with countAtLastGrowth := heap.count, size := newSize }

/-! ## Adding and removing mutators -/

/-- `add_mutator` past its wait. -/
def addMutatorLocked (world : World) (mutator : Mutator) : World :=
  { world.setPhase mutator .running with
    heap := { world.heap with mutatorCount := world.heap.mutatorCount + 1 }
    mutators := world.mutators.link mutator }

def addMutator (world : World) (mutator : Mutator) : World :=
  if mutatorsAreStopping world.heap then world.setPhase mutator .adding
  else addMutatorLocked world mutator

def removeMutator (world : World) (mutator : Mutator) : World :=
  let inactiveMutatorCount :=
    if (world.mutators.record mutator).active = false then
      sizeSub world.heap.inactiveMutatorCount 1
    else world.heap.inactiveMutatorCount
  { world.setPhase mutator .absent with
    heap := { world.heap with
      inactiveMutatorCount := inactiveMutatorCount
      mutatorCount := sizeSub world.heap.mutatorCount 1 }
    mutators := world.mutators.unlink mutator }

/-! ## Collections -/

/-- `collect` past `wait_for_mutators_to_stop`. -/
def collectStopped (generational : Bool) (statistics : Statistics) (world : World)
    (mutator : Mutator) (requested : CollectionKind) : Outcome Assertion World := do
  let (heap, kind) ← determineCollectionKind generational statistics world.heap requested
  pure { world.setPhase mutator (.collecting kind) with heap := heap, lock := some mutator }

/-- The loop of `wait_for_mutators_to_stop`: waits on, or leaves it. -/
def waitForMutatorsToStop (generational : Bool) (statistics : Statistics) (world : World)
    (mutator : Mutator) (requested : CollectionKind) : Outcome Assertion World :=
  if allMutatorsStopped world.heap then
    collectStopped generational statistics world mutator requested
  else pure (world.setPhase mutator (.stopping requested))

/-- `collect` up to its wait, or past it if nobody is left to wait for. -/
def collect (generational : Bool) (statistics : Statistics) (world : World) (mutator : Mutator)
    (requested : CollectionKind) : Outcome Assertion World := do
  let heap ← requestMutatorsToStop world.heap
  let heap := { heap with pausedMutatorCount := heap.pausedMutatorCount + 1 }
  waitForMutatorsToStop generational statistics { world with heap := heap } mutator requested

/-- The end of `collect`, with the sizes the sizer and `grow_heap_if_necessary` resize the heap
to, and the return of `trigger_collection` behind it. -/
def finishCollection (world : World) (mutator : Mutator) (kind : CollectionKind)
    (newSizes : List ℕ) : Outcome Assertion World := do
  let heap := { world.heap with count := world.heap.count + 1 }
  let heap ← allowMutatorsToContinue (newSizes.foldl resizeHeap heap)
  pure { (world.setPhase mutator .running).record (.collected mutator kind) with
    heap := heap, lock := none }

/-- `pause_mutator_for_collection` up to its wait. The kind is read before the wait. -/
def pauseMutatorForCollection (world : World) (mutator : Mutator) (caller : PauseCaller) :
    Outcome Assertion World := do
  Outcome.check (mutatorsAreStopping world.heap = true) .pauseStopping
  Outcome.check (¬allMutatorsStopped world.heap) .pauseNotAllStopped
  let heap := { world.heap with pausedMutatorCount := world.heap.pausedMutatorCount + 1 }
  pure { world.setPhase mutator (.paused caller heap.gcKind heap.count) with heap := heap }

/-- `trigger_collection` past its pausing loop. -/
def triggerAfterPausing (generational : Bool) (statistics : Statistics) (world : World)
    (mutator : Mutator) (prevKind : ℤ) (requested : CollectionKind) : Outcome Assertion World :=
  if prevKind < requested.toInt then
    collect generational statistics world mutator requested
  else pure ((world.setPhase mutator .running).record (.waited mutator))

/-- `maybe_grow_heap_instead_of_collecting` for an allocation, with the size that the sizer
targets. -/
def maybeGrowHeapInsteadOfCollecting (heap : Heap) (targetSize : ℕ) : Heap × Bool :=
  if heap.countAtLastGrowth ≠ heap.count ∧ targetSize > heap.size then
    (resizeHeap heap (alignUp targetSize NOFL_BLOCK_SIZE), true)
  else (heap, false)

/-- The first critical section of `trigger_collection`. `targetSize` is absent if the collection
is not for an allocation. -/
def triggerCollection (world : World) (mutator : Mutator) (requested : CollectionKind)
    (targetSize : Option ℕ) : World :=
  let called := world.record (.called mutator requested)
  match targetSize with
  | none => called.setPhase mutator (.requesting requested)
  | some targetSize =>
      let (heap, didGrow) := maybeGrowHeapInsteadOfCollecting world.heap targetSize
      if didGrow then { called.record (.grew mutator) with heap := heap }
      else { called.setPhase mutator (.requesting requested) with heap := heap }

/-- The second critical section of `trigger_collection`. -/
def triggerLocked (generational : Bool) (statistics : Statistics) (world : World)
    (mutator : Mutator) (requested : CollectionKind) : Outcome Assertion World :=
  if mutatorsAreStopping world.heap then
    pauseMutatorForCollection world mutator (.trigger requested)
  else triggerAfterPausing generational statistics world mutator (-1) requested

def gcSafepointSlow (world : World) (mutator : Mutator) : Outcome Assertion World :=
  if mutatorsAreStopping world.heap then
    pauseMutatorForCollection world mutator .safepoint
  else pure world

/-- A return from the wait of `pause_mutator_for_collection`. -/
def resumePaused (generational : Bool) (statistics : Statistics) (world : World)
    (mutator : Mutator) (caller : PauseCaller) (collectionKind : CollectionKind) :
    Outcome Assertion World :=
  if mutatorsAreStopping world.heap then pure world
  else
    let heap :=
      { world.heap with pausedMutatorCount := sizeSub world.heap.pausedMutatorCount 1 }
    let world := { world with heap := heap }
    match caller with
    | .safepoint => pure (world.setPhase mutator .running)
    | .trigger requested =>
        triggerAfterPausing generational statistics world mutator collectionKind.toInt requested

/-! ## Leaving and entering managed code -/

def deactivateMutator (world : World) (mutator : Mutator) : Outcome Assertion World := do
  Outcome.check ((world.mutators.record mutator).active = true) .deactivateActive
  Outcome.require (world.lock = none)
  let count := world.heap.inactiveMutatorCount + 1
  pure { world.setPhase mutator .inactive with
    heap := { world.heap with inactiveMutatorCount := count }
    mutators := world.mutators.setActive mutator false }

/-- `reactivate_mutator` past its wait. -/
def reactivateMutatorLocked (world : World) (mutator : Mutator) : World :=
  let count := sizeSub world.heap.inactiveMutatorCount 1
  { world.setPhase mutator .running with
    heap := { world.heap with inactiveMutatorCount := count }
    mutators := world.mutators.setActive mutator true }

def reactivateMutator (world : World) (mutator : Mutator) : Outcome Assertion World := do
  Outcome.check ((world.mutators.record mutator).active = false) .reactivateInactive
  Outcome.require (world.lock = none)
  if mutatorsAreStopping world.heap then pure (world.setPhase mutator .reactivating)
  else pure (reactivateMutatorLocked world mutator)

/-! ## Actions -/

/-- What a thread may do next. `statistics` is what `determine_collection_kind` finds, should the
action begin a collection. -/
inductive Action where
  | initForThread (mutator : Mutator)
  | finishForThread (mutator : Mutator)
  | deactivate (mutator : Mutator)
  | reactivate (mutator : Mutator)
  | safepoint (mutator : Mutator)
  | triggerCollection (mutator : Mutator) (requested : CollectionKind) (targetSize : Option ℕ)
  | triggerLocked (mutator : Mutator) (statistics : Statistics)
  /-- A return from `pthread_cond_wait`. -/
  | wake (mutator : Mutator) (statistics : Statistics)
  | finishCollection (mutator : Mutator) (newSizes : List ℕ)
  /-- `set_heap_size_from_thread`, on the background thread. -/
  | setHeapSizeFromThread (newSize : ℕ)
  deriving DecidableEq, Repr

def wake (generational : Bool) (statistics : Statistics) (world : World) (mutator : Mutator) :
    Outcome Assertion World :=
  match world.phase mutator with
  | .adding => pure (addMutator world mutator)
  | .paused caller collectionKind _ =>
      resumePaused generational statistics world mutator caller collectionKind
  | .stopping requested =>
      waitForMutatorsToStop generational statistics world mutator requested
  | .reactivating =>
      if mutatorsAreStopping world.heap then pure world
      else pure (reactivateMutatorLocked world mutator)
  | _ => .disabled

def step (generational : Bool) (world : World) : Action → Outcome Assertion World
  | .initForThread mutator => do
      Outcome.require (world.phase mutator = .absent)
      Outcome.require (world.lock = none)
      pure (addMutator world mutator)
  | .finishForThread mutator => do
      Outcome.require (world.phase mutator = .running ∨ world.phase mutator = .inactive)
      Outcome.require (world.lock = none)
      pure (removeMutator world mutator)
  | .deactivate mutator => do
      Outcome.require (world.phase mutator = .running)
      deactivateMutator world mutator
  | .reactivate mutator => do
      Outcome.require (world.phase mutator = .inactive)
      reactivateMutator world mutator
  | .safepoint mutator => do
      Outcome.require (world.phase mutator = .running)
      Outcome.require (world.lock = none)
      gcSafepointSlow world mutator
  | .triggerCollection mutator requested targetSize => do
      Outcome.require (world.phase mutator = .running)
      Outcome.require (targetSize = none ∨ world.lock = none)
      pure (triggerCollection world mutator requested targetSize)
  | .triggerLocked mutator statistics => do
      Outcome.require (world.lock = none)
      match world.phase mutator with
      | .requesting requested => triggerLocked generational statistics world mutator requested
      | _ => .disabled
  | .wake mutator statistics => do
      Outcome.require (world.lock = none)
      wake generational statistics world mutator
  | .finishCollection mutator newSizes => do
      Outcome.require (world.lock = some mutator)
      match world.phase mutator with
      | .collecting kind => finishCollection world mutator kind newSizes
      | _ => .disabled
  | .setHeapSizeFromThread newSize => do
      Outcome.require (world.lock = none)
      pure { world with heap := resizeHeap world.heap newSize }

/-- The heap of `gc_init` before its first `add_mutator`, of a given size. -/
def initialWorld (size : ℕ) : World :=
  let heap : Heap :=
    { collecting := false, gcKind := .any, size := size, count := 0, countAtLastGrowth := 0,
      mutatorCount := 0, pausedMutatorCount := 0, inactiveMutatorCount := 0,
      majorGcYieldThreshold := 0 }
  { heap :=
      { heap with
        majorGcYieldThreshold := clampMajorGcYieldThreshold heap minorGcYieldThreshold }
    mutators :=
      { head := none, record := fun _ => { next := none, prev := none, active := false } }
    lock := none
    phase := fun _ => .absent
    history := [] }

/-- The stop-the-world protocol of mmc, in a generational build or not. -/
def system (generational : Bool) : System World Action Assertion :=
  { initial := fun world => ∃ size, world = initialWorld size
    step := step generational }

end Whippet.Mmc
