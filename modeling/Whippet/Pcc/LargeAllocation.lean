import Whippet.Pcc.CopySpace
import Whippet.Pcc.StopTheWorld

/-!
Large allocations of pcc with the fixed heap-size policy (`allocate_large`).

The mutators stop and restart as in `StopTheWorld`. One action here is one atomic operation on
`bytes_to_page_out`, or one turn of a loop that pages blocks in or out, so the operations of
different threads on the debt interleave. The lock of the copy space is left out: it keeps two such
loops apart, and without it there are more interleavings. A collection counts only as far as it
takes blocks and finds out how many pages of large objects are live; both come in with the actions.

Owns: `allocate_large`, the blocks that small allocations and collections take,
`heap_reset_large_object_pages` and `resolve_pending_large_allocation_and_compute_success`. Does
not own: the nursery, whose blocks are not those of the resizable space.
-/

namespace Whippet.Pcc

open Function

def GC_LARGE_OBJECT_THRESHOLD : ℕ := 8192

/-- How far a mutator is in `allocate_large`. -/
inductive LargePhase where
  | idle
  /-- Past `copy_space_request_release_memory`. -/
  | requested (npages : ℕ)
  /-- In the loop of `copy_space_page_out_blocks_until_memory_released`. -/
  | pagingOut (npages : ℕ) (pending : ℤ)
  /-- That loop ended with a debt. -/
  | short (npages : ℕ)
  /-- In `trigger_collection`. -/
  | triggering (npages : ℕ)
  /-- `trigger_collection` returned 0. -/
  | refused (npages : ℕ)
  /-- In the loop of `copy_space_maybe_reacquire_memory`. -/
  | reacquiring (pending : ℤ)
  /-- About to return what the allocation-failure handler returns. -/
  | failing
  /-- About to count its pages and to call `large_object_space_alloc`. -/
  | granted (npages : ℕ)
  deriving DecidableEq, Repr

/-- How far the collector is in `collect`, from the stop to the restart. -/
inductive CollectionStage where
  | idle
  | tracing
  /-- In the loop of `copy_space_maybe_reacquire_memory`, for `heap_reset_large_object_pages`. -/
  | reacquiring (pending : ℤ)
  | reacquired
  /-- In the loop of `copy_space_page_out_blocks_until_memory_released`. -/
  | pagingOut (pending : ℤ)
  | resolved (deficit : ℤ)
  deriving DecidableEq, Repr

inductive LargeAssertion where
  | stopTheWorld (assertion : Assertion)
  /-- `heap_reset_large_object_pages`: `npages <= previous`. -/
  | resetPages
  | reacquire (assertion : CopySpace.ReacquireAssertion)
  deriving DecidableEq, Repr

structure LargeState where
  world : World
  /-- `heap_resizable_space`. -/
  space : CopySpace
  size : ℕ
  pageSize : ℕ
  largeObjectPages : ℕ
  large : Mutator → LargePhase
  stage : CollectionStage
  /-- Whether `bytes_to_page_out` has been at most zero since the mutator's request. Nothing in the
  code reads it. -/
  paid : Mutator → Bool

namespace LargeState

variable (state : LargeState)

def setLarge (mutator : Mutator) (phase : LargePhase) : LargeState :=
  { state with large := update state.large mutator phase }

/-- Whoever has a request under way sees the debt paid. -/
def observe : LargeState :=
  { state with
    paid := fun mutator => state.paid mutator || decide (state.space.bytesToPageOut ≤ 0) }

end LargeState

/-- A mutator in `allocate_large` does nothing else in the meantime, but it may have to wait. -/
def Action.outside (large : Mutator → LargePhase) : Action → Bool
  | .wake _ _ => true
  | .finishCollection _ => false
  | action => decide (large action.mutator = .idle)

inductive LargeAction where
  /-- What the mutators do that is not part of `allocate_large`, and returns from waits. -/
  | stopTheWorld (action : Action)
  /-- A small allocation needs a block. -/
  | acquireBlock (mutator : Mutator)
  | request (mutator : Mutator) (npages : ℕ)
  | loadPending (mutator : Mutator)
  | pageOut (mutator : Mutator)
  | trigger (mutator : Mutator) (oldSpaceHasRoom : Bool)
  | withdraw (mutator : Mutator)
  | reacquire (mutator : Mutator)
  | fail (mutator : Mutator)
  | allocate (mutator : Mutator)
  | startGc (mutator : Mutator)
  /-- The collection needs a block. -/
  | evacuate (mutator : Mutator)
  | resetLargeObjectPages (mutator : Mutator) (npages : ℕ)
  | collectorReacquire (mutator : Mutator)
  | loadDeficit (mutator : Mutator)
  | collectorPageOut (mutator : Mutator)
  | finishCollection (mutator : Mutator)
  | advancePageOutQueue
  | pageOutBlocks
  deriving DecidableEq, Repr

section Allocating

variable (state : LargeState) (mutator : Mutator)

/-- `trigger_collection` returns 1 if another mutator's collection will do. -/
def returnedFromPause (before after : Phase) (large : LargePhase) : LargePhase :=
  match large, before with
  | .triggering npages, .paused _ _ => if after = .running then .granted npages else large
  | _, _ => large

def stopTheWorldStep (generational : Bool) (action : Action) :
    Outcome LargeAssertion LargeState := do
  Outcome.require (action.outside state.large = true)
  let world ← (step generational state.world action).mapFailure .stopTheWorld
  let mutator := action.mutator
  let large := returnedFromPause (state.world.phase mutator) (world.phase mutator)
    (state.large mutator)
  pure ({ state with world := world }.setLarge mutator large)

/-- A mutator's small allocation takes a block of the resizable space only if there is no
nursery. -/
def acquireBlock (generational : Bool) : Outcome LargeAssertion LargeState := do
  Outcome.require (generational = false)
  Outcome.require (state.world.phase mutator = .running ∧ state.large mutator = .idle)
  match state.space.acquireEmptyBlock with
  | none => .disabled
  | some space => pure { state with space := space }

def requestMemory (npages : ℕ) : Outcome LargeAssertion LargeState := do
  Outcome.require (state.world.phase mutator = .running ∧ state.large mutator = .idle)
  let space := state.space.requestReleaseMemory (npages * state.pageSize)
  pure
    { state.setLarge mutator (.requested npages) with
      space := space, paid := update state.paid mutator false }

def loadPending : Outcome LargeAssertion LargeState :=
  match state.large mutator with
  | .requested npages =>
      pure (state.setLarge mutator (.pagingOut npages state.space.bytesToPageOut))
  | _ => .disabled

/-- The loop's test, and its body if it goes on. -/
def pageOut : Outcome LargeAssertion LargeState :=
  match state.large mutator with
  | .pagingOut npages pending =>
      if 0 < pending then
        match state.space.pageOutOne with
        | none => pure (state.setLarge mutator (.short npages))
        | some space =>
            pure { state.setLarge mutator (.pagingOut npages space.bytesToPageOut) with
              space := space }
      else pure (state.setLarge mutator (.granted npages))
  | _ => .disabled

def trigger (generational oldSpaceHasRoom : Bool) : Outcome LargeAssertion LargeState :=
  match state.large mutator with
  | .short npages => do
      let action := .triggerCollection mutator .compacting oldSpaceHasRoom
      let world ← (step generational state.world action).mapFailure .stopTheWorld
      pure ({ state with world := world }.setLarge mutator (.triggering npages))
  | _ => .disabled

/-- `copy_space_maybe_reacquire_memory` up to its loop. -/
def withdraw : Outcome LargeAssertion LargeState :=
  match state.large mutator with
  | .refused npages =>
      let space := state.space.addToPageOut (-(npages * state.pageSize : ℕ))
      pure { state.setLarge mutator (.reacquiring space.bytesToPageOut) with space := space }
  | _ => .disabled

def reacquire : Outcome LargeAssertion LargeState :=
  match state.large mutator with
  | .reacquiring pending =>
      if pending + COPY_SPACE_BLOCK_SIZE ≤ 0 then
        match state.space.reacquireOne with
        | none => pure (state.setLarge mutator .failing)
        | some space =>
            pure { state.setLarge mutator (.reacquiring space.bytesToPageOut) with space := space }
      else pure (state.setLarge mutator .failing)
  | _ => .disabled

def fail : Outcome LargeAssertion LargeState := do
  Outcome.require (state.large mutator = .failing)
  pure (state.setLarge mutator .idle)

def allocate : Outcome LargeAssertion LargeState :=
  match state.large mutator with
  | .granted npages =>
      pure { state.setLarge mutator .idle with largeObjectPages := state.largeObjectPages + npages }
  | _ => .disabled

end Allocating

section Collecting

variable (state : LargeState) (mutator : Mutator)

/-- The kind of the collection that the mutator is doing. -/
def collectionKind : Option CollectionKind :=
  match state.world.phase mutator with
  | .collecting kind => some kind
  | _ => none

/-- `copy_spaces_start_gc`, as far as the resizable space goes. -/
def startGc : Outcome LargeAssertion LargeState := do
  Outcome.require (state.world.lock = some mutator ∧ state.stage = .idle)
  match collectionKind state mutator with
  | none => .disabled
  | some kind =>
      let space := if kind = .minor then state.space else state.space.flip
      pure { state with space := space, stage := .tracing }

def evacuate : Outcome LargeAssertion LargeState := do
  Outcome.require (state.world.lock = some mutator ∧ state.stage = .tracing)
  match state.space.acquireEmptyBlock with
  | none => .disabled
  | some space => pure { state with space := space }

/-- The end of the collection proper, and `heap_reset_large_object_pages` up to its loop. `npages`
is `live_pages_at_last_collection`. -/
def resetLargeObjectPages (npages : ℕ) : Outcome LargeAssertion LargeState := do
  Outcome.require (state.world.lock = some mutator ∧ state.stage = .tracing)
  Outcome.check (npages ≤ state.largeObjectPages) .resetPages
  let bytes := (state.largeObjectPages - npages) * state.pageSize
  let space := state.space.finishGc.addToPageOut (-(bytes : ℕ))
  pure { state with
    space := space, largeObjectPages := npages, stage := .reacquiring space.bytesToPageOut }

def collectorReacquire : Outcome LargeAssertion LargeState := do
  Outcome.require (state.world.lock = some mutator)
  match state.stage with
  | .reacquiring pending =>
      if pending + COPY_SPACE_BLOCK_SIZE ≤ 0 then
        match state.space.reacquireOne with
        | none => .failed (.reacquire .enoughPagedOut)
        | some space =>
            pure { state with space := space, stage := .reacquiring space.bytesToPageOut }
      else pure { state with stage := .reacquired }
  | _ => .disabled

def loadDeficit : Outcome LargeAssertion LargeState := do
  Outcome.require (state.world.lock = some mutator ∧ state.stage = .reacquired)
  pure { state with stage := .pagingOut state.space.bytesToPageOut }

def collectorPageOut : Outcome LargeAssertion LargeState := do
  Outcome.require (state.world.lock = some mutator)
  match state.stage with
  | .pagingOut pending =>
      if 0 < pending then
        match state.space.pageOutOne with
        | none => pure { state with stage := .resolved pending }
        | some space =>
            pure { state with space := space, stage := .pagingOut space.bytesToPageOut }
      else pure { state with stage := .resolved pending }
  | _ => .disabled

/-- What `resolve_pending_large_allocation_and_compute_success` returns, past its loop. -/
def computeSuccess (space : CopySpace) (kind : CollectionKind) (deficit : ℤ) : Bool :=
  if kind = .minor then true
  else if deficit ≤ 0 then space.canAllocate GC_LARGE_OBJECT_THRESHOLD != 0
  else false

/-- What becomes of the large allocation that triggered the collection, if one did. -/
def returnedFromCollect (success : Bool) : LargePhase → LargePhase
  | .triggering npages => if success = true then .granted npages else .refused npages
  | large => large

def finishLargeCollection : Outcome LargeAssertion LargeState := do
  Outcome.require (state.world.lock = some mutator)
  match state.stage, collectionKind state mutator with
  | .resolved deficit, some kind => do
      let success := computeSuccess state.space kind deficit
      let world ← (finishCollection state.world mutator).mapFailure .stopTheWorld
      let large := returnedFromCollect success (state.large mutator)
      pure ({ state with world := world, stage := .idle }.setLarge mutator large)
  | _, _ => .disabled

end Collecting

def performLarge (generational : Bool) (state : LargeState) :
    LargeAction → Outcome LargeAssertion LargeState
  | .stopTheWorld action => stopTheWorldStep state generational action
  | .acquireBlock mutator => acquireBlock state mutator generational
  | .request mutator npages => requestMemory state mutator npages
  | .loadPending mutator => loadPending state mutator
  | .pageOut mutator => pageOut state mutator
  | .trigger mutator oldSpaceHasRoom => trigger state mutator generational oldSpaceHasRoom
  | .withdraw mutator => withdraw state mutator
  | .reacquire mutator => reacquire state mutator
  | .fail mutator => fail state mutator
  | .allocate mutator => allocate state mutator
  | .startGc mutator => startGc state mutator
  | .evacuate mutator => evacuate state mutator
  | .resetLargeObjectPages mutator npages => resetLargeObjectPages state mutator npages
  | .collectorReacquire mutator => collectorReacquire state mutator
  | .loadDeficit mutator => loadDeficit state mutator
  | .collectorPageOut mutator => collectorPageOut state mutator
  | .finishCollection mutator => finishLargeCollection state mutator
  | .advancePageOutQueue => pure { state with space := state.space.advancePageOutQueue }
  | .pageOutBlocks => pure { state with space := state.space.pageOutBlocks }

def largeStep (generational : Bool) (state : LargeState) (action : LargeAction) :
    Outcome LargeAssertion LargeState := do
  let after ← performLarge generational state action
  pure after.observe

/-- A heap of `size` bytes, with its resizable space at `base`. -/
def initialLargeState (generational : Bool) (size base pageSize : ℕ) : LargeState :=
  { world := initialWorld
    space := CopySpace.init size base false generational
    size := size
    pageSize := pageSize
    largeObjectPages := 0
    large := fun _ => .idle
    stage := .idle
    paid := fun _ => true }

/-- Large allocations of pcc under the fixed heap-size policy, in a generational build or not. -/
def largeSystem (generational : Bool) (size base pageSize : ℕ) :
    System LargeState LargeAction LargeAssertion :=
  { initial := fun state => state = initialLargeState generational size base pageSize
    step := largeStep generational }

end Whippet.Pcc
