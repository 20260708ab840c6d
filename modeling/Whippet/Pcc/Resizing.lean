import Whippet.Pcc.CopySpaceBudget

/-!
How the spaces of pcc change their sizes (`pcc.c`).

One action is one of the operations that change the size of a space, as a whole: a large
allocation's request or withdrawal, a decision of the heap sizer, a step of a collection, or a
background task. Operations of different threads come one after the other here.

Owns: `resize_heap`, `resize_nursery`, `heap_reset_large_object_pages`,
`resolve_pending_large_allocation_and_compute_success`, and the order in which `collect` calls them.
Does not own: the stop of the mutators, and what a collection copies. How many blocks it takes comes
in with the actions.
-/

namespace Whippet.Pcc

open Nofl (alignUp)

/-- The callers of `copy_space_reacquire_memory`. -/
inductive ReacquireCaller where
  | expand
  | heapResetLargeObjectPages
  | resizeNursery
  deriving DecidableEq, Repr

inductive ResizeAssertion where
  /-- `copy_space_reacquire_memory`: `pending + COPY_SPACE_BLOCK_SIZE > 0`. -/
  | reacquire (caller : ReacquireCaller)
  /-- `heap_reset_large_object_pages`: `npages <= previous`. -/
  | resetPages
  /-- `heap_set_nursery_size`: `size`. -/
  | nurserySize
  deriving DecidableEq, Repr

/-- Where the heap is between two operations. -/
inductive ResizeStage where
  | mutating
  | tracing (isMinor : Bool)
  | nurseryResized (isMinor : Bool)
  | pagesReset (isMinor : Bool)
  | sized (isMinor : Bool)
  deriving DecidableEq, Repr

structure SizedHeap where
  generational : Bool
  /-- `heap->sizer.policy == GC_HEAP_SIZE_FIXED`. -/
  fixedSize : Bool
  size : ℕ
  /-- `heap_resizable_space`. -/
  resizable : CopySpace
  /-- `heap_new_space`, in a generational build. -/
  newSpace : CopySpace
  nurserySize : ℕ
  perProcessorNurserySize : ℕ
  processorCount : ℕ
  pageSize : ℕ
  largeObjectPages : ℕ
  /-- The pages of the requests that are neither granted nor withdrawn. -/
  requests : List ℕ
  stage : ResizeStage

/-! ## Operations -/

section Operations

variable (heap : SizedHeap)

/-- `base` is the memory for new slabs, if any are needed. -/
def resizeHeap (newSize base : ℕ) : Outcome ResizeAssertion SizedHeap :=
  if newSize = heap.size then pure heap
  else if newSize < heap.size then
    pure { heap with resizable := heap.resizable.shrink (heap.size - newSize), size := newSize }
  else do
    let space ← (heap.resizable.expand (newSize - heap.size) base).mapFailure fun _ =>
      .reacquire .expand
    pure { heap with resizable := space, size := newSize }

def resizeNursery (size : ℕ) : Outcome ResizeAssertion SizedHeap := do
  let space ←
    if size < heap.nurserySize then pure (heap.newSpace.shrink (heap.nurserySize - size))
    else (heap.newSpace.reacquireMemory (size - heap.nurserySize)).mapFailure fun _ =>
      .reacquire .resizeNursery
  Outcome.check (size ≠ 0) .nurserySize
  pure { heap with newSpace := space, nurserySize := size }

def nurserySizeForActiveMutatorCount (count : ℕ) : ℕ :=
  let size := heap.perProcessorNurserySize * min count heap.processorCount
  if size < heap.nurserySize then (heap.nurserySize + size) / 2 else size

def resizeNurseryForActiveMutatorCount (count : ℕ) : Outcome ResizeAssertion SizedHeap :=
  if heap.generational = true then
    resizeNursery heap (nurserySizeForActiveMutatorCount heap count)
  else pure heap

def heapResetLargeObjectPages (npages : ℕ) : Outcome ResizeAssertion SizedHeap := do
  Outcome.check (npages ≤ heap.largeObjectPages) .resetPages
  let bytes := (heap.largeObjectPages - npages) * heap.pageSize
  let space ← (heap.resizable.reacquireMemory bytes).mapFailure fun _ =>
    .reacquire .heapResetLargeObjectPages
  pure { heap with resizable := space, largeObjectPages := npages }

/-- The size that `resolve_pending_large_allocation_and_compute_success` gives the heap, once it has
paged out what it can. -/
def sizeForDeficit (isMinor : Bool) : ℕ :=
  if isMinor = true ∨ heap.resizable.bytesToPageOut ≤ 0 ∨ heap.fixedSize = true then heap.size
  else heap.size + alignUp heap.resizable.bytesToPageOut.toNat COPY_SPACE_BLOCK_SIZE

def pageOutUntilReleased : SizedHeap :=
  { heap with resizable := heap.resizable.pageOutBlocksUntilMemoryReleased }

def resolvePendingLargeAllocation (isMinor : Bool) (base : ℕ) :
    Outcome ResizeAssertion SizedHeap :=
  let released := pageOutUntilReleased heap
  resizeHeap released (sizeForDeficit released isMinor) base

def SizedHeap.heapCanMinorGc : Bool :=
  heap.generational &&
    decide (heap.nurserySize ≤ heap.resizable.canAllocate heap.nurserySize)

end Operations

/-! ## Actions -/

inductive ResizeAction where
  /-- A mutator takes a block for small objects. -/
  | acquireBlock
  /-- `allocate_large` asks for memory and pages out what it can. -/
  | request (npages : ℕ)
  /-- `allocate_large` counts its pages. -/
  | grant (index : ℕ)
  /-- `allocate_large` gives up. -/
  | withdraw (index : ℕ)
  /-- The heap sizer's thread. -/
  | resizeFromThread (newSize base : ℕ)
  | startGc (isMinor : Bool)
  /-- The collection takes a block. -/
  | evacuate
  | evacuateToNursery
  | resizeForActiveMutatorCount (count : ℕ)
  | resetLargeObjectPages (npages : ℕ)
  /-- `gc_heap_sizer_on_gc`. -/
  | sizerOnGc (newSize base : ℕ)
  | resolve (base : ℕ)
  | advancePageOutQueue
  | pageOutBlocks
  deriving DecidableEq, Repr

section Steps

variable (heap : SizedHeap)

/-- The space in which small objects are allocated. -/
def acquireAllocationBlock : Option SizedHeap :=
  if heap.generational = true then
    heap.newSpace.acquireEmptyBlock.map fun space => { heap with newSpace := space }
  else heap.resizable.acquireEmptyBlock.map fun space => { heap with resizable := space }

def requestLarge (npages : ℕ) : SizedHeap :=
  { heap with
    requests := npages :: heap.requests
    resizable := (heap.resizable.requestReleaseMemory
      (npages * heap.pageSize)).pageOutBlocksUntilMemoryReleased }

def grantLarge (index npages : ℕ) : SizedHeap :=
  { heap with
    requests := heap.requests.eraseIdx index
    largeObjectPages := heap.largeObjectPages + npages }

def withdrawLarge (index npages : ℕ) : SizedHeap :=
  { heap with
    requests := heap.requests.eraseIdx index
    resizable := heap.resizable.maybeReacquireMemory (npages * heap.pageSize) }

/-- `copy_spaces_start_gc`. -/
def copySpacesStartGc (isMinor : Bool) : SizedHeap :=
  { heap with
    newSpace := heap.newSpace.flip
    resizable := if isMinor = true then heap.resizable else heap.resizable.flip
    stage := .tracing isMinor }

/-- `copy_spaces_finish_gc`, as far as `in_gc` goes. -/
def copySpacesFinishGc : SizedHeap :=
  { heap with newSpace := heap.newSpace.finishGc, resizable := heap.resizable.finishGc }

def orDisabled : Option SizedHeap → Outcome ResizeAssertion SizedHeap
  | none => .disabled
  | some heap => pure heap

def resizeStep : ResizeAction → Outcome ResizeAssertion SizedHeap
  | .acquireBlock => do
      Outcome.require (heap.stage = .mutating)
      orDisabled (acquireAllocationBlock heap)
  | .request npages => do
      Outcome.require (heap.stage = .mutating)
      pure (requestLarge heap npages)
  | .grant index => do
      Outcome.require (heap.stage = .mutating)
      orDisabled (heap.requests[index]?.map (grantLarge heap index))
  | .withdraw index => do
      Outcome.require (heap.stage = .mutating)
      orDisabled (heap.requests[index]?.map (withdrawLarge heap index))
  | .resizeFromThread newSize base => do
      Outcome.require (heap.stage = .mutating ∧ heap.fixedSize = false)
      resizeHeap heap newSize base
  | .startGc isMinor => do
      Outcome.require (heap.stage = .mutating)
      Outcome.require (isMinor = true → heap.heapCanMinorGc = true)
      pure (copySpacesStartGc heap isMinor)
  | .evacuate =>
      match heap.stage with
      | .tracing _ => orDisabled (heap.resizable.acquireEmptyBlock.map fun space =>
          { heap with resizable := space })
      | _ => .disabled
  | .evacuateToNursery =>
      match heap.stage with
      | .tracing true => orDisabled (heap.newSpace.acquireEmptyBlock.map fun space =>
          { heap with newSpace := space })
      | _ => .disabled
  | .resizeForActiveMutatorCount count =>
      match heap.stage with
      | .tracing isMinor => do
          Outcome.require (count ≠ 0)
          let resized ← resizeNurseryForActiveMutatorCount (copySpacesFinishGc heap) count
          pure { resized with stage := .nurseryResized isMinor }
      | _ => .disabled
  | .resetLargeObjectPages npages =>
      match heap.stage with
      | .nurseryResized isMinor => do
          let reset ← heapResetLargeObjectPages heap npages
          pure { reset with stage := .pagesReset isMinor }
      | _ => .disabled
  | .sizerOnGc newSize base =>
      match heap.stage with
      | .pagesReset isMinor => do
          Outcome.require (heap.fixedSize = true → newSize = heap.size)
          let sized ← resizeHeap heap newSize base
          pure { sized with stage := .sized isMinor }
      | _ => .disabled
  | .resolve base =>
      match heap.stage with
      | .sized isMinor => do
          let resolved ← resolvePendingLargeAllocation heap isMinor base
          pure { resolved with stage := .mutating }
      | _ => .disabled
  | .advancePageOutQueue =>
      pure { heap with
        resizable := heap.resizable.advancePageOutQueue
        newSpace := heap.newSpace.advancePageOutQueue }
  | .pageOutBlocks =>
      pure { heap with
        resizable := heap.resizable.pageOutBlocks
        newSpace := heap.newSpace.pageOutBlocks }

end Steps

/-- The options with which a heap is made. -/
structure SizedOptions where
  generational : Bool
  fixedSize : Bool
  size : ℕ
  pageSize : ℕ
  perProcessorNurserySize : ℕ
  processorCount : ℕ
  newBase : ℕ
  base : ℕ

/-- `gc_init`: the nursery has room for one mutator on each processor, and is dimensioned for
one. -/
def initialSizedHeap (options : SizedOptions) : SizedHeap :=
  let nurserySize := options.perProcessorNurserySize * options.processorCount
  let newSpace := CopySpace.init nurserySize options.newBase true false
  { generational := options.generational
    fixedSize := options.fixedSize
    size := options.size
    resizable := CopySpace.init options.size options.base false options.generational
    newSpace := newSpace.shrink (nurserySize - options.perProcessorNurserySize)
    nurserySize := options.perProcessorNurserySize
    perProcessorNurserySize := options.perProcessorNurserySize
    processorCount := options.processorCount
    pageSize := options.pageSize
    largeObjectPages := 0
    requests := []
    stage := .mutating }

/-- The sizes of the spaces of pcc, whatever the sizer decides. -/
def resizeSystem : System SizedHeap ResizeAction ResizeAssertion :=
  { initial := fun heap => ∃ options : SizedOptions, 0 < options.perProcessorNurserySize ∧
      0 < options.processorCount ∧ heap = initialSizedHeap options
    step := resizeStep }

end Whippet.Pcc
