import Whippet.Pcc.LargeAllocation
import Whippet.Pcc.Resizing

/-!
Small objects in a generational build of pcc, and the collections that keep or promote them
(`copy-space.h`, `pcc.c`).

The sizes of the spaces change as in `Resizing`. Here every block of a space is filled by an
allocator: a mutator's in the new space, and in a collection those of the trace workers in both
spaces. A small object of the new space is known by its place and its size. Which of them are live
comes in with the start of a collection, and so does which worker gets to forward which of them
next.

Owns: `copy_space_allocate` with the blocks it goes through, `copy_space_allocator_finish`,
`heap_can_minor_gc` as far as it chooses the kind of a collection, and the part of `do_minor_trace`
that allocates. Does not own: edges and the remembered set, and objects of the old space. A major
collection copies objects of any size.
-/

namespace Whippet.Pcc

open Function
open Nofl (alignUp)

def GC_ALIGNMENT : ℕ := 8

def TRACE_WORKERS_MAX_COUNT : ℕ := 8

/-- A block of a partly-full list, with its `allocated`. -/
structure PartlyFullBlock where
  block : ℕ
  allocated : ℕ
  deriving DecidableEq, Repr

/-- A `struct copy_space_allocator` that has a block. Its `hp` counts from the start of the active
region of the block, and its limit is the end of the region. -/
structure CopyAllocator where
  block : ℕ
  hp : ℕ
  deriving DecidableEq, Repr

/-- An object of the new space: its block, where in the active region it is, and its size. -/
structure SmallObject where
  block : ℕ
  offset : ℕ
  size : ℕ
  deriving DecidableEq, Repr

/-- What a copy space knows about the insides of its blocks. -/
structure SpaceContents where
  partlyFull : List PartlyFullBlock
  activeRegion : Bool
  isSurvivor : ℕ → Bool → Bool

structure FilledSpace where
  blocks : CopySpace
  contents : SpaceContents

/-- What `copy_space_allocate` returns and leaves behind: where the object is, or `none` for a null
reference. An allocator without a block is `none`. -/
structure CopyAllocation where
  place : Option (ℕ × ℕ)
  allocator : Option CopyAllocator
  space : FilledSpace

/-! ## Allocation -/

namespace SpaceContents

variable (contents : SpaceContents)

def setSurvivor (block : ℕ) (survives : Bool) : SpaceContents :=
  { contents with
    isSurvivor := update contents.isSurvivor block
      (update (contents.isSurvivor block) contents.activeRegion survives) }

def pushPartlyFullBlock (block : PartlyFullBlock) : SpaceContents :=
  { contents with partlyFull := block :: contents.partlyFull }

/-- `copy_space_flip`. -/
def flip : SpaceContents :=
  { contents with partlyFull := [], activeRegion := !contents.activeRegion }

/-- `copy_space_should_promote`, when the region of the object is no longer the active one. -/
def shouldPromote (object : SmallObject) : Bool :=
  contents.isSurvivor object.block (!contents.activeRegion)

end SpaceContents

namespace FilledSpace

variable (space : FilledSpace)

/-- `copy_space_push_full_block`, as far as the flag goes. -/
def pushFullBlock (block : ℕ) : FilledSpace :=
  if space.blocks.inGc = true then
    { space with contents := space.contents.setSurvivor block true }
  else space

def pushPartlyFullBlock (block : PartlyFullBlock) : FilledSpace :=
  { space with contents := space.contents.pushPartlyFullBlock block }

/-- `copy_space_allocator_acquire_empty_block`. A block that was paged out keeps its flag. -/
def acquireEmptyBlock : Option (CopyAllocator × FilledSpace) :=
  match space.blocks.acquireEmptyBlock with
  | none => none
  | some acquired =>
      match acquired.occupied with
      | [] => none
      | block :: _ =>
          let contents :=
            if space.blocks.empty = [] then space.contents
            else space.contents.setSurvivor block false
          some ({ block := block, hp := 0 }, { blocks := acquired, contents := contents })

/-- The loop over `copy_space_allocator_acquire_partly_full_block`, for what is on the list. -/
def acquirePartlyFullBlock (size : ℕ) (space : FilledSpace) :
    List PartlyFullBlock → Option CopyAllocator × FilledSpace
  | [] => (none, { space with contents := { space.contents with partlyFull := [] } })
  | found :: rest =>
      if found.allocated + size ≤ COPY_SPACE_REGION_SIZE then
        (some { block := found.block, hp := found.allocated },
          { space with contents := { space.contents with partlyFull := rest } })
      else acquirePartlyFullBlock size (space.pushFullBlock found.block) rest

/-- `copy_space_allocator_release_full_block`. -/
def releaseFullBlock : Option CopyAllocator → FilledSpace
  | none => space
  | some allocator => space.pushFullBlock allocator.block

/-- `copy_space_allocator_finish`, with `copy_space_allocator_release_partly_full_block`. -/
def finishAllocator : Option CopyAllocator → FilledSpace
  | none => space
  | some allocator =>
      let allocated := allocator.hp % COPY_SPACE_REGION_SIZE
      if allocated ≠ 0 then
        space.pushPartlyFullBlock { block := allocator.block, allocated := allocated }
      else space.pushFullBlock allocator.block

/-- The end of `copy_space_allocate`. -/
def bump (allocator : CopyAllocator) (size : ℕ) : CopyAllocation :=
  { place := some (allocator.block, allocator.hp)
    allocator := some { allocator with hp := allocator.hp + size }
    space := space }

/-- `copy_space_allocate` once the allocator has given up its block. -/
def refill (size : ℕ) : CopyAllocation :=
  match acquirePartlyFullBlock size space space.contents.partlyFull with
  | (some allocator, space) => space.bump allocator size
  | (none, space) =>
      match space.acquireEmptyBlock with
      | some (allocator, space) => space.bump allocator size
      | none => { place := none, allocator := none, space := space }

/-- `copy_space_allocate`. -/
def allocate (allocator : Option CopyAllocator) (size : ℕ) : CopyAllocation :=
  let size := alignUp size GC_ALIGNMENT
  match allocator with
  | some current =>
      if current.hp + size ≤ COPY_SPACE_REGION_SIZE then space.bump current size
      else (space.releaseFullBlock allocator).refill size
  | none => space.refill size

/-- The loop of `copy_space_finish_gc` after a minor collection: nothing stays partly full. -/
def releasePartlyFullBlocks : FilledSpace :=
  space.contents.partlyFull.foldl (fun space found => space.pushFullBlock found.block)
    { space with contents := { space.contents with partlyFull := [] } }

end FilledSpace

/-! ## The heap -/

/-- A trace worker's allocators, and the object that it goes to promote because it ran out of new
space. -/
structure TraceWorker where
  newAllocator : Option CopyAllocator
  oldAllocator : Option CopyAllocator
  promoting : Option SmallObject
  deriving DecidableEq, Repr

/-- A worker outside of `gc_tracer_trace`. -/
def TraceWorker.parked : TraceWorker :=
  { newAllocator := none, oldAllocator := none, promoting := none }

structure NurseryHeap where
  sized : SizedHeap
  newContents : SpaceContents
  oldContents : SpaceContents
  mutators : List (Option CopyAllocator)
  workers : List TraceWorker
  /-- The objects of the new space, those that are not reachable included. -/
  objects : List SmallObject
  /-- The live objects of the new space that a minor collection has yet to forward. -/
  unforwarded : List SmallObject

inductive NurseryFailure where
  | resize (assertion : ResizeAssertion)
  /-- `forward` calls `GC_CRASH`. -/
  | outOfMemory (isMinor : Bool)
  deriving DecidableEq, Repr

namespace NurseryHeap

variable (heap : NurseryHeap)

def newSpace : FilledSpace := { blocks := heap.sized.newSpace, contents := heap.newContents }

def oldSpace : FilledSpace := { blocks := heap.sized.resizable, contents := heap.oldContents }

def setNewSpace (space : FilledSpace) : NurseryHeap :=
  { heap with
    sized := { heap.sized with newSpace := space.blocks }, newContents := space.contents }

def setOldSpace (space : FilledSpace) : NurseryHeap :=
  { heap with
    sized := { heap.sized with resizable := space.blocks }, oldContents := space.contents }

def setWorker (index : ℕ) (worker : TraceWorker) : NurseryHeap :=
  { heap with workers := heap.workers.set index worker }

def setMutator (index : ℕ) (allocator : Option CopyAllocator) : NurseryHeap :=
  { heap with mutators := heap.mutators.set index allocator }

end NurseryHeap

/-- Whether `determine_collection_kind` chooses a minor collection. -/
def SizedHeap.choosesMinor (heap : SizedHeap) (requested : CollectionKind) : Bool :=
  decide (determineCollectionKind heap.generational heap.heapCanMinorGc requested = .minor)

/-! ## Actions -/

/-- The operations of `Resizing` that do not say which blocks the allocators take. -/
def ResizeAction.onlySizes : ResizeAction → Bool
  | .acquireBlock | .evacuate | .evacuateToNursery | .startGc _
  | .resizeForActiveMutatorCount _ => false
  | _ => true

inductive NurseryAction where
  | resize (action : ResizeAction)
  | addMutator
  | removeMutator (index : ℕ)
  | allocate (index size : ℕ)
  /-- The mutator gives up its block, to pause or to collect. -/
  | finishMutator (index : ℕ)
  /-- The start of `collect`, with the objects of the new space that turn out to be live. -/
  | startGc (requested : CollectionKind) (live : List SmallObject)
  /-- `do_minor_trace` for an edge whose referent has not been forwarded. -/
  | forward (worker index : ℕ)
  /-- The same once the worker has run out of new space. -/
  | promote (worker : ℕ)
  /-- A major collection copies an object to the old space. -/
  | forwardMajor (worker size : ℕ)
  /-- The worker returns from `gc_tracer_trace`. -/
  | finishWorker (worker : ℕ)
  /-- `copy_spaces_finish_gc`, with the resizing of the nursery that comes next. -/
  | finishGc (count : ℕ)
  deriving DecidableEq, Repr

section Steps

variable (heap : NurseryHeap)

def allocateSmall (index size : ℕ) : Outcome NurseryFailure NurseryHeap := do
  Outcome.require (heap.sized.stage = .mutating)
  Outcome.require (0 < size ∧ size ≤ GC_LARGE_OBJECT_THRESHOLD)
  match heap.mutators[index]? with
  | none => .disabled
  | some allocator =>
      let result := heap.newSpace.allocate allocator size
      let allocated := (heap.setNewSpace result.space).setMutator index result.allocator
      match result.place with
      | none => pure allocated
      | some (block, offset) =>
          pure { allocated with
            objects := { block := block, offset := offset, size := size } :: heap.objects }

def finishMutator (index : ℕ) : Outcome NurseryFailure NurseryHeap := do
  Outcome.require (heap.sized.stage = .mutating)
  match heap.mutators[index]? with
  | none => .disabled
  | some allocator =>
      pure ((heap.setNewSpace (heap.newSpace.finishAllocator allocator)).setMutator index none)

def startNurseryGc (requested : CollectionKind) (live : List SmallObject) :
    Outcome NurseryFailure NurseryHeap := do
  Outcome.require (∀ allocator ∈ heap.mutators, allocator = none)
  Outcome.require (live.Sublist heap.objects)
  let isMinor := heap.sized.choosesMinor requested
  let sized ← (resizeStep heap.sized (.startGc isMinor)).mapFailure .resize
  pure { heap with
    sized := sized
    newContents := heap.newContents.flip
    oldContents := if isMinor = true then heap.oldContents else heap.oldContents.flip
    objects := []
    unforwarded := if isMinor = true then live else [] }

/-- Copies the object to the old space, or crashes. -/
def promoteObject (isMinor : Bool) (index : ℕ) (worker : TraceWorker) (size : ℕ) :
    Outcome NurseryFailure NurseryHeap :=
  let result := heap.oldSpace.allocate worker.oldAllocator size
  match result.place with
  | none => .failed (.outOfMemory isMinor)
  | some _ =>
      pure ((heap.setOldSpace result.space).setWorker index
        { worker with oldAllocator := result.allocator, promoting := none })

/-- Copies the object within the new space. A worker that finds no room for it goes to promote
it. -/
def keepObject (index : ℕ) (worker : TraceWorker) (object : SmallObject) : NurseryHeap :=
  let result := heap.newSpace.allocate worker.newAllocator object.size
  let copied := heap.setNewSpace result.space
  match result.place with
  | none => copied.setWorker index
      { worker with newAllocator := result.allocator, promoting := some object }
  | some (block, offset) =>
      { copied.setWorker index { worker with newAllocator := result.allocator } with
        objects := { object with block := block, offset := offset } :: heap.objects
        unforwarded := heap.unforwarded.erase object }

/-- `do_minor_trace`, when the worker is the one to forward the object. -/
def forwardMinor (index position : ℕ) : Outcome NurseryFailure NurseryHeap := do
  Outcome.require (heap.sized.stage = .tracing true)
  match heap.workers[index]?, heap.unforwarded[position]? with
  | some worker, some object => do
      Outcome.require (worker.promoting = none)
      if heap.newContents.shouldPromote object = true then do
        let promoted ← promoteObject heap true index worker object.size
        pure { promoted with unforwarded := heap.unforwarded.erase object }
      else pure (keepObject heap index worker object)
  | _, _ => .disabled

/-- The call of `forward` at the end of `do_minor_trace`. Another worker may have forwarded the
object in the meantime. -/
def promoteMinor (index : ℕ) : Outcome NurseryFailure NurseryHeap := do
  Outcome.require (heap.sized.stage = .tracing true)
  match heap.workers[index]? with
  | some worker =>
      match worker.promoting with
      | none => .disabled
      | some object =>
          if object ∈ heap.unforwarded then do
            let promoted ← promoteObject heap true index worker object.size
            pure { promoted with unforwarded := heap.unforwarded.erase object }
          else pure (heap.setWorker index { worker with promoting := none })
  | none => .disabled

def forwardMajor (index size : ℕ) : Outcome NurseryFailure NurseryHeap := do
  Outcome.require (heap.sized.stage = .tracing false)
  Outcome.require (0 < size ∧ size ≤ GC_LARGE_OBJECT_THRESHOLD)
  match heap.workers[index]? with
  | none => .disabled
  | some worker => promoteObject heap false index worker size

/-- The end of `gc_trace_worker_call_with_data`. -/
def finishWorker (index : ℕ) : Outcome NurseryFailure NurseryHeap :=
  match heap.sized.stage, heap.workers[index]? with
  | .tracing _, some worker => do
      Outcome.require (worker.promoting = none)
      let finished := heap.setNewSpace (heap.newSpace.finishAllocator worker.newAllocator)
      let finished := finished.setOldSpace (finished.oldSpace.finishAllocator worker.oldAllocator)
      pure (finished.setWorker index .parked)
  | _, _ => .disabled

/-- The partly-full blocks of the new space become full ones after a minor collection. -/
def finishNurseryGc (count : ℕ) : Outcome NurseryFailure NurseryHeap := do
  Outcome.require (heap.unforwarded = [])
  Outcome.require (∀ worker ∈ heap.workers, worker = .parked)
  let finished :=
    if heap.sized.stage = .tracing true then
      heap.setNewSpace heap.newSpace.releasePartlyFullBlocks
    else heap
  let sized ← (resizeStep finished.sized (.resizeForActiveMutatorCount count)).mapFailure .resize
  pure { finished with sized := sized }

def nurseryStep : NurseryAction → Outcome NurseryFailure NurseryHeap
  | .resize action => do
      Outcome.require (action.onlySizes = true)
      let sized ← (resizeStep heap.sized action).mapFailure .resize
      pure { heap with sized := sized }
  | .addMutator => pure { heap with mutators := heap.mutators ++ [none] }
  | .removeMutator index => do
      Outcome.require (heap.mutators[index]? = some none)
      pure { heap with mutators := heap.mutators.eraseIdx index }
  | .allocate index size => allocateSmall heap index size
  | .finishMutator index => finishMutator heap index
  | .startGc requested live => startNurseryGc heap requested live
  | .forward worker index => forwardMinor heap worker index
  | .promote worker => promoteMinor heap worker
  | .forwardMajor worker size => forwardMajor heap worker size
  | .finishWorker worker => finishWorker heap worker
  | .finishGc count => finishNurseryGc heap count

end Steps

/-- The contents of a space without objects. -/
def SpaceContents.initial : SpaceContents :=
  { partlyFull := [], activeRegion := false, isSurvivor := fun _ _ => false }

def initialNurseryHeap (options : SizedOptions) (workerCount : ℕ) : NurseryHeap :=
  { sized := initialSizedHeap options
    newContents := .initial
    oldContents := .initial
    mutators := []
    workers := List.replicate workerCount .parked
    objects := []
    unforwarded := [] }

/-- A generational build of pcc. -/
def nurserySystem : System NurseryHeap NurseryAction NurseryFailure :=
  { initial := fun heap => ∃ options : SizedOptions, ∃ workerCount : ℕ,
      options.generational = true ∧ 0 < options.perProcessorNurserySize ∧
        0 < options.processorCount ∧ 0 < workerCount ∧ workerCount ≤ TRACE_WORKERS_MAX_COUNT ∧
        heap = initialNurseryHeap options workerCount
    step := nurseryStep }

end Whippet.Pcc
