import Whippet.Pcc.Promotion

/-!
A copy space with the allocators that share it (`copy-space.h`).

The lists of the space are changed under its lock or by a compare-and-swap, and its counters by an
atomic addition. An allocator's turn ends with one of these: so `copy_space_allocate` takes several
turns if the allocator has to give up its block, and other threads take theirs in between.

Owns: the lists of partly-full and full blocks, the blocks' `allocated` and `is_survivor` fields,
the counters, the stages of `copy_space_allocate` and of `copy_space_allocator_finish`,
`copy_space_flip`, `copy_space_finish_gc`, and runs of any number of allocators beside the paging of
blocks. Does not own: when the loops that page blocks in and out end. They take their turns in any
number here.
-/

namespace Whippet.Pcc

open Function
open Nofl (alignUp)

/-- What `CopySpace` leaves out: which of the occupied blocks are on which list, and the fields of
the blocks' headers. -/
structure SharedSpace where
  blocks : CopySpace
  slabs : List ℕ
  partlyFull : List ℕ
  full : List ℕ
  allocated : ℕ → ℕ
  isSurvivor : ℕ → Bool → Bool
  activeRegion : Bool
  allocatedBytes : ℕ
  fragmentation : ℕ
  allocatedBytesAtLastGc : ℕ
  fragmentationAtLastGc : ℕ

/-- The start of one of the two regions of a block. -/
def regionStart (block : ℕ) (region : Bool) : ℕ := block + region.toNat * COPY_SPACE_REGION_SIZE

/-- `struct copy_space_allocator`, if it has a block. -/
structure BlockAllocator where
  hp : ℕ
  limit : ℕ
  block : ℕ
  deriving DecidableEq, Repr

/-- `copy_space_allocator_set_block`. -/
def BlockAllocator.setBlock (block : ℕ) (region : Bool) : BlockAllocator :=
  { hp := regionStart block region
    limit := regionStart block region + COPY_SPACE_REGION_SIZE
    block := block }

namespace SharedSpace

variable (space : SharedSpace)

def setSurvivor (block : ℕ) (survives : Bool) : SharedSpace :=
  { space with
    isSurvivor := update space.isSurvivor block
      (update (space.isSurvivor block) space.activeRegion survives) }

/-! ## Blocks -/

/-- `copy_space_pop_empty_block`. -/
def popEmptyBlock : Option (ℕ × SharedSpace) :=
  match space.blocks.popEmptyBlock with
  | none => none
  | some (block, popped) =>
      some (block, { space with blocks := popped, allocated := update space.allocated block 0 }
        |>.setSurvivor block false)

/-- `copy_space_push_full_block`. -/
def pushFullBlock (block : ℕ) : SharedSpace :=
  let marked := if space.blocks.inGc = true then space.setSurvivor block true else space
  { marked with full := block :: marked.full }

def pushPartlyFullBlock (block : ℕ) : SharedSpace :=
  { space with partlyFull := block :: space.partlyFull }

/-- `copy_space_obtain_empty_block_during_gc`, when there is no empty block. -/
def obtainEmptyBlockDuringGc : Option (ℕ × SharedSpace) :=
  match space.blocks.obtainEmptyBlockDuringGc with
  | none => none
  | some (block, popped) => some (block, { space with blocks := popped })

def occupy (block : ℕ) : SharedSpace :=
  { space with
    blocks := { space.blocks with
      occupied := block :: space.blocks.occupied, inCore := update space.blocks.inCore block true }
        }

/-- `copy_space_allocator_acquire_empty_block`. -/
def acquireEmptyBlock : Option (BlockAllocator × SharedSpace) :=
  let found :=
    match space.popEmptyBlock with
    | some found => some found
    | none => if space.blocks.inGc = true then space.obtainEmptyBlockDuringGc else none
  match found with
  | none => none
  | some (block, popped) =>
      some (.setBlock block space.activeRegion, popped.occupy block)

/-- `copy_space_allocator_acquire_partly_full_block`. -/
def acquirePartlyFullBlock : Option (BlockAllocator × SharedSpace) :=
  match space.partlyFull with
  | [] => none
  | block :: rest =>
      let allocator := BlockAllocator.setBlock block space.activeRegion
      some ({ allocator with hp := allocator.hp + space.allocated block },
        { space with partlyFull := rest })

/-- The first half of `copy_space_allocator_release_full_block`. -/
def countFullBlock (allocator : BlockAllocator) : SharedSpace :=
  { space with
    allocatedBytes :=
      space.allocatedBytes + (COPY_SPACE_REGION_SIZE - space.allocated allocator.block)
    fragmentation := space.fragmentation + (allocator.limit - allocator.hp) }

end SharedSpace

/-! ## Allocators -/

/-- Where the owner of an allocator is. -/
inductive AllocatorStage where
  | idle
  | holding (allocator : BlockAllocator)
  /-- The block is counted as a full one and about to go on their list. Then the allocation of
  `pending` bytes goes on, if there is one. -/
  | releasingFull (block : ℕ) (pending : Option ℕ)
  /-- The same for a partly-full block, at the end of `copy_space_allocator_finish`. -/
  | releasingPartlyFull (block : ℕ)
  /-- In the loop of `copy_space_allocate`. -/
  | seeking (size : ℕ)
  | found (allocator : BlockAllocator) (size : ℕ)
  | seekingEmpty (size : ℕ)
  deriving DecidableEq, Repr

/-- What a turn of an allocator leaves, and the address that `copy_space_allocate` returns if the
turn is its last. -/
structure Turn where
  stage : AllocatorStage
  space : SharedSpace
  ref : Option ℕ

namespace SharedSpace

variable (space : SharedSpace)

/-- `copy_space_allocate` for an allocator with a block: the object's place is at `hp`, if there is
room below the limit. -/
def bump (allocator : BlockAllocator) (size : ℕ) : Turn :=
  if allocator.hp + size ≤ allocator.limit then
    { stage := .holding { allocator with hp := allocator.hp + size }
      space := space
      ref := some allocator.hp }
  else
    { stage := .releasingFull allocator.block (some size)
      space := space.countFullBlock allocator
      ref := none }

/-- The first turn of `copy_space_allocate`. -/
def startAllocate (size : ℕ) : AllocatorStage → Option Turn
  | .idle => some
      { stage := .seeking (alignUp size GC_ALIGNMENT), space := space, ref := none }
  | .holding allocator => some (space.bump allocator (alignUp size GC_ALIGNMENT))
  | _ => none

/-- The first turn of `copy_space_allocator_finish`. -/
def startFinish : AllocatorStage → Option Turn
  | .idle => some { stage := .idle, space := space, ref := none }
  | .holding allocator =>
      let allocated := allocator.hp % COPY_SPACE_REGION_SIZE
      let before := space.allocated allocator.block
      if allocated ≠ 0 then
        some
          { stage := .releasingPartlyFull allocator.block
            space := { space with
              allocatedBytes := space.allocatedBytes + (allocated - before)
              allocated := update space.allocated allocator.block allocated }
            ref := none }
      else
        some
          { stage := .releasingFull allocator.block none
            space := { space with
              allocatedBytes := space.allocatedBytes + (COPY_SPACE_REGION_SIZE - before) }
            ref := none }
  | _ => none

/-- The next turn of an allocator that is in the middle of an operation. -/
def continueTurn : AllocatorStage → Option Turn
  | .idle | .holding _ => none
  | .releasingFull block pending => some
      { stage := match pending with
          | none => .idle
          | some size => .seeking size
        space := space.pushFullBlock block
        ref := none }
  | .releasingPartlyFull block => some
      { stage := .idle, space := space.pushPartlyFullBlock block, ref := none }
  | .seeking size =>
      match space.acquirePartlyFullBlock with
      | none => some { stage := .seekingEmpty size, space := space, ref := none }
      | some (allocator, popped) => some
          { stage := .found allocator size, space := popped, ref := none }
  | .found allocator size => some (space.bump allocator size)
  | .seekingEmpty size =>
      match space.acquireEmptyBlock with
      | none => some { stage := .idle, space := space, ref := none }
      | some (allocator, acquired) => some
          { stage := .holding { allocator with hp := allocator.hp + size }
            space := acquired
            ref := some allocator.hp }

/-! ## Collections -/

/-- `copy_space_flip`. -/
def flip : SharedSpace :=
  { space with
    blocks := { space.blocks.flip with
      empty := space.blocks.empty ++ (space.partlyFull ++ space.full) }
    partlyFull := []
    full := []
    activeRegion := !space.activeRegion
    allocatedBytes := 0
    fragmentation := 0 }

/-- The loop of `copy_space_finish_gc` over what is on the list of partly-full blocks. -/
def drainPartlyFull (space : SharedSpace) : List ℕ → SharedSpace
  | [] => { space with partlyFull := [] }
  | block :: rest =>
      let allocator := BlockAllocator.setBlock block space.activeRegion
      let allocator := { allocator with hp := allocator.hp + space.allocated block }
      drainPartlyFull
        (({ space with partlyFull := rest }.countFullBlock allocator).pushFullBlock block) rest

/-- `copy_space_finish_gc`. -/
def finishGc (isMinorGc : Bool) : SharedSpace :=
  let drained := if isMinorGc = true then space.drainPartlyFull space.partlyFull else space
  { drained with
    blocks := drained.blocks.finishGc
    allocatedBytesAtLastGc := drained.allocatedBytes
    fragmentationAtLastGc := drained.fragmentation }

/-! ## Paging -/

def addToPageOut (bytes : ℤ) : SharedSpace :=
  { space with blocks := space.blocks.addToPageOut bytes }

/-- One turn of the loop of `copy_space_page_out_blocks_until_memory_released`. -/
def pageOutOne : Option SharedSpace :=
  match space.popEmptyBlock with
  | none => none
  | some (block, popped) => some
      { popped with
        blocks := (popped.blocks.pageOutBlock block).addToPageOut (-COPY_SPACE_BLOCK_SIZE) }

/-- One turn of the loop of `copy_space_maybe_reacquire_memory`. -/
def reacquireOne : Option SharedSpace :=
  match space.blocks.reacquireOne with
  | none => none
  | some reacquired => some { space with blocks := reacquired }

/-- The blocks of the slabs that `copy_space_expand` adds have headers of zeroes. -/
def addSlabs (base count : ℕ) : SharedSpace :=
  let added := (CopySpace.slabsAt base count).flatMap space.blocks.payloadBlocks
  { space with
    blocks := space.blocks.addSlabs base count
    slabs := space.slabs ++ CopySpace.slabsAt base count
    allocated := fun block => if block ∈ added then 0 else space.allocated block
    isSurvivor := fun block region =>
      if block ∈ added then false else space.isSurvivor block region }

def advancePageOutQueue : SharedSpace :=
  { space with blocks := space.blocks.advancePageOutQueue }

def pageOutBlocks : SharedSpace := { space with blocks := space.blocks.pageOutBlocks }

end SharedSpace

/-! ## Runs -/

structure SharedWorld where
  space : SharedSpace
  allocators : List AllocatorStage

inductive SharedAction where
  /-- `copy_space_allocate`. -/
  | allocate (index size : ℕ)
  /-- `copy_space_allocator_finish`. -/
  | finish (index : ℕ)
  | continue (index : ℕ)
  | flip
  | finishGc (isMinorGc : Bool)
  | addToPageOut (bytes : ℤ)
  | pageOut
  | reacquire
  /-- New slabs at `base`. -/
  | addSlabs (base count : ℕ)
  | advancePageOutQueue
  | pageOutBlocks
  deriving DecidableEq, Repr

namespace SharedWorld

variable (world : SharedWorld)

/-- A turn of one allocator. -/
def turnOf (index : ℕ) (turn : AllocatorStage → Option Turn) :
    Outcome Empty (SharedWorld × Option ℕ) :=
  match world.allocators[index]? with
  | none => .disabled
  | some stage =>
      match turn stage with
      | none => .disabled
      | some turn => pure
          ({ space := turn.space, allocators := world.allocators.set index turn.stage }, turn.ref)

def setSpace (space : SharedSpace) : SharedWorld := { world with space := space }

def paged : Option SharedSpace → Outcome Empty (SharedWorld × Option ℕ)
  | none => .disabled
  | some space => pure (world.setSpace space, none)

/-- No allocator has a block or is in the middle of an operation. -/
def AllIdle : Prop := ∀ stage ∈ world.allocators, stage = .idle

instance : Decidable world.AllIdle := inferInstanceAs (Decidable (∀ stage ∈ _, _))

/-- The world after an action, with the address of the object that it finishes to allocate. A
collection starts and ends with the allocators' owners stopped. -/
def stepWithRef : SharedAction → Outcome Empty (SharedWorld × Option ℕ)
  | .allocate index size => do
      Outcome.require (0 < size ∧ size ≤ GC_LARGE_OBJECT_THRESHOLD)
      world.turnOf index (world.space.startAllocate size)
  | .finish index => world.turnOf index world.space.startFinish
  | .continue index => world.turnOf index world.space.continueTurn
  | .flip => do
      Outcome.require (world.AllIdle ∧ world.space.blocks.inGc = false)
      pure (world.setSpace world.space.flip, none)
  | .finishGc isMinorGc => do
      Outcome.require (world.AllIdle ∧ world.space.blocks.inGc = true)
      pure (world.setSpace (world.space.finishGc isMinorGc), none)
  | .addToPageOut bytes => pure (world.setSpace (world.space.addToPageOut bytes), none)
  | .pageOut => world.paged world.space.pageOutOne
  | .reacquire => world.paged world.space.reacquireOne
  | .addSlabs base count => do
      Outcome.require (COPY_SPACE_SLAB_SIZE ∣ base)
      Outcome.require (∀ slab ∈ CopySpace.slabsAt base count, slab ∉ world.space.slabs)
      pure (world.setSpace (world.space.addSlabs base count), none)
  | .advancePageOutQueue => pure (world.setSpace world.space.advancePageOutQueue, none)
  | .pageOutBlocks => pure (world.setSpace world.space.pageOutBlocks, none)

def step (action : SharedAction) : Outcome Empty SharedWorld := do
  let (after, _) ← world.stepWithRef action
  pure after

end SharedWorld

/-- `copy_space_init`, for a space of `size` bytes with its slabs at `base`. -/
def initialSharedSpace (size base : ℕ) (aligned hasFieldLoggingBits : Bool) : SharedSpace :=
  let blocks := CopySpace.init size base aligned hasFieldLoggingBits
  { blocks := blocks
    slabs := CopySpace.slabsAt base blocks.nslabs
    partlyFull := []
    full := []
    allocated := fun _ => 0
    isSurvivor := fun _ _ => false
    activeRegion := false
    allocatedBytes := 0
    fragmentation := 0
    allocatedBytesAtLastGc := 0
    fragmentationAtLastGc := 0 }

/-- A copy space and as many allocators as there will ever be. -/
def sharedSystem : System SharedWorld SharedAction Empty :=
  { initial := fun world => ∃ size base aligned hasFieldLoggingBits count,
      COPY_SPACE_SLAB_SIZE ∣ base ∧
        world = { space := initialSharedSpace size base aligned hasFieldLoggingBits
                  allocators := List.replicate count .idle }
    step := SharedWorld.step }

end Whippet.Pcc
