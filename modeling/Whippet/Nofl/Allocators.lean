import Whippet.Library.Checked
import Whippet.Nofl.BlockLists

/-!
Allocators of the nofl space, and what collections do to its lists of blocks (`nofl-space.h`).

One action is a turn of an allocator between two accesses to the lists of the space, a critical
section under the space's lock, or the part of a collection that moves blocks while all mutators
are stopped. The order of actions is free, so that the order of the collector is one of those that
are covered. The holes that sweeping finds and the marks of blocks come with the actions.

Owns: taking blocks from the lists and giving them back, the start and the end of a collection as
far as blocks go, and the system of all these actions.
-/

namespace Whippet.Nofl

open Function

/-- The fields of `struct nofl_allocator` that point into a block. -/
structure Allocator where
  alloc : ℕ
  sweep : ℕ
  block : Option ℕ
  deriving DecidableEq, Repr

/-- A hole by its address and its size in granules. -/
structure Hole where
  addr : ℕ
  granules : ℕ
  deriving DecidableEq, Repr

namespace Allocator

/-- `nofl_allocator_reset`. -/
def noflAllocatorReset : Allocator := { alloc := 0, sweep := 0, block := none }

variable (allocator : Allocator)

/-- The rest of the hole, in granules. -/
def holeGranules : ℕ := (allocator.sweep - allocator.alloc) / NOFL_GRANULE_SIZE

end Allocator

def blockLimit (block : ℕ) : ℕ := block + NOFL_BLOCK_SIZE

namespace BlockSpace

variable (space : BlockSpace)

/-! ## Releasing blocks -/

def noflShouldPromoteBlock (block : ℕ) : Bool :=
  if !space.generational then false
  else decide
    ((space.summary block).holeGranules < ⌊NOFL_GRANULES_PER_BLOCK * space.promotionThreshold⌋₊)

/-- What `nofl_allocator_release_full_block` adds to the counters of the space. -/
def countReleasedBlock (block : ℕ) : BlockSpace :=
  let summary := space.summary block
  { space with
    statistics :=
      { space.statistics with
        survivorGranulesAtLastCollection :=
          space.statistics.survivorGranulesAtLastCollection +
            (NOFL_GRANULES_PER_BLOCK - summary.holeGranules)
        allocatedGranulesSinceLastCollection :=
          space.statistics.allocatedGranulesSinceLastCollection + summary.holeGranules
        fragmentationGranulesSinceLastCollection :=
          space.statistics.fragmentationGranulesSinceLastCollection +
            summary.fragmentationGranules } }

def addOldGenerationGranules (granules : ℕ) : BlockSpace :=
  { space with
    statistics :=
      { space.statistics with
        oldGenerationGranules := space.statistics.oldGenerationGranules + granules } }

def noflAllocatorReleaseFullBlock (block : ℕ) : BlockSpace :=
  let counted := space.countReleasedBlock block
  if counted.noflShouldPromoteBlock block then counted.noflBlockListPush .promoted block
  else counted.noflBlockListPush .full block

def noflAllocatorReleaseFullEvacuationTarget (block : ℕ) (allocator : Allocator) : BlockSpace :=
  let counted := space.addOldGenerationGranules NOFL_GRANULES_PER_BLOCK
  let holeSize := allocator.sweep - allocator.alloc
  if holeSize ≠ 0 then
    (counted.setSummary block
      { counted.summary block with
        holesWithFragmentation := 1
        -- The source divides by the size of a granule twice.
        fragmentationGranules := holeSize / NOFL_GRANULE_SIZE / NOFL_GRANULE_SIZE }
      ).noflBlockListPush .old block
  else counted.noflBlockListPush .old block

def noflAllocatorReleasePartlyFullBlock (block : ℕ) (allocator : Allocator) : BlockSpace :=
  (space.setSummary block
    { space.summary block with fragmentationGranules := allocator.holeGranules }
    ).noflBlockListPush .partlyFull block

/-- `nofl_allocator_finish_hole`, as far as the space goes. -/
def noflAllocatorFinishHole (block : ℕ) (allocator : Allocator) : BlockSpace :=
  if allocator.holeGranules ≠ 0 then
    space.setSummary block ((space.summary block).countFragmentation allocator.holeGranules)
  else space

/-- `nofl_allocator_next_hole_in_block` when it finds a hole, as far as the space goes. -/
def countHole (block : ℕ) (hole : Hole) : BlockSpace :=
  space.setSummary block ((space.summary block).countHole hole.granules)

/-- `nofl_allocator_finish_sweeping_in_block`, where `holes` are those that are still to be
found. -/
def noflAllocatorFinishSweepingInBlock (block : ℕ) : Allocator → List Hole → BlockSpace → BlockSpace
  | allocator, [], space => space.noflAllocatorFinishHole block allocator
  | allocator, hole :: holes, space =>
      let found : Allocator :=
        { allocator with
          alloc := hole.addr
          sweep := hole.addr + hole.granules * NOFL_GRANULE_SIZE }
      noflAllocatorFinishSweepingInBlock block found holes
        ((space.noflAllocatorFinishHole block allocator).countHole block hole)

/-- The condition for the list of partly full blocks: one hole, at the end of the block. -/
def isPartlyFull (block : ℕ) (allocator : Allocator) : Bool :=
  allocator.alloc < allocator.sweep ∧ allocator.sweep = blockLimit block ∧
    (space.summary block).holesWithFragmentation = 0

def noflAllocatorReleaseBlock (block : ℕ) (allocator : Allocator) (holes : List Hole) :
    BlockSpace :=
  if space.isPartlyFull block allocator then
    space.noflAllocatorReleasePartlyFullBlock block allocator
  else if space.evacuating then space.noflAllocatorReleaseFullEvacuationTarget block allocator
  else
    (noflAllocatorFinishSweepingInBlock block allocator holes space).noflAllocatorReleaseFullBlock
      block

/-! ## Acquiring blocks -/

/-- `nofl_allocator_acquire_block_to_sweep`, and the counters that `nofl_allocator_next_hole`
clears after it. -/
def noflAllocatorAcquireBlockToSweep : Option (Allocator × BlockSpace) :=
  match space.noflBlockListPop .toSweep with
  | none => none
  | some (block, popped) =>
      some ({ alloc := block, sweep := block, block := some block },
        popped.setSummary block (popped.summary block).clearCounters)

/-- The size of the hole in granules comes with the allocator. -/
def noflAllocatorAcquirePartlyFullBlock : Option (ℕ × Allocator × BlockSpace) :=
  match space.noflBlockListPop .partlyFull with
  | none => none
  | some (block, popped) =>
      let holeGranules := (popped.summary block).fragmentationGranules
      let limit := blockLimit block
      some (holeGranules,
        { alloc := limit - holeGranules * NOFL_GRANULE_SIZE, sweep := limit, block := some block },
        popped.setSummary block { popped.summary block with fragmentationGranules := 0 })

def noflAllocatorAcquireEmptyBlock : Option (Allocator × BlockSpace) :=
  match space.noflPopEmptyBlock with
  | none => none
  | some (block, popped) =>
      let counted := popped.setSummary block
        { popped.summary block with
          holeCount := 1
          holeGranules := NOFL_GRANULES_PER_BLOCK
          holesWithFragmentation := 0
          fragmentationGranules := 0 }
      let cleared :=
        if counted.noflBlockHasFlag block NOFL_BLOCK_ZERO then
          counted.noflBlockClearFlag block (NOFL_BLOCK_ZERO ||| NOFL_BLOCK_PAGED_OUT)
        else counted
      some ({ alloc := block, sweep := blockLimit block, block := some block }, cleared)

/-- `nofl_allocator_acquire_evacuation_target`; `nofl_allocator_next_hole` tries the two lists in
the same order. A block without a hole would be forgotten for an empty block. -/
def noflAllocatorAcquireEvacuationTarget : Option (Allocator × BlockSpace) :=
  match space.noflAllocatorAcquirePartlyFullBlock with
  | none => space.noflAllocatorAcquireEmptyBlock
  | some (granules, allocator, popped) =>
      if granules ≠ 0 then some (allocator, popped)
      else popped.noflAllocatorAcquireEmptyBlock.getD (allocator, popped)

/-! ## Collections -/

/-- The buckets of the histogram of `nofl_space_prepare_evacuation`. -/
def evacuationBucketCount : ℕ := 33

def evacuationBucketSize : ℕ := NOFL_GRANULES_PER_BLOCK / 32

/-- The bucket of a block, by the granules that survived the last collection. -/
def evacuationBucket (block : ℕ) : ℕ :=
  (NOFL_GRANULES_PER_BLOCK - (space.summary block).holeGranules + evacuationBucketSize - 1) /
    evacuationBucketSize

/-- How many blocks of each bucket there are. -/
def evacuationHistogram (bucket : ℕ) : ℕ :=
  (space.blocksOf .toSweep).countP fun block => space.evacuationBucket block = bucket

/-- The loop that selects the number of blocks of each bucket that is likely to fill the target
blocks, from bucket `bucket` on. -/
def selectBuckets : ℕ → ℕ → ℕ → (ℕ → ℕ) → ℕ → ℕ
  | 0, _, _, histogram => histogram
  | rounds + 1, bucket, targetGranules, histogram =>
      let bucketGranules := bucket * evacuationBucketSize * histogram bucket
      if bucketGranules ≤ targetGranules then
        selectBuckets rounds (bucket + 1) (targetGranules - bucketGranules) histogram
      else
        selectBuckets rounds (bucket + 1) 0
          (update histogram bucket (targetGranules / (evacuationBucketSize * bucket)))

/-- The loop that flags the candidates for evacuation. -/
def flagCandidates : List ℕ → (ℕ → ℕ) → BlockSpace → BlockSpace
  | [], _, space => space
  | block :: blocks, histogram, space =>
      let bucket := space.evacuationBucket block
      if histogram bucket ≠ 0 then
        flagCandidates blocks (update histogram bucket (histogram bucket - 1))
          (space.noflBlockSetFlag block NOFL_BLOCK_EVACUATE)
      else flagCandidates blocks histogram (space.noflBlockClearFlag block NOFL_BLOCK_EVACUATE)

def noflSpacePrepareEvacuation : BlockSpace :=
  let drained := space.drain .evacuationTargets .empty
  let targetBlocks := drained.noflBlockCount .empty
  if targetBlocks = 0 then drained
  else
    let histogram := selectBuckets evacuationBucketCount 0 (targetBlocks * NOFL_GRANULES_PER_BLOCK)
      drained.evacuationHistogram
    flagCandidates (drained.blocksOf .toSweep) histogram
      { drained with evacuationReserve := 1 / 2, evacuating := true }

/-- What `nofl_space_start_gc` does with the old generation, unless the collection is minor. -/
def drainOldGeneration : BlockSpace :=
  let drained := (space.drain .promoted .toSweep).drain .old .toSweep
  { drained with statistics := { drained.statistics with oldGenerationGranules := 0 } }

def noflSpaceStartGc (kind : CollectionKind) : BlockSpace :=
  let young := (space.drain .partlyFull .toSweep).drain .full .toSweep
  let all := if kind ≠ .minor then young.drainOldGeneration else young
  if kind = .compacting then all.noflSpacePrepareEvacuation else all

/-- The loop of `nofl_space_finish_evacuation`. -/
def refillReserve : ℕ → BlockSpace → BlockSpace
  | 0, space => space
  | reserve + 1, space =>
      match space.noflPopEmptyBlock with
      | none => space
      | some (block, popped) =>
          refillReserve reserve (popped.noflBlockListPush .evacuationTargets block)

def noflSpaceFinishEvacuation : BlockSpace :=
  refillReserve (space.evacuationTarget space.evacuationMinimumReserve)
    { space with evacuating := false }

/-- The loop of `nofl_space_finish_gc` that returns evacuation targets above `target`. -/
def returnReserve (target : ℕ) : ℕ → BlockSpace → BlockSpace
  | 0, space => space
  | reserve + 1, space =>
      if reserve + 1 > target then
        match space.noflBlockListPop .evacuationTargets with
        | none => space
        | some (block, popped) => returnReserve target reserve (popped.noflPushEmptyBlock block)
      else space

def resetReserve : BlockSpace :=
  let reset := { space with evacuationReserve := space.evacuationMinimumReserve }
  returnReserve (reset.evacuationTarget reset.evacuationMinimumReserve)
    reset.noflEvacuationBlockCount reset

/-- What `nofl_space_finish_gc` does with a block that was to be swept, if it is not marked. -/
def reclaimBlock (block : ℕ) : BlockSpace :=
  (space.noflPushEvacuationTargetIfPossible block).getD (space.noflPushEmptyBlock block)

/-- What the loop of `nofl_space_finish_gc` over the blocks to sweep does with a block. -/
def keepOrReclaim (marked : ℕ → Bool) (block : ℕ) : BlockSpace :=
  if marked block then space.noflBlockListPush .kept block else space.reclaimBlock block

/-- The local list becomes the list of the space. -/
def takeKept : BlockSpace :=
  { space with
    lists := update (update space.lists .toSweep (space.lists .kept)) .kept
      { count := 0, blocks := 0 } }

def reclaimBlocks (marked : ℕ → Bool) : BlockSpace :=
  (whilePops .toSweep (fun block popped => popped.keepOrReclaim marked block)
    (space.noflBlockCount .toSweep) space).takeKept

/-- Sweeps a promoted block, in which there are `holes`. -/
def sweepPromotedBlock (holes : List Hole) (block : ℕ) : BlockSpace :=
  let cleared := space.setSummary block (space.summary block).clearCounters
  let swept := noflAllocatorFinishSweepingInBlock block
    { alloc := block, sweep := block, block := some block } holes cleared
  swept.addOldGenerationGranules (NOFL_GRANULES_PER_BLOCK - (swept.summary block).holeGranules)

/-- What the loop of `nofl_space_promote_blocks` does with a block. -/
def promoteBlock (holes : List Hole) (block : ℕ) : BlockSpace :=
  (space.sweepPromotedBlock holes block).noflBlockListPush .old block

def noflSpacePromoteBlocks (holes : ℕ → List Hole) : BlockSpace :=
  whilePops .promoted (fun block popped => popped.promoteBlock (holes block) block)
    (space.noflBlockCount .promoted) space

def noflSpaceResetStatistics : BlockSpace :=
  { space with
    statistics :=
      { space.statistics with
        survivorGranulesAtLastCollection := 0
        allocatedGranulesSinceLastCollection := 0
        fragmentationGranulesSinceLastCollection := 0 } }

def noflSpaceFinishGc (kind : CollectionKind) (marked : ℕ → Bool) (holes : ℕ → List Hole) :
    BlockSpace :=
  let started := { space with lastCollectionWasMinor := decide (kind = CollectionKind.minor) }
  let refilled :=
    if started.evacuating then started.noflSpaceFinishEvacuation else started.resetReserve
  ((refilled.reclaimBlocks marked).noflSpacePromoteBlocks holes).noflSpaceResetStatistics

/-- `nofl_space_set_heap_has_ambiguous_edges`, as far as blocks go. -/
def noflSpaceSetHeapHasAmbiguousEdges : BlockSpace :=
  if space.heapHasAmbiguousEdges then space
  else
    { space with
      heapHasAmbiguousEdges := true
      evacuationMinimumReserve := 0
      evacuationReserve := 0 }

/-! ## Initialization -/

/-- The loop of `nofl_space_init`: the blocks beyond the size of the heap start out unavailable.
`excess` is `reserved - size`. -/
def initLoop : List ℕ → ℕ → BlockSpace → BlockSpace
  | [], _, space => space
  | block :: blocks, excess, space =>
      let fresh := space.noflBlockSetFlag block (NOFL_BLOCK_ZERO ||| NOFL_BLOCK_PAGED_OUT)
      if excess > 0 then
        initLoop blocks (excess - NOFL_BLOCK_SIZE) (fresh.noflPushUnavailableBlock block)
      else initLoop blocks excess (fresh.pushAvailableBlock block)

/-- A space without slabs. -/
def unused (evacuationMinimumReserve promotionThreshold : ℚ) (ambiguous generational : Bool) :
    BlockSpace :=
  { lists := fun _ => { count := 0, blocks := 0 }
    summary := fun _ =>
      { holeCount := 0, holeGranules := 0, holesWithFragmentation := 0,
        fragmentationGranules := 0, nextAndFlags := 0 }
    slabs := []
    evacuating := false
    lastCollectionWasMinor := false
    heapHasAmbiguousEdges := ambiguous
    evacuationMinimumReserve := evacuationMinimumReserve
    evacuationReserve := evacuationMinimumReserve
    promotionThreshold := promotionThreshold
    pendingUnavailableBytes := 0
    statistics :=
      { oldGenerationGranules := 0, survivorGranulesAtLastCollection := 0,
        allocatedGranulesSinceLastCollection := 0,
        fragmentationGranulesSinceLastCollection := 0 }
    generational := generational }

/-- The number of slabs of a heap of `size` bytes. -/
def slabsFor (size : ℕ) : ℕ :=
  alignUp (alignUp size NOFL_BLOCK_SIZE) NOFL_SLAB_SIZE / NOFL_SLAB_SIZE

/-- `nofl_space_init` for a heap of `size` bytes, with its slabs at `base`. -/
def noflSpaceInit (size base : ℕ) : BlockSpace :=
  let slabs := NoflSpace.slabsAt base (slabsFor size)
  let size := alignUp size NOFL_BLOCK_SIZE
  initLoop (slabs.flatMap NoflSpace.slabBlocks) (alignUp size NOFL_SLAB_SIZE - size)
    (space.noflSpaceAddSlabs slabs)

end BlockSpace

/-! ## The system -/

/-- Whose allocator it is. -/
inductive AllocatorName where
  | mutator (mutator : Mutator)
  /-- The allocator of a trace worker, for evacuation. -/
  | worker (index : ℕ)
  deriving DecidableEq, Repr

structure BlockWorld where
  space : BlockSpace
  allocator : AllocatorName → Allocator

inductive BlockAction where
  /-- An allocation of `granules` from the hole of the allocator. -/
  | bump (name : AllocatorName) (granules : ℕ)
  /-- A turn of the loop of `nofl_allocator_next_hole_in_block_of_size`: the rest of the hole is
  finished, and sweeping finds the next hole or the end of the block. -/
  | sweep (name : AllocatorName) (hole : Option Hole)
  | acquireBlockToSweep (name : AllocatorName)
  | acquireEvacuationTarget (name : AllocatorName)
  | acquireEmptyBlock (name : AllocatorName)
  /-- A partly full block whose hole is too small. -/
  | rejectPartlyFullBlock (name : AllocatorName)
  | releaseFullEvacuationTarget (name : AllocatorName)
  /-- `nofl_allocator_finish`, where sweeping the rest of the block finds `holes`. -/
  | finish (name : AllocatorName) (holes : List Hole)
  | requestReleaseMemory (bytes : ℕ)
  | shrink (bytes : ℕ)
  | expand (bytes base : ℕ)
  | advancePageOutQueue
  | pageOutBlocks
  | setHeapHasAmbiguousEdges
  | startGc (kind : CollectionKind)
  | finishGc (kind : CollectionKind) (marked : ℕ → Bool) (holes : ℕ → List Hole)

/-- Memory for `count` slabs at `base` that the operating system can give: aligned, not at the
null address, inside the address space, and not in use. -/
def SlabsAvailable (inUse : List ℕ) (base count : ℕ) : Prop :=
  base ≠ 0 ∧ base % NOFL_SLAB_SIZE = 0 ∧ base + count * NOFL_SLAB_SIZE ≤ 2 ^ 64 ∧
    ∀ slab ∈ inUse, slab ∉ NoflSpace.slabsAt base count

instance (inUse : List ℕ) (base count : ℕ) : Decidable (SlabsAvailable inUse base count) :=
  inferInstanceAs (Decidable (_ ∧ _ ∧ _ ∧ _))

namespace BlockWorld

variable (world : BlockWorld)

def setAllocator (name : AllocatorName) (allocator : Allocator) : BlockWorld :=
  { world with allocator := update world.allocator name allocator }

/-- The allocator has given its block back, and the space is `space` after that. -/
def released (name : AllocatorName) (space : BlockSpace) : BlockWorld :=
  { space := space
    allocator := update world.allocator name Allocator.noflAllocatorReset }

/-- Hands the allocator what it acquired. Without a block, nothing changes. -/
def acquired (name : AllocatorName) : Option (Allocator × BlockSpace) → BlockWorld
  | none => world
  | some (allocator, space) =>
      { space := space
        allocator := update world.allocator name allocator }

def bump (name : AllocatorName) (granules : ℕ) : Outcome Empty BlockWorld := do
  let allocator := world.allocator name
  Outcome.require (allocator.alloc + granules * NOFL_GRANULE_SIZE ≤ allocator.sweep)
  pure (world.setAllocator name
    { allocator with alloc := allocator.alloc + granules * NOFL_GRANULE_SIZE })

/-- The hole is in the part of the block that is not swept yet. -/
def IsNextHole (block : ℕ) (allocator : Allocator) (hole : Hole) : Prop :=
  allocator.sweep ≤ hole.addr ∧ hole.addr % NOFL_GRANULE_SIZE = 0 ∧ 0 < hole.granules ∧
    hole.addr + hole.granules * NOFL_GRANULE_SIZE ≤ blockLimit block

instance (block : ℕ) (allocator : Allocator) (hole : Hole) :
    Decidable (IsNextHole block allocator hole) :=
  inferInstanceAs (Decidable (_ ∧ _ ∧ _ ∧ _))

def sweepTurn (name : AllocatorName) (block : ℕ) : Option Hole → Outcome Empty BlockWorld
  | none =>
      let finished := world.space.noflAllocatorFinishHole block (world.allocator name)
      pure (world.released name (finished.noflAllocatorReleaseFullBlock block))
  | some hole => do
      Outcome.require (IsNextHole block (world.allocator name) hole)
      let finished := world.space.noflAllocatorFinishHole block (world.allocator name)
      pure
        { space := finished.countHole block hole
          allocator := update world.allocator name
            { alloc := hole.addr
              sweep := hole.addr + hole.granules * NOFL_GRANULE_SIZE
              block := some block } }

/-- A step of an allocator that has a block. -/
def withBlock (name : AllocatorName) (act : ℕ → Outcome Empty BlockWorld) :
    Outcome Empty BlockWorld :=
  match (world.allocator name).block with
  | some block => act block
  | none => .disabled

/-- A step of an allocator that has no block. -/
def withoutBlock (name : AllocatorName) (result : Option (Allocator × BlockSpace)) :
    Outcome Empty BlockWorld := do
  Outcome.require ((world.allocator name).block = none)
  pure (world.acquired name result)

end BlockWorld

open BlockWorld in
def blockStep (world : BlockWorld) : BlockAction → Outcome Empty BlockWorld
  | .bump name granules => world.bump name granules
  | .sweep name hole => world.withBlock name fun block => world.sweepTurn name block hole
  | .acquireBlockToSweep name =>
      world.withoutBlock name world.space.noflAllocatorAcquireBlockToSweep
  | .acquireEvacuationTarget name =>
      world.withoutBlock name world.space.noflAllocatorAcquireEvacuationTarget
  | .acquireEmptyBlock name => world.withoutBlock name world.space.noflAllocatorAcquireEmptyBlock
  | .rejectPartlyFullBlock name =>
      world.withBlock name fun block =>
        let finished := world.space.noflAllocatorFinishHole block (world.allocator name)
        pure (world.released name (finished.noflAllocatorReleaseFullBlock block))
  | .releaseFullEvacuationTarget name =>
      world.withBlock name fun block =>
        pure (world.released name
          (world.space.noflAllocatorReleaseFullEvacuationTarget block (world.allocator name)))
  | .finish name holes =>
      world.withBlock name fun block =>
        pure (world.released name
          (world.space.noflAllocatorReleaseBlock block (world.allocator name) holes))
  | .requestReleaseMemory bytes =>
      pure { world with space := world.space.noflSpaceRequestReleaseMemory bytes }
  | .shrink bytes => pure { world with space := world.space.noflSpaceShrink bytes }
  | .expand bytes base => do
      let needed := -(world.space.noflSpaceMaybeReacquireMemory bytes).pendingUnavailableBytes
      Outcome.require (needed < NOFL_BLOCK_SIZE ∨
        SlabsAvailable world.space.slabs base (NoflSpace.slabsToAcquire needed.toNat))
      pure { world with space := world.space.noflSpaceExpand bytes base }
  | .advancePageOutQueue =>
      pure { world with space := world.space.noflSpaceAdvancePageOutQueue }
  | .pageOutBlocks => pure { world with space := world.space.noflSpacePageOutBlocks }
  | .setHeapHasAmbiguousEdges =>
      pure { world with space := world.space.noflSpaceSetHeapHasAmbiguousEdges }
  | .startGc kind => pure { world with space := world.space.noflSpaceStartGc kind }
  | .finishGc kind marked holes =>
      pure { world with space := world.space.noflSpaceFinishGc kind marked holes }

/-- A space that was just initialized. -/
def IsFreshSpace (space : BlockSpace) : Prop :=
  ∃ (size base : ℕ) (reserve threshold : ℚ) (ambiguous generational : Bool),
    SlabsAvailable [] base (BlockSpace.slabsFor size) ∧
      space = (BlockSpace.unused reserve threshold ambiguous generational).noflSpaceInit size base

/-- The blocks of the space, under any number of allocators. -/
def blockSystem : System BlockWorld BlockAction Empty :=
  { initial := fun world =>
      IsFreshSpace world.space ∧ world.allocator = fun _ => Allocator.noflAllocatorReset
    step := blockStep }

end Whippet.Nofl
