import Mathlib.Data.Finset.Interval
import Mathlib.Order.Interval.Finset.Nat
import Whippet.Library.Checked
import Whippet.Nofl.BlockLists
import Whippet.Nofl.SweepBlock

/-!
One block and the allocators that hold it, one after the other (`nofl-space.h`).

An allocator takes the block to sweep it, to go on with the hole at its end or to fill it from its
start; it allocates from holes, and it releases the block as full, as partly full or as a full
evacuation target. An action is a function of the program, a turn of the loop over holes, or a write
of a mutator or a tracer. A collection gives a block that nobody holds other metadata.

Owns: acquiring and releasing the block with its metadata and its memory, and the system of these
actions. Does not own: the other blocks, the lists that blocks are on, and which block is acquired.
-/

namespace Whippet.Nofl

open Function

def NOFL_GRANULE_SIZE_LOG_2 : ℕ := 4

/-- Where the block is: on a list, or with an allocator. Blocks of the reserve for evacuation are
empty. -/
inductive BlockPlace where
  | toSweep
  | empty
  | held
  | partlyFull
  | full
  | promoted
  | old
  deriving DecidableEq, Repr

/-- What the assertions of acquiring, allocating and releasing exclude. -/
inductive LifeFailure where
  | tooLarge
  | holeNotFinished
  | nothingAllocated
  | holeNotAtEnd
  | severalHoles
  | partlySwept
  | noHole
  | fragmented
  | sweep (failure : SweepFailure)
  deriving DecidableEq, Repr

/-- A block, the allocator that holds it, and what both read of the space. The program does not keep
the `bytes` that the metadata of the block had when it was acquired, the granules that were
`handedOut` since then, and the pointers of the allocator when it `released` the block. -/
structure BlockLife where
  sweeper : Sweeper
  place : BlockPlace
  evacuating : Bool
  survivorMark : Byte
  generational : Bool
  promotionThreshold : ℚ
  statistics : Statistics
  bytes : ℕ → Byte
  handedOut : Finset ℕ
  released : ℕ × ℕ

namespace BlockLife

variable (life : BlockLife)

/-- The end of the block. -/
def limit : ℕ := life.sweeper.block + NOFL_BLOCK_SIZE

def setSummary (summary : BlockSummary) : BlockLife :=
  { life with sweeper := { life.sweeper with summary := summary } }

/-! ## Releasing -/

/-- Pushes the block to a list and resets the allocator, which has no block then. -/
def releaseTo (place : BlockPlace) : BlockLife :=
  { life with
    sweeper := { life.sweeper with alloc := 0, sweep := 0 }
    place := place
    released := (life.sweeper.alloc, life.sweeper.sweep) }

def noflShouldPromoteBlock : Bool :=
  if !life.generational then false
  else decide
    (life.sweeper.summary.holeGranules < ⌊NOFL_GRANULES_PER_BLOCK * life.promotionThreshold⌋₊)

def noflAllocatorReleaseFullBlock : Outcome LifeFailure BlockLife := do
  Outcome.check (life.sweeper.alloc = life.sweeper.sweep) .holeNotFinished
  let summary := life.sweeper.summary
  let counted :=
    { life with
      statistics :=
        { life.statistics with
          allocatedGranulesSinceLastCollection :=
            life.statistics.allocatedGranulesSinceLastCollection + summary.holeGranules
          survivorGranulesAtLastCollection :=
            life.statistics.survivorGranulesAtLastCollection +
              (NOFL_GRANULES_PER_BLOCK - summary.holeGranules)
          fragmentationGranulesSinceLastCollection :=
            life.statistics.fragmentationGranulesSinceLastCollection +
              summary.fragmentationGranules } }
  return counted.releaseTo (if life.noflShouldPromoteBlock then .promoted else .full)

def noflAllocatorReleaseFullEvacuationTarget : Outcome LifeFailure BlockLife := do
  let sweeper := life.sweeper
  let summary := sweeper.summary
  Outcome.check (sweeper.alloc > sweeper.block) .nothingAllocated
  Outcome.check (sweeper.sweep = life.limit) .holeNotAtEnd
  let holeSize := sweeper.sweep - sweeper.alloc
  Outcome.check (summary.holeCount = 1) .severalHoles
  Outcome.check (summary.holeGranules = NOFL_GRANULES_PER_BLOCK) .partlySwept
  let counted :=
    { life with
      statistics :=
        { life.statistics with
          oldGenerationGranules :=
            life.statistics.oldGenerationGranules + NOFL_GRANULES_PER_BLOCK } }
  if holeSize ≠ 0 then
    let holeSize := holeSize >>> NOFL_GRANULE_SIZE_LOG_2
    return (counted.setSummary
      { summary with
        holesWithFragmentation := 1
        -- `holeSize` is in granules already.
        fragmentationGranules := holeSize / NOFL_GRANULE_SIZE }).releaseTo .old
  else do
    Outcome.check (summary.fragmentationGranules = 0) .fragmented
    Outcome.check (summary.holesWithFragmentation = 0) .fragmented
    return counted.releaseTo .old

def noflAllocatorReleasePartlyFullBlock : Outcome LifeFailure BlockLife := do
  let sweeper := life.sweeper
  Outcome.check (sweeper.alloc > sweeper.block) .nothingAllocated
  Outcome.check (sweeper.sweep = life.limit) .holeNotAtEnd
  let holeSize := sweeper.sweep - sweeper.alloc
  Outcome.check (holeSize ≠ 0) .noHole
  return (life.setSummary
    { sweeper.summary with
      fragmentationGranules := holeSize / NOFL_GRANULE_SIZE }).releaseTo .partlyFull

/-- What the sweep of the allocator does to the block. -/
def withSweeper (sweep : Outcome SweepFailure Sweeper) : Outcome LifeFailure BlockLife := do
  let sweeper ← sweep.mapFailure .sweep
  return { life with sweeper := sweeper }

def noflAllocatorReleaseBlock : Outcome LifeFailure BlockLife :=
  if life.sweeper.alloc < life.sweeper.sweep ∧ life.sweeper.sweep = life.limit ∧
      life.sweeper.summary.holesWithFragmentation = 0 then
    life.noflAllocatorReleasePartlyFullBlock
  else if life.evacuating then life.noflAllocatorReleaseFullEvacuationTarget
  else do
    let swept ← life.withSweeper
      (noflAllocatorFinishSweepingInBlock life.sweeper life.survivorMark !life.evacuating)
    swept.noflAllocatorReleaseFullBlock

/-! ## Acquiring -/

/-- The allocator that takes the block has these `holes`, from other blocks. -/
def acquire (alloc sweep : ℕ) (summary : BlockSummary) (holes : Holeset) : BlockLife :=
  { life with
    place := .held
    sweeper :=
      { life.sweeper with alloc := alloc, sweep := sweep, summary := summary, holes := holes } }

/-- `nofl_allocator_acquire_block_to_sweep`, and the counters that `nofl_allocator_next_hole`
clears after it. -/
def noflAllocatorAcquireBlockToSweep (holes : Holeset) : BlockLife :=
  let block := life.sweeper.block
  { life.acquire block block
      { life.sweeper.summary with
        holeCount := 0
        holeGranules := 0
        holesWithFragmentation := 0
        fragmentationGranules := 0 } holes with
    handedOut := ∅ }

/-- The size of the hole comes with the block. -/
def noflAllocatorAcquirePartlyFullBlock (holes : Holeset) :
    Outcome LifeFailure (BlockLife × ℕ) := do
  let summary := life.sweeper.summary
  Outcome.check (summary.holesWithFragmentation = 0) .fragmented
  let holeGranules := summary.fragmentationGranules
  return (life.acquire (life.limit - holeGranules <<< NOFL_GRANULE_SIZE_LOG_2) life.limit
    { summary with fragmentationGranules := 0 } holes, holeGranules)

def noflAllocatorAcquireEmptyBlock (holes : Holeset) : BlockLife :=
  let block := life.sweeper.block
  let summary :=
    { life.sweeper.summary with
      holeCount := 1
      holeGranules := NOFL_GRANULES_PER_BLOCK
      holesWithFragmentation := 0
      fragmentationGranules := 0 }
  if summary.zero then
    { life.acquire block life.limit { summary with zero := false, pagedOut := false } holes with
      handedOut := ∅ }
  else
    let taken := life.acquire block life.limit summary holes
    { taken with
      sweeper :=
        { taken.sweeper with words := clearWords taken.sweeper.words block NOFL_BLOCK_SIZE }
      handedOut := ∅ }

/-! ## Allocating -/

/-- The granule of the block that an address is in. -/
def granuleOf (addr : ℕ) : ℕ := (addr - life.sweeper.block) / NOFL_GRANULE_SIZE

/-- Moves the allocation pointer over some granules. -/
def bump (granules : ℕ) : BlockLife :=
  let alloc := life.sweeper.alloc + granules * NOFL_GRANULE_SIZE
  { life with
    sweeper := { life.sweeper with alloc := alloc }
    handedOut := life.handedOut ∪
      Finset.Ico (life.granuleOf life.sweeper.alloc) (life.granuleOf alloc) }

/-- `gc_update_alloc_table`, for a kind of allocation with the given pattern. -/
def gcUpdateAllocTable (metadata : ℕ → Byte) (addr granules : ℕ) (beginPattern : Byte) : ℕ → Byte :=
  let byte := noflMetadataByteForAddr addr
  if granules = 1 then update metadata byte (beginPattern ||| NOFL_METADATA_BYTE_END)
  else
    update (update metadata byte beginPattern) (byte + (granules - 1)) NOFL_METADATA_BYTE_END

def noflAllocateBumpPointer (granules : ℕ) (beginPattern : Byte) :
    Outcome LifeFailure BlockLife := do
  Outcome.check (granules * NOFL_GRANULE_SIZE ≤ life.sweeper.sweep - life.sweeper.alloc) .tooLarge
  let bumped := life.bump granules
  return { bumped with
    sweeper :=
      { bumped.sweeper with
        metadata := gcUpdateAllocTable bumped.sweeper.metadata life.sweeper.alloc granules
          beginPattern } }

/-- A turn of the loop of `nofl_allocator_next_hole_in_block_of_size`. -/
def nextHoleTurn (minGranules : ℕ) : Outcome LifeFailure BlockLife := do
  let finished ← life.withSweeper
    (noflAllocatorFinishHole life.sweeper (minGranules ≠ 0 && !life.evacuating))
  let (sweeper, granules) ←
    (noflAllocatorNextHoleInBlock finished.sweeper life.survivorMark).mapFailure .sweep
  let swept := { finished with sweeper := sweeper }
  if granules = 0 then swept.noflAllocatorReleaseFullBlock else return swept

/-- What `nofl_allocator_next_hole` does with a partly full block whose hole is too small. -/
def rejectPartlyFullBlock (minGranules : ℕ) (holes : Holeset) : Outcome LifeFailure BlockLife := do
  let (taken, granules) ← life.noflAllocatorAcquirePartlyFullBlock holes
  Outcome.require (granules < minGranules)
  let finished ← taken.withSweeper (noflAllocatorFinishHole taken.sweeper !life.evacuating)
  finished.noflAllocatorReleaseFullBlock

/-! ## What others write -/

/-- The first granule of the block that is still to be swept. -/
def unsweptFrom : ℕ :=
  match life.place with
  | .toSweep => 0
  | .held => life.granuleOf life.sweeper.sweep
  | _ => NOFL_GRANULES_PER_BLOCK

/-- The rest of the hole, and what an empty block has of zeros: nobody writes there. -/
def untouchable : ℕ × ℕ :=
  match life.place with
  | .held => (life.sweeper.alloc, life.sweeper.sweep)
  | .partlyFull =>
      (life.limit - life.sweeper.summary.fragmentationGranules * NOFL_GRANULE_SIZE, life.limit)
  | .empty => if life.sweeper.summary.zero then (life.sweeper.block, life.limit) else (0, 0)
  | _ => (0, 0)

/-- The bits of a metadata byte that the sweep reads. -/
def sweepBits : Byte := NOFL_METADATA_BYTE_MARK_MASK ||| NOFL_METADATA_BYTE_END

def setByte (index : ℕ) (byte : Byte) : BlockLife :=
  { life with
    sweeper :=
      { life.sweeper with
        metadata := update life.sweeper.metadata
          (noflMetadataByteForAddr life.sweeper.block + index) byte }
    bytes := if life.unsweptFrom ≤ index then update life.bytes index byte else life.bytes }

def setWord (addr value : ℕ) : BlockLife :=
  { life with sweeper := { life.sweeper with words := update life.sweeper.words addr value } }

/-- Other metadata for the whole block; what it is outside of the block does not matter. -/
def setBytes (bytes : ℕ → Byte) : BlockLife :=
  let base := noflMetadataByteForAddr life.sweeper.block
  { life with
    sweeper := { life.sweeper with metadata := fun addr => bytes (addr - base) }
    bytes := bytes }

/-- The block has no survivors; it is zero if it was paged out after that. -/
def reclaim (pagedOut : Bool) : BlockLife :=
  let cleared := life.setBytes fun _ => 0
  let sweeper := cleared.sweeper
  { cleared with
    place := .empty
    sweeper :=
      { sweeper with
        summary := { sweeper.summary with zero := pagedOut, pagedOut := pagedOut }
        words := if pagedOut then clearWords sweeper.words sweeper.block NOFL_BLOCK_SIZE
          else sweeper.words } }

end BlockLife

/-- A mark of survivors. -/
def SurvivorMark : Type := { mark : Byte // IsMark mark ∧ mark ≠ 0 }

/-- The metadata of a block that a collection leaves. -/
def MarkedBytes : Type := { bytes : ℕ → Byte // WellFormed bytes }

inductive LifeAction where
  | acquireBlockToSweep (holes : Holeset)
  | acquirePartlyFullBlock (holes : Holeset)
  | acquireEmptyBlock (holes : Holeset)
  | rejectPartlyFullBlock (minGranules : ℕ) (holes : Holeset)
  /-- An allocation of a mutator. -/
  | allocate (granules : ℕ) (beginPattern : Byte)
  /-- `nofl_evacuation_allocate`, if there is room in the hole. -/
  | evacuate (granules : ℕ)
  /-- `nofl_evacuation_allocate`, if there is no room in the hole. -/
  | releaseFullEvacuationTarget (granules : ℕ)
  | nextHole (minGranules : ℕ)
  /-- `nofl_allocator_finish`. -/
  | finish
  | writeByte (index : ℕ) (byte : Byte)
  | writeWord (addr value : ℕ)
  /-- The start or the end of a collection. -/
  | setEvacuating (evacuating : Bool)
  | mark (bytes : MarkedBytes) (survivorMark : SurvivorMark)
  | reclaim (pagedOut : Bool)

open BlockLife in
def lifeStep (life : BlockLife) : LifeAction → Outcome LifeFailure BlockLife
  | .acquireBlockToSweep holes => do
      Outcome.require (life.place = .toSweep ∧ life.evacuating = false)
      return life.noflAllocatorAcquireBlockToSweep holes
  | .acquirePartlyFullBlock holes => do
      Outcome.require (life.place = .partlyFull)
      let (taken, _) ← life.noflAllocatorAcquirePartlyFullBlock holes
      return taken
  | .acquireEmptyBlock holes => do
      Outcome.require (life.place = .empty)
      return life.noflAllocatorAcquireEmptyBlock holes
  | .rejectPartlyFullBlock minGranules holes => do
      Outcome.require (life.place = .partlyFull ∧ life.evacuating = false)
      life.rejectPartlyFullBlock minGranules holes
  | .allocate granules beginPattern => do
      Outcome.require (life.place = .held ∧ life.evacuating = false ∧ 0 < granules)
      life.noflAllocateBumpPointer granules beginPattern
  | .evacuate granules => do
      Outcome.require (life.place = .held ∧ life.evacuating ∧ 0 < granules ∧
        granules ≤ (life.sweeper.sweep - life.sweeper.alloc) / NOFL_GRANULE_SIZE)
      return life.bump granules
  | .releaseFullEvacuationTarget granules => do
      Outcome.require (life.place = .held ∧ life.evacuating ∧
        (life.sweeper.sweep - life.sweeper.alloc) / NOFL_GRANULE_SIZE < granules)
      life.noflAllocatorReleaseFullEvacuationTarget
  | .nextHole minGranules => do
      Outcome.require (life.place = .held ∧ life.evacuating = false)
      life.nextHoleTurn minGranules
  | .finish => do
      Outcome.require (life.place = .held)
      life.noflAllocatorReleaseBlock
  | .writeByte index byte => do
      Outcome.require (index < NOFL_GRANULES_PER_BLOCK ∧
        (life.unsweptFrom ≤ index → byte &&& sweepBits = life.bytes index &&& sweepBits))
      return life.setByte index byte
  | .writeWord addr value => do
      Outcome.require (addr < life.untouchable.1 ∨ life.untouchable.2 ≤ addr)
      return life.setWord addr value
  | .setEvacuating evacuating => do
      Outcome.require (life.place ≠ .held)
      return { life with evacuating := evacuating }
  | .mark bytes survivorMark => do
      Outcome.require (life.place ≠ .held ∧ life.place ≠ .empty)
      let marked := life.setBytes bytes.val
      return { marked with place := .toSweep, survivorMark := survivorMark.val }
  | .reclaim pagedOut => do
      Outcome.require (life.place ≠ .held)
      return life.reclaim pagedOut

/-- A block of a space that was just initialized. -/
structure IsFreshBlock (life : BlockLife) : Prop where
  proper : life.sweeper.block ≠ 0
  aligned : NOFL_BLOCK_SIZE ∣ life.sweeper.block
  place : life.place = .empty
  zero : life.sweeper.summary.zero = true
  noObjects : life.bytes = fun _ => 0
  metadata : ∀ index < NOFL_GRANULES_PER_BLOCK,
    blockBytes life.sweeper.metadata life.sweeper.block index = 0
  words : ∀ addr, life.sweeper.block ≤ addr → addr < life.limit → life.sweeper.words addr = 0
  isMark : IsMark life.survivorMark
  markNotZero : life.survivorMark ≠ 0

/-- A block, under the allocators that hold it one after the other. -/
def lifeSystem : System BlockLife LifeAction LifeFailure where
  initial := IsFreshBlock
  step := lifeStep

end Whippet.Nofl
