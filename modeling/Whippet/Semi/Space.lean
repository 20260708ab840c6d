import Mathlib.Data.Nat.Basic
import Whippet.Library.Checked
import Whippet.Nofl.Space
import Whippet.Types

/-!
The spaces of the semi-space collector and how their sizes change (`semi.c`).

Owns: the two regions with their active and mapped sizes, the pages that large objects steal from
them, the flip, the limits that a collection sets, the sizer's resizing of the heap, and the two
allocation paths with their collections. Does not own: what a collection copies. How many bytes it
copies and which large objects survive come in with the action.
-/

namespace Whippet.Semi

open Nofl (alignUp)

/-- The assertions on sizes and limits, by function and condition. -/
inductive Assertion where
  /-- `region_trim_by`: `newly_unavailable <= region->active_size`. -/
  | trimActive
  /-- `region_set_active_size`: `size <= region->mapped_size`. -/
  | setActiveMapped
  /-- `region_set_active_size`: `size == align_up(size, gc_platform_page_size())`. -/
  | setActiveAligned
  /-- `flip`: `space->hp <= space->limit`. -/
  | flipLimit
  /-- `flip`: `space->limit - space->to_space.base <= space->to_space.active_size`. -/
  | flipActive
  /-- `flip`: `space->to_space.active_size <= space->from_space.mapped_size`. -/
  | flipMapped
  /-- `reset_heap_limits`: `new_region_size > stolen/2`. -/
  | resetStolen
  /-- `reset_heap_limits`: `semi->hp <= new_limit`. -/
  | resetLimit
  /-- `semi_space_contains`: `!region_contains(&space->to_space, addr)`. -/
  | containsToSpace
  deriving DecidableEq, Repr

def GC_ALIGNMENT : ℕ := 8
def GC_LARGE_OBJECT_THRESHOLD : ℕ := 8192

structure Region where
  base : ℕ
  activeSize : ℕ
  mappedSize : ℕ
  deriving DecidableEq, Repr

structure SemiSpace where
  hp : ℕ
  limit : ℕ
  fromSpace : Region
  toSpace : Region
  pageSize : ℕ
  stolenPages : ℕ
  liveBytesAtLastGc : ℕ
  deriving DecidableEq, Repr

/-- The large objects in use, by their numbers of pages. The lists are what the marks and the
object map tell; the code itself keeps the count. -/
structure LargeObjectSpace where
  livePagesAtLastCollection : ℕ
  /-- Those that the last collection marked. -/
  survivors : List ℕ
  /-- Those allocated since, the latest first. -/
  allocated : List ℕ
  deriving DecidableEq, Repr

structure Heap where
  semiSpace : SemiSpace
  largeObjectSpace : LargeObjectSpace
  size : ℕ
  /-- `heap_size_policy == GC_HEAP_SIZE_FIXED`. -/
  fixedSize : Bool
  deriving DecidableEq, Repr

/-! ## Regions -/

def regionTrimBy (region : Region) (newlyUnavailable : ℕ) : Outcome Assertion Region := do
  Outcome.check (newlyUnavailable ≤ region.activeSize) .trimActive
  pure { region with activeSize := region.activeSize - newlyUnavailable }

def regionSetActiveSize (pageSize : ℕ) (region : Region) (size : ℕ) :
    Outcome Assertion Region := do
  Outcome.check (size ≤ region.mappedSize) .setActiveMapped
  Outcome.check (size = alignUp size pageSize) .setActiveAligned
  if size < region.activeSize then regionTrimBy region (region.activeSize - size)
  else pure { region with activeSize := size }

def regionContains (region : Region) (addr : ℕ) : Bool :=
  decide (sizeSub addr region.base < region.activeSize)

/-- `mem` is what `gc_platform_acquire_memory` returns, if anything. -/
def growRegionIfNeeded (region : Region) (newSize : ℕ) (mem : Option ℕ) : Region :=
  if newSize ≤ region.mappedSize then region
  else
    match mem with
    | none => region
    | some base => { base := base, activeSize := 0, mappedSize := newSize }

/-! ## The semi-space -/

/-- The pages that `npages` more stolen pages take from each region. -/
def regionNewlyStolenPages (space : SemiSpace) (npages : ℕ) : ℕ :=
  alignUp (space.stolenPages + npages) 2 / 2 - alignUp space.stolenPages 2 / 2

/-- Returns the space as it was if there is not enough room below the limit. -/
def semiSpaceStealPages (space : SemiSpace) (npages : ℕ) :
    Outcome Assertion (SemiSpace × Bool) := do
  let bytes := regionNewlyStolenPages space npages * space.pageSize
  if sizeSub space.limit space.hp < bytes then pure (space, false)
  else
    let space := { space with stolenPages := space.stolenPages + npages }
    if bytes = 0 then pure (space, true)
    else
      let toSpace ← regionTrimBy space.toSpace bytes
      let fromSpace ← regionTrimBy space.fromSpace bytes
      pure ({ space with
        limit := space.limit - bytes, toSpace := toSpace, fromSpace := fromSpace }, true)

def semiSpaceFinishGc (space : SemiSpace) (largeObjectPages : ℕ) : SemiSpace :=
  { space with
    liveBytesAtLastGc := space.hp - space.toSpace.base
    stolenPages := largeObjectPages
    limit := 0 }

def flip (space : SemiSpace) : Outcome Assertion SemiSpace := do
  Outcome.check (space.hp ≤ space.limit) .flipLimit
  Outcome.check (space.limit - space.toSpace.base ≤ space.toSpace.activeSize) .flipActive
  Outcome.check (space.toSpace.activeSize ≤ space.fromSpace.mappedSize) .flipMapped
  pure { space with
    fromSpace := space.toSpace
    toSpace := space.fromSpace
    hp := space.fromSpace.base
    limit := space.fromSpace.base + space.fromSpace.activeSize }

/-! ## Sizing -/

def resizeHeap (heap : Heap) (newHeapSize : ℕ) (mem : Option ℕ) : Heap :=
  let semi := heap.semiSpace
  let newHeapSize := alignUp newHeapSize (semi.pageSize * 2)
  let newRegionSize := newHeapSize / 2
  let fromSpace :=
    growRegionIfNeeded semi.fromSpace (max newRegionSize semi.toSpace.mappedSize) mem
  let newRegionSize := min newRegionSize (min semi.toSpace.mappedSize fromSpace.mappedSize)
  { heap with
    semiSpace := { semi with fromSpace := fromSpace }
    size := newRegionSize * 2 }

def resetHeapLimits (heap : Heap) : Outcome Assertion Heap := do
  let semi := heap.semiSpace
  let newRegionSize := alignUp heap.size (semi.pageSize * 2) / 2
  let stolen := alignUp semi.stolenPages 2 * semi.pageSize
  Outcome.check (newRegionSize > stolen / 2) .resetStolen
  let newActiveRegionSize := newRegionSize - stolen / 2
  let fromSpace ← regionSetActiveSize semi.pageSize semi.fromSpace newActiveRegionSize
  let toSpace ← regionSetActiveSize semi.pageSize semi.toSpace newActiveRegionSize
  let newLimit := toSpace.base + newActiveRegionSize
  Outcome.check (semi.hp ≤ newLimit) .resetLimit
  pure { heap with
    semiSpace := { semi with fromSpace := fromSpace, toSpace := toSpace, limit := newLimit } }

/-! ## Collections -/

/-- What one collection finds and decides. -/
structure Collection where
  /-- The bytes that it copies. -/
  copied : ℕ
  /-- The numbers of pages of the large objects that it marks. -/
  survivors : List ℕ
  /-- The sizes the sizer resizes the heap to, with the memory for a larger region. -/
  resizes : List (ℕ × Option ℕ)
  deriving DecidableEq, Repr

def largeObjectSpaceFinishGc (space : LargeObjectSpace) (survivors : List ℕ) :
    LargeObjectSpace :=
  { space with
    livePagesAtLastCollection := survivors.sum, survivors := survivors, allocated := [] }

/-- `collect`. The survivors are among the objects there are, and no more than these are copied. -/
def collect (heap : Heap) (collection : Collection) : Outcome Assertion Heap := do
  let semi ← flip heap.semiSpace
  Outcome.require (collection.copied ≤ heap.semiSpace.hp - heap.semiSpace.toSpace.base)
  Outcome.require (collection.survivors.Sublist
    (heap.largeObjectSpace.allocated ++ heap.largeObjectSpace.survivors))
  Outcome.require (heap.fixedSize = true → collection.resizes = [])
  let semi := { semi with hp := semi.hp + collection.copied }
  let large := largeObjectSpaceFinishGc heap.largeObjectSpace collection.survivors
  let semi := semiSpaceFinishGc semi large.livePagesAtLastCollection
  let heap := { heap with semiSpace := semi, largeObjectSpace := large }
  resetHeapLimits
    (collection.resizes.foldl (fun heap resize => resizeHeap heap resize.1 resize.2) heap)

/-- Collects once, and a second time if that does not do and the heap may grow. Returns whether
there is room for `bytes`. -/
def collectForAlloc (heap : Heap) (bytes : ℕ) (first second : Collection) :
    Outcome Assertion (Heap × Bool) := do
  let heap ← collect heap first
  if bytes ≤ sizeSub heap.semiSpace.limit heap.semiSpace.hp then pure (heap, true)
  else if heap.fixedSize = true then pure (heap, false)
  else do
    let heap ← collect heap second
    pure (heap, decide (bytes ≤ sizeSub heap.semiSpace.limit heap.semiSpace.hp))

def collectForLargeAlloc (heap : Heap) (npages : ℕ) (first second : Collection) :
    Outcome Assertion (Heap × Bool) :=
  let bytes := npages * heap.semiSpace.pageSize
  collectForAlloc heap (bytes / 2) first second

/-! ## Allocation -/

def largeObjectSpaceNpages (pageSize bytes : ℕ) : ℕ := (bytes + pageSize - 1) / pageSize

def largeObjectSpaceAlloc (space : LargeObjectSpace) (npages : ℕ) : LargeObjectSpace :=
  { space with allocated := npages :: space.allocated }

/-- `allocate_large`. It returns through the failure handler if there is no room after collecting,
and allocates in the other two cases. -/
def allocateLarge (heap : Heap) (size : ℕ) (first second : Collection) :
    Outcome Assertion Heap := do
  let npages := largeObjectSpaceNpages heap.semiSpace.pageSize size
  let (semi, stolen) ← semiSpaceStealPages heap.semiSpace npages
  let heap := { heap with semiSpace := semi }
  if stolen = true then
    pure { heap with largeObjectSpace := largeObjectSpaceAlloc heap.largeObjectSpace npages }
  else do
    let (heap, room) ← collectForLargeAlloc heap npages first second
    if room = true then
      pure { heap with largeObjectSpace := largeObjectSpaceAlloc heap.largeObjectSpace npages }
    else pure heap

/-- One turn of the loop of `gc_allocate_slow` for a small object. The inline allocator bumps the
same pointer. -/
def allocateSmall (heap : Heap) (size : ℕ) (first second : Collection) :
    Outcome Assertion Heap := do
  let newHp := alignUp (heap.semiSpace.hp + size) GC_ALIGNMENT
  if heap.semiSpace.limit < newHp then do
    let (heap, _) ← collectForAlloc heap size first second
    pure heap
  else pure { heap with semiSpace := { heap.semiSpace with hp := newHp } }

def gcAllocateSlow (heap : Heap) (size : ℕ) (first second : Collection) :
    Outcome Assertion Heap :=
  if size > GC_LARGE_OBJECT_THRESHOLD then allocateLarge heap size first second
  else allocateSmall heap size first second

/-! ## Runs -/

inductive Action where
  | allocate (size : ℕ) (first second : Collection)
  /-- `gc_collect`. -/
  | collect (collection : Collection)
  deriving DecidableEq, Repr

def step (heap : Heap) : Action → Outcome Assertion Heap
  | .allocate size first second => gcAllocateSlow heap size first second
  | .collect collection => collect heap collection

def regionInit (base size : ℕ) : Region :=
  { base := base, activeSize := size, mappedSize := size }

/-- The heap of `gc_init`, with the memory of its two regions at the given addresses. -/
def initialHeap (fixedSize : Bool) (pageSize size fromBase toBase : ℕ) : Heap :=
  let regionSize := alignUp size (pageSize * 2) / 2
  { semiSpace :=
      { hp := toBase
        limit := toBase + regionSize
        fromSpace := regionInit fromBase regionSize
        toSpace := regionInit toBase regionSize
        pageSize := pageSize
        stolenPages := 0
        liveBytesAtLastGc := 0 }
    largeObjectSpace := { livePagesAtLastCollection := 0, survivors := [], allocated := [] }
    size := size
    fixedSize := fixedSize }

/-- The semi-space collector with one mutator. -/
def system : System Heap Action Assertion :=
  { initial := fun heap => ∃ fixedSize pageSize size fromBase toBase, 0 < pageSize ∧
      heap = initialHeap fixedSize pageSize size fromBase toBase
    step := step }

end Whippet.Semi
