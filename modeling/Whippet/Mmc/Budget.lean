import Whippet.Library.Checked
import Whippet.Nofl.Budget
import Whippet.Types

/-!
The memory budget of the mostly marking collector (`mmc.c`).

Blocks, deferred requests for pages and large objects share the bytes of the heap. One action is
one operation on them; a large allocation is several, since it may trigger collections between
asking for its pages and getting them, and other mutators run in between.

Owns: `resize_heap`, `heap_reset_large_object_pages`, `grow_heap_if_necessary`,
`compute_success`, `allocate_large` and the background tasks as far as they move bytes, and the
budget that all of them but a failed large allocation leave alone. Does not own: how a collection
finds out what is live, and how the sizer chooses a size.
-/

namespace Whippet.Mmc.Budget

open Nofl (NOFL_BLOCK_SIZE NoflSpace alignUp)

def LARGE_OBJECT_THRESHOLD : ℕ := 8192

/-- `enum gc_heap_size_policy`. -/
inductive HeapSizePolicy where
  | fixed
  | growable
  | adaptive
  deriving DecidableEq, Repr

inductive Assertion where
  /-- `heap_reset_large_object_pages`: `npages <= previous`. -/
  | npagesLePrevious
  deriving DecidableEq, Repr

/-- The fields of `struct gc_heap` that the budget is about. -/
structure Heap where
  noflSpace : NoflSpace
  largeObjectPages : ℕ
  pageSizeLog2 : ℕ
  size : ℕ
  count : ℕ
  countAtLastGrowth : ℕ
  policy : HeapSizePolicy

/-- Where `allocate_large` is between two of its operations. -/
inductive LargePhase where
  /-- Before `nofl_space_shrink`. -/
  | shrinking
  /-- In `trigger_collection`. -/
  | triggering
  deriving DecidableEq, Repr

/-- An `allocate_large` under way, of a size that the caller found to be large. -/
structure LargeAllocation where
  size : ℕ
  isLarge : LARGE_OBJECT_THRESHOLD < size
  phase : LargePhase

structure World where
  heap : Heap
  inFlight : List LargeAllocation

/-! ## Operations -/

def largeObjectSpaceNpages (heap : Heap) (bytes : ℕ) : ℕ :=
  (bytes + 2 ^ heap.pageSizeLog2 - 1) / 2 ^ heap.pageSizeLog2

/-- `npages << page_size_log2`. -/
def pageBytes (heap : Heap) (npages : ℕ) : ℕ := npages * 2 ^ heap.pageSizeLog2

/-- `base` is where new slabs are mapped, if any are. -/
def resizeHeap (heap : Heap) (newSize base : ℕ) : Heap :=
  if newSize = heap.size then heap
  else if newSize < heap.size then
    { heap with
      noflSpace := heap.noflSpace.noflSpaceShrink (heap.size - newSize)
      size := newSize }
  else
    { heap with
      countAtLastGrowth := heap.count
      noflSpace := heap.noflSpace.noflSpaceExpand (newSize - heap.size) base
      size := newSize }

def heapResetLargeObjectPages (heap : Heap) (npages base : ℕ) : Outcome Assertion Heap := do
  Outcome.check (npages ≤ heap.largeObjectPages) .npagesLePrevious
  let bytes := pageBytes heap (heap.largeObjectPages - npages)
  pure { heap with
    largeObjectPages := npages
    noflSpace := heap.noflSpace.noflSpaceExpand bytes base }

/-- What `grow_heap_if_necessary` finds free, in bytes. -/
def headroom (noflSpace : NoflSpace) : ℕ :=
  noflSpace.noflEmptyBlockCount * NOFL_BLOCK_SIZE +
    noflSpace.noflEvacuationBlockCount * NOFL_BLOCK_SIZE

/-- What it wants free: a quarter of the heap if it makes no progress and cannot defragment, and
the evacuation reserve. -/
def neededHeadroom (noflSpace : NoflSpace) (hasAmbiguousEdges progress : Bool) : ℕ :=
  let forProgress :=
    if hasAmbiguousEdges then
      if progress then 0 else noflSpace.noflActiveBlockCount * NOFL_BLOCK_SIZE / 4
    else 0
  forProgress +
    noflSpace.evacuationTarget noflSpace.evacuationMinimumReserve * NOFL_BLOCK_SIZE

def growHeapIfNecessary (heap : Heap) (hasAmbiguousEdges progress : Bool) (base : ℕ) : Heap :=
  if heap.policy = .fixed then heap
  else
    let noflSpace := heap.noflSpace.noflSpaceShrink 0
    let heap := { heap with noflSpace := noflSpace }
    let pending := noflSpace.pendingUnavailableBytes.toNat
    let needed := neededHeadroom noflSpace hasAmbiguousEdges progress
    if headroom noflSpace < needed + pending then
      resizeHeap heap (heap.size + needed + pending - headroom noflSpace) base
    else heap

def computeSuccess (heap : Heap) (gcKind : CollectionKind) (progress : Bool) : Bool :=
  progress || gcKind == .minor || heap.policy != .fixed

/-- What a collection finds out, and what the sizer makes of it. -/
structure Findings where
  /-- Where the blocks that are not unavailable are after tracing. -/
  lists : NoflSpace
  gcKind : CollectionKind
  progress : Bool
  livePagesAtLastCollection : ℕ
  hasAmbiguousEdges : Bool
  /-- The size the sizer resizes the heap to, if it does. -/
  sizerSize : Option ℕ
  /-- Where new slabs are mapped for each of the three operations that may need some. -/
  bases : ℕ × ℕ × ℕ

/-- The available lists of `lists` instead of those of `space`. -/
def relist (space lists : NoflSpace) : NoflSpace :=
  { lists with
    pagedOut := space.pagedOut
    slabs := space.slabs
    evacuationMinimumReserve := space.evacuationMinimumReserve
    pendingUnavailableBytes := space.pendingUnavailableBytes }

/-- The blocks on available lists or held by allocators. -/
def availableBlocks (space : NoflSpace) : List ℕ :=
  space.empty ++ space.toSweep ++ space.partlyFull ++ space.full ++ space.promoted ++
    space.old ++ space.evacuationTargets ++ space.held

/-- Allocation, sweeping and tracing move blocks from one available list to another. -/
def useBlocks (heap : Heap) (lists : NoflSpace) : Outcome Assertion Heap := do
  Outcome.require ((availableBlocks lists).Perm (availableBlocks heap.noflSpace))
  pure { heap with noflSpace := relist heap.noflSpace lists }

/-- `collect` from the end of tracing to its return. -/
def collect (heap : Heap) (findings : Findings) : Outcome Assertion Heap := do
  let heap ← useBlocks heap findings.lists
  let heap := { heap with count := heap.count + 1 }
  let heap ← heapResetLargeObjectPages heap findings.livePagesAtLastCollection findings.bases.1
  let heap :=
    match findings.sizerSize with
    | some size =>
        if heap.policy = .fixed then heap else resizeHeap heap size findings.bases.2.1
    | none => heap
  pure (growHeapIfNecessary heap findings.hasAmbiguousEdges findings.progress
    findings.bases.2.2)

/-- `maybe_grow_heap_instead_of_collecting`, if it grows the heap. -/
def growHeapInsteadOfCollecting (heap : Heap) (targetSize base : ℕ) : Outcome Assertion Heap := do
  Outcome.require (heap.countAtLastGrowth ≠ heap.count ∧ targetSize > heap.size)
  pure (resizeHeap heap (alignUp targetSize NOFL_BLOCK_SIZE) base)

/-! ## Actions -/

inductive Action where
  /-- `allocate_large` asks for the pages of an object of `size` bytes. -/
  | allocateLarge (size : ℕ)
  /-- The allocation at `index` of those under way shrinks the space, and is done if that
  resolves its request. -/
  | shrinkFor (index : ℕ)
  /-- Its `trigger_collection` grows the heap. -/
  | growFor (index targetSize base : ℕ)
  /-- Its `trigger_collection` returns after another mutator's collection. -/
  | waitFor (index : ℕ)
  /-- Its `trigger_collection` collects. -/
  | collectFor (index : ℕ) (findings : Findings)
  /-- A collection for any other reason. -/
  | collect (findings : Findings)
  /-- Growth instead of a collection, for a small allocation. -/
  | grow (targetSize base : ℕ)
  /-- Allocation and sweeping by the mutators. -/
  | useBlocks (lists : NoflSpace)
  /-- `set_heap_size_from_thread`. -/
  | setHeapSizeFromThread (newSize base : ℕ)
  | advancePageOutQueue
  | pageOutBlocks

/-- `allocate_large` up to its loop. -/
def allocateLarge (world : World) (size : ℕ) : Outcome Assertion World :=
  if isLarge : LARGE_OBJECT_THRESHOLD < size then
    let bytes := pageBytes world.heap (largeObjectSpaceNpages world.heap size)
    let noflSpace := world.heap.noflSpace.noflSpaceRequestReleaseMemory bytes
    pure
      { heap := { world.heap with noflSpace := noflSpace }
        inFlight := { size := size, isLarge := isLarge, phase := .shrinking } :: world.inFlight }
  else .disabled

/-- The test of the loop of `allocate_large`, and what follows the loop. -/
def shrinkFor (world : World) (index : ℕ) (allocation : LargeAllocation) : World :=
  let noflSpace := world.heap.noflSpace.noflSpaceShrink 0
  let heap := { world.heap with noflSpace := noflSpace }
  if noflSpace.pendingUnavailableBytes > 0 then
    { heap := heap, inFlight := world.inFlight.set index { allocation with phase := .triggering } }
  else
    let npages := largeObjectSpaceNpages heap allocation.size
    { heap := { heap with largeObjectPages := heap.largeObjectPages + npages }
      inFlight := world.inFlight.eraseIdx index }

/-- `trigger_collection` succeeded: back to the test of the loop. -/
def backToLoop (world : World) (index : ℕ) (allocation : LargeAllocation) (heap : Heap) : World :=
  { heap := heap, inFlight := world.inFlight.set index { allocation with phase := .shrinking } }

/-- If the collection made no progress, `allocate_large` returns what the allocation-failure
handler returns. Its request stays. -/
def collectFor (world : World) (index : ℕ) (allocation : LargeAllocation) (findings : Findings) :
    Outcome Assertion World := do
  let heap ← collect world.heap findings
  if computeSuccess heap findings.gcKind findings.progress then
    pure (backToLoop world index allocation heap)
  else pure { heap := heap, inFlight := world.inFlight.eraseIdx index }

/-- The large allocation at `index`, if it is in `phase`. -/
def allocationIn (world : World) (index : ℕ) (phase : LargePhase) : Option LargeAllocation :=
  match world.inFlight[index]? with
  | some allocation => if allocation.phase = phase then some allocation else none
  | none => none

def step (world : World) : Action → Outcome Assertion World
  | .allocateLarge size => allocateLarge world size
  | .shrinkFor index =>
      match allocationIn world index .shrinking with
      | some allocation => pure (shrinkFor world index allocation)
      | none => .disabled
  | .growFor index targetSize base =>
      match allocationIn world index .triggering with
      | some allocation => do
          let heap ← growHeapInsteadOfCollecting world.heap targetSize base
          pure (backToLoop world index allocation heap)
      | none => .disabled
  | .waitFor index =>
      match allocationIn world index .triggering with
      | some allocation => pure (backToLoop world index allocation world.heap)
      | none => .disabled
  | .collectFor index findings =>
      match allocationIn world index .triggering with
      | some allocation => collectFor world index allocation findings
      | none => .disabled
  | .collect findings => do
      let heap ← collect world.heap findings
      pure { world with heap := heap }
  | .grow targetSize base => do
      let heap ← growHeapInsteadOfCollecting world.heap targetSize base
      pure { world with heap := heap }
  | .useBlocks lists => do
      let heap ← useBlocks world.heap lists
      pure { world with heap := heap }
  | .setHeapSizeFromThread newSize base => do
      Outcome.require (world.heap.policy = .adaptive)
      pure { world with heap := resizeHeap world.heap newSize base }
  | .advancePageOutQueue =>
      let noflSpace := world.heap.noflSpace.noflSpaceAdvancePageOutQueue
      pure { world with heap := { world.heap with noflSpace := noflSpace } }
  | .pageOutBlocks =>
      let noflSpace := world.heap.noflSpace.noflSpacePageOutBlocks
      pure { world with heap := { world.heap with noflSpace := noflSpace } }

/-- The options a heap is created with, and where its first slabs are. -/
structure Options where
  size : ℕ
  policy : HeapSizePolicy
  pageSizeLog2 : ℕ
  /-- Zero in a build with conservative tracing, and 2 per cent otherwise. -/
  evacuationMinimumReserve : ℚ
  base : ℕ

def initialWorld (options : Options) : World :=
  { heap :=
      { noflSpace := NoflSpace.noflSpaceInit options.size options.base
          options.evacuationMinimumReserve
        largeObjectPages := 0
        pageSizeLog2 := options.pageSizeLog2
        size := options.size
        count := 0
        countAtLastGrowth := 0
        policy := options.policy }
    inFlight := [] }

def system (options : Options) : System World Action Assertion :=
  { initial := fun world => world = initialWorld options
    step := step }

/-! ## The budget of a heap -/

/-- The bytes of active blocks, less the pending ones, plus the bytes of large objects, less the
size of the heap. -/
def quantity (heap : Heap) : ℤ :=
  (heap.noflSpace.noflActiveBlockCount : ℤ) * NOFL_BLOCK_SIZE -
    heap.noflSpace.pendingUnavailableBytes + pageBytes heap heap.largeObjectPages - heap.size

/-- The same by the blocks that are listed as unavailable. -/
def balance (heap : Heap) : ℤ :=
  heap.noflSpace.value + pageBytes heap heap.largeObjectPages - heap.size

theorem quantity_eq_balance {heap : Heap} (listed : heap.noflSpace.AllListed) :
    quantity heap = balance heap := by
  rw [quantity, balance, heap.noflSpace.value_eq listed]

/-- The operation leaves the balance alone and loses no block. -/
structure Keeps (before after : Heap) : Prop where
  balance_eq : balance after = balance before
  listed : before.noflSpace.AllListed → after.noflSpace.AllListed
  pageSizeLog2_eq : after.pageSizeLog2 = before.pageSizeLog2
  policy_eq : after.policy = before.policy

theorem Keeps.refl (heap : Heap) : Keeps heap heap := ⟨rfl, id, rfl, rfl⟩

theorem Keeps.trans {before middle after : Heap} (left : Keeps before middle)
    (right : Keeps middle after) : Keeps before after where
  balance_eq := right.balance_eq.trans left.balance_eq
  listed := fun listed => right.listed (left.listed listed)
  pageSizeLog2_eq := right.pageSizeLog2_eq.trans left.pageSizeLog2_eq
  policy_eq := right.policy_eq.trans left.policy_eq

section Operations

variable (heap : Heap)

theorem resizeHeap_keeps (newSize base : ℕ) : Keeps heap (resizeHeap heap newSize base) := by
  unfold resizeHeap
  split_ifs with same smaller
  · exact Keeps.refl heap
  · have shrunk := heap.noflSpace.noflSpaceShrink_adds (heap.size - newSize)
    refine ⟨?_, shrunk.listed, rfl, rfl⟩
    show (heap.noflSpace.noflSpaceShrink (heap.size - newSize)).value +
      pageBytes heap heap.largeObjectPages - newSize = _
    rw [balance, shrunk.value_eq]
    omega
  · have expanded := heap.noflSpace.noflSpaceExpand_adds (newSize - heap.size) base
    refine ⟨?_, expanded.listed, rfl, rfl⟩
    show (heap.noflSpace.noflSpaceExpand (newSize - heap.size) base).value +
      pageBytes heap heap.largeObjectPages - newSize = _
    rw [balance, expanded.value_eq]
    omega

/-- The pages that large objects no longer need go to the blocks. -/
theorem heapResetLargeObjectPages_keeps {npages base : ℕ} {result : Heap}
    (stepped : heapResetLargeObjectPages heap npages base = .next result) :
    Keeps heap result := by
  simp only [heapResetLargeObjectPages, Outcome.check_bind_eq_next] at stepped
  obtain ⟨below, equal⟩ := stepped
  cases equal
  have expanded := heap.noflSpace.noflSpaceExpand_adds
    (pageBytes heap (heap.largeObjectPages - npages)) base
  refine ⟨?_, expanded.listed, rfl, rfl⟩
  have split : pageBytes heap heap.largeObjectPages =
      pageBytes heap (heap.largeObjectPages - npages) + pageBytes heap npages := by
    rw [pageBytes, pageBytes, pageBytes, ← Nat.add_mul, Nat.sub_add_cancel below]
  show (heap.noflSpace.noflSpaceExpand (pageBytes heap (heap.largeObjectPages - npages))
    base).value + pageBytes heap npages - heap.size = _
  rw [balance, expanded.value_eq, split]
  push_cast
  ring

/-- Shrinking by nothing resolves requests, and changes only the space. -/
theorem shrinkNothing_keeps :
    Keeps heap { heap with noflSpace := heap.noflSpace.noflSpaceShrink 0 } := by
  have shrunk := heap.noflSpace.noflSpaceShrink_adds 0
  refine ⟨?_, shrunk.listed, rfl, rfl⟩
  show (heap.noflSpace.noflSpaceShrink 0).value + pageBytes heap heap.largeObjectPages -
    heap.size = _
  rw [balance, shrunk.value_eq]
  simp

theorem growHeapIfNecessary_keeps (hasAmbiguousEdges progress : Bool) (base : ℕ) :
    Keeps heap (growHeapIfNecessary heap hasAmbiguousEdges progress base) := by
  unfold growHeapIfNecessary
  split
  · exact Keeps.refl heap
  · dsimp only
    split
    · exact (shrinkNothing_keeps heap).trans (resizeHeap_keeps _ _ _)
    · exact shrinkNothing_keeps heap

theorem length_availableBlocks (space : NoflSpace) :
    (availableBlocks space).length = space.availableBlockCount := by
  simp only [availableBlocks, List.length_append, NoflSpace.availableBlockCount]

theorem useBlocks_keeps {lists : NoflSpace} {result : Heap}
    (stepped : useBlocks heap lists = .next result) : Keeps heap result := by
  simp only [useBlocks, Outcome.require_bind_eq_next] at stepped
  obtain ⟨moved, equal⟩ := stepped
  cases equal
  refine ⟨rfl, ?_, rfl, rfl⟩
  intro listed
  have count := moved.length_eq
  rw [length_availableBlocks, length_availableBlocks] at count
  show lists.availableBlockCount + heap.noflSpace.unavailableBlockCount =
    heap.noflSpace.totalBlockCount
  rw [count]
  exact listed

theorem collect_keeps {findings : Findings} {result : Heap}
    (stepped : collect heap findings = .next result) : Keeps heap result := by
  simp only [collect, Outcome.bind_eq_next] at stepped
  obtain ⟨used, usedEq, reset, resetEq, equal⟩ := stepped
  cases equal
  have counted : Keeps heap { used with count := used.count + 1 } :=
    (useBlocks_keeps heap usedEq).trans ⟨rfl, id, rfl, rfl⟩
  have released := counted.trans (heapResetLargeObjectPages_keeps _ resetEq)
  refine Keeps.trans ?_ (growHeapIfNecessary_keeps _ _ _ _)
  split
  · split
    · exact released
    · exact released.trans (resizeHeap_keeps _ _ _)
  · exact released

theorem growHeapInsteadOfCollecting_keeps {targetSize base : ℕ} {result : Heap}
    (stepped : growHeapInsteadOfCollecting heap targetSize base = .next result) :
    Keeps heap result := by
  simp only [growHeapInsteadOfCollecting, Outcome.require_bind_eq_next] at stepped
  obtain ⟨-, equal⟩ := stepped
  cases equal
  exact resizeHeap_keeps heap _ _

theorem noflSpace_keeps {noflSpace : NoflSpace}
    (adds : NoflSpace.Adds 0 heap.noflSpace noflSpace) :
    Keeps heap { heap with noflSpace := noflSpace } := by
  refine ⟨?_, adds.listed, rfl, rfl⟩
  show noflSpace.value + pageBytes heap heap.largeObjectPages - heap.size = _
  rw [balance, adds.value_eq]
  ring

end Operations

/-! ## The budget of a world -/

/-- The bytes that a large allocation asks for. -/
def LargeAllocation.bytes (heap : Heap) (allocation : LargeAllocation) : ℕ :=
  pageBytes heap (largeObjectSpaceNpages heap allocation.size)

/-- The bytes asked for by the large allocations under way. -/
def World.inFlightBytes (world : World) : ℕ :=
  (world.inFlight.map (LargeAllocation.bytes world.heap)).sum

/-- The quantity of the heap, with the requests of allocations under way put back. -/
def World.budget (world : World) : ℤ := quantity world.heap + world.inFlightBytes

/-- A large object has a page at least. -/
theorem LargeAllocation.bytes_pos (heap : Heap) (allocation : LargeAllocation) :
    0 < allocation.bytes heap := by
  have large := allocation.isLarge
  have page : 0 < 2 ^ heap.pageSizeLog2 := Nat.two_pow_pos _
  apply Nat.mul_pos _ page
  apply Nat.div_pos _ page
  omega

section InFlight

variable {heap : Heap} {inFlight : List LargeAllocation} {index : ℕ}
variable {allocation : LargeAllocation}

theorem sum_bytes_set (found : inFlight[index]? = some allocation) (phase : LargePhase) :
    ((inFlight.set index { allocation with phase := phase }).map
        (LargeAllocation.bytes heap)).sum =
      (inFlight.map (LargeAllocation.bytes heap)).sum := by
  obtain ⟨inRange, rfl⟩ := List.getElem?_eq_some_iff.mp found
  have inMap : index < (inFlight.map (LargeAllocation.bytes heap)).length := by
    simpa using inRange
  have same : LargeAllocation.bytes heap { inFlight[index] with phase := phase } =
      (inFlight.map (LargeAllocation.bytes heap))[index] := by
    rw [List.getElem_map]
    rfl
  rw [List.map_set, same, List.set_getElem_self]

theorem sum_bytes_eraseIdx (found : inFlight[index]? = some allocation) :
    ((inFlight.eraseIdx index).map (LargeAllocation.bytes heap)).sum + allocation.bytes heap =
      (inFlight.map (LargeAllocation.bytes heap)).sum := by
  obtain ⟨inRange, rfl⟩ := List.getElem?_eq_some_iff.mp found
  have sameSum := ((List.getElem_cons_eraseIdx_perm inRange).map
    (LargeAllocation.bytes heap)).sum_eq
  rw [← sameSum, List.map_cons, List.sum_cons, Nat.add_comm]

theorem bytes_congr {other : Heap} (pageSize : other.pageSizeLog2 = heap.pageSizeLog2) :
    LargeAllocation.bytes other = LargeAllocation.bytes heap := by
  funext allocation
  simp only [LargeAllocation.bytes, pageBytes, largeObjectSpaceNpages, pageSize]

end InFlight

/-- The invariant of a run: no block is lost. -/
def Listed (world : World) : Prop := world.heap.noflSpace.AllListed

/-- A large allocation fails: the collection it triggered made no progress and was not minor, and
the heap cannot grow. -/
def Action.FailsLargeAllocation (world : World) : Action → Prop
  | .collectFor _ findings =>
      findings.progress = false ∧ findings.gcKind ≠ .minor ∧ world.heap.policy = .fixed
  | _ => False

section Steps

variable {world result : World}

/-- The step loses no block, and changes the budget by `change`. -/
structure Changes (change : ℤ) (world result : World) : Prop where
  listed : Listed result
  budget_eq : result.budget = world.budget + change

/-- From what a step does to the balance of the heap and to the requests under way. -/
theorem changes_of_balance {change : ℤ} (listed : Listed world) (resultListed : Listed result)
    (balanced : balance result.heap + result.inFlightBytes =
      balance world.heap + world.inFlightBytes + change) : Changes change world result where
  listed := resultListed
  budget_eq := by
    rw [World.budget, World.budget, quantity_eq_balance listed, quantity_eq_balance resultListed]
    exact balanced

/-- A step that keeps the heap's balance and the requests under way. -/
theorem changes_of_keeps (listed : Listed world) (keeps : Keeps world.heap result.heap)
    (sums : (result.inFlight.map (LargeAllocation.bytes world.heap)).sum =
      (world.inFlight.map (LargeAllocation.bytes world.heap)).sum) : Changes 0 world result := by
  apply changes_of_balance listed (keeps.listed listed)
  rw [keeps.balance_eq, World.inFlightBytes, bytes_congr keeps.pageSizeLog2_eq, sums,
    World.inFlightBytes, add_zero]

theorem allocationIn_eq {index : ℕ} {phase : LargePhase} {allocation : LargeAllocation}
    (found : allocationIn world index phase = some allocation) :
    world.inFlight[index]? = some allocation := by
  unfold allocationIn at found
  split at found
  next other otherEq =>
    split at found
    · rw [otherEq]
      exact found
    · cases found
  next => cases found

theorem backToLoop_changes {index : ℕ} {allocation : LargeAllocation} {heap : Heap}
    (listed : Listed world) (found : world.inFlight[index]? = some allocation)
    (keeps : Keeps world.heap heap) :
    Changes 0 world (backToLoop world index allocation heap) :=
  changes_of_keeps listed keeps (sum_bytes_set found .shrinking)

/-- The request is withdrawn from the value of the space, and goes to the requests under way. -/
theorem allocateLarge_changes {size : ℕ} (listed : Listed world)
    (stepped : allocateLarge world size = .next result) : Changes 0 world result := by
  unfold allocateLarge at stepped
  split at stepped
  next isLarge =>
    cases stepped
    have added := world.heap.noflSpace.addPending_adds
      (pageBytes world.heap (largeObjectSpaceNpages world.heap size))
    refine changes_of_balance listed (added.listed listed : Listed { world with heap := _ }) ?_
    rw [World.inFlightBytes, World.inFlightBytes, List.map_cons, List.sum_cons, balance, balance]
    show (world.heap.noflSpace.addPending
        (pageBytes world.heap (largeObjectSpaceNpages world.heap size))).value +
      pageBytes world.heap world.heap.largeObjectPages - world.heap.size +
      ((pageBytes world.heap (largeObjectSpaceNpages world.heap size) +
        (world.inFlight.map (LargeAllocation.bytes world.heap)).sum : ℕ) : ℤ) = _
    rw [added.value_eq]
    push_cast
    ring
  next => cases stepped

/-- The pages of a finished allocation take the place of its request. -/
theorem shrinkFor_changes {index : ℕ} {allocation : LargeAllocation} (listed : Listed world)
    (found : world.inFlight[index]? = some allocation) :
    Changes 0 world (shrinkFor world index allocation) := by
  have shrunk := shrinkNothing_keeps world.heap
  unfold shrinkFor
  generalize world.heap.noflSpace.noflSpaceShrink 0 = noflSpace at shrunk ⊢
  dsimp only
  split
  · exact changes_of_keeps listed shrunk (sum_bytes_set found .triggering)
  · refine changes_of_balance listed (shrunk.listed listed) ?_
    have requests : ((world.inFlight.eraseIdx index).map
        (LargeAllocation.bytes world.heap)).sum + allocation.bytes world.heap =
          world.inFlightBytes := sum_bytes_eraseIdx found
    have pages : pageBytes world.heap (world.heap.largeObjectPages +
        largeObjectSpaceNpages world.heap allocation.size) =
          pageBytes world.heap world.heap.largeObjectPages + allocation.bytes world.heap := by
      rw [pageBytes, Nat.add_mul]
      rfl
    have kept : noflSpace.value + pageBytes world.heap world.heap.largeObjectPages -
        world.heap.size = balance world.heap := shrunk.balance_eq
    show noflSpace.value + pageBytes world.heap (world.heap.largeObjectPages +
        largeObjectSpaceNpages world.heap allocation.size) - world.heap.size +
      (((world.inFlight.eraseIdx index).map
        (LargeAllocation.bytes world.heap)).sum : ℕ) = _
    rw [pages, ← kept, ← requests]
    push_cast
    ring

theorem computeSuccess_eq_false {heap : Heap} {gcKind : CollectionKind} {progress : Bool} :
    computeSuccess heap gcKind progress = false ↔
      progress = false ∧ gcKind ≠ .minor ∧ heap.policy = .fixed := by
  simp [computeSuccess, and_assoc]

/-- The request of a failed allocation is gone from the requests under way, and still pending. -/
theorem collectFor_changes {index : ℕ} {allocation : LargeAllocation} {findings : Findings}
    (listed : Listed world) (found : world.inFlight[index]? = some allocation)
    (stepped : collectFor world index allocation findings = .next result) :
    ∃ change, Changes change world result ∧
      (change = 0 ↔ ¬(Action.collectFor index findings).FailsLargeAllocation world) := by
  simp only [collectFor, Outcome.bind_eq_next] at stepped
  obtain ⟨heap, collected, returned⟩ := stepped
  have keeps := collect_keeps world.heap collected
  have fails_iff : (Action.collectFor index findings).FailsLargeAllocation world ↔
      computeSuccess heap findings.gcKind findings.progress = false := by
    rw [computeSuccess_eq_false, keeps.policy_eq]
    rfl
  rw [fails_iff]
  split at returned
  next success =>
    cases returned
    refine ⟨0, backToLoop_changes listed found keeps, ?_⟩
    simp [success]
  next failure =>
    cases returned
    refine ⟨-(allocation.bytes world.heap), ?_, ?_⟩
    · refine changes_of_balance listed (keeps.listed listed) ?_
      have requests : ((world.inFlight.eraseIdx index).map
          (LargeAllocation.bytes world.heap)).sum + allocation.bytes world.heap =
            world.inFlightBytes := sum_bytes_eraseIdx found
      show balance heap +
        (((world.inFlight.eraseIdx index).map (LargeAllocation.bytes heap)).sum : ℕ) = _
      rw [keeps.balance_eq, bytes_congr keeps.pageSizeLog2_eq, ← requests]
      push_cast
      ring
    · have positive := allocation.bytes_pos world.heap
      simp only [failure, not_true_eq_false, iff_false]
      omega

/-- Every step leaves the budget alone, if and only if it is not the failure of a large
allocation. -/
theorem step_changes {action : Action} (listed : Listed world)
    (stepped : step world action = .next result) :
    ∃ change, Changes change world result ∧
      (change = 0 ↔ ¬action.FailsLargeAllocation world) := by
  have kept : ∀ {other : Action}, ¬other.FailsLargeAllocation world →
      Changes 0 world result →
      ∃ change, Changes change world result ∧
        (change = 0 ↔ ¬other.FailsLargeAllocation world) :=
    fun notFails changes => ⟨0, changes, by simp [notFails]⟩
  cases action with
  | allocateLarge size => exact kept id (allocateLarge_changes listed stepped)
  | shrinkFor index =>
      rw [step] at stepped
      split at stepped
      next allocation found =>
        cases stepped
        exact kept id (shrinkFor_changes listed (allocationIn_eq found))
      next => cases stepped
  | growFor index targetSize base =>
      rw [step] at stepped
      split at stepped
      next allocation found =>
        simp only [Outcome.bind_eq_next] at stepped
        obtain ⟨heap, grown, equal⟩ := stepped
        cases equal
        exact kept id (backToLoop_changes listed (allocationIn_eq found)
          (growHeapInsteadOfCollecting_keeps world.heap grown))
      next => cases stepped
  | waitFor index =>
      rw [step] at stepped
      split at stepped
      next allocation found =>
        cases stepped
        exact kept id (backToLoop_changes listed (allocationIn_eq found) (Keeps.refl _))
      next => cases stepped
  | collectFor index findings =>
      rw [step] at stepped
      split at stepped
      next allocation found => exact collectFor_changes listed (allocationIn_eq found) stepped
      next => cases stepped
  | collect findings =>
      simp only [step, Outcome.bind_eq_next] at stepped
      obtain ⟨heap, collected, equal⟩ := stepped
      cases equal
      exact kept id (changes_of_keeps listed (collect_keeps world.heap collected) rfl)
  | grow targetSize base =>
      simp only [step, Outcome.bind_eq_next] at stepped
      obtain ⟨heap, grown, equal⟩ := stepped
      cases equal
      exact kept id (changes_of_keeps listed
        (growHeapInsteadOfCollecting_keeps world.heap grown) rfl)
  | useBlocks lists =>
      simp only [step, Outcome.bind_eq_next] at stepped
      obtain ⟨heap, used, equal⟩ := stepped
      cases equal
      exact kept id (changes_of_keeps listed (useBlocks_keeps world.heap used) rfl)
  | setHeapSizeFromThread newSize base =>
      simp only [step, Outcome.require_bind_eq_next] at stepped
      obtain ⟨-, equal⟩ := stepped
      cases equal
      exact kept id (changes_of_keeps listed (resizeHeap_keeps world.heap newSize base) rfl)
  | advancePageOutQueue =>
      cases stepped
      exact kept id (changes_of_keeps listed
        (noflSpace_keeps world.heap world.heap.noflSpace.noflSpaceAdvancePageOutQueue_adds) rfl)
  | pageOutBlocks =>
      cases stepped
      exact kept id (changes_of_keeps listed
        (noflSpace_keeps world.heap world.heap.noflSpace.noflSpacePageOutBlocks_adds) rfl)

end Steps

/-! ## Whole runs -/

instance (world : World) (action : Action) : Decidable (action.FailsLargeAllocation world) := by
  cases action <;> unfold Action.FailsLargeAllocation <;> infer_instance

theorem initialWorld_listed (options : Options) : Listed (initialWorld options) :=
  NoflSpace.noflSpaceInit_listed _ _ _

/-- No block is lost, and the budget is what it was at the start. -/
structure Conserved (options : Options) (world : World) : Prop where
  listed : Listed world
  budget_eq : world.budget = (initialWorld options).budget

theorem conserved_of_reachable {options : Options} {world : World}
    (reached : (system options).ReachableBy
      (fun state action => ¬action.FailsLargeAllocation state) world) :
    Conserved options world := by
  refine reached.invariant (system options) ?_ ?_
  · rintro state rfl
    exact ⟨initialWorld_listed options, rfl⟩
  · intro before action after conserved notFails stepped
    obtain ⟨change, changes, iff⟩ := step_changes conserved.listed stepped
    have unchanged : change = 0 := iff.mpr notFails
    refine ⟨changes.listed, ?_⟩
    rw [changes.budget_eq, unchanged, conserved.budget_eq, add_zero]

/-- A heap of five blocks that cannot grow: one of them is left once the slab's metadata is
taken off. -/
def smallOptions : Options :=
  { size := 5 * NOFL_BLOCK_SIZE, policy := .fixed, pageSizeLog2 := 12,
    evacuationMinimumReserve := 0, base := Nofl.NOFL_SLAB_SIZE }

/-- A compacting collection of a heap without active blocks. -/
def fruitless : Findings :=
  { lists := NoflSpace.noflSpaceInit 0 0 0, gcKind := .compacting, progress := false,
    livePagesAtLastCollection := 3, hasAmbiguousEdges := false, sizerSize := none,
    bases := (0, 0, 0) }

end Whippet.Mmc.Budget
