import Whippet.Mmc.Budget
import Whippet.Mmc.HeapSizer

/-!
Whether the heap of mmc stays below the maximum it was created with.

The heap is resized by the sizer after a collection, by the sizer's background task, instead of a
collection, and to have headroom after one. The options carry a maximum, which none of the four
looks at.

Owns: who asks the sizers, the order in which a collection resizes the heap, and the condition on
the live bytes and on what is in use under which the maximum is respected. Does not own: how the
estimates of live bytes come about, and large allocations that fail, which they do only where the
size is fixed.
-/

namespace Whippet.Mmc.Sizing

open Budget
open Nofl (NOFL_BLOCK_SIZE NoflSpace alignUp)

/-- Where `collect` is between two of its operations that resize the heap. -/
inductive SizingStage where
  | mutating
  /-- Before `gc_heap_sizer_on_gc`. -/
  | traced (hasAmbiguousEdges progress : Bool)
  /-- Before `grow_heap_if_necessary`. -/
  | sized (hasAmbiguousEdges progress : Bool)
  deriving DecidableEq, Repr

structure SizedWorld where
  world : World
  sizer : HeapSizer
  stage : SizingStage

/-- The options of a heap, with those of its sizer, and the time of its creation. -/
structure SizingOptions extends Options where
  heapDoubleThreshold : UInt64
  heapExpansiveness : Binary64
  maximumHeapSize : ℕ
  heartbeat : UInt64

namespace SizedWorld

variable (sized : SizedWorld)

abbrev heap : Budget.Heap := sized.world.heap

def withHeap (heap : Budget.Heap) : SizedWorld :=
  { sized with world := { sized.world with heap := heap } }

/-- `maybe_grow_heap_instead_of_collecting` for an allocation. The sizer is asked only if the heap
has not grown since the last collection. -/
def maybeGrowHeapInsteadOfCollecting (liveAtLastGc : UInt64) (base : ℕ) : SizedWorld :=
  if sized.heap.countAtLastGrowth ≠ sized.heap.count then
    let (sizer, targetSize) := sized.sizer.targetSize sized.heap.size liveAtLastGc
    let asked := { sized with sizer := sizer }
    if targetSize > sized.heap.size then
      asked.withHeap (resizeHeap sized.heap (alignUp targetSize NOFL_BLOCK_SIZE) base)
    else asked
  else sized

/-- `gc_heap_sizer_on_gc` with `resize_heap`. Where the adaptive sizer has no background task, it
runs the task here; it does nothing then, as the collector holds the lock of the heap. -/
def heapSizerOnGc (liveBytes pauseNs : UInt64) (base : ℕ) : SizedWorld :=
  match sized.sizer with
  | .fixed => sized
  | .growable growableSizer =>
      let targetSize := (growableSizer.targetSize liveBytes).toNat
      if targetSize > sized.heap.size then
        sized.withHeap (resizeHeap sized.heap targetSize base)
      else sized
  | .adaptive adaptiveSizer =>
      let smoothed := adaptiveSizer.onGc liveBytes pauseNs
      { sized with sizer := .adaptive smoothed }.withHeap
        (resizeHeap sized.heap smoothed.calculateSize.toNat base)

/-- `gc_adaptive_heap_sizer_background_task`, with the allocation counter that it gets, which is 0
if it does not get the lock of the heap. It tries the lock once more to set the size. -/
def heapSizerBackgroundTask (adaptiveSizer : AdaptiveHeapSizer) (bytesAllocated heartbeat : UInt64)
    (base : ℕ) (locked : Bool) : SizedWorld :=
  if bytesAllocated = 0 then sized
  else
    let smoothed := adaptiveSizer.onHeartbeat bytesAllocated heartbeat
    if locked then
      { sized with sizer := .adaptive smoothed }.withHeap
        (resizeHeap sized.heap smoothed.calculateSize.toNat base)
    else { sized with sizer := .adaptive smoothed }

end SizedWorld

/-! ## Actions -/

/-- The actions on the heap that leave its size alone. -/
inductive Operation where
  | allocateLarge (size : ℕ)
  | shrinkFor (index : ℕ)
  | waitFor (index : ℕ)
  | useBlocks (lists : NoflSpace)

def Operation.toAction : Operation → Action
  | .allocateLarge size => .allocateLarge size
  | .shrinkFor index => .shrinkFor index
  | .waitFor index => .waitFor index
  | .useBlocks lists => .useBlocks lists

inductive SizingAction where
  | operate (operation : Operation)
  /-- `maybe_grow_heap_instead_of_collecting`, with its estimate of the live bytes at the last
  collection. -/
  | growInsteadOfCollecting (liveAtLastGc : UInt64) (base : ℕ)
  /-- `collect` up to the sizer: where the blocks are after tracing, and the pages that are still
  live. -/
  | collect (lists : NoflSpace) (livePages base : ℕ) (hasAmbiguousEdges progress : Bool)
  | sizerOnGc (liveBytesEstimate pauseNs : UInt64) (base : ℕ)
  | growIfNecessary (base : ℕ)
  | backgroundTask (bytesAllocated heartbeat : UInt64) (base : ℕ) (locked : Bool)
  | advancePageOutQueue
  | pageOutBlocks

/-- `collect` from the end of tracing to the sizer. -/
def resetAfterTracing (heap : Budget.Heap) (lists : NoflSpace) (livePages base : ℕ) :
    Outcome Budget.Assertion Budget.Heap := do
  let used ← useBlocks heap lists
  heapResetLargeObjectPages { used with count := used.count + 1 } livePages base

def sizingStep (sized : SizedWorld) : SizingAction → Outcome Budget.Assertion SizedWorld
  | .operate operation => do
      Outcome.require (sized.stage = .mutating)
      let world ← step sized.world operation.toAction
      pure { sized with world := world }
  | .growInsteadOfCollecting liveAtLastGc base => do
      Outcome.require (sized.stage = .mutating)
      pure (sized.maybeGrowHeapInsteadOfCollecting liveAtLastGc base)
  | .collect lists livePages base hasAmbiguousEdges progress => do
      Outcome.require (sized.stage = .mutating)
      let heap ← resetAfterTracing sized.heap lists livePages base
      pure { sized.withHeap heap with stage := .traced hasAmbiguousEdges progress }
  | .sizerOnGc liveBytesEstimate pauseNs base =>
      match sized.stage with
      | .traced hasAmbiguousEdges progress =>
          pure { sized.heapSizerOnGc liveBytesEstimate pauseNs base with
            stage := .sized hasAmbiguousEdges progress }
      | _ => .disabled
  | .growIfNecessary base =>
      match sized.stage with
      | .sized hasAmbiguousEdges progress =>
          let heap := growHeapIfNecessary sized.heap hasAmbiguousEdges progress base
          pure { sized.withHeap heap with stage := .mutating }
      | _ => .disabled
  | .backgroundTask bytesAllocated heartbeat base locked =>
      match sized.stage, sized.sizer with
      | .mutating, .adaptive adaptiveSizer =>
          pure (sized.heapSizerBackgroundTask adaptiveSizer bytesAllocated heartbeat base locked)
      | _, _ => .disabled
  | .advancePageOutQueue => do
      let world ← step sized.world .advancePageOutQueue
      pure { sized with world := world }
  | .pageOutBlocks => do
      let world ← step sized.world .pageOutBlocks
      pure { sized with world := world }

/-- `gc_make_heap_sizer`. -/
def makeHeapSizer (options : SizingOptions) : HeapSizer :=
  match options.policy with
  | .fixed => .fixed
  | .growable => .growable (GrowableHeapSizer.make options.heapDoubleThreshold)
  | .adaptive =>
      .adaptive (AdaptiveHeapSizer.make options.heapExpansiveness options.heartbeat)

/-- `heap_init`: the maximum of the options goes nowhere. -/
def initialSizedWorld (options : SizingOptions) : SizedWorld :=
  { world := initialWorld options.toOptions
    sizer := makeHeapSizer options
    stage := .mutating }

def sizingSystem (options : SizingOptions) : System SizedWorld SizingAction Budget.Assertion :=
  { initial := fun sized => sized = initialSizedWorld options
    step := sizingStep }

/-! ## What must fit -/

/-- The bytes that must fit in the heap at the end of a collection: those of the blocks in use, the
large objects, the large allocations under way, and the free ones that are wanted. What may be paged
in but is not counts as in use. -/
def bytesWanted (world : World) (hasAmbiguousEdges progress : Bool) : ℕ :=
  let noflSpace := world.heap.noflSpace.noflSpaceShrink 0
  world.heap.noflSpace.usedBlockCount * NOFL_BLOCK_SIZE +
    pageBytes world.heap world.heap.largeObjectPages + world.inFlightBytes +
    neededHeadroom noflSpace hasAmbiguousEdges progress +
    (-noflSpace.pendingUnavailableBytes).toNat

/-- The size of the heap at its beginning, and the bytes of the blocks that it had then. They differ
by the metadata of the slabs. -/
def bytesAtStart (options : SizingOptions) : ℕ :=
  (initialWorld options.toOptions).heap.noflSpace.noflActiveBlockCount * NOFL_BLOCK_SIZE

/-- The actions that respect the maximum: the live bytes that a sizer is given are fewer than the
least for which it asks for more, in whole blocks if the heap grows instead of a collection; and
what is wanted at the end of a collection fits. -/
def Respects (options : SizingOptions) (sized : SizedWorld) : SizingAction → Prop
  | .growInsteadOfCollecting liveAtLastGc _ =>
      let wholeBlocks := options.maximumHeapSize / NOFL_BLOCK_SIZE * NOFL_BLOCK_SIZE
      let limit := max sized.heap.size wholeBlocks
      sized.heap.countAtLastGrowth ≠ sized.heap.count →
        match sized.sizer with
        | .fixed => True
        | .growable growableSizer =>
            liveAtLastGc.toNat < leastExceeding growableSizer.targetSize limit
        | .adaptive adaptiveSizer =>
            liveAtLastGc.toNat < leastExceeding
              (fun liveBytes => (adaptiveSizer.withLiveBytes liveBytes).calculateSize) limit
  | .sizerOnGc liveBytesEstimate pauseNs _ =>
      match sized.sizer with
      | .fixed => True
      | .growable growableSizer =>
          liveBytesEstimate.toNat <
            leastExceeding growableSizer.targetSize options.maximumHeapSize
      | .adaptive adaptiveSizer =>
          liveBytesEstimate.toNat < leastExceeding
            (fun liveBytes => (adaptiveSizer.onGc liveBytes pauseNs).calculateSize)
            options.maximumHeapSize
  | .growIfNecessary _ =>
      match sized.stage with
      | .sized hasAmbiguousEdges progress =>
          sized.heap.policy = .fixed ∨
            bytesWanted sized.world hasAmbiguousEdges progress + options.size ≤
              options.maximumHeapSize + bytesAtStart options
      | _ => True
  | .backgroundTask bytesAllocated heartbeat _ locked =>
      match sized.sizer with
      | .adaptive adaptiveSizer =>
          bytesAllocated ≠ 0 → locked = true → adaptiveSizer.liveBytes.toNat < leastExceeding
            (fun liveBytes => ((adaptiveSizer.onHeartbeat bytesAllocated heartbeat).withLiveBytes
              liveBytes).calculateSize) options.maximumHeapSize
      | _ => True
  | _ => True

/-- As the sizers ask for more the more is live, their answers tell. -/
instance (options : SizingOptions) : (sized : SizedWorld) → (action : SizingAction) →
    Decidable (Respects options sized action)
  | _, .operate _ | _, .collect .. | _, .advancePageOutQueue | _, .pageOutBlocks
  | ⟨_, .fixed, _⟩, .sizerOnGc .. | ⟨_, .fixed, _⟩, .backgroundTask ..
  | ⟨_, .growable _, _⟩, .backgroundTask ..
  | ⟨_, _, .mutating⟩, .growIfNecessary _ | ⟨_, _, .traced _ _⟩, .growIfNecessary _ =>
      .isTrue trivial
  | ⟨_, .fixed, _⟩, .growInsteadOfCollecting .. => .isTrue fun _ => trivial
  | ⟨world, .growable sizer, _⟩, .growInsteadOfCollecting liveAtLastGc _ =>
      decidable_of_iff (world.heap.countAtLastGrowth ≠ world.heap.count →
          (sizer.targetSize liveAtLastGc).toNat ≤ max world.heap.size
            (options.maximumHeapSize / NOFL_BLOCK_SIZE * NOFL_BLOCK_SIZE))
        (imp_congr_right fun _ => (lt_leastExceeding_iff sizer.targetSize_mono).symm)
  | ⟨world, .adaptive sizer, _⟩, .growInsteadOfCollecting liveAtLastGc _ =>
      decidable_of_iff (world.heap.countAtLastGrowth ≠ world.heap.count →
          (sizer.withLiveBytes liveAtLastGc).calculateSize.toNat ≤ max world.heap.size
            (options.maximumHeapSize / NOFL_BLOCK_SIZE * NOFL_BLOCK_SIZE))
        (imp_congr_right fun _ =>
          (lt_leastExceeding_iff sizer.calculateSize_withLiveBytes_mono).symm)
  | ⟨_, .growable sizer, _⟩, .sizerOnGc _ _ _ =>
      decidable_of_iff _ (lt_leastExceeding_iff sizer.targetSize_mono).symm
  | ⟨_, .adaptive sizer, _⟩, .sizerOnGc _ pauseNs _ =>
      decidable_of_iff _ (lt_leastExceeding_iff (sizer.calculateSize_onGc_mono pauseNs)).symm
  | ⟨world, _, .sized hasAmbiguousEdges progress⟩, .growIfNecessary _ =>
      inferInstanceAs (Decidable (world.heap.policy = .fixed ∨
        bytesWanted world hasAmbiguousEdges progress + options.size ≤
          options.maximumHeapSize + bytesAtStart options))
  | ⟨_, .adaptive sizer, _⟩, .backgroundTask bytesAllocated heartbeat _ locked =>
      decidable_of_iff (bytesAllocated ≠ 0 → locked = true →
          (((sizer.onHeartbeat bytesAllocated heartbeat).withLiveBytes
            sizer.liveBytes).calculateSize).toNat ≤ options.maximumHeapSize)
        (imp_congr_right fun _ => imp_congr_right fun _ =>
          (lt_leastExceeding_iff (AdaptiveHeapSizer.calculateSize_withLiveBytes_mono _)).symm)

/-! ## Sizes -/

section Sizes

variable {heap : Budget.Heap} {sized : SizedWorld} {options : SizingOptions}

@[simp] theorem size_resizeHeap (newSize base : ℕ) :
    (resizeHeap heap newSize base).size = newSize := by
  rw [resizeHeap]
  split_ifs with same smaller
  · exact same.symm
  · rfl
  · rfl

theorem size_useBlocks {lists : NoflSpace} {used : Budget.Heap}
    (stepped : useBlocks heap lists = .next used) : used.size = heap.size := by
  simp only [useBlocks, Outcome.require_bind_eq_next] at stepped
  obtain ⟨-, equal⟩ := stepped
  cases equal
  rfl

theorem size_resetAfterTracing {lists : NoflSpace} {livePages base : ℕ} {reset : Budget.Heap}
    (stepped : resetAfterTracing heap lists livePages base = .next reset) :
    reset.size = heap.size := by
  simp only [resetAfterTracing, heapResetLargeObjectPages, Outcome.bind_eq_next,
    Outcome.check_eq_next] at stepped
  obtain ⟨used, usedEq, -, -, equal⟩ := stepped
  cases equal
  dsimp only
  exact size_useBlocks usedEq

theorem size_operate {operation : Operation} {world after : World}
    (stepped : step world operation.toAction = .next after) :
    after.heap.size = world.heap.size := by
  cases operation with
  | allocateLarge size =>
      simp only [Operation.toAction, step, allocateLarge] at stepped
      split at stepped
      · cases stepped
        rfl
      · cases stepped
  | shrinkFor index =>
      simp only [Operation.toAction, step] at stepped
      split at stepped
      · cases stepped
        rw [shrinkFor]
        dsimp only
        split
        · rfl
        · rfl
      · cases stepped
  | waitFor index =>
      simp only [Operation.toAction, step] at stepped
      split at stepped
      · cases stepped
        rfl
      · cases stepped
  | useBlocks lists =>
      simp only [Operation.toAction, step, Outcome.bind_eq_next] at stepped
      obtain ⟨used, usedEq, equal⟩ := stepped
      cases equal
      exact size_useBlocks usedEq

theorem alignUp_le_iff {value align maximum : ℕ} (positive : 0 < align) :
    alignUp value align ≤ maximum ↔ value ≤ maximum / align * align := by
  have rounded : (value + align - 1) / align ≤ maximum / align ↔
      value + align - 1 < (maximum / align + 1) * align := by
    rw [← Nat.lt_succ_iff, Nat.div_lt_iff_lt_mul positive]
  rw [alignUp, ← Nat.le_div_iff_mul_le positive, rounded, Nat.add_mul, Nat.one_mul]
  omega

/-- A heap grows to a target above its size only, and to whole blocks. -/
theorem size_grown_le_iff {size targetSize maximum : ℕ} (below : size ≤ maximum) :
    (if targetSize > size then alignUp targetSize NOFL_BLOCK_SIZE else size) ≤ maximum ↔
      targetSize ≤ max size (maximum / NOFL_BLOCK_SIZE * NOFL_BLOCK_SIZE) := by
  split
  next above =>
    rw [alignUp_le_iff (by decide), le_max_iff, or_iff_right (not_le.mpr above)]
  next notAbove =>
    exact iff_of_true below (le_max_of_le_left (not_lt.mp notAbove))

theorem size_maybeGrowHeapInsteadOfCollecting (liveAtLastGc : UInt64) (base : ℕ)
    (due : sized.heap.countAtLastGrowth ≠ sized.heap.count) :
    (sized.maybeGrowHeapInsteadOfCollecting liveAtLastGc base).heap.size =
      if (sized.sizer.targetSize sized.heap.size liveAtLastGc).2 > sized.heap.size then
        alignUp (sized.sizer.targetSize sized.heap.size liveAtLastGc).2 NOFL_BLOCK_SIZE
      else sized.heap.size := by
  rw [SizedWorld.maybeGrowHeapInsteadOfCollecting, if_pos due]
  dsimp only
  split
  · exact size_resizeHeap _ _
  · rfl

theorem size_maybeGrowHeapInsteadOfCollecting_le_iff (liveAtLastGc : UInt64) (base : ℕ)
    (below : sized.heap.size ≤ options.maximumHeapSize) :
    (sized.maybeGrowHeapInsteadOfCollecting liveAtLastGc base).heap.size ≤
        options.maximumHeapSize ↔
      Respects options sized (.growInsteadOfCollecting liveAtLastGc base) := by
  rw [Respects]
  by_cases due : sized.heap.countAtLastGrowth ≠ sized.heap.count
  · rw [size_maybeGrowHeapInsteadOfCollecting liveAtLastGc base due, size_grown_le_iff below]
    simp only [due, ne_eq, not_false_eq_true, forall_const]
    cases sized.sizer with
    | fixed =>
        simp only [HeapSizer.targetSize, iff_true]
        exact le_max_left _ _
    | growable growableSizer =>
        simp only [HeapSizer.targetSize]
        rw [lt_leastExceeding_iff growableSizer.targetSize_mono]
    | adaptive adaptiveSizer =>
        simp only [HeapSizer.targetSize]
        rw [lt_leastExceeding_iff adaptiveSizer.calculateSize_withLiveBytes_mono]
  · rw [SizedWorld.maybeGrowHeapInsteadOfCollecting, if_neg due]
    exact iff_of_true below (fun isDue => absurd isDue due)

theorem size_heapSizerOnGc_le_iff (liveBytes pauseNs : UInt64) (base : ℕ)
    (below : sized.heap.size ≤ options.maximumHeapSize) :
    (sized.heapSizerOnGc liveBytes pauseNs base).heap.size ≤ options.maximumHeapSize ↔
      Respects options sized (.sizerOnGc liveBytes pauseNs base) := by
  rw [SizedWorld.heapSizerOnGc, Respects]
  cases sized.sizer with
  | fixed => exact iff_of_true below trivial
  | growable growableSizer =>
      dsimp only
      rw [lt_leastExceeding_iff growableSizer.targetSize_mono]
      split
      · rw [SizedWorld.withHeap, SizedWorld.heap, size_resizeHeap]
      · omega
  | adaptive adaptiveSizer =>
      dsimp only [SizedWorld.withHeap, SizedWorld.heap]
      rw [size_resizeHeap,
        lt_leastExceeding_iff (adaptiveSizer.calculateSize_onGc_mono pauseNs)]

/-- The background task asks for the live bytes that the sizer has stored. -/
theorem size_heapSizerBackgroundTask_le_iff {adaptiveSizer : AdaptiveHeapSizer}
    (isSizer : sized.sizer = .adaptive adaptiveSizer) (bytesAllocated heartbeat : UInt64)
    (base : ℕ) (locked : Bool) (below : sized.heap.size ≤ options.maximumHeapSize) :
    (sized.heapSizerBackgroundTask adaptiveSizer bytesAllocated heartbeat base
        locked).heap.size ≤ options.maximumHeapSize ↔
      Respects options sized (.backgroundTask bytesAllocated heartbeat base locked) := by
  have stored : (adaptiveSizer.onHeartbeat bytesAllocated heartbeat).withLiveBytes
      adaptiveSizer.liveBytes = adaptiveSizer.onHeartbeat bytesAllocated heartbeat := rfl
  simp only [Respects, isSizer]
  rw [SizedWorld.heapSizerBackgroundTask,
    lt_leastExceeding_iff (AdaptiveHeapSizer.calculateSize_withLiveBytes_mono _), stored]
  split
  next none => exact iff_of_true below (fun some => absurd none some)
  next some =>
    cases locked with
    | false => exact iff_of_true below (fun _ isLocked => absurd isLocked Bool.false_ne_true)
    | true =>
        simp only [↓reduceIte, SizedWorld.withHeap, SizedWorld.heap, size_resizeHeap]
        exact ⟨fun fits _ _ => fits, fun fits => fits some trivial⟩

/-- The budget tells the size: what is in use or owed, what is free, and the metadata of the first
slabs. -/
theorem size_add_bytesAtStart {world : World} (conserved : Conserved options.toOptions world) :
    ((world.heap.size + bytesAtStart options : ℕ) : ℤ) =
      (world.heap.noflSpace.usedBlockCount * NOFL_BLOCK_SIZE +
        pageBytes world.heap world.heap.largeObjectPages + world.inFlightBytes +
        headroom (world.heap.noflSpace.noflSpaceShrink 0) + options.size : ℕ) -
      (world.heap.noflSpace.noflSpaceShrink 0).pendingUnavailableBytes := by
  have shrunk := world.heap.noflSpace.noflSpaceShrink_adds 0
  have listed := shrunk.listed conserved.listed
  have value := shrunk.value_eq
  rw [NoflSpace.value_eq _ listed, NoflSpace.noflActiveBlockCount_eq _ listed,
    NoflSpace.availableBlockCount_eq, NoflSpace.usedBlockCount_noflSpaceShrink] at value
  have owesNothing : (initialWorld options.toOptions).heap.noflSpace.pendingUnavailableBytes = 0 :=
    NoflSpace.pendingUnavailableBytes_noflSpaceInit _ _ _
  have budget := conserved.budget_eq
  rw [World.budget, quantity_eq_balance conserved.listed, balance, World.budget, quantity,
    owesNothing] at budget
  have noPages : pageBytes (initialWorld options.toOptions).heap
      (initialWorld options.toOptions).heap.largeObjectPages = 0 := Nat.zero_mul _
  have noRequests : (initialWorld options.toOptions).inFlightBytes = 0 := rfl
  have startSize : (initialWorld options.toOptions).heap.size = options.size := rfl
  rw [noPages, noRequests, startSize] at budget
  rw [bytesAtStart, headroom]
  push_cast at value budget ⊢
  linarith

theorem size_growHeapIfNecessary_le_iff {world : World}
    (conserved : Conserved options.toOptions world) (hasAmbiguousEdges progress : Bool)
    (base : ℕ) (below : world.heap.size ≤ options.maximumHeapSize) :
    (growHeapIfNecessary world.heap hasAmbiguousEdges progress base).size ≤
        options.maximumHeapSize ↔
      world.heap.policy = .fixed ∨ bytesWanted world hasAmbiguousEdges progress + options.size ≤
        options.maximumHeapSize + bytesAtStart options := by
  have sizes := size_add_bytesAtStart conserved
  rw [growHeapIfNecessary, bytesWanted]
  split
  next isFixed => exact iff_of_true below (.inl isFixed)
  next notFixed =>
    rw [or_iff_right notFixed]
    dsimp only
    generalize world.heap.noflSpace.noflSpaceShrink 0 = noflSpace at sizes ⊢
    split
    · rw [size_resizeHeap]
      omega
    · dsimp only
      omega

end Sizes

/-! ## Steps -/

section Steps

variable {sized result : SizedWorld} {options : SizingOptions}

theorem conserved_withHeap {heap : Budget.Heap}
    (conserved : Conserved options.toOptions sized.world) (keeps : Keeps sized.heap heap) :
    Conserved options.toOptions (sized.withHeap heap).world := by
  have changes : Changes 0 sized.world (sized.withHeap heap).world :=
    changes_of_keeps conserved.listed keeps rfl
  exact ⟨changes.listed, by rw [changes.budget_eq, conserved.budget_eq, add_zero]⟩

/-- None of the actions on the heap is a collection, so none of them fails. -/
theorem conserved_of_step {world after : World} {action : Action}
    (conserved : Conserved options.toOptions world)
    (notFails : ¬action.FailsLargeAllocation world)
    (stepped : step world action = .next after) : Conserved options.toOptions after := by
  obtain ⟨change, changes, iff⟩ := step_changes conserved.listed stepped
  exact ⟨changes.listed, by rw [changes.budget_eq, iff.mpr notFails, conserved.budget_eq, add_zero]⟩

theorem resetAfterTracing_keeps {heap reset : Budget.Heap} {lists : NoflSpace}
    {livePages base : ℕ} (stepped : resetAfterTracing heap lists livePages base = .next reset) :
    Keeps heap reset := by
  simp only [resetAfterTracing, Outcome.bind_eq_next] at stepped
  obtain ⟨used, usedEq, resetEq⟩ := stepped
  have counted : Keeps heap { used with count := used.count + 1 } :=
    (useBlocks_keeps heap usedEq).trans ⟨rfl, id, rfl, rfl⟩
  exact counted.trans (heapResetLargeObjectPages_keeps _ resetEq)

theorem conserved_maybeGrowHeapInsteadOfCollecting (liveAtLastGc : UInt64) (base : ℕ)
    (conserved : Conserved options.toOptions sized.world) :
    Conserved options.toOptions
      (sized.maybeGrowHeapInsteadOfCollecting liveAtLastGc base).world := by
  rw [SizedWorld.maybeGrowHeapInsteadOfCollecting]
  dsimp only
  split
  · split
    · exact conserved_withHeap conserved (resizeHeap_keeps _ _ _)
    · exact conserved
  · exact conserved

theorem conserved_heapSizerOnGc (liveBytes pauseNs : UInt64) (base : ℕ)
    (conserved : Conserved options.toOptions sized.world) :
    Conserved options.toOptions (sized.heapSizerOnGc liveBytes pauseNs base).world := by
  rw [SizedWorld.heapSizerOnGc]
  cases sized.sizer with
  | fixed => exact conserved
  | growable growableSizer =>
      dsimp only
      split
      · exact conserved_withHeap conserved (resizeHeap_keeps _ _ _)
      · exact conserved
  | adaptive adaptiveSizer => exact conserved_withHeap conserved (resizeHeap_keeps _ _ _)

theorem conserved_heapSizerBackgroundTask (adaptiveSizer : AdaptiveHeapSizer)
    (bytesAllocated heartbeat : UInt64) (base : ℕ) (locked : Bool)
    (conserved : Conserved options.toOptions sized.world) :
    Conserved options.toOptions (sized.heapSizerBackgroundTask adaptiveSizer bytesAllocated
      heartbeat base locked).world := by
  rw [SizedWorld.heapSizerBackgroundTask]
  dsimp only
  split
  · exact conserved
  · split
    · exact conserved_withHeap conserved (resizeHeap_keeps _ _ _)
    · exact conserved

/-- The sizer moves bytes between the blocks and what is left of the heap, as all else does. -/
theorem conserved_sizingStep {action : SizingAction}
    (conserved : Conserved options.toOptions sized.world)
    (stepped : sizingStep sized action = .next result) :
    Conserved options.toOptions result.world := by
  cases action with
  | operate operation =>
      simp only [sizingStep, Outcome.bind_eq_next] at stepped
      obtain ⟨-, -, after, operated, equal⟩ := stepped
      cases equal
      refine conserved_of_step conserved ?_ operated
      cases operation <;> exact id
  | growInsteadOfCollecting liveAtLastGc base =>
      simp only [sizingStep, Outcome.require_bind_eq_next] at stepped
      obtain ⟨-, equal⟩ := stepped
      cases equal
      exact conserved_maybeGrowHeapInsteadOfCollecting liveAtLastGc base conserved
  | collect lists livePages base hasAmbiguousEdges progress =>
      simp only [sizingStep, Outcome.bind_eq_next] at stepped
      obtain ⟨-, -, reset, resetEq, equal⟩ := stepped
      cases equal
      exact conserved_withHeap conserved (resetAfterTracing_keeps resetEq)
  | sizerOnGc liveBytesEstimate pauseNs base =>
      simp only [sizingStep] at stepped
      split at stepped
      · cases stepped
        exact conserved_heapSizerOnGc liveBytesEstimate pauseNs base conserved
      · cases stepped
  | growIfNecessary base =>
      simp only [sizingStep] at stepped
      split at stepped
      · cases stepped
        exact conserved_withHeap conserved (growHeapIfNecessary_keeps _ _ _ _)
      · cases stepped
  | backgroundTask bytesAllocated heartbeat base locked =>
      simp only [sizingStep] at stepped
      split at stepped
      next adaptiveSizer _ _ =>
        cases stepped
        exact conserved_heapSizerBackgroundTask adaptiveSizer bytesAllocated heartbeat base locked
          conserved
      next => cases stepped
  | advancePageOutQueue =>
      simp only [sizingStep, Outcome.bind_eq_next] at stepped
      obtain ⟨after, advanced, equal⟩ := stepped
      cases equal
      exact conserved_of_step conserved id advanced
  | pageOutBlocks =>
      simp only [sizingStep, Outcome.bind_eq_next] at stepped
      obtain ⟨after, pagedOut, equal⟩ := stepped
      cases equal
      exact conserved_of_step conserved id pagedOut

/-- From a size below the maximum, a step leads to one if and only if it respects the maximum. -/
theorem size_le_iff {action : SizingAction}
    (conserved : Conserved options.toOptions sized.world)
    (below : sized.heap.size ≤ options.maximumHeapSize)
    (stepped : sizingStep sized action = .next result) :
    result.heap.size ≤ options.maximumHeapSize ↔ Respects options sized action := by
  cases action with
  | operate operation =>
      simp only [sizingStep, Outcome.bind_eq_next] at stepped
      obtain ⟨-, -, after, operated, equal⟩ := stepped
      cases equal
      rw [SizedWorld.heap, size_operate operated]
      exact iff_of_true below trivial
  | growInsteadOfCollecting liveAtLastGc base =>
      simp only [sizingStep, Outcome.require_bind_eq_next] at stepped
      obtain ⟨-, equal⟩ := stepped
      cases equal
      exact size_maybeGrowHeapInsteadOfCollecting_le_iff liveAtLastGc base below
  | collect lists livePages base hasAmbiguousEdges progress =>
      simp only [sizingStep, Outcome.bind_eq_next] at stepped
      obtain ⟨-, -, reset, resetEq, equal⟩ := stepped
      cases equal
      dsimp only [SizedWorld.withHeap, SizedWorld.heap]
      rw [size_resetAfterTracing resetEq]
      exact iff_of_true below trivial
  | sizerOnGc liveBytesEstimate pauseNs base =>
      simp only [sizingStep] at stepped
      split at stepped
      · cases stepped
        exact size_heapSizerOnGc_le_iff liveBytesEstimate pauseNs base below
      · cases stepped
  | growIfNecessary base =>
      simp only [sizingStep] at stepped
      split at stepped
      next hasAmbiguousEdges progress isSized =>
        cases stepped
        simp only [Respects, isSized]
        exact size_growHeapIfNecessary_le_iff conserved hasAmbiguousEdges progress base below
      next => cases stepped
  | backgroundTask bytesAllocated heartbeat base locked =>
      simp only [sizingStep] at stepped
      split at stepped
      next adaptiveSizer _ isSizer =>
        cases stepped
        exact size_heapSizerBackgroundTask_le_iff isSizer bytesAllocated heartbeat base locked
          below
      next => cases stepped
  | advancePageOutQueue =>
      simp only [sizingStep, step, Outcome.pure_eq_next, Outcome.bind_next,
        Outcome.next.injEq] at stepped
      subst stepped
      exact iff_of_true below trivial
  | pageOutBlocks =>
      simp only [sizingStep, step, Outcome.pure_eq_next, Outcome.bind_next,
        Outcome.next.injEq] at stepped
      subst stepped
      exact iff_of_true below trivial

end Steps

/-! ## Runs -/

/-- The size is at most the maximum, and no block is lost. -/
structure Sized (options : SizingOptions) (sized : SizedWorld) : Prop where
  below : sized.heap.size ≤ options.maximumHeapSize
  conserved : Conserved options.toOptions sized.world

theorem sized_of_reachable {options : SizingOptions} {sized : SizedWorld}
    (initial : options.size ≤ options.maximumHeapSize)
    (reached : (sizingSystem options).ReachableBy (Respects options) sized) :
    Sized options sized := by
  refine reached.invariant (sizingSystem options) ?_ ?_
  · rintro state rfl
    exact ⟨initial, initialWorld_listed options.toOptions, rfl⟩
  · intro before action after isSized respects stepped
    exact ⟨(size_le_iff isSized.conserved isSized.below stepped).mpr respects,
      conserved_sizingStep isSized.conserved stepped⟩

/-- An adaptive heap of 2 MB that may have up to `maximum` bytes. -/
def adaptiveOptions (maximum : ℕ) : SizingOptions :=
  { size := 2 * 1024 * 1024, policy := .adaptive, pageSizeLog2 := 12,
    evacuationMinimumReserve := 0, base := Nofl.NOFL_SLAB_SIZE, heapDoubleThreshold := 0,
    heapExpansiveness := Binary64.ofUInt64 1, maximumHeapSize := maximum, heartbeat := 0 }

/-- The first run of the background task, and a collection that finds all blocks where they were
and 1 MB live. -/
def heartbeatAndCollection : List (SizedWorld → SizingAction) :=
  [fun _ => .backgroundTask 4096 1000000 (2 * Nofl.NOFL_SLAB_SIZE) true,
   fun sized => .collect sized.heap.noflSpace 0 (3 * Nofl.NOFL_SLAB_SIZE) false true,
   fun _ => .sizerOnGc (1024 * 1024) 2000000 (4 * Nofl.NOFL_SLAB_SIZE),
   fun _ => .growIfNecessary (5 * Nofl.NOFL_SLAB_SIZE)]

end Whippet.Mmc.Sizing
