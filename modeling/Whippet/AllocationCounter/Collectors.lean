import Whippet.Mmc.AllocationCounter
import Whippet.Nofl.BlockPartition
import Whippet.Pcc.AllocationCounter

/-!
The allocation counters of mmc and pcc.

Owns: that neither counter becomes smaller between two moments at which mutators run, and that no
subtraction on the way to it underflows, as long as fewer than `2 ^ 64` bytes were allocated. Does
not own: bdw, whose library counts, and semi, whose counter is the total of the last collection.
-/

namespace Whippet.Counting

open Lospace Mmc Nofl Pcc Tables

/-- The subtractions of `large_object_space_add_to_allocation_counter` do not underflow. -/
structure SubtractsPages (space : LargeObjectSpace) : Prop where
  free_le : space.freePages ≤ space.totalPages
  live_le : space.livePagesAtLastCollection ≤ space.totalPages - space.freePages

/-- The subtractions of `copy_space_add_to_allocation_counter` and of the allocators that give up
their blocks do not underflow. -/
structure SubtractsBytes (world : SharedWorld) : Prop where
  atLastGc_le : world.space.allocatedBytesAtLastGc ≤ world.space.allocatedBytes
  full : ∀ stage ∈ world.allocators, ∀ allocator, stage.allocator? = some allocator →
    world.space.allocated allocator.block ≤ COPY_SPACE_REGION_SIZE
  partlyFull : ∀ stage ∈ world.allocators, ∀ allocator, stage.allocator? = some allocator →
    allocator.hp % COPY_SPACE_REGION_SIZE ≠ 0 →
      world.space.allocated allocator.block ≤ allocator.hp % COPY_SPACE_REGION_SIZE

theorem subtractsPages_of_counted {config : Config} {state : LospaceState}
    (counted : LospaceState.Counted config state) (mutating : state.collecting = none) :
    SubtractsPages state.space := by
  have fits := counted.fits mutating
  have free : state.space.freePages ≤ state.space.totalPages := by
    rw [BitVec.le_def]
    omega
  refine ⟨free, ?_⟩
  rw [BitVec.le_def, BitVec.toNat_sub_of_le free]
  omega

theorem subtractsBytes_of_invariant {world : SharedWorld} (invariant : world.Invariant)
    (idle : world.space.Idle) : SubtractsBytes world := by
  refine ⟨idle.atLastGc_le, ?_, ?_⟩
  · intro stage member allocator held
    exact ((invariant.counted.stages stage member).within allocator held).mod_spec.1
  · intro stage member allocator held inside
    exact ((invariant.counted.stages stage member).within allocator held).mod_spec.2 inside

/-! ## The collectors -/

/-- In every run of mmc and of pcc, the counter does not become smaller between two moments at which
mutators run, and nothing underflows, as long as fewer than `2 ^ 64` bytes were allocated. -/
theorem allocation_counter_never_decreases (config : Config) :
    (∀ before after : CountedHeap NoflCounters,
      (noflCounters.counterSystem config).Reachable before →
      (noflCounters.counterSystem config).Follows (fun _ _ => True) before after →
      before.lospace.collecting = none → after.lospace.collecting = none →
      after.bytes < 2 ^ 64 →
        noflCounters.gcAllocationCounter config before ≤
            noflCounters.gcAllocationCounter config after ∧
          SubtractsPages after.lospace.space) ∧
    ∀ before after : CountedHeap SharedWorld,
      (copySpaceCounters.counterSystem config).Reachable before →
      (copySpaceCounters.counterSystem config).Follows (fun _ _ => True) before after →
      before.lospace.collecting = none → after.lospace.collecting = none →
      after.bytes < 2 ^ 64 →
        copySpaceCounters.gcAllocationCounter config before ≤
            copySpaceCounters.gcAllocationCounter config after ∧
          SubtractsPages after.lospace.space ∧ SubtractsBytes after.space := by
  constructor
  · intro before after reached follows mutating afterMutating within
    have exact := exact_of_reachable noflCounters_counts (reachable_of_follows reached follows)
      within
    exact ⟨counter_le_of_follows noflCounters_counts reached follows mutating afterMutating within,
      subtractsPages_of_counted exact.counted afterMutating⟩
  · intro before after reached follows mutating afterMutating within
    have exact := exact_of_reachable copySpaceCounters_counts
      (reachable_of_follows reached follows) within
    exact ⟨counter_le_of_follows copySpaceCounters_counts reached follows mutating afterMutating
        within, subtractsPages_of_counted exact.counted afterMutating,
      subtractsBytes_of_invariant exact.sound (exact.idle afterMutating)⟩

/-! ## Runs from a new heap -/

section NewHeap

variable {Space Action : Type} (small : SmallSpace Space Action) (config : Config)

/-- Two parts of a run from a new heap, with the heap after each of them. -/
def runParts (space : Space) (first second : List (CounterAction Action)) :
    Outcome LospaceFailure (CountedHeap Space × CountedHeap Space) := do
  let lospace ← largeObjectSpaceInit fun _ => true
  let start : CountedHeap Space :=
    { space := space
      lospace := { space := lospace, collecting := none, allocated := [] }
      totalAllocatedBytesAtLastGc := 0
      bytes := 0 }
  let before ← System.runBy (small.counterStep config) (fun _ _ => True) start first
  let after ← System.runBy (small.counterStep config) (fun _ _ => True) before second
  pure (before, after)

variable {small config}

theorem follows_of_runParts {space : Space} {first second : List (CounterAction Action)}
    {heaps : CountedHeap Space × CountedHeap Space} (initial : small.initial space)
    (ran : runParts small config space first second = .next heaps) :
    (small.counterSystem config).Reachable heaps.1 ∧
      (small.counterSystem config).Follows (fun _ _ => True) heaps.1 heaps.2 := by
  simp only [runParts, Outcome.bind_eq_next, Outcome.pure_eq_next, Outcome.next.injEq] at ran
  obtain ⟨lospace, created, before, ranFirst, after, ranSecond, rfl⟩ := ran
  constructor
  · refine System.ReachableBy.of_runBy (small.counterSystem config) (fun _ _ => True)
      (fun _ _ => id) (.initial ?_) first ranFirst
    exact ⟨initial, ⟨_, created, rfl, rfl⟩, rfl, rfl⟩
  · exact System.Follows.of_runBy (fun _ _ => True) (fun _ _ => id) second ranSecond

end NewHeap

/-- A new heap of mmc. -/
def newNoflCounters (size base : ℕ) : NoflCounters :=
  { world := freshWorld size base (1 / 50) (1 / 2) false true
    secondChanceGranules := 0 }

theorem initial_newNoflCounters {size base : ℕ}
    (available : SlabsAvailable [] base (BlockSpace.slabsFor size)) :
    noflCounters.initial (newNoflCounters size base) :=
  ⟨⟨⟨size, base, _, _, _, _, available, rfl⟩, rfl⟩, rfl⟩

theorem slabsAvailable_4194304 : SlabsAvailable [] 4194304 (BlockSpace.slabsFor 4194304) :=
  ⟨by decide, by decide, by decide, nofun⟩

/-- A new heap of pcc with two allocators. -/
def newSharedWorld : SharedWorld :=
  { space := initialSharedSpace 262144 (2 ^ 26) false false
    allocators := List.replicate 2 .idle }

theorem initial_newSharedWorld : copySpaceCounters.initial newSharedWorld :=
  ⟨262144, 2 ^ 26, false, false, 2, by decide, rfl⟩

/-- A mutator fills a block, finds a fragment and allocates a large object. -/
def fillBlock : List (CounterAction NoflAction) :=
  [.small (.blocks (.acquireEmptyBlock (.mutator 0))), .small (.blocks (.bump (.mutator 0) 4096)),
    .small (.blocks (.sweep (.mutator 0) none)), .small (.secondChance 4),
    .large (.alloc 0x2000 .precisely (roomyEnvironment 1 0x10000))]

/-- A collection in which everything dies. -/
def collectAll : List (CounterAction NoflAction) :=
  [.startCollection false, .small (.blocks (.startGc .major)),
    .finishCollection (.blocks (.finishGc .major (fun _ => false) fun _ => [])) fun _ => true]

/-- A page of the quarantine, and a block. -/
def allocateAgain : List (CounterAction NoflAction) :=
  [.large (.alloc 0x1000 .precisely (roomyEnvironment 2 0x20000)),
    .small (.blocks (.acquireEmptyBlock (.mutator 0))), .small (.blocks (.bump (.mutator 0) 10)),
    .small (.blocks (.finish (.mutator 0) []))]

/-- A mutator allocates two objects in a block, and a large object. -/
def fillRegion : List (CounterAction SharedAction) :=
  [.small (.allocate 0 4096), .small (.continue 0), .small (.continue 0),
    .small (.allocate 0 4096), .small (.finish 0), .small (.continue 0),
    .large (.alloc 0x2000 .precisely (roomyEnvironment 1 0x10000))]

/-- A worker copies one of the objects. Then a mutator allocates a page of the quarantine and a
small object. -/
def copyAndAllocateAgain : List (CounterAction SharedAction) :=
  [.startCollection false, .small .flip, .small (.allocate 1 4096), .small (.continue 1),
    .small (.continue 1), .small (.finish 1), .small (.continue 1),
    .finishCollection (.finishGc false) fun _ => true,
    .large (.alloc 0x1000 .precisely (roomyEnvironment 2 0x20000)), .small (.allocate 0 4096),
    .small (.continue 0), .small (.continue 0), .small (.finish 0), .small (.continue 0)]

theorem allocation_counter_never_decreases_after_reuse :
    (∃ before after : CountedHeap NoflCounters,
      before.bytes = 73792 ∧ after.bytes = 77888 ∧
        noflCounters.gcAllocationCounter pagedConfig before ≤
          noflCounters.gcAllocationCounter pagedConfig after ∧
        SubtractsPages after.lospace.space) ∧
    ∃ before after : CountedHeap SharedWorld,
      before.bytes = 16384 ∧ after.bytes = 24576 ∧
        copySpaceCounters.gcAllocationCounter pagedConfig before ≤
          copySpaceCounters.gcAllocationCounter pagedConfig after ∧
        SubtractsPages after.lospace.space ∧ SubtractsBytes after.space := by
  constructor
  · have leads : (runParts noflCounters pagedConfig (newNoflCounters 4194304 4194304) fillBlock
        (collectAll ++ allocateAgain)).leadsTo (fun heaps =>
          decide (heaps.1.lospace.collecting = none ∧ heaps.2.lospace.collecting = none ∧
            heaps.1.bytes = 73792 ∧ heaps.2.bytes = 77888)) = true := by
      decide +kernel
    obtain ⟨heaps, ran, facts⟩ := Outcome.exists_next_of_leadsTo leads
    obtain ⟨mutating, afterMutating, bytes, afterBytes⟩ := of_decide_eq_true facts
    obtain ⟨reached, follows⟩ := follows_of_runParts
      (initial_newNoflCounters slabsAvailable_4194304) ran
    have within : heaps.2.bytes < 2 ^ 64 := afterBytes ▸ by decide
    exact ⟨heaps.1, heaps.2, bytes, afterBytes,
      (allocation_counter_never_decreases pagedConfig).1 _ _ reached follows mutating
        afterMutating within⟩
  · have leads : (runParts copySpaceCounters pagedConfig newSharedWorld fillRegion
        copyAndAllocateAgain).leadsTo (fun heaps =>
          decide (heaps.1.lospace.collecting = none ∧ heaps.2.lospace.collecting = none ∧
            heaps.1.bytes = 16384 ∧ heaps.2.bytes = 24576)) = true := by
      decide +kernel
    obtain ⟨heaps, ran, facts⟩ := Outcome.exists_next_of_leadsTo leads
    obtain ⟨mutating, afterMutating, bytes, afterBytes⟩ := of_decide_eq_true facts
    obtain ⟨reached, follows⟩ := follows_of_runParts initial_newSharedWorld ran
    have within : heaps.2.bytes < 2 ^ 64 := afterBytes ▸ by decide
    exact ⟨heaps.1, heaps.2, bytes, afterBytes,
      (allocation_counter_never_decreases pagedConfig).2 _ _ reached follows mutating
        afterMutating within⟩

/-- A large object of a quarter of the range of a word. -/
def allocQuarter (node : NodePointer) : CounterAction NoflAction :=
  .large (.alloc (BitVec.ofNat 64 (2 ^ 62)) .precisely (roomyEnvironment node (2 ^ 62)))

/-- With the fourth such object the counter wraps around, although each of them dies before the
next. -/
theorem allocation_counter_never_decreases_fails :
    ¬∀ before after : CountedHeap NoflCounters,
      (noflCounters.counterSystem pagedConfig).Reachable before →
      (noflCounters.counterSystem pagedConfig).Follows (fun _ _ => True) before after →
      before.lospace.collecting = none → after.lospace.collecting = none →
        noflCounters.gcAllocationCounter pagedConfig before ≤
          noflCounters.gcAllocationCounter pagedConfig after := by
  intro claim
  have leads : (runParts noflCounters pagedConfig (newNoflCounters 4194304 4194304)
      ([1, 2, 3].flatMap fun node => allocQuarter node :: collectAll) [allocQuarter 4]).leadsTo
        (fun heaps => decide (heaps.1.lospace.collecting = none ∧
          heaps.2.lospace.collecting = none ∧
          noflCounters.gcAllocationCounter pagedConfig heaps.2 <
            noflCounters.gcAllocationCounter pagedConfig heaps.1)) = true := by
    decide +kernel
  obtain ⟨heaps, ran, facts⟩ := Outcome.exists_next_of_leadsTo leads
  obtain ⟨mutating, afterMutating, smaller⟩ := of_decide_eq_true facts
  obtain ⟨reached, follows⟩ := follows_of_runParts
    (initial_newNoflCounters slabsAvailable_4194304) ran
  exact absurd smaller
    (BitVec.not_lt.mpr (claim _ _ reached follows mutating afterMutating))

end Whippet.Counting
