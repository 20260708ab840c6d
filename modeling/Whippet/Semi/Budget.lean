import Whippet.Semi.Space

/-!
The large-object budget of the semi-space collector.

A large object needs no copy reserve, so it takes half of its pages from either region. A
collection counts the stolen pages anew, from the large objects it marked; the allocation that
asked for it comes after, and has to steal its own.

Owns: the invariant that the stolen pages are those of the large objects in use, the condition on
large allocations under which it is kept, and what follows for the size of the heap. Does not own:
whether an assertion on the sizes fails.
-/

namespace Whippet.Semi

open Nofl (alignUp)

/-! ## Rounding -/

theorem alignUp_two_div_two (value : ℕ) : alignUp value 2 / 2 = (value + 1) / 2 := by
  unfold alignUp
  omega

theorem two_mul_alignUp_mul_two_div (value align : ℕ) :
    2 * (alignUp value (align * 2) / 2) = alignUp value (align * 2) := by
  unfold alignUp
  rw [← Nat.mul_assoc]
  omega

/-- Half of the pages, rounded up, in bytes. -/
theorem alignUp_two_mul_div_two (value pageSize : ℕ) :
    alignUp value 2 * pageSize / 2 = alignUp value 2 / 2 * pageSize := by
  have even : alignUp value 2 = 2 * (alignUp value 2 / 2) := by
    unfold alignUp
    omega
  rw [even, Nat.mul_assoc, Nat.mul_div_cancel_left _ (by decide),
    Nat.mul_div_cancel_left _ (by decide)]

/-! ## What the operations do -/

section Operations

variable {heap result : Heap} {space after : SemiSpace} {region trimmed : Region}

theorem regionTrimBy_eq_next {bytes : ℕ} :
    regionTrimBy region bytes = .next trimmed ↔
      bytes ≤ region.activeSize ∧
        { region with activeSize := region.activeSize - bytes } = trimmed := by
  simp only [regionTrimBy, Outcome.check_bind_eq_next, Outcome.pure_eq_next,
    Outcome.next.injEq]

theorem regionSetActiveSize_eq_next {pageSize size : ℕ}
    (set : regionSetActiveSize pageSize region size = .next trimmed) :
    size ≤ region.mappedSize ∧ trimmed = { region with activeSize := size } := by
  simp only [regionSetActiveSize, Outcome.check_bind_eq_next] at set
  obtain ⟨mapped, -, set⟩ := set
  refine ⟨mapped, ?_⟩
  split at set
  next below =>
    obtain ⟨-, rfl⟩ := regionTrimBy_eq_next.mp set
    have whole : region.activeSize - (region.activeSize - size) = size := by omega
    rw [whole]
  next =>
    cases set
    rfl

theorem flip_eq_next :
    flip space = .next after ↔
      space.hp ≤ space.limit ∧
        space.limit - space.toSpace.base ≤ space.toSpace.activeSize ∧
        space.toSpace.activeSize ≤ space.fromSpace.mappedSize ∧
        { space with
          fromSpace := space.toSpace
          toSpace := space.fromSpace
          hp := space.fromSpace.base
          limit := space.fromSpace.base + space.fromSpace.activeSize } = after := by
  simp only [flip, Outcome.check_bind_eq_next, Outcome.pure_eq_next, Outcome.next.injEq]

/-- Resizing changes the heap's size and the inactive region. -/
theorem foldl_resizeHeap_eq (resizes : List (ℕ × Option ℕ)) (heap : Heap) :
    ∃ fromSpace size,
      resizes.foldl (fun heap resize => resizeHeap heap resize.1 resize.2) heap =
        { heap with
          semiSpace := { heap.semiSpace with fromSpace := fromSpace }
          size := size } := by
  induction resizes generalizing heap with
  | nil => exact ⟨heap.semiSpace.fromSpace, heap.size, rfl⟩
  | cons resize resizes inductionHypothesis =>
      obtain ⟨fromSpace, size, resized⟩ :=
        inductionHypothesis (resizeHeap heap resize.1 resize.2)
      exact ⟨fromSpace, size, resized⟩

/-- What a steal does: the limit and both regions lose the newly stolen pages. -/
theorem semiSpaceStealPages_eq_next {npages : ℕ}
    (stole : semiSpaceStealPages space npages = .next (after, true)) :
    regionNewlyStolenPages space npages * space.pageSize ≤ sizeSub space.limit space.hp ∧
      ∃ toActive fromActive,
        toActive + regionNewlyStolenPages space npages * space.pageSize =
          space.toSpace.activeSize ∧
        fromActive + regionNewlyStolenPages space npages * space.pageSize =
          space.fromSpace.activeSize ∧
        after = { space with
          stolenPages := space.stolenPages + npages
          limit := space.limit - regionNewlyStolenPages space npages * space.pageSize
          toSpace := { space.toSpace with activeSize := toActive }
          fromSpace := { space.fromSpace with activeSize := fromActive } } := by
  unfold semiSpaceStealPages at stole
  dsimp only at stole
  generalize regionNewlyStolenPages space npages * space.pageSize = bytes at stole ⊢
  split at stole
  · simp at stole
  next notBelow =>
    refine ⟨not_lt.mp notBelow, ?_⟩
    split at stole
    next noBytes =>
      subst noBytes
      simp only [Outcome.pure_eq_next, Outcome.next.injEq, Prod.mk.injEq] at stole
      exact ⟨_, _, rfl, rfl, stole.1.symm⟩
    next =>
      simp only [Outcome.bind_eq_next, regionTrimBy_eq_next, Outcome.pure_eq_next,
        Outcome.next.injEq, Prod.mk.injEq] at stole
      obtain ⟨toSpace, ⟨toRoom, rfl⟩, fromSpace, ⟨fromRoom, rfl⟩, equal, -⟩ := stole
      exact ⟨_, _, Nat.sub_add_cancel toRoom, Nat.sub_add_cancel fromRoom, equal.symm⟩

/-- A failed steal leaves the space as it was, without the room. -/
theorem semiSpaceStealPages_eq_next_false {npages : ℕ}
    (failed : semiSpaceStealPages space npages = .next (after, false)) :
    after = space ∧
      sizeSub space.limit space.hp < regionNewlyStolenPages space npages * space.pageSize := by
  unfold semiSpaceStealPages at failed
  dsimp only at failed
  split at failed
  next below =>
    simp only [Outcome.pure_eq_next, Outcome.next.injEq, Prod.mk.injEq] at failed
    exact ⟨failed.1.symm, below⟩
  next =>
    split at failed
    · simp at failed
    · simp only [Outcome.bind_eq_next, Outcome.pure_eq_next, Outcome.next.injEq,
        Prod.mk.injEq] at failed
      obtain ⟨-, -, -, -, -, impossible⟩ := failed
      cases impossible

end Operations

/-! ## The invariant -/

/-- The pages of the large objects in use. -/
def LargeObjectSpace.pages (space : LargeObjectSpace) : ℕ :=
  space.survivors.sum + space.allocated.sum

/-- The size of each region of a heap of the given size. -/
def Heap.regionSize (heap : Heap) : ℕ := alignUp heap.size (heap.semiSpace.pageSize * 2) / 2

/-- What each region gives up to the stolen pages. -/
def SemiSpace.stolenBytes (space : SemiSpace) : ℕ :=
  alignUp space.stolenPages 2 / 2 * space.pageSize

/-- The allocation pointer is below the limit, the limit is the end of the active to-space, and the
from-space is as large. -/
structure SemiSpace.Sized (space : SemiSpace) : Prop where
  base_le : space.toSpace.base ≤ space.hp
  hp_le : space.hp ≤ space.limit
  toActive_eq : space.limit = space.toSpace.base + space.toSpace.activeSize
  fromActive_eq : space.fromSpace.activeSize = space.toSpace.activeSize
  fromActive_le : space.fromSpace.activeSize ≤ space.fromSpace.mappedSize

/-- The regions and the limit agree with each other and with the stolen pages. -/
structure Limited (heap : Heap) : Prop extends heap.semiSpace.Sized where
  page_pos : 0 < heap.semiSpace.pageSize
  limit_eq : heap.semiSpace.limit + heap.semiSpace.stolenBytes =
    heap.semiSpace.toSpace.base + heap.regionSize

/-- The stolen pages are those of the large objects. -/
structure Accounted (heap : Heap) : Prop where
  live_eq : heap.largeObjectSpace.livePagesAtLastCollection = heap.largeObjectSpace.survivors.sum
  stolen_eq : heap.semiSpace.stolenPages = heap.largeObjectSpace.pages

section Steps

variable {heap result : Heap}

theorem initialHeap_limited {pageSize : ℕ} (fixedSize : Bool) (size fromBase toBase : ℕ)
    (positive : 0 < pageSize) :
    Limited (initialHeap fixedSize pageSize size fromBase toBase) where
  page_pos := positive
  base_le := le_rfl
  hp_le := by simp [initialHeap]
  limit_eq := by simp [initialHeap, regionInit, SemiSpace.stolenBytes, Heap.regionSize, alignUp]
  toActive_eq := rfl
  fromActive_eq := rfl
  fromActive_le := le_rfl

theorem initialHeap_accounted (fixedSize : Bool) (pageSize size fromBase toBase : ℕ) :
    Accounted (initialHeap fixedSize pageSize size fromBase toBase) where
  live_eq := rfl
  stolen_eq := rfl

/-- `reset_heap_limits` sets what the flip and the sizer left unset. -/
theorem resetHeapLimits_limited (reset : resetHeapLimits heap = .next result)
    (positive : 0 < heap.semiSpace.pageSize)
    (base_le : heap.semiSpace.toSpace.base ≤ heap.semiSpace.hp) :
    Limited result ∧ result.largeObjectSpace = heap.largeObjectSpace ∧
      result.semiSpace.stolenPages = heap.semiSpace.stolenPages := by
  simp only [resetHeapLimits, Outcome.bind_eq_next, Outcome.check_eq_next,
    Outcome.pure_eq_next, Outcome.next.injEq] at reset
  obtain ⟨-, fits, fromSpace, fromSet, toSpace, toSet, -, hp_le, rfl⟩ := reset
  obtain ⟨mapped, rfl⟩ := regionSetActiveSize_eq_next fromSet
  obtain ⟨-, rfl⟩ := regionSetActiveSize_eq_next toSet
  rw [alignUp_two_mul_div_two] at *
  refine ⟨⟨⟨base_le, hp_le, rfl, rfl, mapped⟩, positive, ?_⟩, rfl, rfl⟩
  simp only [SemiSpace.stolenBytes, Heap.regionSize]
  omega

/-- A collection leaves the limits right and the pages accounted for, whatever they were. -/
theorem collect_spec {collection : Collection} (positive : 0 < heap.semiSpace.pageSize)
    (collected : collect heap collection = .next result) :
    Limited result ∧ Accounted result := by
  simp only [collect, Outcome.bind_eq_next, Outcome.require_eq_next, flip_eq_next] at collected
  obtain ⟨flipped, ⟨-, -, -, rfl⟩, -, -, -, -, -, -, reset⟩ := collected
  obtain ⟨fromSpace, size, resized⟩ := foldl_resizeHeap_eq collection.resizes _
  rw [resized] at reset
  obtain ⟨limited, largeEq, stolenEq⟩ :=
    resetHeapLimits_limited reset positive (Nat.le_add_right _ _)
  refine ⟨limited, ?_, ?_⟩
  · rw [largeEq]
    rfl
  · rw [stolenEq, largeEq]
    rfl

theorem collectForAlloc_spec {bytes : ℕ} {first second : Collection} {room : Bool}
    (positive : 0 < heap.semiSpace.pageSize)
    (collected : collectForAlloc heap bytes first second = .next (result, room)) :
    Limited result ∧ Accounted result := by
  simp only [collectForAlloc, Outcome.bind_eq_next] at collected
  obtain ⟨middle, collectedOnce, collected⟩ := collected
  have once := collect_spec positive collectedOnce
  split at collected
  · cases collected
    exact once
  · split at collected
    · cases collected
      exact once
    · simp only [Outcome.bind_eq_next, Outcome.pure_eq_next, Outcome.next.injEq,
        Prod.mk.injEq] at collected
      obtain ⟨again, collectedTwice, rfl, -⟩ := collected
      exact collect_spec once.1.page_pos collectedTwice

/-- Stealing keeps the limits right, and counts the pages of the object it is for. -/
theorem semiSpaceStealPages_spec {npages : ℕ} {space : SemiSpace} (limited : Limited heap)
    (stole : semiSpaceStealPages heap.semiSpace npages = .next (space, true)) :
    Limited { heap with semiSpace := space } ∧
      space.stolenPages = heap.semiSpace.stolenPages + npages := by
  obtain ⟨room, toActive, fromActive, toEq, fromEq, rfl⟩ := semiSpaceStealPages_eq_next stole
  rw [sizeSub_of_le limited.hp_le] at room
  refine ⟨⟨⟨limited.base_le, ?_, ?_, ?_, ?_⟩, limited.page_pos, ?_⟩, rfl⟩
  · have hp_le := limited.hp_le
    dsimp only
    omega
  · have toActive_eq := limited.toActive_eq
    dsimp only
    omega
  · have fromActive_eq := limited.fromActive_eq
    dsimp only
    omega
  · have fromActive_le := limited.fromActive_le
    dsimp only
    omega
  · have limit_eq := limited.limit_eq
    have newly : alignUp heap.semiSpace.stolenPages 2 / 2 +
        regionNewlyStolenPages heap.semiSpace npages =
          alignUp (heap.semiSpace.stolenPages + npages) 2 / 2 := by
      simp only [regionNewlyStolenPages, alignUp_two_div_two]
      omega
    simp only [SemiSpace.stolenBytes, Heap.regionSize] at limit_eq ⊢
    rw [← newly, Nat.add_mul]
    omega

/-- The branch of `allocate_large` that collects and then finds the room. -/
def CollectsThenSucceeds (heap : Heap) (size : ℕ) (first second : Collection) : Prop :=
  let npages := largeObjectSpaceNpages heap.semiSpace.pageSize size
  semiSpaceStealPages heap.semiSpace npages = .next (heap.semiSpace, false) ∧
    ∃ result, collectForLargeAlloc heap npages first second = .next (result, true)

theorem allocateLarge_limited {size : ℕ} {first second : Collection} (limited : Limited heap)
    (allocated : allocateLarge heap size first second = .next result) : Limited result := by
  simp only [allocateLarge, Outcome.bind_eq_next, Prod.exists] at allocated
  obtain ⟨space, stolen, stole, allocated⟩ := allocated
  cases stolen with
  | true =>
      cases allocated
      obtain ⟨stolenLimited, -⟩ := semiSpaceStealPages_spec limited stole
      exact { stolenLimited.toSized with
        page_pos := stolenLimited.page_pos, limit_eq := stolenLimited.limit_eq }
  | false =>
      obtain ⟨same, -⟩ := semiSpaceStealPages_eq_next_false stole
      subst same
      simp only [Bool.false_eq_true, if_false, Outcome.bind_eq_next, Prod.exists] at allocated
      obtain ⟨after, room, collected, allocated⟩ := allocated
      obtain ⟨afterLimited, -⟩ := collectForAlloc_spec limited.page_pos collected
      split at allocated
      · cases allocated
        exact { afterLimited.toSized with
          page_pos := afterLimited.page_pos, limit_eq := afterLimited.limit_eq }
      · cases allocated
        exact afterLimited

theorem allocateLarge_accounted {size : ℕ} {first second : Collection} (limited : Limited heap)
    (accounted : Accounted heap) (stolenFirst : ¬CollectsThenSucceeds heap size first second)
    (allocated : allocateLarge heap size first second = .next result) : Accounted result := by
  simp only [allocateLarge, Outcome.bind_eq_next, Prod.exists] at allocated
  obtain ⟨space, stolen, stole, allocated⟩ := allocated
  cases stolen with
  | true =>
      cases allocated
      obtain ⟨-, stolenEq⟩ := semiSpaceStealPages_spec limited stole
      refine ⟨accounted.live_eq, ?_⟩
      have stolen_eq := accounted.stolen_eq
      simp only [LargeObjectSpace.pages, largeObjectSpaceAlloc, List.sum_cons] at stolen_eq ⊢
      omega
  | false =>
      obtain ⟨same, -⟩ := semiSpaceStealPages_eq_next_false stole
      subst same
      simp only [Bool.false_eq_true, if_false, Outcome.bind_eq_next, Prod.exists] at allocated
      obtain ⟨after, room, collected, allocated⟩ := allocated
      cases room with
      | true => exact absurd ⟨stole, after, collected⟩ stolenFirst
      | false =>
          cases allocated
          exact (collectForAlloc_spec limited.page_pos collected).2

/-- The condition is the exact one: in the branch that collects first, the pages of the new object
are missing from the stolen ones. -/
theorem allocateLarge_not_accounted {size : ℕ} {first second : Collection}
    (limited : Limited heap) (large : 0 < size)
    (collects : CollectsThenSucceeds heap size first second)
    (allocated : allocateLarge heap size first second = .next result) : ¬Accounted result := by
  obtain ⟨failed, after, collected⟩ := collects
  simp only [allocateLarge, Outcome.bind_eq_next, Prod.exists] at allocated
  obtain ⟨space, stolen, stole, allocated⟩ := allocated
  rw [failed] at stole
  cases stole
  simp only [Bool.false_eq_true, if_false, Outcome.bind_eq_next, Prod.exists] at allocated
  obtain ⟨again, room, collectedAgain, allocated⟩ := allocated
  rw [collected] at collectedAgain
  cases collectedAgain
  cases allocated
  obtain ⟨-, accounted⟩ := collectForAlloc_spec limited.page_pos collected
  intro resultAccounted
  have stolen_eq := accounted.stolen_eq
  have result_eq := resultAccounted.stolen_eq
  have positive : 0 < largeObjectSpaceNpages heap.semiSpace.pageSize size := by
    have page_pos := limited.page_pos
    apply Nat.div_pos _ page_pos
    omega
  simp only [LargeObjectSpace.pages, largeObjectSpaceAlloc, List.sum_cons] at stolen_eq result_eq
  omega

theorem allocateSmall_spec {size : ℕ} {first second : Collection} (limited : Limited heap)
    (allocated : allocateSmall heap size first second = .next result) :
    Limited result ∧ (Accounted heap → Accounted result) := by
  unfold allocateSmall at allocated
  dsimp only at allocated
  split at allocated
  · simp only [Outcome.bind_eq_next, Outcome.pure_eq_next, Outcome.next.injEq,
      Prod.exists] at allocated
    obtain ⟨after, room, collected, rfl⟩ := allocated
    obtain ⟨afterLimited, afterAccounted⟩ := collectForAlloc_spec limited.page_pos collected
    exact ⟨afterLimited, fun _ => afterAccounted⟩
  next notBelow =>
    cases allocated
    have base_le := limited.base_le
    have above : heap.semiSpace.hp ≤ alignUp (heap.semiSpace.hp + size) GC_ALIGNMENT := by
      unfold alignUp GC_ALIGNMENT
      omega
    exact ⟨⟨⟨base_le.trans above, not_lt.mp notBelow, limited.toActive_eq,
      limited.fromActive_eq, limited.fromActive_le⟩, limited.page_pos, limited.limit_eq⟩,
      fun accounted => ⟨accounted.live_eq, accounted.stolen_eq⟩⟩

/-- The actions that the code handles: a large allocation does not have to collect before it finds
the room for its pages. -/
def Action.StealsFirst (heap : Heap) : Action → Prop
  | .allocate size first second =>
      size > GC_LARGE_OBJECT_THRESHOLD → ¬CollectsThenSucceeds heap size first second
  | .collect _ => True

theorem step_limited {action : Action} (limited : Limited heap)
    (stepped : step heap action = .next result) : Limited result := by
  cases action with
  | allocate size first second =>
      simp only [step, gcAllocateSlow] at stepped
      split at stepped
      · exact allocateLarge_limited limited stepped
      · exact (allocateSmall_spec limited stepped).1
  | collect collection => exact (collect_spec limited.page_pos stepped).1

theorem step_accounted {action : Action} (limited : Limited heap) (accounted : Accounted heap)
    (stealsFirst : action.StealsFirst heap) (stepped : step heap action = .next result) :
    Accounted result := by
  cases action with
  | allocate size first second =>
      simp only [step, gcAllocateSlow] at stepped
      split at stepped
      next large => exact allocateLarge_accounted limited accounted (stealsFirst large) stepped
      next => exact (allocateSmall_spec limited stepped).2 accounted
  | collect collection => exact (collect_spec limited.page_pos stepped).2

end Steps

/-! ## The budget of whole runs -/

/-- The regions are right in every state, whatever the large allocations do. -/
theorem reachable_limited {heap : Heap} (reached : system.Reachable heap) : Limited heap := by
  apply reached.invariant
  · rintro state ⟨fixedSize, pageSize, size, fromBase, toBase, positive, rfl⟩
    exact initialHeap_limited fixedSize size fromBase toBase positive
  · intro before action after limited _ stepped
    exact step_limited limited stepped

/-- What the stolen pages, the limit and the size of the heap have to do with each other. -/
structure WithinBudget (heap : Heap) : Prop where
  /-- The stolen pages are those of the large objects that were live at the last collection and
  of those allocated since. -/
  stolenPages_eq : heap.semiSpace.stolenPages =
    heap.largeObjectSpace.livePagesAtLastCollection + heap.largeObjectSpace.allocated.sum
  /-- Below the limit there is a region less half of the stolen pages, rounded up. -/
  usable_eq : (heap.semiSpace.limit - heap.semiSpace.toSpace.base) +
    (heap.semiSpace.stolenPages + 1) / 2 * heap.semiSpace.pageSize = heap.regionSize
  /-- The small objects with their copy reserve and the large objects fit in the two regions. -/
  within : 2 * (heap.semiSpace.hp - heap.semiSpace.toSpace.base) +
    heap.largeObjectSpace.pages * heap.semiSpace.pageSize ≤ 2 * heap.regionSize
  /-- The two regions are the heap, if its size is a whole number of pages for each. -/
  within_size : heap.semiSpace.pageSize * 2 ∣ heap.size →
    (heap.semiSpace.hp - heap.semiSpace.toSpace.base) +
      heap.largeObjectSpace.pages * heap.semiSpace.pageSize ≤ heap.size

theorem withinBudget_of_accounted {heap : Heap} (limited : Limited heap)
    (accounted : Accounted heap) : WithinBudget heap := by
  have base_le := limited.base_le
  have hp_le := limited.hp_le
  have limit_eq := limited.limit_eq
  have stolen_eq := accounted.stolen_eq
  have usable : (heap.semiSpace.limit - heap.semiSpace.toSpace.base) +
      (heap.semiSpace.stolenPages + 1) / 2 * heap.semiSpace.pageSize = heap.regionSize := by
    rw [SemiSpace.stolenBytes, alignUp_two_div_two] at limit_eq
    omega
  have within : 2 * (heap.semiSpace.hp - heap.semiSpace.toSpace.base) +
      heap.largeObjectSpace.pages * heap.semiSpace.pageSize ≤ 2 * heap.regionSize := by
    have halves : heap.largeObjectSpace.pages * heap.semiSpace.pageSize ≤
        2 * ((heap.semiSpace.stolenPages + 1) / 2 * heap.semiSpace.pageSize) := by
      rw [← Nat.mul_assoc, ← stolen_eq]
      apply Nat.mul_le_mul_right
      omega
    omega
  refine ⟨?_, usable, within, ?_⟩
  · rw [accounted.live_eq]
    exact stolen_eq
  · intro whole
    have regions : 2 * heap.regionSize = heap.size := by
      rw [Heap.regionSize, two_mul_alignUp_mul_two_div, alignUp]
      obtain ⟨count, sizeEq⟩ := whole
      have page_pos := limited.page_pos
      have positive : 0 < heap.semiSpace.pageSize * 2 := by omega
      rw [sizeEq, Nat.add_sub_assoc (by omega), Nat.mul_add_div positive,
        Nat.div_eq_of_lt (by omega), Nat.add_zero, Nat.mul_comm]
    omega

/-- There is room below the limit for the pages that the action may have to steal. -/
def Action.hasRoom (heap : Heap) : Action → Bool
  | .allocate size _ _ =>
      let npages := largeObjectSpaceNpages heap.semiSpace.pageSize size
      decide (regionNewlyStolenPages heap.semiSpace npages * heap.semiSpace.pageSize ≤
        sizeSub heap.semiSpace.limit heap.semiSpace.hp)
  | .collect _ => true

theorem stealsFirst_of_hasRoom {heap : Heap} {action : Action}
    (room : action.hasRoom heap = true) : action.StealsFirst heap := by
  cases action with
  | allocate size first second =>
      rintro - ⟨failed, -⟩
      simp only [Action.hasRoom, decide_eq_true_eq] at room
      obtain ⟨-, below⟩ := semiSpaceStealPages_eq_next_false failed
      omega
  | collect collection => trivial

private def nothingLives : Collection := { copied := 0, survivors := [], resizes := [] }

end Whippet.Semi
