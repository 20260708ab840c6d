import Mathlib.Algebra.Order.BigOperators.Group.List
import Mathlib.Data.Rat.Floor
import Whippet.Semi.Budget

/-!
The heap sizers of the semi-space collector (`growable-heap-sizer.h`, `adaptive-heap-sizer.h`).

A sizer bounds the size it asks for by the bytes that live, and a semi-space needs room for the
small ones of these twice. The regions are mapped for the largest size so far, so that a smaller
size takes pages from the region that was just copied into.

Owns: the two sizers, a collection that one of them sizes, the invariant that both regions are
mapped for the size of the heap, and the room that a collection has to find for its limits to be
right. Does not own: where the adaptive sizer's multiplier comes from.
-/

namespace Whippet.Semi

open Nofl (alignUp)

/-! ## Sizers -/

def minimumMultiplier : ℚ := 11 / 10
def maximumMultiplier : ℚ := 5
def minimumFreeSpace : ℕ := 4 * 1024 * 1024

/-- `gc_adaptive_heap_sizer_calculate_size`, from the multiplier it computes. That is no number if
the rates are zero. -/
def gcAdaptiveHeapSizerCalculateSize (liveBytes : ℕ) (multiplier : Option ℚ) : ℕ :=
  let multiplier : ℚ :=
    match multiplier with
    | none => minimumMultiplier
    | some multiplier =>
        if multiplier < minimumMultiplier then minimumMultiplier
        else if multiplier > maximumMultiplier then maximumMultiplier
        else multiplier
  let size := ((liveBytes : ℚ) * multiplier).floor.toNat
  if size - liveBytes < minimumFreeSpace then liveBytes + minimumFreeSpace else size

/-- `gc_growable_heap_sizer_target_size`, from the product of the two square roots. -/
def gcGrowableHeapSizerTargetSize (liveBytes product : ℕ) : ℕ :=
  if liveBytes ≠ 0 then liveBytes + product else liveBytes

/-- The policies that resize the heap, with what they compute in floating point. -/
inductive Sizer where
  | growable (product : ℕ)
  | adaptive (multiplier : Option ℚ)
  deriving DecidableEq, Repr

/-- The size that `gc_heap_sizer_on_gc` resizes the heap to, if it does. -/
def Sizer.onGc (sizer : Sizer) (heapSize liveBytes : ℕ) : Option ℕ :=
  match sizer with
  | .growable product =>
      let targetSize := gcGrowableHeapSizerTargetSize liveBytes product
      if targetSize > heapSize then some targetSize else none
  | .adaptive multiplier => some (gcAdaptiveHeapSizerCalculateSize liveBytes multiplier)

/-- What a collection copies and which large objects survive it. -/
structure Survivors where
  copied : ℕ
  large : List ℕ
  deriving DecidableEq, Repr

/-- `live_size` of `collect`. -/
def Survivors.liveSize (survivors : Survivors) (pageSize : ℕ) : ℕ :=
  survivors.copied + survivors.large.sum * pageSize

/-- The collection that finds the survivors and leaves the size of the heap to the sizer. The memory
is for a larger region. -/
def sizedCollection (heap : Heap) (sizer : Sizer) (mem : Option ℕ) (survivors : Survivors) :
    Collection :=
  { copied := survivors.copied
    survivors := survivors.large
    resizes := ((sizer.onGc heap.size (survivors.liveSize heap.semiSpace.pageSize)).map
      fun size => (size, mem)).toList }

/-- The survivors are among the objects there are. -/
structure Survivors.Found (survivors : Survivors) (heap : Heap) : Prop where
  copied_le : survivors.copied ≤ heap.semiSpace.hp - heap.semiSpace.toSpace.base
  large_sublist : survivors.large.Sublist
    (heap.largeObjectSpace.allocated ++ heap.largeObjectSpace.survivors)

/-! ## Room -/

/-- What the large objects take from each region. -/
def Survivors.stolenBytes (survivors : Survivors) (pageSize : ℕ) : ℕ :=
  alignUp survivors.large.sum 2 / 2 * pageSize

/-- The size of a region of the heap that the sizer asks for. -/
def Sizer.regionSize (sizer : Sizer) (heap : Heap) (survivors : Survivors) : ℕ :=
  let size := (sizer.onGc heap.size (survivors.liveSize heap.semiSpace.pageSize)).getD heap.size
  alignUp size (heap.semiSpace.pageSize * 2) / 2

/-- Each region has room for the copies and for half of the large objects, and for more than the
latter: the regions that the sizer asks for, the one that is copied into, and the other one if there
is no memory for a larger one. -/
def LeavesRoom (heap : Heap) (sizer : Sizer) (mem : Option ℕ) (survivors : Survivors) : Prop :=
  let stolen := survivors.stolenBytes heap.semiSpace.pageSize
  let holds (size : ℕ) := stolen < size ∧ survivors.copied + stolen ≤ size
  holds (sizer.regionSize heap survivors) ∧ holds heap.semiSpace.fromSpace.mappedSize ∧
    (mem = none → holds heap.semiSpace.toSpace.mappedSize)

instance (heap : Heap) (sizer : Sizer) (mem : Option ℕ) (survivors : Survivors) :
    Decidable (LeavesRoom heap sizer mem survivors) :=
  inferInstanceAs (Decidable ((_ ∧ _) ∧ (_ ∧ _) ∧ (_ → _ ∧ _)))

/-- No assertion of the collection fails, and the region that it copied into is active up to the
allocation pointer. -/
def KeepsLimits (heap : Heap) (collection : Collection) : Prop :=
  ∃ after, collect heap collection = .next after ∧
    after.semiSpace.hp ≤ after.semiSpace.toSpace.base + after.semiSpace.toSpace.activeSize

/-! ## Mappings -/

section Rounding

variable {value pageSize : ℕ}

theorem dvd_alignUp_mul_two_div (value pageSize : ℕ) :
    pageSize ∣ alignUp value (pageSize * 2) / 2 := by
  unfold alignUp
  rw [← Nat.mul_assoc, Nat.mul_div_cancel _ (by decide)]
  exact Nat.dvd_mul_left _ _

theorem alignUp_of_dvd (positive : 0 < pageSize) (whole : pageSize ∣ value) :
    alignUp value pageSize = value := by
  obtain ⟨count, rfl⟩ := whole
  unfold alignUp
  rw [Nat.add_sub_assoc positive, Nat.mul_add_div positive, Nat.div_eq_of_lt (by omega),
    Nat.add_zero, Nat.mul_comm]

theorem alignUp_mono {smaller larger : ℕ} (align : ℕ) (below : smaller ≤ larger) :
    alignUp smaller align ≤ alignUp larger align := by
  unfold alignUp
  apply Nat.mul_le_mul_right
  apply Nat.div_le_div_right
  omega

theorem alignUp_mul_two_div (positive : 0 < pageSize) (whole : pageSize ∣ value) :
    alignUp (value * 2) (pageSize * 2) / 2 = value := by
  rw [alignUp_of_dvd (by omega) (Nat.mul_dvd_mul_right whole 2), Nat.mul_div_cancel _ (by decide)]

theorem dvd_min {left right : ℕ} (leftWhole : pageSize ∣ left) (rightWhole : pageSize ∣ right) :
    pageSize ∣ min left right := by
  rcases min_choice left right with isLeft | isRight
  · rwa [isLeft]
  · rwa [isRight]

theorem dvd_max {left right : ℕ} (leftWhole : pageSize ∣ left) (rightWhole : pageSize ∣ right) :
    pageSize ∣ max left right := by
  rcases max_choice left right with isLeft | isRight
  · rwa [isLeft]
  · rwa [isRight]

end Rounding

/-- Both regions are mapped, by whole pages, for the size of the heap. -/
structure Mapped (heap : Heap) : Prop where
  page_pos : 0 < heap.semiSpace.pageSize
  to_whole : heap.semiSpace.pageSize ∣ heap.semiSpace.toSpace.mappedSize
  from_whole : heap.semiSpace.pageSize ∣ heap.semiSpace.fromSpace.mappedSize
  to_le : heap.regionSize ≤ heap.semiSpace.toSpace.mappedSize
  from_le : heap.regionSize ≤ heap.semiSpace.fromSpace.mappedSize

section Mappings

variable {heap result : Heap}

theorem initialHeap_mapped {pageSize : ℕ} (fixedSize : Bool) (size fromBase toBase : ℕ)
    (positive : 0 < pageSize) : Mapped (initialHeap fixedSize pageSize size fromBase toBase) where
  page_pos := positive
  to_whole := dvd_alignUp_mul_two_div size pageSize
  from_whole := dvd_alignUp_mul_two_div size pageSize
  to_le := le_rfl
  from_le := le_rfl

theorem regionSize_whole (heap : Heap) : heap.semiSpace.pageSize ∣ heap.regionSize :=
  dvd_alignUp_mul_two_div _ _

/-- A region is mapped for the new size, unless there is no memory. -/
theorem growRegionIfNeeded_mappedSize (region : Region) (newSize : ℕ) (mem : Option ℕ) :
    (growRegionIfNeeded region newSize mem).mappedSize =
      if mem = none then region.mappedSize else max newSize region.mappedSize := by
  unfold growRegionIfNeeded
  split
  next fits =>
    rw [max_eq_right fits, ite_self]
  next tooSmall =>
    cases mem with
    | none => rfl
    | some base => exact (max_eq_left (Nat.le_of_not_le tooSmall)).symm

/-- Resizing sets the size to what is asked for, as far as the regions are mapped for it. -/
theorem Mapped.resizeHeap_regionSize (mapped : Mapped heap) (newHeapSize : ℕ) (mem : Option ℕ) :
    (resizeHeap heap newHeapSize mem).regionSize =
      min (alignUp newHeapSize (heap.semiSpace.pageSize * 2) / 2)
        (min heap.semiSpace.toSpace.mappedSize
          (resizeHeap heap newHeapSize mem).semiSpace.fromSpace.mappedSize) := by
  have asked := dvd_alignUp_mul_two_div newHeapSize heap.semiSpace.pageSize
  apply alignUp_mul_two_div mapped.page_pos
  apply dvd_min asked
  apply dvd_min mapped.to_whole
  rw [growRegionIfNeeded_mappedSize]
  split
  · exact mapped.from_whole
  · exact dvd_max (dvd_max asked mapped.to_whole) mapped.from_whole

theorem Mapped.resizeHeap (mapped : Mapped heap) (newHeapSize : ℕ) (mem : Option ℕ) :
    Mapped (resizeHeap heap newHeapSize mem) where
  page_pos := mapped.page_pos
  to_whole := mapped.to_whole
  from_whole := by
    have asked := dvd_alignUp_mul_two_div newHeapSize heap.semiSpace.pageSize
    show _ ∣ (growRegionIfNeeded _ _ mem).mappedSize
    rw [growRegionIfNeeded_mappedSize]
    split
    · exact mapped.from_whole
    · exact dvd_max (dvd_max asked mapped.to_whole) mapped.from_whole
  to_le := by
    rw [mapped.resizeHeap_regionSize]
    exact (min_le_right _ _).trans (min_le_left _ _)
  from_le := by
    rw [mapped.resizeHeap_regionSize]
    exact (min_le_right _ _).trans (min_le_right _ _)

theorem Mapped.foldl_resizeHeap (mapped : Mapped heap) (resizes : List (ℕ × Option ℕ)) :
    Mapped (resizes.foldl (fun heap resize => Semi.resizeHeap heap resize.1 resize.2) heap) := by
  induction resizes generalizing heap with
  | nil => exact mapped
  | cons resize resizes inductionHypothesis =>
      exact inductionHypothesis (mapped.resizeHeap resize.1 resize.2)

theorem regionSetActiveSize_keeps {pageSize size : ℕ} {region after : Region}
    (set : regionSetActiveSize pageSize region size = .next after) :
    after.mappedSize = region.mappedSize := by
  obtain ⟨-, rfl⟩ := regionSetActiveSize_eq_next set
  rfl

theorem Mapped.resetHeapLimits (mapped : Mapped heap)
    (reset : Semi.resetHeapLimits heap = .next result) : Mapped result := by
  simp only [Semi.resetHeapLimits, Outcome.bind_eq_next, Outcome.check_eq_next,
    Outcome.pure_eq_next, Outcome.next.injEq] at reset
  obtain ⟨-, -, fromSpace, fromSet, toSpace, toSet, -, -, rfl⟩ := reset
  have fromKept := regionSetActiveSize_keeps fromSet
  have toKept := regionSetActiveSize_keeps toSet
  exact
    { page_pos := mapped.page_pos
      to_whole := toKept ▸ mapped.to_whole
      from_whole := fromKept ▸ mapped.from_whole
      to_le := toKept ▸ mapped.to_le
      from_le := fromKept ▸ mapped.from_le }

/-- The heap with its regions swapped, and the survivors copied and counted. -/
def Heap.copied (heap : Heap) (collection : Collection) : Heap :=
  let space := heap.semiSpace
  { heap with
    semiSpace := { space with
      fromSpace := space.toSpace
      toSpace := space.fromSpace
      hp := space.fromSpace.base + collection.copied
      limit := 0
      liveBytesAtLastGc := space.fromSpace.base + collection.copied - space.fromSpace.base
      stolenPages := collection.survivors.sum }
    largeObjectSpace := largeObjectSpaceFinishGc heap.largeObjectSpace collection.survivors }

/-- The heap that a collection sets the limits of. -/
def Heap.resized (heap : Heap) (collection : Collection) : Heap :=
  collection.resizes.foldl (fun heap resize => Semi.resizeHeap heap resize.1 resize.2)
    (heap.copied collection)

theorem collect_eq_next {collection : Collection} :
    collect heap collection = .next result ↔
      (heap.semiSpace.hp ≤ heap.semiSpace.limit ∧
        heap.semiSpace.limit - heap.semiSpace.toSpace.base ≤ heap.semiSpace.toSpace.activeSize ∧
        heap.semiSpace.toSpace.activeSize ≤ heap.semiSpace.fromSpace.mappedSize) ∧
      (collection.copied ≤ heap.semiSpace.hp - heap.semiSpace.toSpace.base ∧
        collection.survivors.Sublist
          (heap.largeObjectSpace.allocated ++ heap.largeObjectSpace.survivors) ∧
        (heap.fixedSize = true → collection.resizes = [])) ∧
      Semi.resetHeapLimits (heap.resized collection) = .next result := by
  simp only [collect, flip, Outcome.bind_eq_next, Outcome.check_eq_next, Outcome.require_eq_next,
    Outcome.pure_eq_next, Outcome.next.injEq]
  constructor
  · rintro ⟨-, ⟨-, atLimit, -, atActive, -, atMapped, rfl⟩, -, copied, -, large, -, sizes, reset⟩
    exact ⟨⟨atLimit, atActive, atMapped⟩, ⟨copied, large, sizes⟩, reset⟩
  · rintro ⟨⟨atLimit, atActive, atMapped⟩, ⟨copied, large, sizes⟩, reset⟩
    exact ⟨_, ⟨(), atLimit, (), atActive, (), atMapped, rfl⟩, (), copied, (), large, (), sizes,
      reset⟩

theorem Mapped.copied (mapped : Mapped heap) (collection : Collection) :
    Mapped (heap.copied collection) where
  page_pos := mapped.page_pos
  to_whole := mapped.from_whole
  from_whole := mapped.to_whole
  to_le := mapped.from_le
  from_le := mapped.to_le

theorem Mapped.resized (mapped : Mapped heap) (collection : Collection) :
    Mapped (heap.resized collection) :=
  (mapped.copied collection).foldl_resizeHeap collection.resizes

theorem Mapped.collect {collection : Collection} (mapped : Mapped heap)
    (collected : Semi.collect heap collection = .next result) : Mapped result :=
  (mapped.resized collection).resetHeapLimits (collect_eq_next.mp collected).2.2

theorem Mapped.collectForAlloc {bytes : ℕ} {first second : Collection} {room : Bool}
    (mapped : Mapped heap)
    (collected : Semi.collectForAlloc heap bytes first second = .next (result, room)) :
    Mapped result := by
  simp only [Semi.collectForAlloc, Outcome.bind_eq_next] at collected
  obtain ⟨middle, collectedOnce, collected⟩ := collected
  have once := mapped.collect collectedOnce
  split at collected
  · cases collected
    exact once
  · split at collected
    · cases collected
      exact once
    · simp only [Outcome.bind_eq_next, Outcome.pure_eq_next, Outcome.next.injEq,
        Prod.mk.injEq] at collected
      obtain ⟨again, collectedTwice, rfl, -⟩ := collected
      exact once.collect collectedTwice

/-- What does not touch the mappings and the size keeps the invariant. -/
theorem Mapped.of_same (mapped : Mapped heap)
    (page : result.semiSpace.pageSize = heap.semiSpace.pageSize)
    (toSame : result.semiSpace.toSpace.mappedSize = heap.semiSpace.toSpace.mappedSize)
    (fromSame : result.semiSpace.fromSpace.mappedSize = heap.semiSpace.fromSpace.mappedSize)
    (size : result.size = heap.size) : Mapped result := by
  have region : result.regionSize = heap.regionSize := by
    simp only [Heap.regionSize, page, size]
  constructor
  · rw [page]
    exact mapped.page_pos
  · rw [page, toSame]
    exact mapped.to_whole
  · rw [page, fromSame]
    exact mapped.from_whole
  · rw [region, toSame]
    exact mapped.to_le
  · rw [region, fromSame]
    exact mapped.from_le

theorem Mapped.allocateLarge {size : ℕ} {first second : Collection} (mapped : Mapped heap)
    (allocated : Semi.allocateLarge heap size first second = .next result) : Mapped result := by
  simp only [Semi.allocateLarge, Outcome.bind_eq_next, Prod.exists] at allocated
  obtain ⟨space, stolen, stole, allocated⟩ := allocated
  cases stolen with
  | true =>
      cases allocated
      obtain ⟨-, toActive, fromActive, -, -, rfl⟩ := semiSpaceStealPages_eq_next stole
      exact mapped.of_same rfl rfl rfl rfl
  | false =>
      obtain ⟨same, -⟩ := semiSpaceStealPages_eq_next_false stole
      subst same
      simp only [Bool.false_eq_true, if_false, Outcome.bind_eq_next, Prod.exists] at allocated
      obtain ⟨after, room, collected, allocated⟩ := allocated
      have collectedMapped : Mapped after := mapped.collectForAlloc collected
      split at allocated
      · cases allocated
        exact collectedMapped.of_same rfl rfl rfl rfl
      · cases allocated
        exact collectedMapped

theorem Mapped.allocateSmall {size : ℕ} {first second : Collection} (mapped : Mapped heap)
    (allocated : Semi.allocateSmall heap size first second = .next result) : Mapped result := by
  unfold Semi.allocateSmall at allocated
  dsimp only at allocated
  split at allocated
  · simp only [Outcome.bind_eq_next, Outcome.pure_eq_next, Outcome.next.injEq,
      Prod.exists] at allocated
    obtain ⟨after, room, collected, rfl⟩ := allocated
    exact mapped.collectForAlloc collected
  · cases allocated
    exact mapped.of_same rfl rfl rfl rfl

theorem Mapped.step {action : Action} (mapped : Mapped heap)
    (stepped : Semi.step heap action = .next result) : Mapped result := by
  cases action with
  | allocate size first second =>
      simp only [Semi.step, gcAllocateSlow] at stepped
      split at stepped
      · exact mapped.allocateLarge stepped
      · exact mapped.allocateSmall stepped
  | collect collection => exact mapped.collect stepped

theorem reachable_mapped (reached : system.Reachable heap) : Mapped heap := by
  apply reached.invariant
  · rintro state ⟨fixedSize, pageSize, size, fromBase, toBase, positive, rfl⟩
    exact initialHeap_mapped fixedSize size fromBase toBase positive
  · intro before action after mapped _ stepped
    exact mapped.step stepped

end Mappings

/-! ## Limits -/

section Limits

variable {heap : Heap} {sizer : Sizer} {mem : Option ℕ} {survivors : Survivors}

theorem regionSetActiveSize_of_fits {pageSize size : ℕ} (region : Region)
    (fits : size ≤ region.mappedSize) (whole : size = alignUp size pageSize) :
    regionSetActiveSize pageSize region size = .next { region with activeSize := size } := by
  unfold regionSetActiveSize
  rw [Outcome.check_bind fits, Outcome.check_bind whole]
  split
  next below =>
    apply regionTrimBy_eq_next.mpr
    have exact_size : region.activeSize - (region.activeSize - size) = size := by omega
    rw [exact_size]
    exact ⟨Nat.sub_le _ _, rfl⟩
  next => rfl

/-- Where the regions are mapped for the heap, the assertions ask for room for the stolen pages and
the copies. -/
theorem Mapped.resetHeapLimits_iff (mapped : Mapped heap) :
    (∃ result, Semi.resetHeapLimits heap = .next result) ↔
      heap.semiSpace.stolenBytes < heap.regionSize ∧
        heap.semiSpace.hp ≤
          heap.semiSpace.toSpace.base + (heap.regionSize - heap.semiSpace.stolenBytes) := by
  have positive := mapped.page_pos
  have stolenWhole : heap.semiSpace.pageSize ∣ heap.semiSpace.stolenBytes :=
    Nat.dvd_mul_left _ _
  have aligned := (alignUp_of_dvd positive
    (Nat.dvd_sub (regionSize_whole heap) stolenWhole)).symm
  have halved := alignUp_two_mul_div_two heap.semiSpace.stolenPages heap.semiSpace.pageSize
  simp only [Semi.resetHeapLimits, halved, Outcome.check_bind_eq_next]
  constructor
  · rintro ⟨result, room, reset⟩
    simp only [Outcome.bind_eq_next, Outcome.check_eq_next] at reset
    obtain ⟨fromSpace, fromSet, toSpace, toSet, -, atLimit, -⟩ := reset
    obtain ⟨-, rfl⟩ := regionSetActiveSize_eq_next toSet
    exact ⟨room, atLimit⟩
  · rintro ⟨room, atLimit⟩
    have toSet := regionSetActiveSize_of_fits heap.semiSpace.toSpace
      ((Nat.sub_le _ _).trans mapped.to_le) aligned
    have fromSet := regionSetActiveSize_of_fits heap.semiSpace.fromSpace
      ((Nat.sub_le _ _).trans mapped.from_le) aligned
    simp only [Heap.regionSize, SemiSpace.stolenBytes] at toSet fromSet room atLimit
    simp only [fromSet, toSet, Outcome.bind_next, Outcome.check_bind atLimit]
    exact ⟨_, room, rfl⟩

/-- What the sizer asks for, as far as both regions are mapped for it. -/
theorem Mapped.le_resized_iff (mapped : Mapped heap) (sizer : Sizer) (mem : Option ℕ)
    (survivors : Survivors) (size : ℕ) :
    size ≤ (heap.resized (sizedCollection heap sizer mem survivors)).regionSize ↔
      size ≤ sizer.regionSize heap survivors ∧ size ≤ heap.semiSpace.fromSpace.mappedSize ∧
        (mem = none → size ≤ heap.semiSpace.toSpace.mappedSize) := by
  unfold Heap.resized Sizer.regionSize sizedCollection
  cases sizer.onGc heap.size (survivors.liveSize heap.semiSpace.pageSize) with
  | none =>
      have to_le := mapped.to_le
      have from_le := mapped.from_le
      constructor
      · intro below
        exact ⟨below, le_trans below from_le, fun _ => le_trans below to_le⟩
      · intro below
        exact below.1
  | some newHeapSize =>
      dsimp only [Option.map_some, Option.toList_some, List.foldl_cons, List.foldl_nil,
        Option.getD_some]
      rw [(mapped.copied _).resizeHeap_regionSize, le_min_iff, le_min_iff]
      apply and_congr_right
      intro asked
      apply and_congr_right
      intro mappedTo
      show size ≤ (growRegionIfNeeded _ _ mem).mappedSize ↔ _
      rw [growRegionIfNeeded_mappedSize]
      cases mem with
      | none => simp only [if_true, true_imp_iff, Heap.copied]
      | some base =>
          have above : size ≤ max (max (alignUp newHeapSize (heap.semiSpace.pageSize * 2) / 2)
              heap.semiSpace.fromSpace.mappedSize) heap.semiSpace.toSpace.mappedSize :=
            le_max_of_le_left (le_max_of_le_left asked)
          simpa [Heap.copied] using above

/-- A collection from a heap with the limits right comes to setting them anew. -/
theorem Limited.collect_sized_iff {after : Heap} (limited : Limited heap)
    (resizes : heap.fixedSize = false) (found : survivors.Found heap) :
    collect heap (sizedCollection heap sizer mem survivors) = .next after ↔
      resetHeapLimits (heap.resized (sizedCollection heap sizer mem survivors)) =
        .next after := by
  have toActive := limited.toActive_eq
  have fromActive := limited.fromActive_eq
  have fromMapped := limited.fromActive_le
  rw [collect_eq_next]
  constructor
  · intro collected
    exact collected.2.2
  · intro limits
    refine ⟨⟨limited.hp_le, by omega, by omega⟩, ⟨found.copied_le, found.large_sublist, ?_⟩,
      limits⟩
    intro fixed
    rw [resizes] at fixed
    cases fixed

theorem Limited.keepsLimits_sized_iff (limited : Limited heap)
    (resizes : heap.fixedSize = false) (found : survivors.Found heap) :
    KeepsLimits heap (sizedCollection heap sizer mem survivors) ↔
      ∃ after, resetHeapLimits (heap.resized (sizedCollection heap sizer mem survivors)) =
        .next after := by
  constructor
  · rintro ⟨after, collected, -⟩
    exact ⟨after, (limited.collect_sized_iff resizes found).mp collected⟩
  · rintro ⟨after, limits⟩
    have collected := (limited.collect_sized_iff resizes found).mpr limits
    have afterLimited := (collect_spec limited.page_pos collected).1
    exact ⟨after, collected, afterLimited.toActive_eq ▸ afterLimited.hp_le⟩

theorem resized_stolenBytes (heap : Heap) (collection : Collection) :
    (heap.resized collection).semiSpace.stolenBytes =
      alignUp collection.survivors.sum 2 / 2 * heap.semiSpace.pageSize := by
  obtain ⟨fromSpace, size, resized⟩ :=
    foldl_resizeHeap_eq collection.resizes (heap.copied collection)
  rw [Heap.resized, resized]
  rfl

theorem resized_hp (heap : Heap) (collection : Collection) :
    (heap.resized collection).semiSpace.hp =
      (heap.resized collection).semiSpace.toSpace.base + collection.copied := by
  obtain ⟨fromSpace, size, resized⟩ :=
    foldl_resizeHeap_eq collection.resizes (heap.copied collection)
  rw [Heap.resized, resized]
  rfl

/-- The room that the new limits need is the room that there has to be. -/
theorem Mapped.keepsLimits_iff (mapped : Mapped heap) (limited : Limited heap)
    (resizes : heap.fixedSize = false) (found : survivors.Found heap) :
    KeepsLimits heap (sizedCollection heap sizer mem survivors) ↔
      LeavesRoom heap sizer mem survivors := by
  have limits := (mapped.resized (sizedCollection heap sizer mem survivors)).resetHeapLimits_iff
  rw [resized_stolenBytes, resized_hp] at limits
  rw [limited.keepsLimits_sized_iff resizes found, limits]
  have stolen_lt := mapped.le_resized_iff sizer mem survivors
    (survivors.stolenBytes heap.semiSpace.pageSize + 1)
  have all_le := mapped.le_resized_iff sizer mem survivors
    (survivors.copied + survivors.stolenBytes heap.semiSpace.pageSize)
  have both : LeavesRoom heap sizer mem survivors ↔
      survivors.stolenBytes heap.semiSpace.pageSize + 1 ≤
          (heap.resized (sizedCollection heap sizer mem survivors)).regionSize ∧
        survivors.copied + survivors.stolenBytes heap.semiSpace.pageSize ≤
          (heap.resized (sizedCollection heap sizer mem survivors)).regionSize := by
    rw [stolen_lt, all_le]
    unfold LeavesRoom
    simp only [Nat.succ_le_iff]
    tauto
  rw [both]
  have stolenEq : survivors.stolenBytes heap.semiSpace.pageSize =
      alignUp (sizedCollection heap sizer mem survivors).survivors.sum 2 / 2 *
        heap.semiSpace.pageSize := rfl
  have copiedEq : survivors.copied =
    (sizedCollection heap sizer mem survivors).copied := rfl
  rw [stolenEq, copiedEq]
  omega

end Limits

/-! ## Runs -/

/-- A collection from a reachable heap keeps the limits right exactly if its regions have room for
the copies and half of the large objects. -/
theorem resizing_keeps_limits (heap : Heap) (reached : system.Reachable heap)
    (resizes : heap.fixedSize = false) (sizer : Sizer) (mem : Option ℕ) (survivors : Survivors)
    (found : survivors.Found heap) :
    KeepsLimits heap (sizedCollection heap sizer mem survivors) ↔
      LeavesRoom heap sizer mem survivors :=
  (reachable_mapped reached).keepsLimits_iff (reachable_limited reached) resizes found

private def noneSurvive : Collection := { copied := 0, survivors := [], resizes := [] }

/-- One small object lives on, and the heap grows by four megabytes, of which the region that is not
in use gets its share. -/
theorem resizing_keeps_limits_growing :
    ∃ heap : Heap, heap.semiSpace.hp - heap.semiSpace.toSpace.base = 104 ∧
      KeepsLimits heap
        (sizedCollection heap (.adaptive none) (some (2 ^ 25)) { copied := 104, large := [] }) :=
  ⟨_, rfl, (resizing_keeps_limits _ (System.ReachableBy.of_runBy system
    (fun _ _ => True) (fun _ _ => id)
    (.initial ⟨false, 4096, 32768, 2 ^ 20, 2 ^ 21, by decide, rfl⟩)
    [.allocate 100 noneSurvive noneSurvive] rfl) rfl (.adaptive none) (some (2 ^ 25))
    { copied := 104, large := [] } ⟨by decide, List.nil_sublist _⟩).mpr
      (of_decide_eq_true (by decide +kernel))⟩

/-- Small allocations below the limit move the allocation pointer. -/
theorem Reachable.allocateMany {heap : Heap} (reached : system.Reachable heap) (size : ℕ)
    (small : size ≤ GC_LARGE_OBJECT_THRESHOLD) (whole : GC_ALIGNMENT ∣ size)
    (aligned : GC_ALIGNMENT ∣ heap.semiSpace.hp) (count : ℕ)
    (fits : heap.semiSpace.hp + count * size ≤ heap.semiSpace.limit) :
    system.Reachable { heap with
      semiSpace := { heap.semiSpace with hp := heap.semiSpace.hp + count * size } } := by
  induction count with
  | zero =>
      rw [Nat.zero_mul, Nat.add_zero]
      exact reached
  | succ count inductionHypothesis =>
      rw [Nat.succ_mul, ← Nat.add_assoc] at fits
      have before := inductionHypothesis (by omega)
      have rounded : alignUp (heap.semiSpace.hp + count * size + size) GC_ALIGNMENT =
          heap.semiSpace.hp + count * size + size :=
        alignUp_of_dvd (by decide)
          (Nat.dvd_add (Nat.dvd_add aligned (whole.mul_left count)) whole)
      have stepped : system.step
          { heap with semiSpace := { heap.semiSpace with hp := heap.semiSpace.hp + count * size } }
          (.allocate size noneSurvive noneSurvive) = .next { heap with
            semiSpace := { heap.semiSpace with hp := heap.semiSpace.hp + (count + 1) * size }
                } := by
        simp only [system, step, gcAllocateSlow, allocateSmall, rounded]
        rw [if_neg (by omega), if_neg (by omega), Nat.succ_mul, Nat.add_assoc]
        rfl
      exact before.step trivial stepped

/-- Eight megabytes of small objects live in a heap of thirty-two. The adaptive sizer asks for
twelve, which is less than the two copies take. -/
theorem resizing_keeps_limits_fails :
    ¬∀ heap, system.Reachable heap → heap.fixedSize = false →
      ∀ (sizer : Sizer) (mem : Option ℕ) (survivors : Survivors), survivors.Found heap →
        KeepsLimits heap (sizedCollection heap sizer mem survivors) := by
  intro holds
  have reached := Reachable.allocateMany
    (.initial ⟨false, 4096, 2 ^ 25, 2 ^ 30, 2 ^ 31, by decide, rfl⟩) GC_LARGE_OBJECT_THRESHOLD
    le_rfl (by decide) (by decide) 1024 (by decide)
  have keeps := holds _ reached rfl (.adaptive none) none { copied := 2 ^ 23, large := [] }
    ⟨by decide, List.nil_sublist _⟩
  have room := ((reachable_mapped reached).keepsLimits_iff (reachable_limited reached) rfl
    ⟨by decide, List.nil_sublist _⟩).mp keeps
  exact absurd room (of_decide_eq_false (by decide +kernel))

/-- In a heap with the stolen pages right, what survives a collection had room before. -/
theorem survivors_le_regionSize {heap : Heap} {survivors : Survivors} (limited : Limited heap)
    (accounted : Accounted heap) (found : survivors.Found heap) :
    survivors.copied + survivors.stolenBytes heap.semiSpace.pageSize ≤ heap.regionSize := by
  have pages : survivors.large.sum ≤ heap.semiSpace.stolenPages := by
    have sublist := found.large_sublist.sum_le_sum (fun _ _ => Nat.zero_le _)
    rw [List.sum_append] at sublist
    have stolen := accounted.stolen_eq
    unfold LargeObjectSpace.pages at stolen
    omega
  have stolen : survivors.stolenBytes heap.semiSpace.pageSize ≤ heap.semiSpace.stolenBytes := by
    unfold Survivors.stolenBytes SemiSpace.stolenBytes
    apply Nat.mul_le_mul_right
    rw [alignUp_two_div_two, alignUp_two_div_two]
    omega
  have copied := found.copied_le
  have base_le := limited.base_le
  have hp_le := limited.hp_le
  have limit_eq := limited.limit_eq
  omega

/-- The growable sizer asks for no less than there is. -/
theorem regionSize_le_growable (heap : Heap) (product : ℕ) (survivors : Survivors) :
    heap.regionSize ≤ (Sizer.growable product).regionSize heap survivors := by
  apply Nat.div_le_div_right
  apply alignUp_mono
  dsimp only [Sizer.onGc]
  split
  next larger => exact le_of_lt larger
  next => exact le_rfl

/-- In every run under the growable sizer whose large allocations steal their pages before they
collect, every collection keeps the limits right, unless large objects take up all of the heap. -/
theorem growable_keeps_limits (heap : Heap)
    (reached : system.ReachableBy (fun state action => action.StealsFirst state) heap)
    (resizes : heap.fixedSize = false) (product : ℕ) (mem : Option ℕ) (survivors : Survivors)
    (found : survivors.Found heap)
    (notAllLarge : survivors.stolenBytes heap.semiSpace.pageSize < heap.regionSize) :
    KeepsLimits heap (sizedCollection heap (.growable product) mem survivors) := by
  have invariant : (Limited heap ∧ Accounted heap) ∧ Mapped heap := by
    apply reached.invariant
    · rintro state ⟨fixedSize, pageSize, size, fromBase, toBase, positive, rfl⟩
      exact ⟨⟨initialHeap_limited fixedSize size fromBase toBase positive,
        initialHeap_accounted fixedSize pageSize size fromBase toBase⟩,
        initialHeap_mapped fixedSize size fromBase toBase positive⟩
    · intro before action after invariant stealsFirst stepped
      exact ⟨⟨step_limited invariant.1.1 stepped,
        step_accounted invariant.1.1 invariant.1.2 stealsFirst stepped⟩,
        invariant.2.step stepped⟩
  obtain ⟨⟨limited, accounted⟩, mapped⟩ := invariant
  have fits := survivors_le_regionSize limited accounted found
  have asked := regionSize_le_growable heap product survivors
  have to_le := mapped.to_le
  have from_le := mapped.from_le
  apply (mapped.keepsLimits_iff limited resizes found).mpr
  refine ⟨⟨?_, ?_⟩, ⟨?_, ?_⟩, fun _ => ⟨?_, ?_⟩⟩ <;> omega

end Whippet.Semi
