import Whippet.Pcc.Resizing

/-!
Why pcc finds enough paged-out blocks to reacquire, and when it does not.

A space that has paged in all of its blocks can be worth no more than them. The nursery begins with
blocks for its largest size. The resizable space may be worth as much as it is now and what its
large objects have taken from it, once they have died; the heap must not grow beyond that without
new slabs.

Owns: the condition on growth, the invariant, and that no assertion of `copy_space_reacquire_memory`
fails in the runs that meet the condition.
-/

namespace Whippet.Pcc

/-- The pages of the large objects and of the requests under way. -/
def SizedHeap.pages (heap : SizedHeap) : ℕ := heap.largeObjectPages + heap.requests.sum

/-! ## The condition -/

/-- After the heap has grown to `newSize`, the blocks of all slabs are enough for what the resizable
space is then worth and for what large objects have taken from it. -/
def SizedHeap.CoversGrowth (heap : SizedHeap) (newSize : ℕ) : Prop :=
  heap.size < newSize →
    heap.resizable.value + (newSize - heap.size : ℕ) + (heap.pages * heap.pageSize : ℕ) <
      ((heap.resizable.blockCountAfterExpand (newSize - heap.size) + 1) *
        COPY_SPACE_BLOCK_SIZE : ℕ)

instance (heap : SizedHeap) (newSize : ℕ) : Decidable (heap.CoversGrowth newSize) := by
  unfold SizedHeap.CoversGrowth
  infer_instance

/-- The actions that the code handles. -/
def ResizeAction.CoversGrowth (heap : SizedHeap) : ResizeAction → Prop
  | .resizeFromThread newSize _ | .sizerOnGc newSize _ => heap.CoversGrowth newSize
  | .resolve _ =>
      match heap.stage with
      | .sized isMinor =>
          (pageOutUntilReleased heap).CoversGrowth
            (sizeForDeficit (pageOutUntilReleased heap) isMinor)
      | _ => True
  | _ => True

instance (heap : SizedHeap) (action : ResizeAction) : Decidable (action.CoversGrowth heap) := by
  unfold ResizeAction.CoversGrowth
  split
  · infer_instance
  · infer_instance
  · split <;> infer_instance
  · infer_instance

/-! ## The invariant -/

structure Provisioned (heap : SizedHeap) : Prop where
  resizable : heap.resizable.value + (heap.pages * heap.pageSize : ℕ) <
    ((heap.resizable.blockCount + 1) * COPY_SPACE_BLOCK_SIZE : ℕ)
  nursery : heap.newSpace.value + (heap.perProcessorNurserySize * heap.processorCount : ℕ) ≤
    (heap.newSpace.blockCount * COPY_SPACE_BLOCK_SIZE : ℕ) + (heap.nurserySize : ℤ)
  nurserySize_le : heap.nurserySize ≤ heap.perProcessorNurserySize * heap.processorCount

/-- What the step says nothing of: the resizable space may change as long as it is worth the same to
large objects, and the nursery may change its blocks. -/
structure SameProvisions (before after : SizedHeap) : Prop where
  worth : after.resizable.value + (after.pages * after.pageSize : ℕ) =
    before.resizable.value + (before.pages * before.pageSize : ℕ)
  blockCount : after.resizable.blockCount = before.resizable.blockCount
  newValue : after.newSpace.value = before.newSpace.value
  newBlockCount : after.newSpace.blockCount = before.newSpace.blockCount
  nurserySize : after.nurserySize = before.nurserySize
  perProcessor : after.perProcessorNurserySize = before.perProcessorNurserySize
  processorCount : after.processorCount = before.processorCount

section Invariant

variable {heap after : SizedHeap}

theorem Provisioned.same (provisioned : Provisioned heap) (same : SameProvisions heap after) :
    Provisioned after where
  resizable := by
    rw [same.worth, same.blockCount]
    exact provisioned.resizable
  nursery := by
    rw [same.newValue, same.newBlockCount, same.nurserySize, same.perProcessor,
      same.processorCount]
    exact provisioned.nursery
  nurserySize_le := by
    rw [same.nurserySize, same.perProcessor, same.processorCount]
    exact provisioned.nurserySize_le

theorem pageOutUntilReleased_same (heap : SizedHeap) :
    SameProvisions heap (pageOutUntilReleased heap) := by
  have adds := heap.resizable.pageOutBlocksUntilMemoryReleased_adds
  exact
    { worth := congrArg (· + ((heap.pages * heap.pageSize : ℕ) : ℤ))
        (adds.value_eq.trans (add_zero _))
      blockCount := adds.blockCount_eq
      newValue := rfl
      newBlockCount := rfl
      nurserySize := rfl
      perProcessor := rfl
      processorCount := rfl }

/-! ## Resizing -/

theorem resizeHeap_provisioned {newSize base : ℕ} (provisioned : Provisioned heap)
    (covers : heap.CoversGrowth newSize) (resized : resizeHeap heap newSize base = .next after) :
    Provisioned after := by
  unfold resizeHeap at resized
  split at resized
  · cases resized
    exact provisioned
  next different =>
    split at resized
    · cases resized
      have adds := heap.resizable.shrink_adds (heap.size - newSize)
      refine { provisioned with resizable := ?_ }
      have enough := provisioned.resizable
      show (heap.resizable.shrink (heap.size - newSize)).value +
        ((heap.pages * heap.pageSize : ℕ) : ℤ) < _
      rw [adds.value_eq, adds.blockCount_eq]
      omega
    next notBelow =>
      simp only [Outcome.bind_eq_next, Outcome.mapFailure_eq_next, Outcome.pure_eq_next,
        Outcome.next.injEq] at resized
      obtain ⟨space, grown, rfl⟩ := resized
      obtain ⟨value, count⟩ := CopySpace.expand_eq_next grown
      refine { provisioned with resizable := ?_ }
      show space.value + ((heap.pages * heap.pageSize : ℕ) : ℤ) < _
      rw [value, count]
      exact covers (by omega)

theorem resizeHeap_enough {newSize base : ℕ} {caller : ReacquireCaller}
    (covers : heap.CoversGrowth newSize) :
    resizeHeap heap newSize base ≠ .failed (.reacquire caller) := by
  intro failed
  unfold resizeHeap at failed
  split at failed
  · cases failed
  next different =>
    split at failed
    · cases failed
    next notBelow =>
      simp only [Outcome.bind_eq_failed, Outcome.mapFailure_eq_failed, Outcome.pure_eq_next,
        reduceCtorEq, and_false, exists_false, or_false] at failed
      obtain ⟨assertion, failed, -⟩ := failed
      have tooMuch := CopySpace.expand_eq_failed failed
      have enough := covers (by omega)
      omega

/-- The nursery is worth no more than its blocks, whatever size up to the largest it gets. -/
theorem Provisioned.nursery_enough (provisioned : Provisioned heap) {size : ℕ}
    (atMost : size ≤ heap.perProcessorNurserySize * heap.processorCount)
    (grows : heap.nurserySize ≤ size) :
    heap.newSpace.value + (size - heap.nurserySize : ℕ) <
      ((heap.newSpace.blockCount + 1) * COPY_SPACE_BLOCK_SIZE : ℕ) := by
  have worth := provisioned.nursery
  rw [Nat.add_mul, Nat.one_mul]
  have positive : 0 < COPY_SPACE_BLOCK_SIZE := by decide
  omega

theorem nurserySizeForActiveMutatorCount_le (provisioned : Provisioned heap) (count : ℕ) :
    nurserySizeForActiveMutatorCount heap count ≤
      heap.perProcessorNurserySize * heap.processorCount := by
  have atMost : heap.perProcessorNurserySize * min count heap.processorCount ≤
      heap.perProcessorNurserySize * heap.processorCount :=
    Nat.mul_le_mul_left _ (min_le_right _ _)
  have before := provisioned.nurserySize_le
  unfold nurserySizeForActiveMutatorCount
  dsimp only
  split
  · omega
  · exact atMost

theorem resizeNursery_provisioned {size : ℕ} (provisioned : Provisioned heap)
    (atMost : size ≤ heap.perProcessorNurserySize * heap.processorCount)
    (resized : resizeNursery heap size = .next after) : Provisioned after := by
  have worth := provisioned.nursery
  unfold resizeNursery at resized
  split at resized
  next shrinks =>
    simp only [Outcome.pure_eq_next, Outcome.bind_next, Outcome.check_bind_eq_next,
      Outcome.next.injEq] at resized
    obtain ⟨-, rfl⟩ := resized
    have adds := heap.newSpace.shrink_adds (heap.nurserySize - size)
    refine { provisioned with nursery := ?_, nurserySize_le := atMost }
    show (heap.newSpace.shrink (heap.nurserySize - size)).value +
        ((heap.perProcessorNurserySize * heap.processorCount : ℕ) : ℤ) ≤
      (((heap.newSpace.shrink (heap.nurserySize - size)).blockCount * COPY_SPACE_BLOCK_SIZE : ℕ) :
        ℤ) +
        (size : ℤ)
    rw [adds.value_eq, adds.blockCount_eq]
    omega
  next grows =>
    simp only [Outcome.bind_eq_next, Outcome.mapFailure_eq_next, CopySpace.reacquireMemory_eq_next,
      Outcome.check_eq_next, Outcome.pure_eq_next, Outcome.next.injEq] at resized
    obtain ⟨space, ⟨-, rfl⟩, -, -, rfl⟩ := resized
    have adds := heap.newSpace.maybeReacquireMemory_adds (size - heap.nurserySize)
    refine { provisioned with nursery := ?_, nurserySize_le := atMost }
    show (heap.newSpace.maybeReacquireMemory (size - heap.nurserySize)).value +
        ((heap.perProcessorNurserySize * heap.processorCount : ℕ) : ℤ) ≤
      (((heap.newSpace.maybeReacquireMemory (size - heap.nurserySize)).blockCount *
        COPY_SPACE_BLOCK_SIZE : ℕ) : ℤ) + (size : ℤ)
    rw [adds.value_eq, adds.blockCount_eq]
    omega

theorem resizeNursery_enough {size : ℕ} {caller : ReacquireCaller}
    (provisioned : Provisioned heap)
    (atMost : size ≤ heap.perProcessorNurserySize * heap.processorCount) :
    resizeNursery heap size ≠ .failed (.reacquire caller) := by
  intro failed
  unfold resizeNursery at failed
  split at failed
  · simp at failed
  next grows =>
    simp only [Outcome.bind_eq_failed, Outcome.mapFailure_eq_failed,
      CopySpace.reacquireMemory_eq_failed, Outcome.check_eq_failed, Outcome.pure_eq_next,
      reduceCtorEq, and_false, exists_false, or_false] at failed
    obtain ⟨assertion, tooMuch, -⟩ := failed
    have enough := provisioned.nursery_enough atMost (by omega)
    omega

theorem resizeNurseryForActiveMutatorCount_provisioned {count : ℕ} (provisioned : Provisioned heap)
    (resized : resizeNurseryForActiveMutatorCount heap count = .next after) :
    Provisioned after := by
  unfold resizeNurseryForActiveMutatorCount at resized
  split at resized
  · exact resizeNursery_provisioned provisioned
      (nurserySizeForActiveMutatorCount_le provisioned count) resized
  · cases resized
    exact provisioned

theorem resizeNurseryForActiveMutatorCount_enough {count : ℕ} {caller : ReacquireCaller}
    (provisioned : Provisioned heap) :
    resizeNurseryForActiveMutatorCount heap count ≠ .failed (.reacquire caller) := by
  unfold resizeNurseryForActiveMutatorCount
  split
  · exact resizeNursery_enough provisioned (nurserySizeForActiveMutatorCount_le provisioned count)
  · simp

/-- The pages of large objects that have died go back to the resizable space. -/
theorem heapResetLargeObjectPages_provisioned {npages : ℕ} (provisioned : Provisioned heap)
    (reset : heapResetLargeObjectPages heap npages = .next after) : Provisioned after := by
  simp only [heapResetLargeObjectPages, Outcome.check_eq_next, Outcome.bind_eq_next,
    Outcome.mapFailure_eq_next, CopySpace.reacquireMemory_eq_next, Outcome.pure_eq_next,
    Outcome.next.injEq] at reset
  obtain ⟨-, atMost, _, ⟨-, rfl⟩, rfl⟩ := reset
  have adds := heap.resizable.maybeReacquireMemory_adds
    ((heap.largeObjectPages - npages) * heap.pageSize)
  have split : npages * heap.pageSize + (heap.largeObjectPages - npages) * heap.pageSize =
      heap.largeObjectPages * heap.pageSize := by
    rw [← Nat.add_mul, Nat.add_sub_cancel' atMost]
  have enough := provisioned.resizable
  refine { provisioned with resizable := ?_ }
  show (heap.resizable.maybeReacquireMemory _).value +
    (((npages + heap.requests.sum) * heap.pageSize : ℕ) : ℤ) < _
  rw [adds.value_eq, adds.blockCount_eq]
  simp only [SizedHeap.pages, Nat.add_mul] at enough ⊢
  omega

theorem heapResetLargeObjectPages_enough {npages : ℕ} {caller : ReacquireCaller}
    (provisioned : Provisioned heap) :
    heapResetLargeObjectPages heap npages ≠ .failed (.reacquire caller) := by
  intro failed
  simp only [heapResetLargeObjectPages, Outcome.check_eq_failed, Outcome.bind_eq_failed,
    Outcome.mapFailure_eq_failed, CopySpace.reacquireMemory_eq_failed, Outcome.pure_eq_next,
    reduceCtorEq, and_false, exists_false, or_false, false_or] at failed
  obtain ⟨-, -, assertion, tooMuch, -⟩ := failed
  have enough := provisioned.resizable
  have freed : (heap.largeObjectPages - npages) * heap.pageSize ≤ heap.pages * heap.pageSize := by
    apply Nat.mul_le_mul_right
    rw [SizedHeap.pages]
    omega
  omega

end Invariant

/-! ## Steps -/

section Steps

variable {heap after : SizedHeap} {action : ResizeAction}

theorem orDisabled_eq_next {found : Option SizedHeap} :
    orDisabled found = .next after ↔ found = some after := by
  cases found <;> simp [orDisabled]

@[simp] theorem orDisabled_ne_failed {found : Option SizedHeap} {assertion : ResizeAssertion} :
    orDisabled found ≠ .failed assertion := by
  cases found <;> simp [orDisabled]

theorem acquireResizable_same {space : CopySpace}
    (found : heap.resizable.acquireEmptyBlock = some space) :
    SameProvisions heap { heap with resizable := space } := by
  obtain ⟨value, count⟩ := CopySpace.acquireEmptyBlock_keeps found
  exact
    { worth := congrArg (· + ((heap.pages * heap.pageSize : ℕ) : ℤ)) value
      blockCount := count
      newValue := rfl
      newBlockCount := rfl
      nurserySize := rfl
      perProcessor := rfl
      processorCount := rfl }

theorem acquireNew_same {space : CopySpace}
    (found : heap.newSpace.acquireEmptyBlock = some space) :
    SameProvisions heap { heap with newSpace := space } := by
  obtain ⟨value, count⟩ := CopySpace.acquireEmptyBlock_keeps found
  exact
    { worth := rfl
      blockCount := rfl
      newValue := value
      newBlockCount := count
      nurserySize := rfl
      perProcessor := rfl
      processorCount := rfl }

/-- Pages that a request takes from the resizable space count for it as long as it is under way. -/
theorem requestLarge_same (heap : SizedHeap) (npages : ℕ) :
    SameProvisions heap (requestLarge heap npages) := by
  have requested := CopySpace.addToPageOut_adds heap.resizable (npages * heap.pageSize : ℕ)
  have adds := requested.trans (CopySpace.pageOutBlocksUntilMemoryReleased_adds _)
  refine
    { worth := ?_, blockCount := adds.blockCount_eq, newValue := rfl, newBlockCount := rfl,
      nurserySize := rfl, perProcessor := rfl, processorCount := rfl }
  show (heap.resizable.addToPageOut _).pageOutBlocksUntilMemoryReleased.value +
    (((heap.largeObjectPages + (npages :: heap.requests).sum) * heap.pageSize : ℕ) : ℤ) = _
  rw [adds.value_eq, List.sum_cons]
  simp only [SizedHeap.pages, Nat.add_mul]
  omega

theorem sum_eraseIdx {requests : List ℕ} {index npages : ℕ}
    (found : requests[index]? = some npages) :
    (requests.eraseIdx index).sum + npages = requests.sum := by
  have inRange := (List.getElem?_eq_some_iff.mp found).1
  have permuted := (List.getElem_cons_eraseIdx_perm inRange).sum_eq
  rw [List.sum_cons, (List.getElem?_eq_some_iff.mp found).2] at permuted
  omega

theorem grantLarge_same {index npages : ℕ} (found : heap.requests[index]? = some npages) :
    SameProvisions heap (grantLarge heap index npages) := by
  have rest := sum_eraseIdx found
  have pages : (grantLarge heap index npages).pages = heap.pages := by
    show heap.largeObjectPages + npages + (heap.requests.eraseIdx index).sum = _
    rw [SizedHeap.pages]
    omega
  exact
    { worth := by rw [pages]; rfl
      blockCount := rfl
      newValue := rfl
      newBlockCount := rfl
      nurserySize := rfl
      perProcessor := rfl
      processorCount := rfl }

theorem withdrawLarge_same {index npages : ℕ} (found : heap.requests[index]? = some npages) :
    SameProvisions heap (withdrawLarge heap index npages) := by
  have rest := sum_eraseIdx found
  have adds := heap.resizable.maybeReacquireMemory_adds (npages * heap.pageSize)
  refine
    { worth := ?_, blockCount := adds.blockCount_eq, newValue := rfl, newBlockCount := rfl,
      nurserySize := rfl, perProcessor := rfl, processorCount := rfl }
  show (heap.resizable.maybeReacquireMemory _).value +
    (((heap.largeObjectPages + (heap.requests.eraseIdx index).sum) * heap.pageSize : ℕ) : ℤ) = _
  rw [adds.value_eq, SizedHeap.pages, ← rest]
  simp only [Nat.add_mul]
  omega

/-- Both spaces may change as long as they keep their worth and their blocks. -/
theorem SameProvisions.of_keeps {resizable newSpace : CopySpace} {stage : ResizeStage}
    (ofNew : newSpace.value = heap.newSpace.value ∧ newSpace.blockCount = heap.newSpace.blockCount)
    (ofResizable : resizable.value = heap.resizable.value ∧
      resizable.blockCount = heap.resizable.blockCount) :
    SameProvisions heap
      { heap with resizable := resizable, newSpace := newSpace, stage := stage } where
  worth := congrArg (· + ((heap.pages * heap.pageSize : ℕ) : ℤ)) ofResizable.1
  blockCount := ofResizable.2
  newValue := ofNew.1
  newBlockCount := ofNew.2
  nurserySize := rfl
  perProcessor := rfl
  processorCount := rfl

theorem copySpacesStartGc_same (heap : SizedHeap) (isMinor : Bool) :
    SameProvisions heap (copySpacesStartGc heap isMinor) := by
  cases isMinor with
  | true => exact .of_keeps heap.newSpace.flip_keeps ⟨rfl, rfl⟩
  | false => exact .of_keeps heap.newSpace.flip_keeps heap.resizable.flip_keeps

/-- A step of a collection on a heap with the same provisions. -/
theorem Provisioned.stage (provisioned : Provisioned heap) (stage : ResizeStage) :
    Provisioned { heap with stage := stage } := { provisioned with }

theorem resizeStep_provisioned (provisioned : Provisioned heap)
    (covers : action.CoversGrowth heap) (stepped : resizeStep heap action = .next after) :
    Provisioned after := by
  cases action with
  | acquireBlock =>
      simp only [resizeStep, Outcome.require_bind_eq_next, orDisabled_eq_next,
        acquireAllocationBlock] at stepped
      obtain ⟨-, found⟩ := stepped
      split at found
      · obtain ⟨space, acquired, rfl⟩ := Option.map_eq_some_iff.mp found
        exact provisioned.same (acquireNew_same acquired)
      · obtain ⟨space, acquired, rfl⟩ := Option.map_eq_some_iff.mp found
        exact provisioned.same (acquireResizable_same acquired)
  | request npages =>
      simp only [resizeStep, Outcome.require_bind_eq_next, Outcome.pure_eq_next,
        Outcome.next.injEq] at stepped
      obtain ⟨-, rfl⟩ := stepped
      exact provisioned.same (requestLarge_same heap npages)
  | grant index =>
      simp only [resizeStep, Outcome.require_bind_eq_next, orDisabled_eq_next,
        Option.map_eq_some_iff] at stepped
      obtain ⟨-, npages, found, rfl⟩ := stepped
      exact provisioned.same (grantLarge_same found)
  | withdraw index =>
      simp only [resizeStep, Outcome.require_bind_eq_next, orDisabled_eq_next,
        Option.map_eq_some_iff] at stepped
      obtain ⟨-, npages, found, rfl⟩ := stepped
      exact provisioned.same (withdrawLarge_same found)
  | resizeFromThread newSize base =>
      simp only [resizeStep, Outcome.require_bind_eq_next] at stepped
      exact resizeHeap_provisioned provisioned covers stepped.2
  | startGc isMinor =>
      simp only [resizeStep, Outcome.require_bind_eq_next, Outcome.pure_eq_next,
        Outcome.next.injEq] at stepped
      obtain ⟨-, -, rfl⟩ := stepped
      exact provisioned.same (copySpacesStartGc_same heap isMinor)
  | evacuate =>
      simp only [resizeStep] at stepped
      split at stepped
      · simp only [orDisabled_eq_next, Option.map_eq_some_iff] at stepped
        obtain ⟨space, found, rfl⟩ := stepped
        exact provisioned.same (acquireResizable_same found)
      · cases stepped
  | evacuateToNursery =>
      simp only [resizeStep] at stepped
      split at stepped
      · simp only [orDisabled_eq_next, Option.map_eq_some_iff] at stepped
        obtain ⟨space, found, rfl⟩ := stepped
        exact provisioned.same (acquireNew_same found)
      · cases stepped
  | resizeForActiveMutatorCount count =>
      simp only [resizeStep] at stepped
      split at stepped
      · simp only [Outcome.bind_eq_next, Outcome.pure_eq_next, Outcome.next.injEq] at stepped
        obtain ⟨-, -, resized, stepped, rfl⟩ := stepped
        have finished : Provisioned (copySpacesFinishGc heap) := { provisioned with }
        exact (resizeNurseryForActiveMutatorCount_provisioned finished stepped).stage _
      · cases stepped
  | resetLargeObjectPages npages =>
      simp only [resizeStep] at stepped
      split at stepped
      · simp only [Outcome.bind_eq_next, Outcome.pure_eq_next, Outcome.next.injEq] at stepped
        obtain ⟨reset, stepped, rfl⟩ := stepped
        exact (heapResetLargeObjectPages_provisioned provisioned stepped).stage _
      · cases stepped
  | sizerOnGc newSize base =>
      simp only [resizeStep] at stepped
      split at stepped
      · simp only [Outcome.bind_eq_next, Outcome.pure_eq_next, Outcome.next.injEq] at stepped
        obtain ⟨-, -, sized, stepped, rfl⟩ := stepped
        exact (resizeHeap_provisioned provisioned covers stepped).stage _
      · cases stepped
  | resolve base =>
      simp only [resizeStep] at stepped
      split at stepped
      next isMinor isSized =>
        simp only [Outcome.bind_eq_next, Outcome.pure_eq_next, Outcome.next.injEq,
          resolvePendingLargeAllocation] at stepped
        obtain ⟨resolved, stepped, rfl⟩ := stepped
        simp only [ResizeAction.CoversGrowth, isSized] at covers
        have released := provisioned.same (pageOutUntilReleased_same heap)
        exact (resizeHeap_provisioned released covers stepped).stage _
      · cases stepped
  | advancePageOutQueue =>
      cases stepped
      exact provisioned.same (.of_keeps heap.newSpace.advancePageOutQueue_keeps
        heap.resizable.advancePageOutQueue_keeps)
  | pageOutBlocks =>
      cases stepped
      exact provisioned.same (.of_keeps heap.newSpace.pageOutBlocks_keeps
        heap.resizable.pageOutBlocks_keeps)

/-- No permitted action fails the assertion of `copy_space_reacquire_memory`. -/
theorem resizeStep_enough {caller : ReacquireCaller} (provisioned : Provisioned heap)
    (covers : action.CoversGrowth heap) :
    resizeStep heap action ≠ .failed (.reacquire caller) := by
  intro failed
  cases action with
  | resizeFromThread newSize base =>
      simp only [resizeStep, Outcome.require_bind_eq_failed] at failed
      exact resizeHeap_enough covers failed.2
  | resizeForActiveMutatorCount count =>
      simp only [resizeStep] at failed
      split at failed
      · simp only [Outcome.bind_eq_failed, Outcome.require_ne_failed, Outcome.pure_eq_next,
          reduceCtorEq, and_false, exists_false, or_false, false_or] at failed
        obtain ⟨-, -, failed⟩ := failed
        have finished : Provisioned (copySpacesFinishGc heap) := { provisioned with }
        exact resizeNurseryForActiveMutatorCount_enough finished failed
      · cases failed
  | resetLargeObjectPages npages =>
      simp only [resizeStep] at failed
      split at failed
      · simp only [Outcome.bind_eq_failed, Outcome.pure_eq_next, reduceCtorEq, and_false,
          exists_false, or_false] at failed
        exact heapResetLargeObjectPages_enough provisioned failed
      · cases failed
  | sizerOnGc newSize base =>
      simp only [resizeStep] at failed
      split at failed
      · simp only [Outcome.bind_eq_failed, Outcome.require_ne_failed, Outcome.pure_eq_next,
          reduceCtorEq, and_false, exists_false, or_false, false_or] at failed
        obtain ⟨-, -, failed⟩ := failed
        exact resizeHeap_enough covers failed
      · cases failed
  | resolve base =>
      simp only [resizeStep] at failed
      split at failed
      next isMinor isSized =>
        simp only [Outcome.bind_eq_failed, Outcome.pure_eq_next, reduceCtorEq, and_false,
          exists_false, or_false, resolvePendingLargeAllocation] at failed
        simp only [ResizeAction.CoversGrowth, isSized] at covers
        exact resizeHeap_enough covers failed
      · cases failed
  | evacuate | evacuateToNursery =>
      simp only [resizeStep] at failed
      split at failed
      · exact orDisabled_ne_failed failed
      · cases failed
  | _ => simp [resizeStep] at failed

/-- The condition leaves out only what goes wrong: after a growth that it does not cover, the heap
cannot take back the memory of its large objects. -/
theorem reset_fails_of_not_covers {newSize base : ℕ} (notCovers : ¬heap.CoversGrowth newSize)
    (resized : resizeHeap heap newSize base = .next after) (calm : heap.requests = []) :
    heapResetLargeObjectPages after 0 =
      .failed (.reacquire .heapResetLargeObjectPages) := by
  simp only [SizedHeap.CoversGrowth, Classical.not_imp, not_lt] at notCovers
  obtain ⟨grows, tooMuch⟩ := notCovers
  rw [resizeHeap, if_neg (by omega), if_neg (by omega)] at resized
  simp only [Outcome.bind_eq_next, Outcome.mapFailure_eq_next, Outcome.pure_eq_next,
    Outcome.next.injEq] at resized
  obtain ⟨space, grown, rfl⟩ := resized
  obtain ⟨value, count⟩ := CopySpace.expand_eq_next grown
  have failed : space.reacquireMemory (heap.largeObjectPages * heap.pageSize) =
      .failed .enoughPagedOut := by
    rw [CopySpace.reacquireMemory_eq_failed, count, value]
    simpa [SizedHeap.pages, calm] using tooMuch
  simp [heapResetLargeObjectPages, failed, Outcome.check, Outcome.mapFailure]

end Steps

/-! ## Whole runs -/

theorem initialSizedHeap_provisioned (options : SizedOptions)
    (positive : 0 < options.processorCount) : Provisioned (initialSizedHeap options) := by
  have atMost : options.perProcessorNurserySize ≤
      options.perProcessorNurserySize * options.processorCount :=
    Nat.le_mul_of_pos_right _ positive
  refine { resizable := ?_, nursery := ?_, nurserySize_le := atMost }
  · have worth := CopySpace.value_init_le options.size options.base false options.generational
    have positive : 0 < COPY_SPACE_BLOCK_SIZE := by decide
    rw [Nat.add_mul, Nat.one_mul]
    simp only [initialSizedHeap, SizedHeap.pages, List.sum_nil, Nat.zero_mul, Nat.add_zero]
    omega
  · have worth := CopySpace.value_init_le
      (options.perProcessorNurserySize * options.processorCount) options.newBase true false
    have adds := CopySpace.shrink_adds
      (CopySpace.init (options.perProcessorNurserySize * options.processorCount) options.newBase
        true false)
      (options.perProcessorNurserySize * options.processorCount - options.perProcessorNurserySize)
    simp only [initialSizedHeap]
    rw [adds.value_eq, adds.blockCount_eq]
    omega

/-- Every call of `copy_space_reacquire_memory` that an action makes finds enough paged-out
blocks. -/
def FindsEnough (heap : SizedHeap) (action : ResizeAction) : Prop :=
  ∀ caller, resizeStep heap action ≠ .failed (.reacquire caller)

/-- In every run whose growths are covered, every call finds enough paged-out blocks. -/
theorem reacquire_finds_enough (heap : SizedHeap)
    (reached : resizeSystem.ReachableBy (fun heap action => action.CoversGrowth heap) heap)
    (action : ResizeAction) (covers : action.CoversGrowth heap) : FindsEnough heap action := by
  have provisioned : Provisioned heap := by
    apply reached.invariant
    · rintro start ⟨options, -, positive, rfl⟩
      exact initialSizedHeap_provisioned options positive
    · intro before action after provisioned covers stepped
      exact resizeStep_provisioned provisioned covers stepped
  exact fun _ => resizeStep_enough provisioned covers

private def smallOptions : SizedOptions :=
  { generational := false, fixedSize := false, size := 262144, pageSize := 4096,
    perProcessorNurserySize := 2097152, processorCount := 1, newBase := 2 ^ 30, base := 2 ^ 26 }

/-- The sizer doubles a heap of two blocks while a large object is alive. -/
theorem reacquire_finds_enough_doubled :
    ∃ heap : SizedHeap, heap.size = 524288 ∧ heap.largeObjectPages = 20 ∧
      FindsEnough heap (.resetLargeObjectPages 0) := by
  have ran : (System.runBy resizeStep (fun heap action => action.CoversGrowth heap)
      (initialSizedHeap smallOptions)
      [.request 20, .grant 0, .resizeFromThread 524288 (2 ^ 27), .startGc false,
        .resizeForActiveMutatorCount 1]).leadsTo
      (fun heap => heap.size = 524288 ∧ heap.largeObjectPages = 20) = true := by
    decide +kernel
  obtain ⟨heap, ran, facts⟩ := Outcome.exists_next_of_leadsTo ran
  obtain ⟨sizeEq, pagesEq⟩ := of_decide_eq_true facts
  have reached := System.ReachableBy.of_runBy resizeSystem _ (fun _ _ => id)
    (.initial ⟨smallOptions, by decide, by decide, rfl⟩) _ ran
  exact ⟨heap, sizeEq, pagesEq, reacquire_finds_enough heap reached _ trivial⟩

/-- A heap of two blocks grows by the paged-out blocks of its slab to make room for a large object
of 64 MiB. When the object dies, there are not as many left to page in. -/
theorem reacquire_finds_enough_fails :
    ¬∀ heap, resizeSystem.Reachable heap → ∀ action, FindsEnough heap action := by
  intro holds
  have ran : (System.runBy resizeStep (fun _ _ => True) (initialSizedHeap smallOptions)
      [.request 16384, .startGc false, .resizeForActiveMutatorCount 1, .resetLargeObjectPages 0,
        .sizerOnGc 262144 0, .resolve 0, .grant 0, .startGc false,
        .resizeForActiveMutatorCount 1]).leadsTo
      (fun heap => (resizeStep heap (.resetLargeObjectPages 0)).failsWith
        (.reacquire .heapResetLargeObjectPages)) = true := by
    decide +kernel
  obtain ⟨heap, ran, fails⟩ := Outcome.exists_next_of_leadsTo ran
  have reached := System.ReachableBy.of_runBy resizeSystem _ (fun _ _ => id)
    (.initial ⟨smallOptions, by decide, by decide, rfl⟩) _ ran
  exact holds heap reached (.resetLargeObjectPages 0) .heapResetLargeObjectPages
    (Outcome.eq_failed_of_failsWith fails)

end Whippet.Pcc
