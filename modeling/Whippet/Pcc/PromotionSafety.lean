import Mathlib.Algebra.Order.BigOperators.Group.List
import Whippet.Library.Processes
import Whippet.Pcc.PromotionBudget
import Whippet.Pcc.ResizingSafety

/-!
When a minor collection of pcc has room for what it promotes.

`heap_can_minor_gc` compares the nominal size of the nursery with the empty blocks of the old
space. What a minor collection can need depends on other things: on the bytes that are live in the
nursery, of which there may be more than its nominal size (blocks that a collection pages in are
not paged out again), on the number of trace workers, each of which may hold a block of which it
has used little, and on the ends of blocks that are too small for the next object.

Owns: the condition on the start of a minor collection under which it cannot run out of memory,
the invariant of its steps, the theorem about whole runs, and a run in which it does run out.
-/

namespace Whippet.Pcc

open Function
open Nofl (alignUp)

/-! ## The condition -/

/-- The bytes that a collection allocates to copy the objects. -/
def bytesOf (objects : List SmallObject) : ℕ :=
  (objects.map fun object => alignUp object.size GC_ALIGNMENT).sum

/-- The bytes of the objects that have survived a minor collection before. -/
def SpaceContents.survivorBytes (contents : SpaceContents) (objects : List SmallObject) : ℕ :=
  bytesOf (objects.filter contents.shouldPromote)

def SpaceContents.youngBytes (contents : SpaceContents) (objects : List SmallObject) : ℕ :=
  bytesOf (objects.filter fun object => !contents.shouldPromote object)

/-- The sure bytes of the blocks that all workers but one may hold. -/
def heldBack (workerCount : ℕ) : ℕ :=
  sureBytes (COPY_SPACE_REGION_SIZE - GC_ALIGNMENT) * (workerCount - 1)

/-- The live objects that have survived a collection, and the others as far as they may not fit in
the blocks of the new space, fit in the blocks of the old space. Of a block all but the size of the
largest small object counts, and all workers but one may hold on to a block with one object. -/
def NurseryHeap.HasRoomToPromote (heap : NurseryHeap) (live : List SmallObject) : Prop :=
  let contents := heap.newContents.flip
  let held := heldBack heap.workers.length
  let kept := sureBytes COPY_SPACE_REGION_SIZE * heap.sized.newSpace.blockCount - held
  contents.survivorBytes live + (contents.youngBytes live - kept) + held ≤
    sureBytes COPY_SPACE_REGION_SIZE * heap.sized.resizable.empty.length +
      heap.oldContents.sureRoom

instance (heap : NurseryHeap) (live : List SmallObject) : Decidable (heap.HasRoomToPromote live) :=
  Nat.decLe _ _

/-- The condition on the steps of a run: a minor collection that starts has room to promote. -/
def NurseryAction.HasRoom (action : NurseryAction) (heap : NurseryHeap) : Prop :=
  match action with
  | .startGc requested live =>
      heap.sized.choosesMinor requested = true → heap.HasRoomToPromote live
  | _ => True

instance (heap : NurseryHeap) (action : NurseryAction) : Decidable (action.HasRoom heap) := by
  cases action <;> unfold NurseryAction.HasRoom <;> infer_instance

/-! ## Bytes of objects -/

section Bytes

variable {contents : SpaceContents} {objects : List SmallObject} {object : SmallObject}

theorem bytesOf_filter_erase (counted : SmallObject → Bool) (member : object ∈ objects) :
    bytesOf (objects.filter counted) = bytesOf ((objects.erase object).filter counted) +
      if counted object = true then alignUp object.size GC_ALIGNMENT else 0 := by
  have split := ((List.perm_cons_erase member).filter counted).map
    fun object => alignUp object.size GC_ALIGNMENT
  rw [bytesOf, split.sum_eq, List.filter_cons]
  split
  · rw [List.map_cons, List.sum_cons, Nat.add_comm]
    rfl
  · rfl

theorem survivorBytes_erase (member : object ∈ objects) :
    contents.survivorBytes objects = contents.survivorBytes (objects.erase object) +
      if contents.shouldPromote object = true then alignUp object.size GC_ALIGNMENT else 0 :=
  bytesOf_filter_erase _ member

theorem youngBytes_erase (member : object ∈ objects) :
    contents.youngBytes objects = contents.youngBytes (objects.erase object) +
      if contents.shouldPromote object = true then 0 else alignUp object.size GC_ALIGNMENT := by
  rw [SpaceContents.youngBytes, bytesOf_filter_erase _ member, SpaceContents.youngBytes]
  cases contents.shouldPromote object <;> rfl

theorem SpaceContents.SamePromotion.survivorBytes_eq {before after : SpaceContents}
    (same : before.SamePromotion after) (objects : List SmallObject) :
    after.survivorBytes objects = before.survivorBytes objects := by
  rw [survivorBytes, survivorBytes, funext same.shouldPromote_eq]

theorem SpaceContents.SamePromotion.youngBytes_eq {before after : SpaceContents}
    (same : before.SamePromotion after) (objects : List SmallObject) :
    after.youngBytes objects = before.youngBytes objects := by
  rw [youngBytes, youngBytes, funext same.shouldPromote_eq]

end Bytes

/-! ## Room in a space and with its workers -/

/-- The sure bytes of a space and of the blocks that the workers hold of it. -/
def roomWith (space : FilledSpace) (workers : List TraceWorker)
    (pick : TraceWorker → Option CopyAllocator) : ℕ :=
  space.sureRoom + (workers.map fun worker => allocatorRoom (pick worker)).sum

section Room

variable {space after : FilledSpace} {workers : List TraceWorker} {index : ℕ}
variable {worker updated : TraceWorker} {pick : TraceWorker → Option CopyAllocator}

theorem roomWith_set (found : workers[index]? = some worker) :
    roomWith after (workers.set index updated) pick +
        (space.sureRoom + allocatorRoom (pick worker)) =
      roomWith space workers pick + (after.sureRoom + allocatorRoom (pick updated)) := by
  have balance : ((workers.set index updated).map fun worker => allocatorRoom (pick worker)).sum +
      allocatorRoom (pick worker) =
        (workers.map fun worker => allocatorRoom (pick worker)).sum +
          allocatorRoom (pick updated) :=
    Processes.sum_map_set _ found
  rw [roomWith, roomWith]
  omega

theorem roomWith_set_same (found : workers[index]? = some worker)
    (same : pick updated = pick worker) :
    roomWith space (workers.set index updated) pick = roomWith space workers pick := by
  have balance : roomWith space (workers.set index updated) pick +
      (space.sureRoom + allocatorRoom (pick worker)) =
        roomWith space workers pick + (space.sureRoom + allocatorRoom (pick updated)) :=
    roomWith_set found
  rw [same] at balance
  exact Nat.add_right_cancel balance

/-- If a worker finds no room, then what is left is with the others. -/
theorem roomWith_le_heldBack (found : workers[index]? = some worker)
    (aligned : ∀ worker ∈ workers, AllocatorAligned (pick worker))
    (exhausted : space.sureRoom + allocatorRoom (pick worker) = 0) :
    roomWith space workers pick ≤ heldBack workers.length := by
  have inRange : index < workers.length := (List.getElem?_eq_some_iff.mp found).1
  have atIndex : workers[index] = worker := (List.getElem?_eq_some_iff.mp found).2
  have split := ((List.getElem_cons_eraseIdx_perm inRange).map
    fun worker => allocatorRoom (pick worker)).sum_eq
  have others : ((workers.eraseIdx index).map fun worker => allocatorRoom (pick worker)).sum ≤
      (workers.eraseIdx index).length * sureBytes (COPY_SPACE_REGION_SIZE - GC_ALIGNMENT) := by
    have bounded := List.sum_le_card_nsmul
      ((workers.eraseIdx index).map fun worker => allocatorRoom (pick worker))
      (sureBytes (COPY_SPACE_REGION_SIZE - GC_ALIGNMENT))
    rw [List.length_map, smul_eq_mul] at bounded
    apply bounded
    intro room member
    obtain ⟨other, inRest, rfl⟩ := List.mem_map.mp member
    exact (aligned other (List.mem_of_mem_eraseIdx inRest)).room_le
  rw [List.length_eraseIdx_of_lt inRange, Nat.mul_comm] at others
  rw [List.map_cons, List.sum_cons, atIndex] at split
  rw [roomWith, ← split, heldBack]
  omega

end Room

namespace NurseryHeap

variable (heap : NurseryHeap)

def newRoom : ℕ := roomWith heap.newSpace heap.workers TraceWorker.newAllocator

def oldRoom : ℕ := roomWith heap.oldSpace heap.workers TraceWorker.oldAllocator

/-- The bytes that may still have to be promoted. -/
def demand : ℕ :=
  heap.newContents.survivorBytes heap.unforwarded +
    (heap.newContents.youngBytes heap.unforwarded -
      (heap.newRoom - heldBack heap.workers.length))

end NurseryHeap

/-! ## The invariant -/

/-- What is true of a heap between any two steps. -/
structure Fillable (heap : NurseryHeap) : Prop where
  newAligned : heap.newContents.Aligned
  oldAligned : heap.oldContents.Aligned
  mutators : ∀ allocator ∈ heap.mutators, AllocatorAligned allocator
  newAllocators : ∀ worker ∈ heap.workers, AllocatorAligned worker.newAllocator
  oldAllocators : ∀ worker ∈ heap.workers, AllocatorAligned worker.oldAllocator
  parked : (∀ isMinor, heap.sized.stage ≠ .tracing isMinor) →
    ∀ worker ∈ heap.workers, worker = .parked
  objects : ∀ object ∈ heap.objects, IsSmall object.size
  unforwarded : ∀ object ∈ heap.unforwarded, IsSmall object.size

/-- What is true in a minor collection. -/
structure Promotable (heap : NurseryHeap) : Prop where
  demand_le : heap.demand + heldBack heap.workers.length ≤ heap.oldRoom
  /-- A worker that goes to promote a young object has seen the new space full. -/
  overflowed : ∀ worker ∈ heap.workers, worker.promoting ≠ none →
    heap.newRoom ≤ heldBack heap.workers.length

structure Safe (heap : NurseryHeap) : Prop where
  fillable : Fillable heap
  promotable : heap.sized.stage = .tracing true → Promotable heap

/-! ## Changes of size -/

section Sizes

variable {heap after : SizedHeap} {space : CopySpace} {action : ResizeAction}

theorem ageBlocks_available (age older : Fin COPY_SPACE_PAGE_OUT_QUEUE_SIZE) (space : CopySpace) :
    (space.ageBlocks age older).available = space.available := by
  have pushed : ∀ (blocks : List ℕ) (start : CopySpace),
      (blocks.foldl (fun moved block => moved.pushPagedOut older block) start).activeCount =
          start.activeCount ∧
        (blocks.foldl (fun moved block => moved.pushPagedOut older block) start).empty =
          start.empty ∧
        (blocks.foldl (fun moved block => moved.pushPagedOut older block) start).inGc =
          start.inGc := by
    intro blocks
    induction blocks with
    | nil => exact fun _ => ⟨rfl, rfl, rfl⟩
    | cons block rest inductionHypothesis =>
        intro start
        exact inductionHypothesis (start.pushPagedOut older block)
  obtain ⟨active, empty, inGc⟩ := pushed (space.pagedOut age)
    { space with pagedOut := update space.pagedOut age [] }
  have count := (space.ageBlocks_keeps age older).2
  rw [CopySpace.ageBlocks] at count ⊢
  rw [CopySpace.blockCount, CopySpace.blockCount, active] at count
  rw [CopySpace.available, CopySpace.available, empty, inGc, Nat.add_left_cancel count]

theorem advancePageOutQueue_available (space : CopySpace) :
    space.advancePageOutQueue.available = space.available := by
  rw [CopySpace.advancePageOutQueue, ageBlocks_available, ageBlocks_available]

theorem pageOutBlocks_available (space : CopySpace) :
    space.pageOutBlocks.available = space.available :=
  ageBlocks_available 2 3 _

theorem resizeHeap_stage {newSize base : ℕ} (resized : resizeHeap heap newSize base = .next after) :
    after.stage = heap.stage := by
  unfold resizeHeap at resized
  split at resized
  · cases resized
    rfl
  · split at resized
    · cases resized
      rfl
    · simp only [Outcome.bind_eq_next, Outcome.mapFailure_eq_next, Outcome.pure_eq_next,
        Outcome.next.injEq] at resized
      obtain ⟨space, -, rfl⟩ := resized
      rfl

/-- The sizes of the spaces change outside of the trace only. The background tasks, which run at any
time, keep the number of blocks to get. -/
theorem resizeStep_onlySizes (only : action.onlySizes = true)
    (stepped : resizeStep heap action = .next after) :
    (after.stage = heap.stage ∧ after.newSpace.available = heap.newSpace.available ∧
        after.resizable.available = heap.resizable.available) ∨
      ((∀ isMinor, heap.stage ≠ .tracing isMinor) ∧
        ∀ isMinor, after.stage ≠ .tracing isMinor) := by
  cases action with
  | acquireBlock | evacuate | evacuateToNursery => cases only
  | startGc | resizeForActiveMutatorCount => cases only
  | request npages =>
      simp only [resizeStep, Outcome.require_bind_eq_next, Outcome.pure_eq_next,
        Outcome.next.injEq] at stepped
      obtain ⟨mutating, rfl⟩ := stepped
      right
      simp [requestLarge, mutating]
  | grant index =>
      simp only [resizeStep, Outcome.require_bind_eq_next, orDisabled_eq_next,
        Option.map_eq_some_iff] at stepped
      obtain ⟨mutating, npages, -, rfl⟩ := stepped
      right
      simp [grantLarge, mutating]
  | withdraw index =>
      simp only [resizeStep, Outcome.require_bind_eq_next, orDisabled_eq_next,
        Option.map_eq_some_iff] at stepped
      obtain ⟨mutating, npages, -, rfl⟩ := stepped
      right
      simp [withdrawLarge, mutating]
  | resizeFromThread newSize base =>
      simp only [resizeStep, Outcome.require_bind_eq_next] at stepped
      obtain ⟨⟨mutating, -⟩, stepped⟩ := stepped
      right
      simp [resizeHeap_stage stepped, mutating]
  | resetLargeObjectPages npages =>
      simp only [resizeStep] at stepped
      split at stepped
      next isMinor resized =>
        simp only [Outcome.bind_eq_next, Outcome.pure_eq_next, Outcome.next.injEq] at stepped
        obtain ⟨reset, -, rfl⟩ := stepped
        right
        simp [resized]
      · cases stepped
  | sizerOnGc newSize base =>
      simp only [resizeStep] at stepped
      split at stepped
      next isMinor reset =>
        simp only [Outcome.bind_eq_next, Outcome.pure_eq_next, Outcome.next.injEq] at stepped
        obtain ⟨-, -, sized, -, rfl⟩ := stepped
        right
        simp [reset]
      · cases stepped
  | resolve base =>
      simp only [resizeStep] at stepped
      split at stepped
      next isMinor sized =>
        simp only [Outcome.bind_eq_next, Outcome.pure_eq_next, Outcome.next.injEq] at stepped
        obtain ⟨resolved, -, rfl⟩ := stepped
        right
        simp [sized]
      · cases stepped
  | advancePageOutQueue =>
      cases stepped
      left
      exact ⟨rfl, advancePageOutQueue_available _, advancePageOutQueue_available _⟩
  | pageOutBlocks =>
      cases stepped
      left
      exact ⟨rfl, pageOutBlocks_available _, pageOutBlocks_available _⟩

end Sizes

/-! ## Updates of the heap -/

section Updates

variable {heap : NurseryHeap} {space : FilledSpace} {index : ℕ} {worker updated : TraceWorker}
variable {isMinor : Bool}

theorem Fillable.setNewSpace (fillable : Fillable heap) (aligned : space.contents.Aligned) :
    Fillable (heap.setNewSpace space) :=
  { fillable with newAligned := aligned }

theorem Fillable.setOldSpace (fillable : Fillable heap) (aligned : space.contents.Aligned) :
    Fillable (heap.setOldSpace space) :=
  { fillable with oldAligned := aligned }

theorem Fillable.setMutator (fillable : Fillable heap) {allocator : Option CopyAllocator}
    (aligned : AllocatorAligned allocator) : Fillable (heap.setMutator index allocator) :=
  { fillable with
    mutators := by
      intro other member
      rcases Processes.mem_set_cases member with rfl | kept
      · exact aligned
      · exact fillable.mutators other kept }

theorem Fillable.setWorker (fillable : Fillable heap)
    (tracing : heap.sized.stage = .tracing isMinor)
    (newAligned : AllocatorAligned updated.newAllocator)
    (oldAligned : AllocatorAligned updated.oldAllocator) :
    Fillable (heap.setWorker index updated) :=
  { fillable with
    newAllocators := by
      intro other member
      rcases Processes.mem_set_cases member with rfl | kept
      · exact newAligned
      · exact fillable.newAllocators other kept
    oldAllocators := by
      intro other member
      rcases Processes.mem_set_cases member with rfl | kept
      · exact oldAligned
      · exact fillable.oldAllocators other kept
    parked := fun notTracing => absurd tracing (notTracing isMinor) }

theorem Fillable.erase (fillable : Fillable heap) (object : SmallObject) :
    Fillable { heap with unforwarded := heap.unforwarded.erase object } :=
  { fillable with
    unforwarded := fun other member => fillable.unforwarded other (List.mem_of_mem_erase member) }

/-- A worker that does not go to promote an object leaves the others to do so. -/
theorem mem_of_mem_setWorker (notPromoting : updated.promoting = none) {other : TraceWorker}
    (member : other ∈ (heap.setWorker index updated).workers) (promoting : other.promoting ≠ none) :
    other ∈ heap.workers := by
  rcases Processes.mem_set_cases member with rfl | kept
  · exact absurd notPromoting promoting
  · exact kept

end Updates

/-! ## Promotion -/

/-- What a step does that copies `size` bytes to the old space. -/
structure Promotes (heap : NurseryHeap) (size : ℕ) (after : NurseryHeap) : Prop where
  fillable : Fillable after
  stage_eq : after.sized.stage = heap.sized.stage
  newContents_eq : after.newContents = heap.newContents
  unforwarded_eq : after.unforwarded = heap.unforwarded
  length_eq : after.workers.length = heap.workers.length
  newRoom_eq : after.newRoom = heap.newRoom
  oldRoom_le : heap.oldRoom ≤ after.oldRoom + alignUp size GC_ALIGNMENT
  promoting : ∀ worker ∈ after.workers, worker.promoting ≠ none → worker ∈ heap.workers

section Promotion

variable {heap after : NurseryHeap} {index size : ℕ} {worker : TraceWorker} {isMinor : Bool}
variable {object : SmallObject}

theorem promoteObject_eq_next {stage : Bool} (fillable : Fillable heap)
    (tracing : heap.sized.stage = .tracing stage) (found : heap.workers[index]? = some worker)
    (small : IsSmall size)
    (promoted : promoteObject heap isMinor index worker size = .next after) :
    Promotes heap size after := by
  have member := List.mem_of_getElem? found
  have allocates : FilledSpace.Allocates heap.oldSpace worker.oldAllocator size
      (heap.oldSpace.allocate worker.oldAllocator size) :=
    FilledSpace.allocate_allocates small fillable.oldAligned
      (fillable.oldAllocators worker member)
  unfold promoteObject at promoted
  dsimp only at promoted
  split at promoted
  · cases promoted
  next place placeEq =>
    cases promoted
    generalize heap.oldSpace.allocate worker.oldAllocator size = result at *
    have placed : result.place ≠ none := by simp [placeEq]
    exact
      { fillable := (fillable.setOldSpace allocates.aligned).setWorker tracing
          (fillable.newAllocators worker member) allocates.allocatorAligned
        stage_eq := rfl
        newContents_eq := rfl
        unforwarded_eq := rfl
        length_eq := List.length_set
        newRoom_eq := roomWith_set_same found rfl
        oldRoom_le := by
          have balance : (heap.setOldSpace result.space |>.setWorker index
              { worker with oldAllocator := result.allocator, promoting := none }).oldRoom + _ =
                heap.oldRoom + (result.space.sureRoom + allocatorRoom result.allocator) :=
            roomWith_set found
          have taken := allocates.le_room placed
          omega
        promoting := fun other => mem_of_mem_setWorker rfl }

/-- A promotion fails only if the old space has nothing left but what other workers hold. -/
theorem promoteObject_eq_failed {failure : NurseryFailure} (fillable : Fillable heap)
    (found : heap.workers[index]? = some worker) (small : IsSmall size)
    (failed : promoteObject heap isMinor index worker size = .failed failure) :
    heap.oldRoom ≤ heldBack heap.workers.length := by
  have member := List.mem_of_getElem? found
  have allocates : FilledSpace.Allocates heap.oldSpace worker.oldAllocator size
      (heap.oldSpace.allocate worker.oldAllocator size) :=
    FilledSpace.allocate_allocates small fillable.oldAligned
      (fillable.oldAllocators worker member)
  unfold promoteObject at failed
  dsimp only at failed
  split at failed
  next placeEq =>
    exact roomWith_le_heldBack found fillable.oldAllocators (allocates.exhausted placeEq).2
  · cases failed

/-- Promoting an object that has to be promoted lowers the demand by its size. -/
theorem Promotable.promoted (promotable : Promotable heap) (member : object ∈ heap.unforwarded)
    (promotes : Promotes heap object.size after)
    (has : heap.newContents.shouldPromote object = true ∨
      heap.newRoom ≤ heldBack heap.workers.length) :
    Promotable { after with unforwarded := heap.unforwarded.erase object } where
  demand_le := by
    have enough := promotable.demand_le
    have taken := promotes.oldRoom_le
    have survivors : heap.newContents.survivorBytes heap.unforwarded = _ :=
      survivorBytes_erase member
    have young : heap.newContents.youngBytes heap.unforwarded = _ := youngBytes_erase member
    show after.newContents.survivorBytes (heap.unforwarded.erase object) +
        (after.newContents.youngBytes (heap.unforwarded.erase object) -
          (after.newRoom - heldBack after.workers.length)) + heldBack after.workers.length ≤
      after.oldRoom
    rw [promotes.newContents_eq, promotes.newRoom_eq, promotes.length_eq]
    rw [NurseryHeap.demand] at enough
    rcases has with survivor | overflowed
    · rw [if_pos survivor] at survivors young
      omega
    · split at survivors
      next survivor =>
        rw [if_pos survivor] at young
        omega
      next isYoung =>
        rw [if_neg isYoung] at young
        omega
  overflowed := by
    intro other isWorker promoting
    have seen := promotable.overflowed other (promotes.promoting other isWorker promoting) promoting
    show after.newRoom ≤ heldBack after.workers.length
    rw [promotes.newRoom_eq, promotes.length_eq]
    exact seen

/-- While an object has to be promoted, the old space has more than what other workers hold. -/
theorem Promotable.not_exhausted (promotable : Promotable heap)
    (member : object ∈ heap.unforwarded) (small : IsSmall object.size)
    (has : heap.newContents.shouldPromote object = true ∨
      heap.newRoom ≤ heldBack heap.workers.length) :
    heldBack heap.workers.length < heap.oldRoom := by
  have enough := promotable.demand_le
  have positive := (alignUp_small small).1
  have survivors : heap.newContents.survivorBytes heap.unforwarded = _ :=
    survivorBytes_erase member
  have young : heap.newContents.youngBytes heap.unforwarded = _ := youngBytes_erase member
  rw [NurseryHeap.demand] at enough
  rw [GC_ALIGNMENT] at *
  rcases has with survivor | overflowed
  · rw [if_pos survivor] at survivors
    omega
  · split at survivors
    · omega
    next isYoung =>
      rw [if_neg isYoung] at young
      omega

end Promotion

/-! ## Copies within the new space -/

section Keeping

variable {heap : NurseryHeap} {index : ℕ} {worker : TraceWorker} {object : SmallObject}

theorem SpaceContents.SamePromotion.demand_eq {before after : SpaceContents}
    (same : before.SamePromotion after) (objects : List SmallObject) (kept : ℕ) :
    after.survivorBytes objects + (after.youngBytes objects - kept) =
      before.survivorBytes objects + (before.youngBytes objects - kept) := by
  rw [same.survivorBytes_eq, same.youngBytes_eq]

/-- A worker that allocates in the new space leaves the room in the old space alone. -/
theorem setNewSpace_rooms {space : FilledSpace} {updated : TraceWorker}
    (found : heap.workers[index]? = some worker)
    (sameOld : updated.oldAllocator = worker.oldAllocator) :
    ((heap.setNewSpace space).setWorker index updated).newRoom +
          (heap.newSpace.sureRoom + allocatorRoom worker.newAllocator) =
        heap.newRoom + (space.sureRoom + allocatorRoom updated.newAllocator) ∧
      ((heap.setNewSpace space).setWorker index updated).oldRoom = heap.oldRoom := by
  constructor
  · exact roomWith_set found
  · exact roomWith_set_same found sameOld

/-- `do_minor_trace` for a young object keeps the heap fillable, whether there is room or not. -/
theorem keepObject_fillable (fillable : Fillable heap) (tracing : heap.sized.stage = .tracing true)
    (found : heap.workers[index]? = some worker) (small : IsSmall object.size) :
    Fillable (keepObject heap index worker object) := by
  have member := List.mem_of_getElem? found
  have allocates : FilledSpace.Allocates heap.newSpace worker.newAllocator object.size
      (heap.newSpace.allocate worker.newAllocator object.size) :=
    FilledSpace.allocate_allocates small fillable.newAligned
      (fillable.newAllocators worker member)
  unfold keepObject
  dsimp only
  generalize heap.newSpace.allocate worker.newAllocator object.size = result at *
  have copied := fillable.setNewSpace allocates.aligned
  split
  · exact copied.setWorker tracing allocates.allocatorAligned
      (fillable.oldAllocators worker member)
  · have updated : Fillable ((heap.setNewSpace result.space).setWorker index
        { worker with newAllocator := result.allocator }) :=
      copied.setWorker tracing allocates.allocatorAligned (fillable.oldAllocators worker member)
    exact
      { updated with
        objects := by
          intro other listed
          rcases List.mem_cons.mp listed with rfl | old
          · exact small
          · exact fillable.objects other old
        unforwarded := fun other listed =>
          fillable.unforwarded other (List.mem_of_mem_erase listed) }

theorem keepObject_promotable (fillable : Fillable heap) (promotable : Promotable heap)
    (found : heap.workers[index]? = some worker) (member : object ∈ heap.unforwarded)
    (young : heap.newContents.shouldPromote object = false)
    (notPromoting : worker.promoting = none) :
    Promotable (keepObject heap index worker object) := by
  have isWorker := List.mem_of_getElem? found
  have small := fillable.unforwarded object member
  have allocates : FilledSpace.Allocates heap.newSpace worker.newAllocator object.size
      (heap.newSpace.allocate worker.newAllocator object.size) :=
    FilledSpace.allocate_allocates small fillable.newAligned
      (fillable.newAllocators worker isWorker)
  have enough := promotable.demand_le
  unfold keepObject
  dsimp only
  generalize heap.newSpace.allocate worker.newAllocator object.size = result at *
  split
  next missing =>
    -- Nothing is copied: the room of the new space stays what the other workers hold.
    obtain ⟨noAllocator, exhausted⟩ := allocates.exhausted missing
    let after := (heap.setNewSpace result.space).setWorker index
      { worker with newAllocator := result.allocator, promoting := some object }
    have same : heap.newContents.SamePromotion after.newContents := allocates.samePromotion
    obtain ⟨newRoom, oldRoom⟩ : after.newRoom + _ = _ ∧ after.oldRoom = _ :=
      setNewSpace_rooms found rfl
    have atMost := allocates.room_le
    have sameRoom : after.newRoom = heap.newRoom := by
      dsimp only at newRoom
      omega
    have length : after.workers.length = heap.workers.length := List.length_set
    have full : heap.newRoom ≤ heldBack heap.workers.length :=
      roomWith_le_heldBack found fillable.newAllocators exhausted
    constructor
    · show after.newContents.survivorBytes heap.unforwarded +
          (after.newContents.youngBytes heap.unforwarded -
            (after.newRoom - heldBack after.workers.length)) + heldBack after.workers.length ≤
        after.oldRoom
      rw [same.demand_eq, sameRoom, length, oldRoom]
      exact enough
    · intro other _ _
      show after.newRoom ≤ heldBack after.workers.length
      rw [sameRoom, length]
      exact full
  next place placeEq =>
    have placed : result.place ≠ none := by simp [placeEq]
    let after := (heap.setNewSpace result.space).setWorker index
      { worker with newAllocator := result.allocator }
    have same : heap.newContents.SamePromotion after.newContents := allocates.samePromotion
    obtain ⟨newRoom, oldRoom⟩ : after.newRoom + _ = _ ∧ after.oldRoom = _ :=
      setNewSpace_rooms found rfl
    dsimp only at newRoom
    have taken := allocates.le_room placed
    have atMost := allocates.room_le
    have length : after.workers.length = heap.workers.length := List.length_set
    have survivors : heap.newContents.survivorBytes heap.unforwarded = _ :=
      survivorBytes_erase member
    have youngs : heap.newContents.youngBytes heap.unforwarded = _ := youngBytes_erase member
    rw [young] at survivors youngs
    simp only [Bool.false_eq_true, if_false] at survivors youngs
    constructor
    · show after.newContents.survivorBytes (heap.unforwarded.erase object) +
          (after.newContents.youngBytes (heap.unforwarded.erase object) -
            (after.newRoom - heldBack after.workers.length)) + heldBack after.workers.length ≤
        after.oldRoom
      rw [same.demand_eq, length, oldRoom]
      rw [NurseryHeap.demand] at enough
      omega
    · intro other listed promoting
      have still : { worker with newAllocator := result.allocator }.promoting = none := notPromoting
      have seen := promotable.overflowed other
        (mem_of_mem_setWorker still listed promoting) promoting
      show after.newRoom ≤ heldBack after.workers.length
      rw [length]
      omega

end Keeping

/-! ## Single steps -/

section Steps

variable {heap after : NurseryHeap} {action : NurseryAction} {index : ℕ}

/-- Outside of a minor collection the heap only has to be fillable. -/
theorem Fillable.safe (fillable : Fillable heap) (notMinor : heap.sized.stage ≠ .tracing true) :
    Safe heap where
  fillable := fillable
  promotable := fun tracing => absurd tracing notMinor

theorem resize_safe {resizing : ResizeAction} (safe : Safe heap)
    (stepped : nurseryStep heap (.resize resizing) = .next after) : Safe after := by
  simp only [nurseryStep, Outcome.bind_eq_next, Outcome.require_eq_next,
    Outcome.mapFailure_eq_next, Outcome.pure_eq_next, Outcome.next.injEq] at stepped
  obtain ⟨-, only, sized, stepped, rfl⟩ := stepped
  rcases resizeStep_onlySizes only stepped with ⟨stageEq, newEq, oldEq⟩ | ⟨before, afterward⟩
  · let resized := { heap with sized := sized }
    have newRoom : resized.newRoom = heap.newRoom := by
      have space : resized.newSpace.sureRoom = heap.newSpace.sureRoom :=
        congrArg (sureBytes COPY_SPACE_REGION_SIZE * · + heap.newContents.sureRoom) newEq
      exact congrArg (· + _) space
    have oldRoom : resized.oldRoom = heap.oldRoom := by
      have space : resized.oldSpace.sureRoom = heap.oldSpace.sureRoom :=
        congrArg (sureBytes COPY_SPACE_REGION_SIZE * · + heap.oldContents.sureRoom) oldEq
      exact congrArg (· + _) space
    constructor
    · exact
        { safe.fillable with
          parked := by
            intro notTracing
            exact safe.fillable.parked fun isMinor => stageEq ▸ notTracing isMinor }
    · intro tracing
      obtain ⟨enough, overflowed⟩ := safe.promotable (stageEq ▸ tracing)
      constructor
      · show heap.newContents.survivorBytes heap.unforwarded +
            (heap.newContents.youngBytes heap.unforwarded -
              (resized.newRoom - heldBack heap.workers.length)) + heldBack heap.workers.length ≤
          resized.oldRoom
        rw [newRoom, oldRoom]
        exact enough
      · intro worker member promoting
        show resized.newRoom ≤ heldBack heap.workers.length
        rw [newRoom]
        exact overflowed worker member promoting
  · apply Fillable.safe
    · exact
        { safe.fillable with
          parked := by
            intro
            exact safe.fillable.parked before }
    · exact afterward true

theorem allocateSmall_safe {size : ℕ} (safe : Safe heap)
    (stepped : allocateSmall heap index size = .next after) : Safe after := by
  simp only [allocateSmall, Outcome.require_bind_eq_next] at stepped
  obtain ⟨mutating, small, stepped⟩ := stepped
  split at stepped
  · cases stepped
  next allocator found =>
    have allocates : FilledSpace.Allocates heap.newSpace allocator size
        (heap.newSpace.allocate allocator size) :=
      FilledSpace.allocate_allocates small safe.fillable.newAligned
        (safe.fillable.mutators allocator (List.mem_of_getElem? found))
    generalize heap.newSpace.allocate allocator size = result at *
    have allocated : Fillable ((heap.setNewSpace result.space).setMutator index result.allocator) :=
      (safe.fillable.setNewSpace allocates.aligned).setMutator allocates.allocatorAligned
    have notMinor : heap.sized.stage ≠ .tracing true := by simp [mutating]
    split at stepped
    · cases stepped
      exact allocated.safe notMinor
    · cases stepped
      apply Fillable.safe
      · exact { allocated with
          objects := by
            intro object member
            rcases List.mem_cons.mp member with rfl | old
            · exact small
            · exact safe.fillable.objects object old }
      · exact notMinor

theorem finishMutator_safe (safe : Safe heap)
    (stepped : finishMutator heap index = .next after) : Safe after := by
  simp only [finishMutator, Outcome.require_bind_eq_next] at stepped
  obtain ⟨mutating, stepped⟩ := stepped
  split at stepped
  · cases stepped
  next allocator found =>
    cases stepped
    have aligned := safe.fillable.mutators allocator (List.mem_of_getElem? found)
    obtain ⟨moves, -⟩ := FilledSpace.finishAllocator_keeps aligned
    apply Fillable.safe
    · exact (safe.fillable.setNewSpace (moves.aligned safe.fillable.newAligned)).setMutator .none
    · show heap.sized.stage ≠ .tracing true
      simp [mutating]

theorem finishWorker_safe (safe : Safe heap)
    (stepped : finishWorker heap index = .next after) : Safe after := by
  unfold finishWorker at stepped
  split at stepped
  next isMinor worker tracing found =>
    simp only [Outcome.require_bind_eq_next, Outcome.pure_eq_next, Outcome.next.injEq] at stepped
    obtain ⟨notPromoting, rfl⟩ := stepped
    have member := List.mem_of_getElem? found
    obtain ⟨newMoves, newRoom⟩ :=
      FilledSpace.finishAllocator_keeps (safe.fillable.newAllocators worker member)
    obtain ⟨oldMoves, oldRoom⟩ :=
      FilledSpace.finishAllocator_keeps (safe.fillable.oldAllocators worker member)
    let finished := heap.setNewSpace (heap.newSpace.finishAllocator worker.newAllocator)
    let after := (finished.setOldSpace
      (heap.oldSpace.finishAllocator worker.oldAllocator)).setWorker
      index .parked
    have fillable : Fillable after :=
      ((safe.fillable.setNewSpace (newMoves.aligned safe.fillable.newAligned)).setOldSpace
        (oldMoves.aligned safe.fillable.oldAligned)).setWorker tracing .none .none
    have sameNew : after.newRoom = heap.newRoom := by
      have balance : after.newRoom + (heap.newSpace.sureRoom + allocatorRoom worker.newAllocator) =
          heap.newRoom + ((heap.newSpace.finishAllocator worker.newAllocator).sureRoom +
            allocatorRoom none) := roomWith_set found
      rw [newRoom] at balance
      exact Nat.add_right_cancel balance
    have sameOld : after.oldRoom = heap.oldRoom := by
      have balance : after.oldRoom + (heap.oldSpace.sureRoom + allocatorRoom worker.oldAllocator) =
          heap.oldRoom + ((heap.oldSpace.finishAllocator worker.oldAllocator).sureRoom +
            allocatorRoom none) := roomWith_set found
      rw [oldRoom] at balance
      exact Nat.add_right_cancel balance
    have length : after.workers.length = heap.workers.length := List.length_set
    have same : heap.newContents.SamePromotion after.newContents := newMoves.samePromotion
    refine { fillable := fillable, promotable := ?_ }
    intro minor
    obtain ⟨enough, overflowed⟩ := safe.promotable minor
    constructor
    · show after.newContents.survivorBytes heap.unforwarded +
          (after.newContents.youngBytes heap.unforwarded -
            (after.newRoom - heldBack after.workers.length)) + heldBack after.workers.length ≤
        after.oldRoom
      rw [same.demand_eq, sameNew, sameOld, length]
      exact enough
    · intro other listed promoting
      have unset : TraceWorker.parked.promoting = none := rfl
      have seen := overflowed other (mem_of_mem_setWorker unset listed promoting) promoting
      show after.newRoom ≤ heldBack after.workers.length
      rw [sameNew, length]
      exact seen
  · cases stepped

/-- Every block of the new space can be had once it is flipped. -/
theorem available_flip (space : CopySpace) : space.flip.available = space.blockCount := by
  rw [CopySpace.available, CopySpace.flip, if_pos rfl, List.length_append]
  rfl

theorem sum_room_parked {workers : List TraceWorker} {pick : TraceWorker → Option CopyAllocator}
    (parked : ∀ worker ∈ workers, worker = .parked) (none : pick .parked = none) :
    (workers.map fun worker => allocatorRoom (pick worker)).sum = 0 := by
  apply List.sum_eq_zero
  intro room member
  obtain ⟨worker, isWorker, rfl⟩ := List.mem_map.mp member
  rw [parked worker isWorker, none, allocatorRoom]

theorem startNurseryGc_safe {requested : CollectionKind} {live : List SmallObject}
    (safe : Safe heap) (has : (NurseryAction.startGc requested live).HasRoom heap)
    (stepped : startNurseryGc heap requested live = .next after) : Safe after := by
  simp only [startNurseryGc, resizeStep, Outcome.bind_eq_next, Outcome.require_eq_next,
    Outcome.mapFailure_eq_next, Outcome.pure_eq_next, Outcome.next.injEq] at stepped
  obtain ⟨-, -, -, sublist, sized, ⟨-, mutating, -, -, rfl⟩, rfl⟩ := stepped
  have parked := safe.fillable.parked (by simp [mutating])
  have flipped : ∀ contents : SpaceContents, contents.flip.Aligned := by
    intro contents found member
    cases member
  have small : ∀ object ∈ live, IsSmall object.size :=
    fun object member => safe.fillable.objects object (sublist.subset member)
  constructor
  · exact
      { newAligned := flipped _
        oldAligned := by
          dsimp only
          split
          · exact safe.fillable.oldAligned
          · exact flipped _
        mutators := safe.fillable.mutators
        newAllocators := safe.fillable.newAllocators
        oldAllocators := safe.fillable.oldAllocators
        parked := fun _ => parked
        objects := by
          intro object member
          cases member
        unforwarded := by
          dsimp only
          split
          · exact small
          · intro object member
            cases member }
  · intro tracing
    have isMinor : heap.sized.choosesMinor requested = true := by
      simpa [copySpacesStartGc] using tracing
    have room := has isMinor
    simp only [isMinor, if_true]
    let after : NurseryHeap := { heap with
      sized := copySpacesStartGc heap.sized true
      newContents := heap.newContents.flip
      objects := []
      unforwarded := live }
    have newRoom : after.newRoom =
        sureBytes COPY_SPACE_REGION_SIZE * heap.sized.newSpace.blockCount := by
      rw [NurseryHeap.newRoom, roomWith, sum_room_parked parked rfl, FilledSpace.sureRoom]
      show sureBytes COPY_SPACE_REGION_SIZE * heap.sized.newSpace.flip.available + 0 + 0 = _
      rw [available_flip]
      rfl
    have oldRoom : sureBytes COPY_SPACE_REGION_SIZE * heap.sized.resizable.empty.length +
        heap.oldContents.sureRoom ≤ after.oldRoom := by
      rw [NurseryHeap.oldRoom, roomWith, sum_room_parked parked rfl, Nat.add_zero]
      show _ ≤ sureBytes COPY_SPACE_REGION_SIZE * heap.sized.resizable.available +
        heap.oldContents.sureRoom
      exact Nat.add_le_add_right (Nat.mul_le_mul_left _ (Nat.le_add_right _ _)) _
    constructor
    · apply le_trans _ oldRoom
      show heap.newContents.flip.survivorBytes live + (heap.newContents.flip.youngBytes live -
        (after.newRoom - heldBack heap.workers.length)) + heldBack heap.workers.length ≤ _
      rw [newRoom]
      exact room
    · intro worker member promoting
      rw [parked worker member] at promoting
      exact absurd rfl promoting

theorem finishNurseryGc_safe {count : ℕ} (safe : Safe heap)
    (stepped : finishNurseryGc heap count = .next after) : Safe after := by
  simp only [finishNurseryGc, Outcome.bind_eq_next, Outcome.require_eq_next,
    Outcome.mapFailure_eq_next, Outcome.pure_eq_next, Outcome.next.injEq] at stepped
  obtain ⟨-, -, -, parked, sized, resized, rfl⟩ := stepped
  have notMinor : sized.stage ≠ .tracing true := by
    simp only [resizeStep] at resized
    split at resized
    · simp only [Outcome.bind_eq_next, Outcome.pure_eq_next, Outcome.next.injEq] at resized
      obtain ⟨-, -, done, -, rfl⟩ := resized
      simp
    · cases resized
  apply Fillable.safe
  · split
    · have released : Fillable (heap.setNewSpace heap.newSpace.releasePartlyFullBlocks) :=
        safe.fillable.setNewSpace (FilledSpace.releasePartlyFullBlocks_aligned _)
      exact { released with parked := fun _ => parked }
    · exact { safe.fillable with parked := fun _ => parked }
  · exact notMinor

/-- A step of a minor collection that promotes an object it has to promote. -/
theorem promotes_safe {object : SmallObject} {worker : TraceWorker} (safe : Safe heap)
    (tracing : heap.sized.stage = .tracing true) (found : heap.workers[index]? = some worker)
    (member : object ∈ heap.unforwarded)
    (has : heap.newContents.shouldPromote object = true ∨
      heap.newRoom ≤ heldBack heap.workers.length)
    (promoted : promoteObject heap true index worker object.size = .next after) :
    Safe { after with unforwarded := heap.unforwarded.erase object } := by
  have promotes := promoteObject_eq_next safe.fillable tracing found
    (safe.fillable.unforwarded object member) promoted
  constructor
  · rw [← promotes.unforwarded_eq]
    exact promotes.fillable.erase object
  · intro
    exact (safe.promotable tracing).promoted member promotes has

theorem forwardMinor_safe {position : ℕ} (safe : Safe heap)
    (stepped : forwardMinor heap index position = .next after) : Safe after := by
  simp only [forwardMinor, Outcome.require_bind_eq_next] at stepped
  obtain ⟨tracing, stepped⟩ := stepped
  split at stepped
  next worker object found atPosition =>
    have member := List.mem_of_getElem? atPosition
    simp only [Outcome.require_bind_eq_next] at stepped
    obtain ⟨notPromoting, stepped⟩ := stepped
    split at stepped
    next survivor =>
      simp only [Outcome.bind_eq_next, Outcome.pure_eq_next, Outcome.next.injEq] at stepped
      obtain ⟨promoted, stepped, rfl⟩ := stepped
      exact promotes_safe safe tracing found member (.inl survivor) stepped
    next young =>
      cases stepped
      constructor
      · exact keepObject_fillable safe.fillable tracing found
          (safe.fillable.unforwarded object member)
      · intro
        exact keepObject_promotable safe.fillable (safe.promotable tracing) found member
          (Bool.eq_false_of_not_eq_true young) notPromoting
  · cases stepped

theorem promoteMinor_safe (safe : Safe heap)
    (stepped : promoteMinor heap index = .next after) : Safe after := by
  simp only [promoteMinor, Outcome.require_bind_eq_next] at stepped
  obtain ⟨tracing, stepped⟩ := stepped
  split at stepped
  next worker found =>
    have isWorker := List.mem_of_getElem? found
    split at stepped
    · cases stepped
    next object promoting =>
      split at stepped
      next member =>
        simp only [Outcome.bind_eq_next, Outcome.pure_eq_next, Outcome.next.injEq] at stepped
        obtain ⟨promoted, stepped, rfl⟩ := stepped
        have full := (safe.promotable tracing).overflowed worker isWorker (by simp [promoting])
        exact promotes_safe safe tracing found member (.inr full) stepped
      next forwarded =>
        cases stepped
        let after := heap.setWorker index { worker with promoting := none }
        have sameRoom : after.newRoom = heap.newRoom := roomWith_set_same found rfl
        have oldRoom : after.oldRoom = heap.oldRoom := roomWith_set_same found rfl
        have length : after.workers.length = heap.workers.length := List.length_set
        obtain ⟨enough, overflowed⟩ := safe.promotable tracing
        constructor
        · exact safe.fillable.setWorker tracing (safe.fillable.newAllocators worker isWorker)
            (safe.fillable.oldAllocators worker isWorker)
        · intro
          constructor
          · rw [NurseryHeap.demand, sameRoom, oldRoom, length]
            exact enough
          · intro other listed isPromoting
            rw [sameRoom, length]
            have unset : { worker with promoting := none }.promoting = none := rfl
            exact overflowed other (mem_of_mem_setWorker unset listed isPromoting) isPromoting
  · cases stepped

theorem forwardMajor_safe {size : ℕ} (safe : Safe heap)
    (stepped : forwardMajor heap index size = .next after) : Safe after := by
  simp only [forwardMajor, Outcome.require_bind_eq_next] at stepped
  obtain ⟨tracing, small, stepped⟩ := stepped
  split at stepped
  · cases stepped
  next worker found =>
    have promotes := promoteObject_eq_next safe.fillable tracing found small stepped
    apply promotes.fillable.safe
    rw [promotes.stage_eq, tracing]
    simp

/-- The invariant is kept by every permitted step. -/
theorem nurseryStep_safe (safe : Safe heap) (has : action.HasRoom heap)
    (stepped : nurseryStep heap action = .next after) : Safe after := by
  cases action with
  | resize resizing => exact resize_safe safe stepped
  | addMutator =>
      cases stepped
      exact
        { fillable :=
            { safe.fillable with
              mutators := by
                intro allocator member
                rcases List.mem_append.mp member with old | new
                · exact safe.fillable.mutators allocator old
                · rw [List.mem_singleton.mp new]
                  exact .none }
          promotable := fun tracing => { safe.promotable tracing with } }
  | removeMutator index =>
      simp only [nurseryStep, Outcome.require_bind_eq_next, Outcome.pure_eq_next,
        Outcome.next.injEq] at stepped
      obtain ⟨-, rfl⟩ := stepped
      exact
        { fillable :=
            { safe.fillable with
              mutators := fun allocator member =>
                safe.fillable.mutators allocator (List.mem_of_mem_eraseIdx member) }
          promotable := fun tracing => { safe.promotable tracing with } }
  | allocate index size => exact allocateSmall_safe safe stepped
  | finishMutator index => exact finishMutator_safe safe stepped
  | startGc requested live => exact startNurseryGc_safe safe has stepped
  | forward worker index => exact forwardMinor_safe safe stepped
  | promote worker => exact promoteMinor_safe safe stepped
  | forwardMajor worker size => exact forwardMajor_safe safe stepped
  | finishWorker worker => exact finishWorker_safe safe stepped
  | finishGc count => exact finishNurseryGc_safe safe stepped

/-- A promotion that the invariant allows for does not crash. -/
theorem promoteObject_enough {object : SmallObject} {worker : TraceWorker} (safe : Safe heap)
    (tracing : heap.sized.stage = .tracing true) (found : heap.workers[index]? = some worker)
    (member : object ∈ heap.unforwarded)
    (has : heap.newContents.shouldPromote object = true ∨
      heap.newRoom ≤ heldBack heap.workers.length) :
    promoteObject heap true index worker object.size ≠ .failed (.outOfMemory true) := by
  intro failed
  have small := safe.fillable.unforwarded object member
  have exhausted := promoteObject_eq_failed safe.fillable found small failed
  have more := (safe.promotable tracing).not_exhausted member small has
  exact absurd exhausted (Nat.not_le.mpr more)

theorem nurseryStep_enough (safe : Safe heap) :
    nurseryStep heap action ≠ .failed (.outOfMemory true) := by
  intro failed
  cases action with
  | forward index position =>
      simp only [nurseryStep, forwardMinor, Outcome.require_bind_eq_failed] at failed
      obtain ⟨tracing, failed⟩ := failed
      split at failed
      next worker object found atPosition =>
        simp only [Outcome.require_bind_eq_failed] at failed
        obtain ⟨-, failed⟩ := failed
        split at failed
        next survivor =>
          simp only [Outcome.bind_eq_failed, Outcome.pure_eq_next, reduceCtorEq, and_false,
            exists_false, or_false] at failed
          exact promoteObject_enough safe tracing found (List.mem_of_getElem? atPosition)
            (.inl survivor) failed
        · cases failed
      · cases failed
  | promote index =>
      simp only [nurseryStep, promoteMinor, Outcome.require_bind_eq_failed] at failed
      obtain ⟨tracing, failed⟩ := failed
      split at failed
      next worker found =>
        split at failed
        · cases failed
        next object promoting =>
          split at failed
          next member =>
            simp only [Outcome.bind_eq_failed, Outcome.pure_eq_next, reduceCtorEq, and_false,
              exists_false, or_false] at failed
            have full := (safe.promotable tracing).overflowed worker (List.mem_of_getElem? found)
              (by simp [promoting])
            exact promoteObject_enough safe tracing found member (.inr full) failed
          · cases failed
      · cases failed
  | forwardMajor index size =>
      simp only [nurseryStep, forwardMajor, Outcome.require_bind_eq_failed] at failed
      obtain ⟨-, -, failed⟩ := failed
      split at failed
      · cases failed
      · unfold promoteObject at failed
        dsimp only at failed
        split at failed
        · cases failed
        · cases failed
  | resize resizing =>
      simp only [nurseryStep, Outcome.bind_eq_failed, Outcome.require_ne_failed,
        Outcome.mapFailure_eq_failed, Outcome.pure_eq_next, reduceCtorEq, and_false, exists_false,
        or_false] at failed
  | startGc requested live =>
      simp only [nurseryStep, startNurseryGc, Outcome.bind_eq_failed, Outcome.require_ne_failed,
        Outcome.mapFailure_eq_failed, Outcome.pure_eq_next, reduceCtorEq, and_false, exists_false,
        or_false] at failed
  | finishGc count =>
      simp only [nurseryStep, finishNurseryGc, Outcome.bind_eq_failed, Outcome.require_ne_failed,
        Outcome.mapFailure_eq_failed, Outcome.pure_eq_next, reduceCtorEq, and_false, exists_false,
        or_false] at failed
  | allocate index size =>
      simp only [nurseryStep, allocateSmall, Outcome.require_bind_eq_failed] at failed
      obtain ⟨-, -, failed⟩ := failed
      split at failed
      · cases failed
      · split at failed
        · cases failed
        · cases failed
  | finishMutator index =>
      simp only [nurseryStep, finishMutator, Outcome.require_bind_eq_failed] at failed
      obtain ⟨-, failed⟩ := failed
      split at failed
      · cases failed
      · cases failed
  | finishWorker index =>
      simp only [nurseryStep, finishWorker] at failed
      split at failed
      · simp at failed
      · cases failed
  | addMutator => cases failed
  | removeMutator index => simp [nurseryStep] at failed

end Steps

/-! ## Whole runs -/

theorem initialNurseryHeap_safe (options : SizedOptions) (workerCount : ℕ) :
    Safe (initialNurseryHeap options workerCount) := by
  have parked : ∀ worker ∈ List.replicate workerCount TraceWorker.parked, worker = .parked :=
    fun worker member => List.eq_of_mem_replicate member
  apply Fillable.safe
  · exact
      { newAligned := by
          intro found member
          cases member
        oldAligned := by
          intro found member
          cases member
        mutators := by
          intro allocator member
          cases member
        newAllocators := by
          intro worker member
          rw [parked worker member]
          exact .none
        oldAllocators := by
          intro worker member
          rw [parked worker member]
          exact .none
        parked := fun _ => parked
        objects := by
          intro object member
          cases member
        unforwarded := by
          intro object member
          cases member }
  · simp [initialNurseryHeap, initialSizedHeap]

/-- No step of a minor collection runs out of memory. -/
def NeverRunsOut (heap : NurseryHeap) : Prop :=
  ∀ action, nurseryStep heap action ≠ .failed (.outOfMemory true)

/-- In every run whose minor collections all start with room to promote, none runs out of
memory. -/
theorem minor_collection_never_runs_out (heap : NurseryHeap)
    (reached : nurserySystem.ReachableBy (fun heap action => action.HasRoom heap) heap) :
    NeverRunsOut heap := by
  have safe : Safe heap := by
    apply reached.invariant
    · rintro start ⟨options, workerCount, -, -, -, -, -, rfl⟩
      exact initialNurseryHeap_safe options workerCount
    · intro before action after safe has stepped
      exact nurseryStep_safe safe has stepped
  exact fun _ => nurseryStep_enough safe

/-! ## A nursery that outgrows its nominal size -/

section Runs

/-- A heap of 5.125 MiB with a nursery of 2 MiB, for one processor. -/
private def nurseryOptions : SizedOptions :=
  { generational := true, fixedSize := true, size := 5373952, pageSize := 4096,
    perProcessorNurserySize := 2097152, processorCount := 1, newBase := 2 ^ 30, base := 2 ^ 26 }

/-- The mutator allocates objects of the given sizes and gives up its block. -/
private def allocateAll (sizes : List ℕ) : List (NurseryHeap → NurseryAction) :=
  sizes.map (fun size _ => .allocate 0 size) ++ [fun _ => .finishMutator 0]

/-- A minor collection starts with every object live. -/
private def startWithAll (heap : NurseryHeap) : NurseryAction := .startGc .minor heap.objects

/-- The worker forwards an object of the given size. -/
private def forwardOne (worker size : ℕ) (heap : NurseryHeap) : NurseryAction :=
  .forward worker (heap.unforwarded.findIdx fun object => object.size == size)

/-- Seven workers forward a small object each, and the other one fills `blocks` blocks with seven
large objects and a small one. -/
private def forwardWastefully (blocks : ℕ) : List (NurseryHeap → NurseryAction) :=
  (List.range 7).map (fun other => forwardOne (other + 1) 8) ++
    (List.replicate blocks (List.replicate 7 (forwardOne 0 8192) ++ [forwardOne 0 8])).flatten

/-- The rest of a minor collection, with the sizes as they are. -/
private def finishAll (workerCount : ℕ) : List (NurseryHeap → NurseryAction) :=
  (List.range workerCount).map (fun worker _ => .finishWorker worker) ++
    [fun _ => .finishGc 1, fun _ => .resize (.resetLargeObjectPages 0),
      fun heap => .resize (.sizerOnGc heap.sized.size 0), fun _ => .resize (.resolve 0)]

/-- Eight large objects to a block, then seven to a block with `small` small ones. -/
private def mixedSizes (full mixed small : ℕ) : List ℕ :=
  List.replicate (8 * full) 8192 ++
    (List.replicate mixed (List.replicate 7 8192 ++ List.replicate small 8)).flatten

private theorem initialNurseryHeap_reached (allowed : NurseryHeap → NurseryAction → Prop)
    (workerCount : ℕ) (positive : 0 < workerCount)
    (atMost : workerCount ≤ TRACE_WORKERS_MAX_COUNT) :
    nurserySystem.ReachableBy allowed (initialNurseryHeap nurseryOptions workerCount) :=
  .initial ⟨nurseryOptions, workerCount, rfl, by decide, by decide, positive, atMost, rfl⟩

/-- Two objects survive a collection, and the next one has yet to promote the second. -/
theorem minor_collection_never_runs_out_twice :
    ∃ heap : NurseryHeap, heap.sized.stage = .tracing true ∧ heap.unforwarded.length = 1 ∧
      NeverRunsOut heap := by
  have ran : (System.runBy (fun heap choose => nurseryStep heap (choose heap))
      (fun heap choose => (choose heap).HasRoom heap) (initialNurseryHeap nurseryOptions 2)
      ([fun _ => .addMutator] ++ allocateAll [8, 8] ++
        [startWithAll, forwardOne 0 8, forwardOne 1 8] ++ finishAll 2 ++
        [startWithAll, forwardOne 1 8])).leadsTo
      (fun heap => heap.sized.stage = .tracing true ∧ heap.unforwarded.length = 1) = true := by
    decide +kernel
  obtain ⟨heap, ran, facts⟩ := Outcome.exists_next_of_leadsTo ran
  obtain ⟨tracing, one⟩ := of_decide_eq_true facts
  have start := initialNurseryHeap_reached (fun heap action => action.HasRoom heap) 2 (by decide)
    (by decide)
  have reached := start.of_runChoosing nurserySystem (fun heap action => action.HasRoom heap)
    (fun _ _ => id) _ ran
  exact ⟨heap, tracing, one, minor_collection_never_runs_out heap reached⟩

/-- The copies of the first collection take nine blocks that were paged out, and they stay. So the
nursery then has room for more than what fits in the 32 empty blocks of the old space, although its
nominal size has not changed. -/
theorem minor_collection_never_runs_out_fails :
    ¬∀ heap, nurserySystem.Reachable heap → NeverRunsOut heap := by
  intro holds
  have ran : (System.runBy (fun heap choose => nurseryStep heap (choose heap)) (fun _ _ => True)
      (initialNurseryHeap nurseryOptions 8)
      ([fun _ => .addMutator] ++ allocateAll (mixedSizes 8 7 4) ++ [startWithAll] ++
        forwardWastefully 16 ++ [forwardOne 0 8192] ++ List.replicate 5 (forwardOne 0 8) ++
        finishAll 8 ++ [fun _ => .startGc .minor []] ++ finishAll 8 ++
        allocateAll (mixedSizes 8 16 2) ++ [startWithAll] ++
        List.replicate 208 (fun _ => .forward 0 0) ++ finishAll 8 ++ [startWithAll] ++
        forwardWastefully 25)).leadsTo
      (fun heap => (nurseryStep heap (forwardOne 0 8192 heap)).failsWith (.outOfMemory true)) =
        true := by
    decide +kernel
  obtain ⟨heap, ran, fails⟩ := Outcome.exists_next_of_leadsTo ran
  have start := initialNurseryHeap_reached (fun _ _ => True) 8 (by decide) (by decide)
  have reached := start.of_runChoosing nurserySystem (fun _ _ => True) (fun _ _ => id) _ ran
  exact holds heap reached (forwardOne 0 8192 heap) (Outcome.eq_failed_of_failsWith fails)

end Runs

end Whippet.Pcc
