import Whippet.Library.Histories
import Whippet.Lospace.Counters

/-!
The allocation counter of a heap (`gc_allocation_counter`).

A collection adds what was allocated since the last one to a total, and resets the counters of both
spaces in the end. In between, the counter is the total with what the spaces have counted since. It
is read with the lock of the heap, so never during a collection.

Owns: the order in which a collection adds to the total and resets the counters, and that the
counter is the number of bytes that were allocated. Does not own: how the two spaces count.
-/

namespace Whippet.Counting

open Lospace Tables

/-- A space of small objects, as far as the allocation counter is concerned. -/
structure SmallSpace (Space Action : Type) where
  initial : Space → Prop
  step : Space → Action → Outcome Empty Space
  /-- Whether an action belongs to a collection, and whether it ends one. -/
  isCollection : Action → Bool
  endsCollection : Action → Bool
  addToAllocationCounter : Space → Word → Word
  bytesSinceLastCollection : Space → ℕ

/-- A heap with the bytes that were allocated in it since its creation: those that the space of
small objects has counted, and the pages of large objects. -/
structure CountedHeap (Space : Type) where
  space : Space
  lospace : LospaceState
  totalAllocatedBytesAtLastGc : Word
  bytes : ℕ

inductive CounterAction (Action : Type) where
  | small (action : Action)
  | large (action : LospaceAction)
  /-- `collect` from the stop of the mutators to `large_object_space_start_gc`. -/
  | startCollection (isMinorGc : Bool)
  /-- The end of the collection in the space of small objects, then in the large object space. -/
  | finishCollection (action : Action) (memory : ℕ → Bool)

/-- The actions on large objects outside of the start and the end of a collection. Only objects
above the large object threshold are large. -/
def IsOnLargeObjects : LospaceAction → Prop
  | .startGc _ | .finishGc _ => False
  | .alloc bytes _ _ => 0 < bytes.toNat
  | _ => True

instance : (action : LospaceAction) → Decidable (IsOnLargeObjects action)
  | .startGc _ | .finishGc _ => .isFalse id
  | .alloc bytes _ _ => inferInstanceAs (Decidable (0 < bytes.toNat))
  | .treeLookup _ | .mark _ | .processQuarantine _ => .isTrue trivial

/-- The bytes of the pages that an action asks for. -/
def requestedBytes (config : Config) : LospaceAction → ℕ
  | .alloc bytes _ _ => config.roundUp bytes.toNat
  | _ => 0

namespace SmallSpace

variable {Space Action : Type} (small : SmallSpace Space Action) (config : Config)
variable (heap : CountedHeap Space)

/-- `gc_allocation_counter`. -/
def gcAllocationCounter : Word :=
  heap.lospace.space.addToAllocationCounter config
    (small.addToAllocationCounter heap.space heap.totalAllocatedBytesAtLastGc)

def counterStep : CounterAction Action → Outcome LospaceFailure (CountedHeap Space)
  | .small action => do
      Outcome.require (small.endsCollection action = false ∧
        (small.isCollection action = true → heap.lospace.collecting ≠ none))
      let space ← (small.step heap.space action).mapFailure Empty.elim
      let grown := small.bytesSinceLastCollection space -
        small.bytesSinceLastCollection heap.space
      pure { heap with
        space := space
        bytes := if heap.lospace.collecting = none then heap.bytes + grown else heap.bytes }
  | .large action => do
      Outcome.require (IsOnLargeObjects action)
      let lospace ← heap.lospace.step config action
      pure { heap with
        lospace := lospace
        bytes := heap.bytes + requestedBytes config action }
  | .startCollection isMinorGc => do
      let lospace ← heap.lospace.step config (.startGc isMinorGc)
      pure { heap with
        lospace := lospace
        totalAllocatedBytesAtLastGc := small.gcAllocationCounter config heap }
  | .finishCollection action memory => do
      Outcome.require (small.endsCollection action = true)
      let space ← (small.step heap.space action).mapFailure Empty.elim
      let lospace ← heap.lospace.step config (.finishGc memory)
      pure { heap with space := space, lospace := lospace }

/-- A new heap has allocated nothing. -/
def counterSystem : System (CountedHeap Space) (CounterAction Action) LospaceFailure :=
  { initial := fun heap => small.initial heap.space ∧ (lospaceSystem config).initial heap.lospace ∧
      heap.totalAllocatedBytesAtLastGc = 0 ∧ heap.bytes = 0
    step := small.counterStep config }

/-- What the space of small objects owes the counter: between collections its count only grows, and
the end of a collection resets it. -/
structure Counts (sound idle : Space → Prop) : Prop where
  initially : ∀ space, small.initial space →
    sound space ∧ idle space ∧ small.bytesSinceLastCollection space = 0
  keeps : ∀ space action after, sound space → small.step space action = .next after → sound after
  grows : ∀ space action after, sound space → idle space → small.isCollection action = false →
    small.step space action = .next after →
      idle after ∧ small.bytesSinceLastCollection space ≤ small.bytesSinceLastCollection after
  ends : ∀ space action after, small.endsCollection action = true →
    small.step space action = .next after →
      idle after ∧ small.bytesSinceLastCollection after = 0
  adds : ∀ space counter, idle space → small.addToAllocationCounter space counter =
    counter + BitVec.ofNat 64 (small.bytesSinceLastCollection space)

/-! ## The counter of a heap -/

/-- The total and what the spaces have counted since are the bytes that were allocated. During a
collection the total is. -/
structure Exact (sound idle : Space → Prop) (heap : CountedHeap Space) : Prop where
  sound : sound heap.space
  counted : LospaceState.Counted config heap.lospace
  pages : heap.lospace.space.totalPages.toNat * config.pageSize ≤ heap.bytes
  idle : heap.lospace.collecting = none → idle heap.space
  mutating : heap.lospace.collecting = none →
    heap.totalAllocatedBytesAtLastGc +
        BitVec.ofNat 64 (small.bytesSinceLastCollection heap.space) +
        BitVec.ofNat 64 (heap.lospace.space.pagesSinceLastCollection * config.pageSize) =
      BitVec.ofNat 64 heap.bytes
  collecting : heap.lospace.collecting ≠ none →
    heap.totalAllocatedBytesAtLastGc = BitVec.ofNat 64 heap.bytes

end SmallSpace

section Steps

variable {Space Action : Type} {small : SmallSpace Space Action} {config : Config}
variable {sound idle : Space → Prop} {before after heap : CountedHeap Space}
variable {action : CounterAction Action}

open SmallSpace

theorem gcAllocationCounter_eq (counts : small.Counts sound idle)
    (exact : small.Exact config sound idle heap)
    (mutating : heap.lospace.collecting = none) :
    small.gcAllocationCounter config heap = BitVec.ofNat 64 heap.bytes := by
  rw [gcAllocationCounter, heap.lospace.space.addToAllocationCounter_eq _
    (exact.counted.fits mutating), counts.adds _ _ (exact.idle mutating)]
  exact exact.mutating mutating

/-! ## What a step does -/

theorem counterStep_small {action : Action}
    (stepped : small.counterStep config before (.small action) = .next after) :
    (small.isCollection action = true → before.lospace.collecting ≠ none) ∧
      ∃ space, small.step before.space action = .next space ∧
        after = { before with
          space := space
          bytes := if before.lospace.collecting = none then
            before.bytes + (small.bytesSinceLastCollection space -
              small.bytesSinceLastCollection before.space) else before.bytes } := by
  simp only [counterStep, Outcome.require_eq_next, Outcome.bind_eq_next,
    Outcome.mapFailure_eq_next, Outcome.pure_eq_next, Outcome.next.injEq] at stepped
  obtain ⟨_, ⟨-, allowed⟩, space, spaceStep, rfl⟩ := stepped
  exact ⟨allowed, space, spaceStep, rfl⟩

theorem counterStep_large {action : LospaceAction}
    (stepped : small.counterStep config before (.large action) = .next after) :
    IsOnLargeObjects action ∧ ∃ lospace, before.lospace.step config action = .next lospace ∧
      after = { before with
        lospace := lospace
        bytes := before.bytes + requestedBytes config action } := by
  simp only [counterStep, Outcome.require_eq_next, Outcome.bind_eq_next, Outcome.pure_eq_next,
    Outcome.next.injEq] at stepped
  obtain ⟨_, allowed, lospace, lospaceStep, rfl⟩ := stepped
  exact ⟨allowed, lospace, lospaceStep, rfl⟩

theorem counterStep_startCollection {isMinorGc : Bool}
    (stepped : small.counterStep config before (.startCollection isMinorGc) = .next after) :
    ∃ lospace, before.lospace.step config (.startGc isMinorGc) = .next lospace ∧
      after = { before with
        lospace := lospace
        totalAllocatedBytesAtLastGc := small.gcAllocationCounter config before } := by
  simp only [counterStep, Outcome.bind_eq_next, Outcome.pure_eq_next, Outcome.next.injEq]
    at stepped
  obtain ⟨lospace, lospaceStep, rfl⟩ := stepped
  exact ⟨lospace, lospaceStep, rfl⟩

theorem counterStep_finishCollection {action : Action} {memory : ℕ → Bool}
    (stepped : small.counterStep config before (.finishCollection action memory) = .next after) :
    small.endsCollection action = true ∧
      ∃ space lospace, small.step before.space action = .next space ∧
        before.lospace.step config (.finishGc memory) = .next lospace ∧
          after = { before with space := space, lospace := lospace } := by
  simp only [counterStep, Outcome.require_eq_next, Outcome.bind_eq_next,
    Outcome.mapFailure_eq_next, Outcome.pure_eq_next, Outcome.next.injEq] at stepped
  obtain ⟨_, ends, space, spaceStep, lospace, lospaceStep, rfl⟩ := stepped
  exact ⟨ends, space, lospace, spaceStep, lospaceStep, rfl⟩

theorem bytes_le_of_step (stepped : small.counterStep config before action = .next after) :
    before.bytes ≤ after.bytes := by
  cases action with
  | small action =>
      obtain ⟨-, space, -, rfl⟩ := counterStep_small stepped
      dsimp only
      split
      · exact Nat.le_add_right _ _
      · exact le_rfl
  | large action =>
      obtain ⟨-, lospace, -, rfl⟩ := counterStep_large stepped
      exact Nat.le_add_right _ _
  | startCollection isMinorGc =>
      obtain ⟨lospace, -, rfl⟩ := counterStep_startCollection stepped
      exact le_rfl
  | finishCollection action memory =>
      obtain ⟨-, space, lospace, -, -, rfl⟩ := counterStep_finishCollection stepped
      exact le_rfl

/-! ## Exactness of a step -/

theorem exact_small {action : Action} (counts : small.Counts sound idle)
    (exact : small.Exact config sound idle before)
    (stepped : small.counterStep config before (.small action) = .next after) :
    small.Exact config sound idle after := by
  obtain ⟨allowed, space, spaceStep, rfl⟩ := counterStep_small stepped
  refine ⟨counts.keeps _ _ _ exact.sound spaceStep, exact.counted, ?_, ?_, ?_, ?_⟩
  · exact exact.pages.trans (bytes_le_of_step stepped)
  · intro mutating
    have notCollection : small.isCollection action = false := by
      rw [Bool.eq_false_iff]
      exact fun isCollection => allowed isCollection mutating
    exact (counts.grows _ _ _ exact.sound (exact.idle mutating) notCollection spaceStep).1
  · intro mutating
    have notCollection : small.isCollection action = false := by
      rw [Bool.eq_false_iff]
      exact fun isCollection => allowed isCollection mutating
    have grown := (counts.grows _ _ _ exact.sound (exact.idle mutating) notCollection spaceStep).2
    have split : small.bytesSinceLastCollection space =
        small.bytesSinceLastCollection before.space + (small.bytesSinceLastCollection space -
          small.bytesSinceLastCollection before.space) := by omega
    dsimp only at mutating ⊢
    rw [if_pos mutating, BitVec.ofNat_add, ← exact.mutating mutating, split, BitVec.ofNat_add,
      Nat.add_sub_cancel_left]
    ring
  · intro collecting
    dsimp only at collecting ⊢
    rw [if_neg collecting]
    exact exact.collecting collecting

/-- A request whose pages can be counted is within the range of the page counters. -/
theorem room_of_within {bytes : Word} {trace : TraceKind} {environment : Environment}
    (exact : small.Exact config sound idle before) (positive : 0 < bytes.toNat)
    (within : before.bytes + config.roundUp bytes.toNat < 2 ^ 64) :
    Roundable config bytes ∧
      largeObjectSpaceNpages config bytes * config.pageSize = config.roundUp bytes.toNat ∧
      before.lospace.space.totalPages.toNat +
        (LospaceAction.alloc bytes trace environment).pages config < 2 ^ 64 := by
  obtain ⟨roundable, pages⟩ := LospaceState.npages_of_roundUp_lt positive
    ((Nat.le_add_left _ _).trans_lt within)
  refine ⟨roundable, pages, ?_⟩
  have counted := exact.pages
  have pagePositive := LargeObjectSpace.pageSize_pos config
  calc before.lospace.space.totalPages.toNat + largeObjectSpaceNpages config bytes
      ≤ (before.lospace.space.totalPages.toNat + largeObjectSpaceNpages config bytes) *
          config.pageSize := Nat.le_mul_of_pos_right _ pagePositive
    _ ≤ before.bytes + config.roundUp bytes.toNat := by
        rw [Nat.add_mul, pages]
        exact Nat.add_le_add_right counted _
    _ < 2 ^ 64 := within

/-- An action on large objects is one that the large object space can serve and count. -/
theorem servable_of_within {action : LospaceAction} (exact : small.Exact config sound idle before)
    (allowed : IsOnLargeObjects action)
    (within : before.bytes + requestedBytes config action < 2 ^ 64) :
    action.IsServable config before.lospace ∧
      before.lospace.space.totalPages.toNat + action.pages config < 2 ^ 64 ∧
      action.pages config * config.pageSize = requestedBytes config action := by
  cases action with
  | alloc bytes trace environment =>
      obtain ⟨roundable, pages, room⟩ := room_of_within exact allowed within
      exact ⟨.inr roundable, room, pages⟩
  | treeLookup _ | mark _ | processQuarantine _ =>
      exact ⟨trivial, before.lospace.space.totalPages.isLt, Nat.zero_mul _⟩
  | startGc _ | finishGc _ => exact allowed.elim

theorem collecting_eq_of_step {action : LospaceAction} {lospace : LospaceState}
    (allowed : IsOnLargeObjects action)
    (stepped : before.lospace.step config action = .next lospace) :
    lospace.collecting = before.lospace.collecting := by
  cases action with
  | alloc bytes trace environment =>
      simp only [LospaceState.step, Outcome.require_eq_next, Outcome.bind_eq_next,
        Outcome.pure_eq_next, Outcome.next.injEq] at stepped
      obtain ⟨_, -, ⟨space, node, reused⟩, -, rfl⟩ := stepped
      rfl
  | treeLookup addr =>
      obtain rfl := Outcome.next.inj stepped
      rfl
  | mark ref =>
      simp only [LospaceState.step, Outcome.require_eq_next, Outcome.bind_eq_next,
        Outcome.pure_eq_next, Outcome.next.injEq] at stepped
      obtain ⟨_, -, space, -, rfl⟩ := stepped
      rfl
  | processQuarantine memory =>
      simp only [LospaceState.step, Outcome.require_eq_next, Outcome.bind_eq_next,
        Outcome.pure_eq_next, Outcome.next.injEq] at stepped
      obtain ⟨_, -, space, -, rfl⟩ := stepped
      rfl
  | startGc _ | finishGc _ => exact allowed.elim

theorem exact_large {action : LospaceAction} (exact : small.Exact config sound idle before)
    (within : after.bytes < 2 ^ 64)
    (stepped : small.counterStep config before (.large action) = .next after) :
    small.Exact config sound idle after := by
  obtain ⟨allowed, lospace, lospaceStep, rfl⟩ := counterStep_large stepped
  obtain ⟨servable, room, pages⟩ := servable_of_within exact allowed within
  obtain ⟨counted, counts⟩ :=
    LospaceState.counted_of_step exact.counted servable room lospaceStep
  have same := collecting_eq_of_step allowed lospaceStep
  refine ⟨exact.sound, counted, ?_, ?_, ?_, ?_⟩
  · have total := Nat.mul_le_mul_right config.pageSize counts.total
    rw [Nat.add_mul, pages] at total
    exact total.trans (Nat.add_le_add_right exact.pages _)
  · intro mutating
    exact exact.idle (same ▸ mutating)
  · intro mutating
    have wasMutating : before.lospace.collecting = none := same ▸ mutating
    dsimp only
    rw [counts.allocated wasMutating mutating, Nat.add_mul, pages, BitVec.ofNat_add,
      BitVec.ofNat_add, ← exact.mutating wasMutating]
    ring
  · intro collecting
    have wasCollecting : before.lospace.collecting ≠ none := same ▸ collecting
    have nothing : requestedBytes config action = 0 := by
      cases action with
      | alloc bytes trace environment =>
          simp only [LospaceState.step, Outcome.require_eq_next, Outcome.bind_eq_next]
            at lospaceStep
          obtain ⟨_, notCollecting, -⟩ := lospaceStep
          exact absurd notCollecting wasCollecting
      | _ => rfl
    dsimp only
    rw [nothing]
    exact exact.collecting wasCollecting

theorem exact_startCollection {isMinorGc : Bool} (counts : small.Counts sound idle)
    (exact : small.Exact config sound idle before)
    (stepped : small.counterStep config before (.startCollection isMinorGc) = .next after) :
    small.Exact config sound idle after := by
  obtain ⟨lospace, lospaceStep, rfl⟩ := counterStep_startCollection stepped
  have servable : (LospaceAction.startGc isMinorGc).IsServable config before.lospace := trivial
  obtain ⟨counted, changes⟩ := LospaceState.counted_of_step exact.counted servable
    before.lospace.space.totalPages.isLt lospaceStep
  simp only [LospaceState.step, Outcome.require_eq_next, Outcome.bind_eq_next,
    Outcome.pure_eq_next, Outcome.next.injEq] at lospaceStep
  obtain ⟨_, wasMutating, rfl⟩ := lospaceStep
  refine ⟨exact.sound, counted, ?_, ?_, ?_, ?_⟩
  · exact (Nat.mul_le_mul_right _ changes.total).trans exact.pages
  · intro mutating
    cases mutating
  · intro mutating
    cases mutating
  · intro _
    exact gcAllocationCounter_eq counts exact wasMutating

theorem collecting_of_finishGc {lospace : LospaceState} {memory : ℕ → Bool}
    (stepped : before.lospace.step config (.finishGc memory) = .next lospace) :
    before.lospace.collecting ≠ none ∧ lospace.collecting = none := by
  rw [LospaceState.step] at stepped
  split at stepped
  next => cases stepped
  next isMinorGc wasCollecting =>
    simp only [Outcome.bind_eq_next, Outcome.pure_eq_next, Outcome.next.injEq] at stepped
    obtain ⟨finished, -, released, -, rfl⟩ := stepped
    exact ⟨by simp [wasCollecting], rfl⟩

theorem exact_finishCollection {action : Action} {memory : ℕ → Bool}
    (counts : small.Counts sound idle) (exact : small.Exact config sound idle before)
    (stepped : small.counterStep config before (.finishCollection action memory) = .next after) :
    small.Exact config sound idle after := by
  obtain ⟨ends, space, lospace, spaceStep, lospaceStep, rfl⟩ :=
    counterStep_finishCollection stepped
  have servable : (LospaceAction.finishGc memory).IsServable config before.lospace := trivial
  obtain ⟨counted, changes⟩ := LospaceState.counted_of_step exact.counted servable
    before.lospace.space.totalPages.isLt lospaceStep
  obtain ⟨isIdle, reset⟩ := counts.ends _ _ _ ends spaceStep
  obtain ⟨collecting, mutating⟩ := collecting_of_finishGc lospaceStep
  refine ⟨counts.keeps _ _ _ exact.sound spaceStep, counted, ?_, fun _ => isIdle, ?_,
    fun isCollecting => absurd mutating isCollecting⟩
  · exact (Nat.mul_le_mul_right _ changes.total).trans exact.pages
  · intro _
    dsimp only
    rw [reset, changes.finished collecting mutating, Nat.zero_mul, exact.collecting collecting]
    simp

/-- As long as fewer than `2 ^ 64` bytes were allocated, every step counts exactly. -/
theorem exact_of_step (counts : small.Counts sound idle)
    (exact : small.Exact config sound idle before) (within : after.bytes < 2 ^ 64)
    (stepped : small.counterStep config before action = .next after) :
    small.Exact config sound idle after := by
  cases action with
  | small action => exact exact_small counts exact stepped
  | large action => exact exact_large exact within stepped
  | startCollection isMinorGc => exact exact_startCollection counts exact stepped
  | finishCollection action memory => exact exact_finishCollection counts exact stepped

theorem exact_initial (counts : small.Counts sound idle)
    (initial : (small.counterSystem config).initial heap) : small.Exact config sound idle heap := by
  obtain ⟨space, lospace, noTotal, noBytes⟩ := initial
  obtain ⟨isSound, isIdle, none⟩ := counts.initially _ space
  have counted := LospaceState.counted_initial lospace
  obtain ⟨memory, created, mutating, -⟩ := lospace
  simp only [largeObjectSpaceInit, Outcome.bind_eq_next, Outcome.pure_eq_next,
    Outcome.next.injEq] at created
  obtain ⟨objectMap, -, nursery, -, created⟩ := created
  have noPages : heap.lospace.space.totalPages.toNat = 0 := by
    rw [← created]
    rfl
  refine ⟨isSound, counted, ?_, fun _ => isIdle, ?_, fun collecting => absurd mutating collecting⟩
  · rw [noPages, Nat.zero_mul]
    exact Nat.zero_le _
  · intro _
    rw [noTotal, none, noBytes, LargeObjectSpace.pagesSinceLastCollection, noPages]
    simp

/-! ## Runs -/

theorem exact_of_reachable (counts : small.Counts sound idle)
    (reached : (small.counterSystem config).Reachable heap) (within : heap.bytes < 2 ^ 64) :
    small.Exact config sound idle heap := by
  have invariant : heap.bytes < 2 ^ 64 → small.Exact config sound idle heap := by
    apply reached.invariant
    · intro heap initial _
      exact exact_initial counts initial
    · intro before action after exact _ stepped within
      exact exact_of_step counts (exact ((bytes_le_of_step stepped).trans_lt within)) within stepped
  exact invariant within

theorem bytes_le_of_follows
    (follows : (small.counterSystem config).Follows (fun _ _ => True) before after) :
    before.bytes ≤ after.bytes := by
  induction follows with
  | refl => exact le_rfl
  | tail _ step inductionHypothesis =>
      obtain ⟨action, -, stepped⟩ := step
      exact inductionHypothesis.trans (bytes_le_of_step stepped)

theorem reachable_of_follows (reached : (small.counterSystem config).Reachable before)
    (follows : (small.counterSystem config).Follows (fun _ _ => True) before after) :
    (small.counterSystem config).Reachable after := by
  induction follows with
  | refl => exact reached
  | tail _ step inductionHypothesis =>
      obtain ⟨action, allowed, stepped⟩ := step
      exact .step inductionHypothesis allowed stepped

/-- Between collections the counter is the number of bytes that were allocated. -/
theorem counter_of_reachable (counts : small.Counts sound idle)
    (reached : (small.counterSystem config).Reachable heap) (within : heap.bytes < 2 ^ 64)
    (mutating : heap.lospace.collecting = none) :
    (small.gcAllocationCounter config heap).toNat = heap.bytes := by
  rw [gcAllocationCounter_eq counts (exact_of_reachable counts reached within) mutating,
    BitVec.toNat_ofNat, Nat.mod_eq_of_lt within]

theorem counter_le_of_follows (counts : small.Counts sound idle)
    (reached : (small.counterSystem config).Reachable before)
    (follows : (small.counterSystem config).Follows (fun _ _ => True) before after)
    (mutating : before.lospace.collecting = none) (afterMutating : after.lospace.collecting = none)
    (within : after.bytes < 2 ^ 64) :
    small.gcAllocationCounter config before ≤ small.gcAllocationCounter config after := by
  have ordered := bytes_le_of_follows follows
  rw [BitVec.le_def, counter_of_reachable counts reached (ordered.trans_lt within) mutating,
    counter_of_reachable counts (reachable_of_follows reached follows) within afterMutating]
  exact ordered

end Steps

end Whippet.Counting
