import Whippet.Library.Population
import Whippet.Pcc.CopySpaceBudget
import Whippet.Pcc.LargeAllocation

/-!
The memory of pcc with the fixed heap-size policy.

The active blocks of the resizable space, the pages of large objects and the requests for more of
them make up the size of the heap and the debt: every operation moves bytes between these, and none
makes any.

Owns: the requests under way, the balance, and that every action keeps it. Does not own: when the
debt is paid.
-/

namespace Whippet.Pcc

open Function

/-! ## The balance -/

/-- The pages that a request under way has added to the debt. -/
def LargePhase.pages : LargePhase → ℕ
  | .requested npages | .pagingOut npages _ | .short npages | .triggering npages
  | .refused npages | .granted npages => npages
  | .idle | .reacquiring _ | .failing => 0

/-- The pages of all requests under way. -/
noncomputable def LargeState.requestedPages (state : LargeState) : ℕ :=
  total state.large LargePhase.pages

/-- The bytes of the active blocks, the large objects and the requests under way. -/
noncomputable def LargeState.CommittedBytes (state : LargeState) : ℤ :=
  (state.space.activeCount * COPY_SPACE_BLOCK_SIZE +
    (state.largeObjectPages + state.requestedPages) * state.pageSize : ℕ)

/-- What is committed beyond the blocks of the beginning is the debt. -/
structure Balanced (start state : LargeState) : Prop where
  finite : (weighing state.large LargePhase.pages).Finite
  balance : state.CommittedBytes = start.space.activeCount * COPY_SPACE_BLOCK_SIZE +
    state.space.bytesToPageOut

section Balance

variable {start before after : LargeState} {mutator : Mutator} {phase : LargePhase}

/-- An action of one mutator that changes the value of the space by as much as its pages. -/
theorem Balanced.step (balanced : Balanced start before) (mutator : Mutator) (phase : LargePhase)
    (large : after.large = update before.large mutator phase)
    (pageSize : after.pageSize = before.pageSize)
    (value : after.space.value + ((after.largeObjectPages + phase.pages) * before.pageSize : ℕ) =
      before.space.value +
        ((before.largeObjectPages + (before.large mutator).pages) * before.pageSize : ℕ)) :
    Balanced start after := by
  have finite := balanced.finite
  refine ⟨by rw [weighing, large]; exact finite_members_update finite, ?_⟩
  have totals : after.requestedPages + (before.large mutator).pages =
      before.requestedPages + phase.pages := by
    rw [LargeState.requestedPages, large]
    exact total_update finite mutator phase
  have bytes := congrArg (· * before.pageSize) totals
  have balance := balanced.balance
  simp only [LargeState.CommittedBytes, CopySpace.value, Nat.add_mul, pageSize] at *
  push_cast at *
  omega

/-- An action that changes neither the requests nor the value of the space. -/
theorem Balanced.stay (balanced : Balanced start before) (large : after.large = before.large)
    (pageSize : after.pageSize = before.pageSize)
    (pages : after.largeObjectPages = before.largeObjectPages)
    (value : after.space.value = before.space.value) : Balanced start after := by
  have same : after.large = update before.large 0 (before.large 0) := by rw [large, update_eq_self]
  refine balanced.step 0 _ same pageSize ?_
  rw [pages, value]

/-- An action of one mutator that leaves its pages as they are. -/
theorem Balanced.move (balanced : Balanced start before)
    (large : after.large = update before.large mutator phase)
    (same : phase.pages = (before.large mutator).pages)
    (pageSize : after.pageSize = before.pageSize)
    (pages : after.largeObjectPages = before.largeObjectPages)
    (value : after.space.value = before.space.value) : Balanced start after := by
  refine balanced.step mutator phase large pageSize ?_
  rw [pages, value, same]

@[simp] theorem pages_returnedFromPause (was now : Phase) (large : LargePhase) :
    (returnedFromPause was now large).pages = large.pages := by
  unfold returnedFromPause
  split
  · split <;> rfl
  · rfl

@[simp] theorem pages_returnedFromCollect (success : Bool) (large : LargePhase) :
    (returnedFromCollect success large).pages = large.pages := by
  cases large <;> cases success <;> rfl

theorem initialLargeState_balanced (generational : Bool) (size base pageSize : ℕ) :
    Balanced (initialLargeState generational size base pageSize)
      (initialLargeState generational size base pageSize) where
  finite := by simp [initialLargeState, weighing, members, LargePhase.pages]
  balance := by
    have none : (initialLargeState generational size base pageSize).requestedPages = 0 :=
      total_eq_zero fun _ => rfl
    have debt : (initialLargeState generational size base pageSize).space.bytesToPageOut = 0 :=
      CopySpace.bytesToPageOut_init size base false generational
    have pages : (initialLargeState generational size base pageSize).largeObjectPages = 0 := rfl
    rw [LargeState.CommittedBytes, none, debt, pages]
    push_cast
    ring

theorem observe_balanced (balanced : Balanced start before) : Balanced start before.observe :=
  balanced.stay rfl rfl rfl rfl

theorem performLarge_balanced {generational : Bool} {action : LargeAction}
    (balanced : Balanced start before)
    (performed : performLarge generational before action = .next after) : Balanced start after := by
  cases action with
  | stopTheWorld action =>
      simp only [performLarge, stopTheWorldStep, Outcome.bind_eq_next,
        Outcome.mapFailure_eq_next, Outcome.pure_eq_next, Outcome.next.injEq] at performed
      obtain ⟨-, -, world, -, rfl⟩ := performed
      exact balanced.move rfl (by simp) rfl rfl rfl
  | acquireBlock mutator =>
      simp only [performLarge, acquireBlock, Outcome.require_bind_eq_next] at performed
      obtain ⟨-, -, performed⟩ := performed
      split at performed
      · cases performed
      next found =>
        cases performed
        exact balanced.stay rfl rfl rfl (CopySpace.acquireEmptyBlock_keeps found).1
  | request mutator npages =>
      simp only [performLarge, requestMemory, Outcome.require_bind_eq_next, Outcome.pure_eq_next,
        Outcome.next.injEq] at performed
      obtain ⟨⟨-, was⟩, rfl⟩ := performed
      refine balanced.step mutator (.requested npages) rfl rfl ?_
      have adds := CopySpace.addToPageOut_adds before.space (npages * before.pageSize : ℕ)
      rw [was]
      simp only [CopySpace.requestReleaseMemory, LargeState.setLarge, adds.value_eq,
        LargePhase.pages, Nat.add_mul]
      push_cast
      omega
  | loadPending mutator =>
      simp only [performLarge, loadPending] at performed
      split at performed
      next was =>
        cases performed
        exact balanced.move rfl (by simp [was, LargePhase.pages]) rfl rfl rfl
      · cases performed
  | pageOut mutator =>
      simp only [performLarge, pageOut] at performed
      split at performed
      next was =>
        split at performed
        · split at performed
          · cases performed
            exact balanced.move rfl (by simp [was, LargePhase.pages]) rfl rfl rfl
          next paged =>
            cases performed
            have adds := (CopySpace.pageOutOne_eq_some paged).1
            exact balanced.move rfl (by simp [was, LargePhase.pages]) rfl rfl
              (by simpa using adds.value_eq)
        · cases performed
          exact balanced.move rfl (by simp [was, LargePhase.pages]) rfl rfl rfl
      · cases performed
  | trigger mutator oldSpaceHasRoom =>
      simp only [performLarge, trigger] at performed
      split at performed
      next was =>
        simp only [Outcome.bind_eq_next, Outcome.mapFailure_eq_next, Outcome.pure_eq_next,
          Outcome.next.injEq] at performed
        obtain ⟨world, -, rfl⟩ := performed
        exact balanced.move rfl (by simp [was, LargePhase.pages]) rfl rfl rfl
      · cases performed
  | withdraw mutator =>
      simp only [performLarge, withdraw] at performed
      split at performed
      next npages was =>
        cases performed
        refine balanced.step mutator (.reacquiring _) rfl rfl ?_
        have adds :=
          CopySpace.addToPageOut_adds before.space (-(npages * before.pageSize : ℕ))
        rw [was]
        simp only [LargeState.setLarge, adds.value_eq, LargePhase.pages, Nat.add_mul]
        push_cast
        omega
      · cases performed
  | reacquire mutator =>
      simp only [performLarge, reacquire] at performed
      split at performed
      next was =>
        split at performed
        · split at performed
          · cases performed
            exact balanced.move rfl (by simp [was, LargePhase.pages]) rfl rfl rfl
          next paged =>
            cases performed
            have adds := (CopySpace.reacquireOne_eq_some paged).1
            exact balanced.move rfl (by simp [was, LargePhase.pages]) rfl rfl
              (by simpa using adds.value_eq)
        · cases performed
          exact balanced.move rfl (by simp [was, LargePhase.pages]) rfl rfl rfl
      · cases performed
  | fail mutator =>
      simp only [performLarge, fail, Outcome.require_bind_eq_next, Outcome.pure_eq_next,
        Outcome.next.injEq] at performed
      obtain ⟨was, rfl⟩ := performed
      exact balanced.move rfl (by simp [was, LargePhase.pages]) rfl rfl rfl
  | allocate mutator =>
      simp only [performLarge, allocate] at performed
      split at performed
      next was =>
        cases performed
        refine balanced.step mutator .idle rfl rfl ?_
        simp [was, LargePhase.pages, LargeState.setLarge]
      · cases performed
  | startGc mutator =>
      simp only [performLarge, startGc, Outcome.require_bind_eq_next] at performed
      obtain ⟨-, performed⟩ := performed
      split at performed
      · cases performed
      · cases performed
        refine balanced.stay rfl rfl rfl ?_
        dsimp only
        split
        · rfl
        · exact (CopySpace.flip_keeps _).1
  | evacuate mutator =>
      simp only [performLarge, evacuate, Outcome.require_bind_eq_next] at performed
      obtain ⟨-, performed⟩ := performed
      split at performed
      · cases performed
      next found =>
        cases performed
        exact balanced.stay rfl rfl rfl (CopySpace.acquireEmptyBlock_keeps found).1
  | resetLargeObjectPages mutator npages =>
      simp only [performLarge, resetLargeObjectPages, Outcome.require_bind_eq_next,
        Outcome.check_bind_eq_next, Outcome.pure_eq_next, Outcome.next.injEq] at performed
      obtain ⟨-, atMost, rfl⟩ := performed
      have same : before.large = update before.large mutator (before.large mutator) :=
        (update_eq_self _ _).symm
      refine balanced.step mutator _ same rfl ?_
      have adds := CopySpace.addToPageOut_adds before.space.finishGc
        (-((before.largeObjectPages - npages) * before.pageSize : ℕ))
      have finished : before.space.finishGc.value = before.space.value := rfl
      have split : npages * before.pageSize + (before.largeObjectPages - npages) * before.pageSize =
          before.largeObjectPages * before.pageSize := by
        rw [← Nat.add_mul, Nat.add_sub_cancel' atMost]
      simp only [adds.value_eq, finished, Nat.add_mul]
      omega
  | collectorReacquire mutator =>
      simp only [performLarge, collectorReacquire, Outcome.require_bind_eq_next] at performed
      obtain ⟨-, performed⟩ := performed
      split at performed
      · split at performed
        · split at performed
          · cases performed
          next paged =>
            cases performed
            have adds := (CopySpace.reacquireOne_eq_some paged).1
            exact balanced.stay rfl rfl rfl (by simpa using adds.value_eq)
        · cases performed
          exact balanced.stay rfl rfl rfl rfl
      · cases performed
  | loadDeficit mutator =>
      simp only [performLarge, loadDeficit, Outcome.require_bind_eq_next, Outcome.pure_eq_next,
        Outcome.next.injEq] at performed
      obtain ⟨-, rfl⟩ := performed
      exact balanced.stay rfl rfl rfl rfl
  | collectorPageOut mutator =>
      simp only [performLarge, collectorPageOut, Outcome.require_bind_eq_next] at performed
      obtain ⟨-, performed⟩ := performed
      split at performed
      · split at performed
        · split at performed
          · cases performed
            exact balanced.stay rfl rfl rfl rfl
          next paged =>
            cases performed
            have adds := (CopySpace.pageOutOne_eq_some paged).1
            exact balanced.stay rfl rfl rfl (by simpa using adds.value_eq)
        · cases performed
          exact balanced.stay rfl rfl rfl rfl
      · cases performed
  | finishCollection mutator =>
      simp only [performLarge, finishLargeCollection, Outcome.require_bind_eq_next] at performed
      obtain ⟨-, performed⟩ := performed
      split at performed
      · simp only [Outcome.bind_eq_next, Outcome.mapFailure_eq_next, Outcome.pure_eq_next,
          Outcome.next.injEq] at performed
        obtain ⟨world, -, rfl⟩ := performed
        exact balanced.move rfl (by simp) rfl rfl rfl
      · cases performed
  | advancePageOutQueue =>
      cases performed
      exact balanced.stay rfl rfl rfl (CopySpace.advancePageOutQueue_keeps _).1
  | pageOutBlocks =>
      cases performed
      exact balanced.stay rfl rfl rfl (CopySpace.pageOutBlocks_keeps _).1

theorem largeStep_balanced {generational : Bool} {action : LargeAction}
    (balanced : Balanced start before)
    (stepped : largeStep generational before action = .next after) : Balanced start after := by
  simp only [largeStep, Outcome.bind_eq_next, Outcome.pure_eq_next, Outcome.next.injEq] at stepped
  obtain ⟨performed, stepped, rfl⟩ := stepped
  exact observe_balanced (performLarge_balanced balanced stepped)

end Balance

end Whippet.Pcc
