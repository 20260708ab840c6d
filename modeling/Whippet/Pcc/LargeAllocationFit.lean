import Whippet.Pcc.LargeAllocationPayment

/-!
That large allocations of pcc fit in the heap, with the fixed heap-size policy.

A request that has found the debt paid holds its pages: they are as good as allocated. Requests that
come later add to the debt but hold nothing until they have found it paid too. What is held grows
beyond what was found only by blocks that are paged in late, that is by a thread that computed what
is pending before a later request.

Owns: what is held, the condition on the runs, and that what is held fits in the heap.
-/

namespace Whippet.Pcc

open Function

/-! ## What is held -/

namespace LargeState

variable (state : LargeState)

/-- The mutator has found the debt paid, or the collection that it does has. -/
def Found (mutator : Mutator) : Prop :=
  (state.large mutator).FoundPaid ∨
    (∃ npages, state.large mutator = .triggering npages) ∧
      state.world.lock = some mutator ∧ state.stage.FoundPaid

open Classical in
/-- The pages of the mutator's request, if it has found the debt paid. -/
noncomputable def foundPages (mutator : Mutator) : ℕ :=
  if state.Found mutator then (state.large mutator).pages else 0

/-- The bytes of the active blocks, the large objects, and the requests that have found the debt
paid. -/
noncomputable def heldBytes : ℕ :=
  state.space.activeCount * COPY_SPACE_BLOCK_SIZE +
    (state.largeObjectPages + total state.foundPages id) * state.pageSize

end LargeState

/-- If a request has found the debt paid, all that is held fits in the heap. -/
def Fits (start state : LargeState) : Prop :=
  ∀ mutator, state.Found mutator → state.heldBytes ≤ start.size

/-! ## The condition -/

/-- The action pages a block in. -/
def LargeAction.PagesIn (state : LargeState) : LargeAction → Prop
  | .acquireBlock _ | .evacuate _ => state.space.AcquiresPagedOut
  | .reacquire mutator =>
      state.space.reacquireOne ≠ none ∧
        ∃ pending, state.large mutator = .reacquiring pending ∧ pending + COPY_SPACE_BLOCK_SIZE ≤ 0
  | .collectorReacquire _ =>
      state.space.reacquireOne ≠ none ∧
        ∃ pending, state.stage = .reacquiring pending ∧ pending + COPY_SPACE_BLOCK_SIZE ≤ 0
  | _ => False

/-- The actions that the code handles, in a heap of `size` bytes. -/
structure LargeAction.AwaitsPayment (generational : Bool) (size : ℕ) (state : LargeState)
    (action : LargeAction) : Prop where
  returnsPaid : action.ReturnsPaid generational state
  /-- A block that is paged in although the debt is too large for it fits beside the requests that
  have found the debt paid, if there are any. -/
  pagesInWithin : action.PagesIn state →
    0 < state.space.bytesToPageOut + COPY_SPACE_BLOCK_SIZE →
      ∀ mutator, state.Found mutator → state.heldBytes + COPY_SPACE_BLOCK_SIZE ≤ size

/-! ## Changes of what is held -/

section Held

variable {start before after : LargeState} {mutator : Mutator} {phase : LargePhase}

theorem foundPages_le (state : LargeState) (mutator : Mutator) :
    state.foundPages mutator ≤ (state.large mutator).pages := by
  unfold LargeState.foundPages
  split <;> omega

theorem Balanced.finite_foundPages (balanced : Balanced start before) :
    (weighing before.foundPages id).Finite := by
  refine balanced.finite.subset ?_
  intro mutator weighs
  have atMost := foundPages_le before mutator
  simp only [mem_members, id_eq] at weighs ⊢
  omega

/-- With the debt paid, all requests fit, those that have found it paid among them. -/
theorem Balanced.fits (balanced : Balanced start before)
    (blocks : start.space.activeCount * COPY_SPACE_BLOCK_SIZE ≤ start.size)
    (paid : before.space.bytesToPageOut ≤ 0) : Fits start before := by
  intro mutator _
  have atMost : total before.foundPages id ≤ before.requestedPages :=
    total_le_total balanced.finite (foundPages_le before)
  have pages : (before.largeObjectPages + total before.foundPages id) * before.pageSize ≤
      (before.largeObjectPages + before.requestedPages) * before.pageSize :=
    Nat.mul_le_mul_right _ (Nat.add_le_add_left atMost _)
  have balance := balanced.balance
  simp only [LargeState.CommittedBytes, LargeState.heldBytes] at *
  omega

/-- An action after which no more requests have found the debt paid holds more only by the blocks
that it pages in. -/
theorem Balanced.heldBytes_le (balanced : Balanced start before)
    (found : ∀ other, after.Found other →
      before.Found other ∧ (after.large other).pages = (before.large other).pages)
    (pageSize : after.pageSize = before.pageSize)
    (pages : after.largeObjectPages ≤ before.largeObjectPages) :
    after.heldBytes + before.space.activeCount * COPY_SPACE_BLOCK_SIZE ≤
      before.heldBytes + after.space.activeCount * COPY_SPACE_BLOCK_SIZE := by
  have atMost : total after.foundPages id ≤ total before.foundPages id := by
    refine total_le_total balanced.finite_foundPages ?_
    intro other
    simp only [LargeState.foundPages, id_eq]
    split
    next isFound =>
      obtain ⟨wasFound, same⟩ := found other isFound
      rw [if_pos wasFound, same]
    · exact Nat.zero_le _
  have bytes : (after.largeObjectPages + total after.foundPages id) * before.pageSize ≤
      (before.largeObjectPages + total before.foundPages id) * before.pageSize :=
    Nat.mul_le_mul_right _ (Nat.add_le_add pages atMost)
  simp only [LargeState.heldBytes, pageSize]
  omega

/-- An action of one mutator in `allocate_large` that has found nothing new. -/
theorem found_of_move {other : Mutator} (world : after.world = before.world)
    (stage : after.stage = before.stage) (large : after.large = update before.large mutator phase)
    (own : phase.FoundPaid → (before.large mutator).FoundPaid ∧
      phase.pages = (before.large mutator).pages)
    (triggers : ∀ npages, phase ≠ .triggering npages) (isFound : after.Found other) :
    before.Found other ∧ (after.large other).pages = (before.large other).pages := by
  unfold LargeState.Found at isFound ⊢
  rw [world, stage, large] at isFound
  rw [large]
  by_cases same : other = mutator
  · subst same
    rw [update_self] at isFound ⊢
    rcases isFound with isPaid | ⟨⟨npages, isTriggering⟩, -⟩
    · exact ⟨Or.inl (own isPaid).1, (own isPaid).2⟩
    · exact absurd isTriggering (triggers npages)
  · rw [update_of_ne same] at isFound ⊢
    exact ⟨isFound, rfl⟩

/-- An action of the collector, or of none of the mutators, that has found nothing new. -/
theorem found_of_advance {other : Mutator} (world : after.world = before.world)
    (large : after.large = before.large) (stage : after.stage.FoundPaid → before.stage.FoundPaid)
    (isFound : after.Found other) :
    before.Found other ∧ (after.large other).pages = (before.large other).pages := by
  unfold LargeState.Found at isFound ⊢
  rw [world, large] at isFound
  rw [large]
  refine ⟨?_, rfl⟩
  rcases isFound with isPaid | ⟨isTriggering, held, isPaid⟩
  · exact Or.inl isPaid
  · exact Or.inr ⟨isTriggering, held, stage isPaid⟩

namespace Fits

theorem step (fits : Fits start before) (balanced : Balanced start before)
    (found : ∀ other, after.Found other →
      before.Found other ∧ (after.large other).pages = (before.large other).pages)
    (pageSize : after.pageSize = before.pageSize)
    (pages : after.largeObjectPages ≤ before.largeObjectPages)
    (active : after.space.activeCount ≤ before.space.activeCount) : Fits start after := by
  intro mutator isFound
  have wasFit := fits mutator (found mutator isFound).1
  have held := balanced.heldBytes_le found pageSize pages
  have blocks := Nat.mul_le_mul_right COPY_SPACE_BLOCK_SIZE active
  omega

/-- An action of one mutator in `allocate_large`. -/
theorem move (fits : Fits start before) (balanced : Balanced start before)
    (world : after.world = before.world) (stage : after.stage = before.stage)
    (large : after.large = update before.large mutator phase)
    (own : phase.FoundPaid → (before.large mutator).FoundPaid ∧
      phase.pages = (before.large mutator).pages)
    (triggers : ∀ npages, phase ≠ .triggering npages)
    (pageSize : after.pageSize = before.pageSize)
    (pages : after.largeObjectPages ≤ before.largeObjectPages)
    (active : after.space.activeCount ≤ before.space.activeCount) : Fits start after :=
  fits.step balanced (fun _ => found_of_move world stage large own triggers) pageSize pages active

/-- An action of the collector, or of none of the mutators. -/
theorem advance (fits : Fits start before) (balanced : Balanced start before)
    (world : after.world = before.world) (large : after.large = before.large)
    (stage : after.stage.FoundPaid → before.stage.FoundPaid)
    (pageSize : after.pageSize = before.pageSize)
    (pages : after.largeObjectPages ≤ before.largeObjectPages)
    (active : after.space.activeCount ≤ before.space.activeCount) : Fits start after :=
  fits.step balanced (fun _ => found_of_advance world large stage) pageSize pages active

/-- A step of the mutators' protocol. The collection of a mutator that takes the lock has not found
anything yet. -/
theorem transfer (fits : Fits start before) (balanced : Balanced start before)
    (idle : before.world.lock = none → before.stage = .idle) {world : World}
    {becomes : Phase → Prop} (moves : Moves before.world world mutator becomes)
    (pagesEq : phase.pages = (before.large mutator).pages)
    (own : phase.FoundPaid → (before.large mutator).FoundPaid)
    (triggers : ∀ npages, phase = .triggering npages → before.world.lock = none ∨
      before.large mutator = .triggering npages) :
    Fits start ({ before with world := world }.setLarge mutator phase) := by
  refine fits.step balanced ?_ rfl le_rfl le_rfl
  intro other isFound
  have notIdle : before.stage.FoundPaid → before.world.lock ≠ none := by
    intro isPaid free
    rw [idle free] at isPaid
    exact isPaid
  unfold LargeState.Found at isFound ⊢
  have collecting : world.lock = some other → before.stage.FoundPaid →
      before.world.lock = some other := by
    intro held isPaid
    rcases moves.lock_eq with kept | ⟨free, -, -⟩
    · exact kept.symm.trans held
    · exact absurd free (notIdle isPaid)
  by_cases same : other = mutator
  · subst same
    simp only [LargeState.setLarge, update_self] at isFound ⊢
    refine ⟨?_, pagesEq⟩
    rcases isFound with isPaid | ⟨⟨npages, isTriggering⟩, held, isPaid⟩
    · exact Or.inl (own isPaid)
    · rcases triggers npages isTriggering with free | wasTriggering
      · exact absurd free (notIdle isPaid)
      · exact Or.inr ⟨⟨npages, wasTriggering⟩, collecting held isPaid, isPaid⟩
  · simp only [LargeState.setLarge, update_of_ne same] at isFound ⊢
    refine ⟨?_, trivial⟩
    rcases isFound with isPaid | ⟨isTriggering, held, isPaid⟩
    · exact Or.inl isPaid
    · exact Or.inr ⟨isTriggering, collecting held isPaid, isPaid⟩

/-- An action that pages a block in, in a state in which it fits. -/
theorem pageIn (room : ∀ mutator, before.Found mutator →
      before.heldBytes + COPY_SPACE_BLOCK_SIZE ≤ start.size) (balanced : Balanced start before)
    (found : ∀ other, after.Found other →
      before.Found other ∧ (after.large other).pages = (before.large other).pages)
    (pageSize : after.pageSize = before.pageSize)
    (pages : after.largeObjectPages ≤ before.largeObjectPages)
    (value : after.space.value = before.space.value)
    (debt : after.space.bytesToPageOut = before.space.bytesToPageOut + COPY_SPACE_BLOCK_SIZE) :
    Fits start after := by
  intro mutator isFound
  have hasRoom := room mutator (found mutator isFound).1
  have held := balanced.heldBytes_le found pageSize pages
  rw [CopySpace.activeCount_pageIn value debt, Nat.add_mul] at held
  omega

end Fits

end Held

/-! ## Steps -/

section Steps

variable {generational : Bool} {start before after : LargeState} {mutator : Mutator}
variable {action : LargeAction}

theorem stopTheWorldStep_fits {action : Action} (fits : Fits start before)
    (balanced : Balanced start before) (paying : Paying generational before)
    (returnsPaid : (LargeAction.stopTheWorld action).ReturnsPaid generational before)
    (owed : 0 < after.space.bytesToPageOut)
    (stepped : stopTheWorldStep before generational action = .next after) : Fits start after := by
  obtain ⟨world, moves, -, ⟨rfl, -⟩ | ⟨npages, _, _, isWake, returns, rfl⟩⟩ :=
    stopTheWorldStep_cases paying stepped
  · exact fits.transfer balanced paying.idle moves rfl id fun _ => Or.inr
  · rw [isWake] at returnsPaid
    have paid := returnsPaid returns
    have owed : 0 < before.space.bytesToPageOut := owed
    omega

/-- A small allocation or the collection takes a block. -/
theorem acquireEmptyBlock_fits {space : CopySpace} (fits : Fits start before)
    (balanced : Balanced start before)
    (room : before.space.AcquiresPagedOut →
      0 < before.space.bytesToPageOut + COPY_SPACE_BLOCK_SIZE →
      ∀ mutator, before.Found mutator → before.heldBytes + COPY_SPACE_BLOCK_SIZE ≤ start.size)
    (owed : 0 < space.bytesToPageOut) (found : before.space.acquireEmptyBlock = some space) :
    Fits start { before with space := space } := by
  have value := (CopySpace.acquireEmptyBlock_keeps found).1
  rcases CopySpace.bytesToPageOut_acquireEmptyBlock found with ⟨-, same⟩ | ⟨pagedOut, debt⟩
  · exact fits.advance balanced rfl rfl id rfl le_rfl (CopySpace.activeCount_le value same.le)
  · exact Fits.pageIn (room pagedOut (debt ▸ owed)) balanced (fun _ isFound => ⟨isFound, rfl⟩) rfl
      le_rfl value debt

theorem pageOut_fits (fits : Fits start before) (balanced : Balanced start before)
    (owed : 0 < after.space.bytesToPageOut) (paged : pageOut before mutator = .next after) :
    Fits start after := by
  unfold pageOut at paged
  split at paged
  next npages pending was =>
    split at paged
    · split at paged
      · cases paged
        exact fits.move balanced rfl rfl rfl False.elim (by simp) rfl le_rfl le_rfl
      next space pagedOut =>
        cases paged
        obtain ⟨adds, debt, -⟩ := CopySpace.pageOutOne_eq_some pagedOut
        have active : space.activeCount ≤ before.space.activeCount :=
          CopySpace.activeCount_le (by simpa using adds.value_eq) (by omega)
        exact fits.move balanced rfl rfl rfl (fun isPaid => absurd owed (not_lt.mpr isPaid))
          (by simp) rfl le_rfl active
    next paid =>
      cases paged
      refine fits.move balanced rfl rfl rfl (fun _ => ?_) (by simp) rfl le_rfl le_rfl
      rw [was]
      exact ⟨not_lt.mp paid, rfl⟩
  · cases paged

open Classical in
theorem foundPages_setLarge (state : LargeState) (mutator : Mutator) (phase : LargePhase)
    (pages : phase.pages = 0) :
    (state.setLarge mutator phase).foundPages = update state.foundPages mutator 0 := by
  funext other
  by_cases same : other = mutator
  · subst same
    simp only [LargeState.foundPages, LargeState.setLarge, update_self, pages, ite_self]
  · have large : (state.setLarge mutator phase).large other = state.large other :=
      update_of_ne same _ _
    have found : (state.setLarge mutator phase).Found other ↔ state.Found other := by
      unfold LargeState.Found
      rw [large]
      rfl
    rw [update_of_ne same, LargeState.foundPages, LargeState.foundPages, large]
    exact if_congr found rfl rfl

/-- A request that is allocated goes over to the large objects. -/
theorem allocate_fits (fits : Fits start before) (balanced : Balanced start before)
    (allocated : allocate before mutator = .next after) : Fits start after := by
  unfold allocate at allocated
  split at allocated
  next npages was =>
    cases allocated
    have isFound : before.Found mutator := by
      refine Or.inl ?_
      rw [was]
      trivial
    have pages : before.foundPages mutator = npages := by
      rw [LargeState.foundPages, if_pos isFound, was]
      rfl
    have moved := total_update balanced.finite_foundPages mutator 0
    rw [← foundPages_setLarge before mutator .idle rfl, pages] at moved
    intro other _
    have same : before.largeObjectPages + npages +
        total (before.setLarge mutator .idle).foundPages id =
        before.largeObjectPages + total before.foundPages id := by
      simp only [id_eq] at moved
      omega
    show before.space.activeCount * COPY_SPACE_BLOCK_SIZE + (before.largeObjectPages + npages +
      total (before.setLarge mutator .idle).foundPages id) * before.pageSize ≤ start.size
    rw [same]
    exact fits mutator isFound
  · cases allocated

/-- The collector that returns 1 to its own large allocation has counted it as found before. -/
theorem finishLargeCollection_fits (fits : Fits start before) (balanced : Balanced start before)
    (paying : Paying generational before)
    (finished : finishLargeCollection before mutator = .next after) : Fits start after := by
  obtain ⟨world, phase, rfl, held, free, -, large⟩ := finishLargeCollection_cases paying finished
  refine fits.step balanced ?_ rfl le_rfl le_rfl
  intro other isFound
  have isFound : (update before.large mutator phase other).FoundPaid := by
    rcases isFound with isPaid | ⟨-, isHeld, -⟩
    · exact isPaid
    · have isHeld : world.lock = some other := isHeld
      rw [free] at isHeld
      cases isHeld
  show before.Found other ∧
    (update before.large mutator phase other).pages = (before.large other).pages
  by_cases same : other = mutator
  · subst same
    rw [update_self] at isFound ⊢
    rcases large with ⟨-, rfl⟩ | ⟨npages, triggering, rfl | ⟨rfl, paid⟩⟩
    · exact ⟨Or.inl isFound, rfl⟩
    · cases isFound
    · rw [triggering]
      exact ⟨Or.inr ⟨⟨npages, triggering⟩, held, paid⟩, rfl⟩
  · rw [update_of_ne same] at isFound ⊢
    exact ⟨Or.inl isFound, rfl⟩

/-- Every permitted action after which there is still a debt keeps what is held within the heap. -/
theorem performLarge_fits (fits : Fits start before) (balanced : Balanced start before)
    (paying : Paying generational before)
    (awaits : action.AwaitsPayment generational start.size before)
    (owed : 0 < after.space.bytesToPageOut)
    (performed : performLarge generational before action = .next after) : Fits start after := by
  cases action with
  | stopTheWorld action =>
      exact stopTheWorldStep_fits fits balanced paying awaits.returnsPaid owed performed
  | pageOut mutator => exact pageOut_fits fits balanced owed performed
  | allocate mutator => exact allocate_fits fits balanced performed
  | finishCollection mutator => exact finishLargeCollection_fits fits balanced paying performed
  | acquireBlock mutator =>
      simp only [performLarge, acquireBlock, Outcome.require_bind_eq_next] at performed
      obtain ⟨-, -, performed⟩ := performed
      split at performed
      · cases performed
      next space found =>
        cases performed
        exact acquireEmptyBlock_fits fits balanced awaits.pagesInWithin owed found
  | request mutator npages =>
      simp only [performLarge, requestMemory, Outcome.require_bind_eq_next, Outcome.pure_eq_next,
        Outcome.next.injEq] at performed
      obtain ⟨-, rfl⟩ := performed
      exact fits.move balanced rfl rfl rfl False.elim (by simp) rfl le_rfl le_rfl
  | loadPending mutator =>
      simp only [performLarge, loadPending] at performed
      split at performed
      · cases performed
        exact fits.move balanced rfl rfl rfl (fun isPaid => absurd owed (not_lt.mpr isPaid))
          (by simp) rfl le_rfl le_rfl
      · cases performed
  | trigger mutator oldSpaceHasRoom =>
      simp only [performLarge, trigger] at performed
      split at performed
      next was =>
        simp only [Outcome.bind_eq_next, Outcome.mapFailure_eq_next, Outcome.pure_eq_next,
          Outcome.next.injEq, step, Outcome.require_eq_next] at performed
        obtain ⟨world, ⟨-, -, -, free, triggered⟩, rfl⟩ := performed
        exact fits.transfer balanced paying.idle (triggerCollection_moves free triggered)
          (by rw [was]; rfl) False.elim fun _ _ => Or.inl free
      · cases performed
  | withdraw mutator =>
      simp only [performLarge, withdraw] at performed
      split at performed
      · cases performed
        exact fits.move balanced rfl rfl rfl False.elim (by simp) rfl le_rfl le_rfl
      · cases performed
  | reacquire mutator =>
      simp only [performLarge, reacquire] at performed
      split at performed
      next pending was =>
        split at performed
        next allowed =>
          split at performed
          · cases performed
            exact fits.move balanced rfl rfl rfl False.elim (by simp) rfl le_rfl le_rfl
          next space paged =>
            cases performed
            obtain ⟨adds, debt, -⟩ := CopySpace.reacquireOne_eq_some paged
            have pagesIn : (LargeAction.reacquire mutator).PagesIn before :=
              ⟨by simp [paged], pending, was, allowed⟩
            refine Fits.pageIn (awaits.pagesInWithin pagesIn (debt ▸ owed)) balanced (fun _ =>
              found_of_move rfl rfl rfl False.elim (by simp)) rfl le_rfl ?_ debt
            simpa using adds.value_eq
        · cases performed
          exact fits.move balanced rfl rfl rfl False.elim (by simp) rfl le_rfl le_rfl
      · cases performed
  | fail mutator =>
      simp only [performLarge, fail, Outcome.require_bind_eq_next, Outcome.pure_eq_next,
        Outcome.next.injEq] at performed
      obtain ⟨-, rfl⟩ := performed
      exact fits.move balanced rfl rfl rfl False.elim (by simp) rfl le_rfl le_rfl
  | startGc mutator =>
      simp only [performLarge, startGc, Outcome.require_bind_eq_next] at performed
      obtain ⟨-, performed⟩ := performed
      split at performed
      · cases performed
      · cases performed
        refine fits.advance balanced rfl rfl False.elim rfl le_rfl ?_
        dsimp only
        split
        · exact le_rfl
        · exact CopySpace.activeCount_le (CopySpace.flip_keeps _).1 le_rfl
  | evacuate mutator =>
      simp only [performLarge, evacuate, Outcome.require_bind_eq_next] at performed
      obtain ⟨-, performed⟩ := performed
      split at performed
      · cases performed
      next space found =>
        cases performed
        exact acquireEmptyBlock_fits fits balanced awaits.pagesInWithin owed found
  | resetLargeObjectPages mutator npages =>
      simp only [performLarge, resetLargeObjectPages, Outcome.require_bind_eq_next,
        Outcome.check_bind_eq_next, Outcome.pure_eq_next, Outcome.next.injEq] at performed
      obtain ⟨-, atMost, rfl⟩ := performed
      exact fits.advance balanced rfl rfl False.elim rfl atMost le_rfl
  | collectorReacquire mutator =>
      simp only [performLarge, collectorReacquire, Outcome.require_bind_eq_next] at performed
      obtain ⟨-, performed⟩ := performed
      split at performed
      next pending was =>
        split at performed
        next allowed =>
          split at performed
          · cases performed
          next space paged =>
            cases performed
            obtain ⟨adds, debt, -⟩ := CopySpace.reacquireOne_eq_some paged
            have pagesIn : (LargeAction.collectorReacquire mutator).PagesIn before :=
              ⟨by simp [paged], pending, was, allowed⟩
            refine Fits.pageIn (awaits.pagesInWithin pagesIn (debt ▸ owed)) balanced (fun _ =>
              found_of_advance rfl rfl False.elim) rfl le_rfl ?_ debt
            simpa using adds.value_eq
        · cases performed
          exact fits.advance balanced rfl rfl False.elim rfl le_rfl le_rfl
      · cases performed
  | loadDeficit mutator =>
      simp only [performLarge, loadDeficit, Outcome.require_bind_eq_next, Outcome.pure_eq_next,
        Outcome.next.injEq] at performed
      obtain ⟨-, rfl⟩ := performed
      exact fits.advance balanced rfl rfl (fun isPaid => absurd owed (not_lt.mpr isPaid)) rfl le_rfl
        le_rfl
  | collectorPageOut mutator =>
      simp only [performLarge, collectorPageOut, Outcome.require_bind_eq_next] at performed
      obtain ⟨-, performed⟩ := performed
      split at performed
      next pending was =>
        have same : pending ≤ 0 → before.stage.FoundPaid := by
          rw [was]
          exact id
        split at performed
        · split at performed
          · cases performed
            exact fits.advance balanced rfl rfl same rfl le_rfl le_rfl
          next space pagedOut =>
            cases performed
            obtain ⟨adds, debt, -⟩ := CopySpace.pageOutOne_eq_some pagedOut
            have active : space.activeCount ≤ before.space.activeCount :=
              CopySpace.activeCount_le (by simpa using adds.value_eq) (by omega)
            exact fits.advance balanced rfl rfl (fun isPaid => absurd owed (not_lt.mpr isPaid)) rfl
              le_rfl active
        · cases performed
          exact fits.advance balanced rfl rfl same rfl le_rfl le_rfl
      · cases performed
  | advancePageOutQueue =>
      cases performed
      refine fits.advance balanced rfl rfl id rfl le_rfl (CopySpace.activeCount_le
        (CopySpace.advancePageOutQueue_keeps _).1 ?_)
      simp [CopySpace.advancePageOutQueue]
  | pageOutBlocks =>
      cases performed
      refine fits.advance balanced rfl rfl id rfl le_rfl (CopySpace.activeCount_le
        (CopySpace.pageOutBlocks_keeps _).1 ?_)
      simp [CopySpace.pageOutBlocks]

theorem largeStep_fits (fits : Fits start before) (balanced : Balanced start before)
    (paying : Paying generational before)
    (blocks : start.space.activeCount * COPY_SPACE_BLOCK_SIZE ≤ start.size)
    (awaits : action.AwaitsPayment generational start.size before)
    (stepped : largeStep generational before action = .next after) : Fits start after := by
  simp only [largeStep, Outcome.bind_eq_next, Outcome.pure_eq_next, Outcome.next.injEq] at stepped
  obtain ⟨performed, stepped, rfl⟩ := stepped
  show Fits start performed
  by_cases paid : performed.space.bytesToPageOut ≤ 0
  · exact (performLarge_balanced balanced stepped).fits blocks paid
  · exact performLarge_fits fits balanced paying awaits (not_le.mp paid) stepped

end Steps

/-! ## What goes wrong otherwise -/

section Otherwise

variable {generational : Bool} {size : ℕ} {before after : LargeState} {mutator : Mutator}
variable {action : LargeAction}

theorem grants_of_not_returnsPaid (notPaid : ¬action.ReturnsPaid generational before)
    (stepped : largeStep generational before action = .next after) :
    ∃ mutator npages, before.large mutator = .triggering npages ∧
      after.large mutator = .granted npages ∧ 0 < after.space.bytesToPageOut := by
  cases action with
  | stopTheWorld action =>
      cases action with
      | wake mutator oldSpaceHasRoom =>
          simp only [LargeAction.ReturnsPaid, not_forall, not_le] at notPaid
          obtain ⟨⟨⟨npages, triggering⟩, calm, kind, was, covers⟩, owed⟩ := notPaid
          simp only [largeStep, performLarge, stopTheWorldStep, Outcome.bind_eq_next,
            Outcome.mapFailure_eq_next, Outcome.pure_eq_next, Outcome.next.injEq, step, wake, was,
            Action.mutator] at stepped
          obtain ⟨performed, ⟨-, -, world, ⟨-, -, resumed⟩, rfl⟩, rfl⟩ := stepped
          have returned : world.phase mutator = .running := by
            unfold World.pauseAnswer at covers
            dsimp only [resumePaused] at resumed
            generalize (if generational = false ∨ before.world.heap.isMinorCollection = false then
              CollectionKind.compacting else kind) = answer at covers resumed
            rw [mutatorsAreStopping, calm, if_neg Bool.false_ne_true, triggerAfterPausing,
              if_neg (not_lt.mpr covers)] at resumed
            cases resumed
            simp [World.setPhase]
          rw [triggering, returned]
          exact ⟨mutator, npages, triggering, by simp [LargeState.observe, LargeState.setLarge,
            returnedFromPause], owed⟩
      | _ => exact absurd trivial notPaid
  | _ => exact absurd trivial notPaid

open Classical in
/-- Paging a block in changes nothing else about what is held. -/
theorem pageIn_of_pagesIn (pagesIn : action.PagesIn before)
    (stepped : largeStep generational before action = .next after) :
    after.foundPages = before.foundPages ∧ after.pageSize = before.pageSize ∧
      after.largeObjectPages = before.largeObjectPages ∧ after.space.value = before.space.value ∧
      after.space.bytesToPageOut = before.space.bytesToPageOut + COPY_SPACE_BLOCK_SIZE := by
  simp only [largeStep, Outcome.bind_eq_next, Outcome.pure_eq_next, Outcome.next.injEq] at stepped
  obtain ⟨performed, stepped, rfl⟩ := stepped
  have acquired : ∀ space, before.space.AcquiresPagedOut →
      before.space.acquireEmptyBlock = some space → space.value = before.space.value ∧
        space.bytesToPageOut = before.space.bytesToPageOut + COPY_SPACE_BLOCK_SIZE := by
    intro space pagedOut found
    refine ⟨(CopySpace.acquireEmptyBlock_keeps found).1, ?_⟩
    rcases CopySpace.bytesToPageOut_acquireEmptyBlock found with ⟨empty, -⟩ | ⟨-, debt⟩
    · exact absurd pagedOut empty
    · exact debt
  cases action with
  | acquireBlock mutator =>
      simp only [performLarge, acquireBlock, Outcome.require_bind_eq_next] at stepped
      obtain ⟨-, -, stepped⟩ := stepped
      split at stepped
      · cases stepped
      next space found =>
        cases stepped
        exact ⟨rfl, rfl, rfl, acquired space pagesIn found⟩
  | evacuate mutator =>
      simp only [performLarge, evacuate, Outcome.require_bind_eq_next] at stepped
      obtain ⟨-, stepped⟩ := stepped
      split at stepped
      · cases stepped
      next space found =>
        cases stepped
        exact ⟨rfl, rfl, rfl, acquired space pagesIn found⟩
  | reacquire mutator =>
      obtain ⟨some, pending, was, allowed⟩ := pagesIn
      simp only [performLarge, reacquire, was, if_pos allowed] at stepped
      split at stepped
      next missing => exact absurd missing some
      next space paged =>
        cases stepped
        obtain ⟨adds, debt, -⟩ := CopySpace.reacquireOne_eq_some paged
        have none : before.foundPages mutator = 0 := by
          have atMost := foundPages_le before mutator
          rw [was] at atMost
          exact Nat.le_zero.mp atMost
        have foundPages :=
          foundPages_setLarge before mutator (.reacquiring space.bytesToPageOut) rfl
        rw [← none, update_eq_self] at foundPages
        have value : space.value = before.space.value := by simpa using adds.value_eq
        exact ⟨foundPages, rfl, rfl, value, debt⟩
  | collectorReacquire mutator =>
      obtain ⟨some, pending, was, allowed⟩ := pagesIn
      simp only [performLarge, collectorReacquire, Outcome.require_bind_eq_next, was,
        if_pos allowed] at stepped
      obtain ⟨-, stepped⟩ := stepped
      split at stepped
      · cases stepped
      next space paged =>
        cases stepped
        obtain ⟨adds, debt, -⟩ := CopySpace.reacquireOne_eq_some paged
        have value : space.value = before.space.value := by simpa using adds.value_eq
        refine ⟨?_, rfl, rfl, value, debt⟩
        funext other
        refine if_congr ?_ rfl rfl
        unfold LargeState.Found
        rw [was]
        rfl
  | _ => exact pagesIn.elim

/-- The condition leaves out only what goes wrong: a large allocation that goes on with a debt, or
more held than fits while a request has found the debt paid. -/
theorem goesWrong_of_not_awaits (notAwaits : ¬action.AwaitsPayment generational size before)
    (stepped : largeStep generational before action = .next after) :
    (∃ mutator npages, before.large mutator = .triggering npages ∧
      after.large mutator = .granted npages ∧ 0 < after.space.bytesToPageOut) ∨
    ∃ mutator, before.Found mutator ∧ size < after.heldBytes := by
  by_cases returnsPaid : action.ReturnsPaid generational before
  · refine Or.inr ?_
    have late : ¬(action.PagesIn before →
        0 < before.space.bytesToPageOut + COPY_SPACE_BLOCK_SIZE → ∀ mutator,
          before.Found mutator → before.heldBytes + COPY_SPACE_BLOCK_SIZE ≤ size) :=
      fun within => notAwaits ⟨returnsPaid, within⟩
    simp only [not_forall, not_le] at late
    obtain ⟨pagesIn, -, mutator, isFound, exceeds⟩ := late
    obtain ⟨foundPages, pageSize, pages, value, debt⟩ := pageIn_of_pagesIn pagesIn stepped
    refine ⟨mutator, isFound, ?_⟩
    have active : after.space.activeCount = before.space.activeCount + 1 :=
      CopySpace.activeCount_pageIn value debt
    rw [LargeState.heldBytes, foundPages, pageSize, pages, active, Nat.add_mul]
    rw [LargeState.heldBytes] at exceeds
    omega
  · exact Or.inl (grants_of_not_returnsPaid returnsPaid stepped)

end Otherwise

/-! ## Whole runs -/

/-- What large allocations may rely on, in a heap that began as `start`. -/
structure WaitedForMemory (start state : LargeState) : Prop where
  /-- A mutator about to call `large_object_space_alloc` has seen the debt paid since its
  request. -/
  granted : ∀ mutator npages, state.large mutator = .granted npages → state.paid mutator = true
  /-- With what it is about to allocate, the active blocks and the large objects fit in the heap. -/
  fits : ∀ mutator npages, state.large mutator = .granted npages →
    state.space.activeCount * COPY_SPACE_BLOCK_SIZE +
      (state.largeObjectPages + npages) * state.pageSize ≤ start.size
  /-- The debt is what the active blocks, the large objects and the requests under way come to
  beyond the blocks of the beginning. A request whose allocation returns through the handler is not
  among them: it has been withdrawn. -/
  balance : state.CommittedBytes = start.space.activeCount * COPY_SPACE_BLOCK_SIZE +
    state.space.bytesToPageOut
  /-- With the debt paid, all of them fit in the heap. -/
  committed : state.space.bytesToPageOut ≤ 0 → state.CommittedBytes ≤ start.size

/-- A request that has been granted is held, and held bytes fit. -/
theorem Fits.granted {start state : LargeState} (fits : Fits start state)
    (balanced : Balanced start state) {mutator : Mutator} {npages : ℕ}
    (isGranted : state.large mutator = .granted npages) :
    state.space.activeCount * COPY_SPACE_BLOCK_SIZE +
      (state.largeObjectPages + npages) * state.pageSize ≤ start.size := by
  have isFound : state.Found mutator := by
    refine Or.inl ?_
    rw [isGranted]
    trivial
  have pages : state.foundPages mutator = npages := by
    rw [LargeState.foundPages, if_pos isFound, isGranted]
    rfl
  have atMost := weight_le_total balanced.finite_foundPages mutator
  rw [id_eq, pages] at atMost
  have bytes : (state.largeObjectPages + npages) * state.pageSize ≤
      (state.largeObjectPages + total state.foundPages id) * state.pageSize :=
    Nat.mul_le_mul_right _ (Nat.add_le_add_left atMost _)
  have held := fits mutator isFound
  rw [LargeState.heldBytes] at held
  omega

/-- In every run that pages no block in late beside requests that leave no room for it, and in which
no large allocation returns from another mutator's collection with a debt, large allocations wait
for their memory and fit in the heap. -/
theorem large_allocations_wait (generational : Bool) (size base pageSize : ℕ) (state : LargeState)
    (reached : (largeSystem generational size base pageSize).ReachableBy
      (fun state action => action.AwaitsPayment generational size state) state) :
    WaitedForMemory (initialLargeState generational size base pageSize) state := by
  have blocks : (initialLargeState generational size base pageSize).space.activeCount *
      COPY_SPACE_BLOCK_SIZE ≤ (initialLargeState generational size base pageSize).size :=
    CopySpace.activeCount_init_le size base generational
  have invariant : (Paying generational state ∧ state.Observed) ∧
      Balanced (initialLargeState generational size base pageSize) state ∧
      Fits (initialLargeState generational size base pageSize) state := by
    apply reached.invariant
    · rintro start rfl
      have balanced := initialLargeState_balanced generational size base pageSize
      refine ⟨⟨initialLargeState_paying generational size base pageSize, fun _ _ => rfl⟩, balanced,
        balanced.fits blocks ?_⟩
      exact (CopySpace.bytesToPageOut_init size base false generational).le
    · intro before action after ⟨⟨paying, observed⟩, balanced, fits⟩ awaits stepped
      exact ⟨largeStep_paying paying observed awaits.returnsPaid stepped,
        largeStep_balanced balanced stepped,
        largeStep_fits fits balanced paying blocks awaits stepped⟩
  obtain ⟨⟨paying, observed⟩, balanced, fits⟩ := invariant
  refine
    { granted := ?_, fits := fun _ _ => fits.granted balanced, balance := balanced.balance,
      committed := ?_ }
  · intro mutator npages isGranted
    apply observed.paid (paying.found mutator _)
    rw [isGranted]
    trivial
  · intro isPaid
    have balance := balanced.balance
    have bytes : ((initialLargeState generational size base pageSize).space.activeCount *
        COPY_SPACE_BLOCK_SIZE : ℤ) ≤ (initialLargeState generational size base pageSize).size := by
      exact_mod_cast blocks
    omega

/-- There is no debt where a paused mutator wakes, nor after a block is paged in. -/
def LargeAction.paysFirst (state : LargeState) : LargeAction → Bool
  | .stopTheWorld (.wake mutator _) =>
      match state.world.phase mutator with
      | .paused _ _ => decide (state.space.bytesToPageOut ≤ 0)
      | _ => true
  | .acquireBlock _ | .evacuate _ => decide (state.space.empty ≠ [])
  | .reacquire _ => decide (state.space.bytesToPageOut + COPY_SPACE_BLOCK_SIZE ≤ 0)
  | .collectorReacquire _ =>
      match state.stage with
      | .reacquiring pending =>
          decide (0 < pending + COPY_SPACE_BLOCK_SIZE) ||
            decide (state.space.bytesToPageOut + COPY_SPACE_BLOCK_SIZE ≤ 0)
      | _ => true
  | _ => true

theorem awaitsPayment_of_paysFirst {generational : Bool} {size : ℕ} {state : LargeState}
    {action : LargeAction} (pays : action.paysFirst state = true) :
    action.AwaitsPayment generational size state := by
  constructor
  · cases action with
    | stopTheWorld action =>
        cases action with
        | wake mutator oldSpaceHasRoom =>
            rintro ⟨-, -, kind, was, -⟩
            simpa [LargeAction.paysFirst, was] using pays
        | _ => trivial
    | _ => trivial
  · intro pagesIn late
    cases action with
    | acquireBlock mutator | evacuate mutator =>
        exact absurd pagesIn.2 (of_decide_eq_true pays)
    | reacquire mutator =>
        have inTime := of_decide_eq_true pays
        omega
    | collectorReacquire mutator =>
        obtain ⟨-, pending, was, allowed⟩ := pagesIn
        simp only [LargeAction.paysFirst, was, Bool.or_eq_true, decide_eq_true_eq] at pays
        omega
    | _ => exact pagesIn.elim

/-- Two active blocks. A large object dies in the collection for which mutator 1 waits, and its
memory pays for both requests. -/
theorem large_allocations_wait_paid :
    ∃ state : LargeState, state.large 1 = .granted 2 ∧
      WaitedForMemory (initialLargeState false 393216 (2 ^ 26) 4096) state := by
  have ran : (System.runBy (largeStep false) (fun state action => action.paysFirst state = true)
      (initialLargeState false 393216 (2 ^ 26) 4096)
      [.stopTheWorld (.initForThread 0), .stopTheWorld (.initForThread 1), .request 0 16,
        .loadPending 0, .pageOut 0, .pageOut 0, .allocate 0, .acquireBlock 1, .request 0 30,
        .loadPending 0, .pageOut 0, .request 1 2, .loadPending 1, .pageOut 1, .trigger 0 true,
        .trigger 1 true, .stopTheWorld (.wake 0 true), .startGc 0, .resetLargeObjectPages 0 0,
        .collectorReacquire 0, .loadDeficit 0, .collectorPageOut 0, .finishCollection 0,
        .stopTheWorld (.wake 1 true)]).leadsTo
      (fun state => state.large 1 = .granted 2) = true := by
    decide +kernel
  obtain ⟨state, ran, isGranted⟩ := Outcome.exists_next_of_leadsTo ran
  refine ⟨state, of_decide_eq_true isGranted,
    large_allocations_wait false 393216 (2 ^ 26) 4096 state
    (System.ReachableBy.of_runBy _ _ (fun _ _ => awaitsPayment_of_paysFirst) (.initial rfl) _ ran)⟩

/-- With one active block, two mutators request more than the heap. Mutator 1 waits for the
collection of mutator 0, which cannot pay, and goes on all the same. With three, mutator 0 is
refused and pages blocks in while mutator 1 asks for a block's worth and finds the debt paid. Then
mutator 0 pages in one block more, because it computed what is pending before. -/
theorem large_allocations_wait_fails :
    (¬∀ state, (largeSystem false 262144 (2 ^ 26) 4096).Reachable state →
      WaitedForMemory (initialLargeState false 262144 (2 ^ 26) 4096) state) ∧
    ¬∀ state, (largeSystem false 393217 (2 ^ 26) 4096).Reachable state →
      WaitedForMemory (initialLargeState false 393217 (2 ^ 26) 4096) state := by
  constructor
  · intro holds
    have ran : (System.runBy (largeStep false) (fun _ _ => True)
        (initialLargeState false 262144 (2 ^ 26) 4096)
        [.stopTheWorld (.initForThread 0), .stopTheWorld (.initForThread 1), .request 0 100,
          .loadPending 0, .pageOut 0, .pageOut 0, .request 1 100, .loadPending 1, .pageOut 1,
          .trigger 0 true, .trigger 1 true, .stopTheWorld (.wake 0 true), .startGc 0,
          .resetLargeObjectPages 0 0, .collectorReacquire 0, .loadDeficit 0, .collectorPageOut 0,
          .finishCollection 0, .stopTheWorld (.wake 1 true)]).leadsTo
        (fun state => state.large 1 = .granted 100 ∧ state.paid 1 = false) = true := by
      decide +kernel
    obtain ⟨state, ran, facts⟩ := Outcome.exists_next_of_leadsTo ran
    obtain ⟨isGranted, unpaid⟩ := of_decide_eq_true facts
    have paid := (holds state (System.ReachableBy.of_runBy _ _ (fun _ _ => id) (.initial rfl) _
      ran)).granted 1 100 isGranted
    rw [unpaid] at paid
    cases paid
  · intro holds
    have ran : (System.runBy (largeStep false) (fun _ _ => True)
        (initialLargeState false 393217 (2 ^ 26) 4096)
        [.stopTheWorld (.initForThread 0), .stopTheWorld (.initForThread 1), .request 0 200,
          .loadPending 0, .pageOut 0, .pageOut 0, .pageOut 0, .pageOut 0, .trigger 0 true,
          .stopTheWorld (.safepoint 1), .stopTheWorld (.wake 0 true), .startGc 0,
          .resetLargeObjectPages 0 0, .collectorReacquire 0, .loadDeficit 0, .collectorPageOut 0,
          .finishCollection 0, .stopTheWorld (.wake 1 true), .withdraw 0, .reacquire 0,
          .reacquire 0, .request 1 32, .loadPending 1, .reacquire 0, .reacquire 0, .fail 0,
          .pageOut 1]).leadsTo
        (fun state => state.large 1 = .granted 32 ∧ 393217 <
          state.space.activeCount * COPY_SPACE_BLOCK_SIZE +
            (state.largeObjectPages + 32) * state.pageSize) = true := by
      decide +kernel
    obtain ⟨state, ran, facts⟩ := Outcome.exists_next_of_leadsTo ran
    obtain ⟨isGranted, exceeds⟩ := of_decide_eq_true facts
    have fits := (holds state (System.ReachableBy.of_runBy _ _ (fun _ _ => id) (.initial rfl) _
      ran)).fits 1 32 isGranted
    exact absurd exceeds (not_lt.mpr fits)

end Whippet.Pcc
