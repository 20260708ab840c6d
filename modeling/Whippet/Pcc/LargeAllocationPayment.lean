import Whippet.Pcc.LargeAllocationBudget
import Whippet.Pcc.StopTheWorldMoves

/-!
Whether large allocations of pcc wait for their memory, with the fixed heap-size policy.

A large allocation goes on when it finds the debt paid, or when `trigger_collection` returns 1. The
collector returns 1 to itself only if it found the debt paid, but a mutator that waited for another
one's collection gets 1 whatever that collection found.

Owns: the condition on returns from another mutator's collection, and the invariant by which a large
allocation that goes on has seen the debt paid. Does not own: whether it fits.
-/

namespace Whippet.Pcc

open Function

/-! ## The condition -/

/-- The next return from its wait leads the mutator back to `allocate_large`, with 1, and without a
collection of its own. -/
def LargeState.ReturnsWithoutCollecting (generational : Bool) (state : LargeState)
    (mutator : Mutator) : Prop :=
  (∃ npages, state.large mutator = .triggering npages) ∧ state.world.heap.collecting = false ∧
    ∃ kind, state.world.phase mutator = .paused (.trigger .compacting) kind ∧
      CollectionKind.compacting.toInt ≤ (state.world.pauseAnswer generational kind).toInt

/-- No large allocation returns from another mutator's collection while there is a debt. -/
def LargeAction.ReturnsPaid (generational : Bool) (state : LargeState) : LargeAction → Prop
  | .stopTheWorld (.wake mutator _) =>
      state.ReturnsWithoutCollecting generational mutator → state.space.bytesToPageOut ≤ 0
  | _ => True

/-! ## The invariant -/

/-- The debt is paid, or it has been since the mutator's request. -/
def LargeState.Seen (state : LargeState) (mutator : Mutator) : Prop :=
  state.space.bytesToPageOut ≤ 0 ∨ state.paid mutator = true

/-- The collector has found the debt paid. -/
def CollectionStage.FoundPaid : CollectionStage → Prop
  | .pagingOut pending => pending ≤ 0
  | .resolved deficit => deficit ≤ 0
  | _ => False

/-- A mutator in this phase of its allocation has found the debt paid. -/
def LargePhase.FoundPaid : LargePhase → Prop
  | .pagingOut _ pending => pending ≤ 0
  | .granted _ => True
  | _ => False

structure Paying (generational : Bool) (state : LargeState) : Prop where
  found : ∀ mutator, (state.large mutator).FoundPaid → state.Seen mutator
  resolving : ∀ mutator, state.world.lock = some mutator → state.stage.FoundPaid →
    state.Seen mutator
  serves : ∀ mutator npages, state.large mutator = .triggering npages →
    (state.world.phase mutator).Serves generational .compacting
  idle : state.world.lock = none → state.stage = .idle
  holder : ∀ mutator, state.world.lock = some mutator →
    ∃ kind, state.world.phase mutator = .collecting kind

/-- Every mutator has seen the debt paid, if it is. -/
def LargeState.Observed (state : LargeState) : Prop :=
  state.space.bytesToPageOut ≤ 0 → ∀ mutator, state.paid mutator = true

section Observe

variable {generational : Bool} {state : LargeState} {mutator : Mutator}

theorem LargeState.Observed.paid (observed : state.Observed) (seen : state.Seen mutator) :
    state.paid mutator = true := by
  rcases seen with isPaid | was
  · exact observed isPaid mutator
  · exact was

theorem observe_observed : state.observe.Observed := by
  intro isPaid mutator
  have isPaid : state.space.bytesToPageOut ≤ 0 := isPaid
  simp [LargeState.observe, isPaid]

theorem LargeState.Seen.observe (seen : state.Seen mutator) : state.observe.Seen mutator := by
  rcases seen with isPaid | was
  · exact Or.inl isPaid
  · exact Or.inr (by simp [LargeState.observe, was])

theorem observe_paying (paying : Paying generational state) :
    Paying generational state.observe where
  found := fun mutator isFound => (paying.found mutator isFound).observe
  resolving := fun mutator isHolder isFound =>
    (paying.resolving mutator isHolder isFound).observe
  serves := paying.serves
  idle := paying.idle
  holder := paying.holder

end Observe

namespace Paying

variable {generational : Bool} {before after : LargeState} {mutator : Mutator}

/-- An action of one mutator in `allocate_large`. -/
theorem move (paying : Paying generational before) (observed : before.Observed)
    (phase : LargePhase) (world : after.world = before.world) (stage : after.stage = before.stage)
    (large : after.large = update before.large mutator phase)
    (paid : ∀ other, before.paid other = true → after.paid other = true ∨
      other = mutator ∧ before.world.phase mutator = .running)
    (found : phase.FoundPaid → after.Seen mutator)
    (serves : ∀ npages, phase = .triggering npages → before.large mutator = phase) :
    Paying generational after where
  found := by
    intro other isFound
    by_cases same : other = mutator
    · subst same
      rw [large, update_self] at isFound
      exact found isFound
    · rw [large, update_of_ne same] at isFound
      rcases paid other (observed.paid (paying.found other isFound)) with isPaid | ⟨equal, -⟩
      · exact Or.inr isPaid
      · exact absurd equal same
  resolving := by
    intro other isHolder isFound
    rw [world] at isHolder
    rw [stage] at isFound
    rcases paid other (observed.paid (paying.resolving other isHolder isFound)) with
      isPaid | ⟨rfl, running⟩
    · exact Or.inr isPaid
    · obtain ⟨kind, collecting⟩ := paying.holder other isHolder
      rw [running] at collecting
      cases collecting
  serves := by
    intro other npages isTriggering
    rw [world]
    by_cases same : other = mutator
    · subst same
      rw [large, update_self] at isTriggering
      exact paying.serves other npages ((serves npages isTriggering).trans isTriggering)
    · rw [large, update_of_ne same] at isTriggering
      exact paying.serves other npages isTriggering
  idle := by
    rw [world, stage]
    exact paying.idle
  holder := by
    rw [world]
    exact paying.holder

/-- An action of the collector, or of none of the mutators. -/
theorem advance (paying : Paying generational before) (observed : before.Observed)
    (world : after.world = before.world) (large : after.large = before.large)
    (paid : after.paid = before.paid)
    (resolving : ∀ other, before.world.lock = some other → after.stage.FoundPaid →
      after.Seen other)
    (idle : before.world.lock = none → after.stage = .idle) : Paying generational after where
  found := by
    intro other isFound
    rw [large] at isFound
    refine Or.inr ?_
    rw [paid]
    exact observed.paid (paying.found other isFound)
  resolving := by
    rw [world]
    exact resolving
  serves := by
    rw [world, large]
    exact paying.serves
  idle := by
    rw [world]
    exact idle
  holder := by
    rw [world]
    exact paying.holder

/-- A step of the mutators' protocol that leaves the space alone. -/
theorem transfer (paying : Paying generational before) {world : World} {becomes : Phase → Prop}
    (moves : Moves before.world world mutator becomes) (phase : LargePhase)
    (found : phase.FoundPaid → before.Seen mutator)
    (holder : before.world.lock = some mutator → before.world.phase mutator = world.phase mutator)
    (serves : ∀ npages, phase = .triggering npages →
      (world.phase mutator).Serves generational .compacting) :
    Paying generational ({ before with world := world }.setLarge mutator phase) where
  found := by
    intro other isFound
    by_cases same : other = mutator
    · subst same
      simp only [LargeState.setLarge, update_self] at isFound
      exact found isFound
    · simp only [LargeState.setLarge, update_of_ne same] at isFound
      exact paying.found other isFound
  resolving := by
    intro other isHolder isFound
    rcases moves.lock_eq with kept | ⟨free, -, -⟩
    · exact paying.resolving other (kept.symm.trans isHolder) isFound
    · have stage : before.stage = .idle := paying.idle free
      have isFound : before.stage.FoundPaid := isFound
      rw [stage] at isFound
      exact isFound.elim
  serves := by
    intro other npages isTriggering
    by_cases same : other = mutator
    · subst same
      simp only [LargeState.setLarge, update_self] at isTriggering
      exact serves npages isTriggering
    · simp only [LargeState.setLarge, update_of_ne same] at isTriggering
      show (world.phase other).Serves generational .compacting
      rw [moves.phase_other same]
      exact paying.serves other npages isTriggering
  idle := by
    intro free
    rcases moves.lock_eq with kept | ⟨-, taken, -⟩
    · exact paying.idle (kept.symm.trans free)
    · have free : world.lock = none := free
      rw [taken] at free
      cases free
  holder := by
    intro other isHolder
    rcases moves.lock_eq with kept | ⟨-, taken, collecting⟩
    · have was : before.world.lock = some other := kept.symm.trans isHolder
      obtain ⟨kind, collecting⟩ := paying.holder other was
      refine ⟨kind, ?_⟩
      show world.phase other = .collecting kind
      by_cases same : other = mutator
      · subst same
        rw [← holder was]
        exact collecting
      · rw [moves.phase_other same]
        exact collecting
    · have isHolder : world.lock = some other := isHolder
      rw [taken, Option.some.injEq] at isHolder
      subst isHolder
      exact collecting

end Paying

/-! ## Steps -/

section Steps

variable {generational oldSpaceHasRoom : Bool} {before after : LargeState} {mutator : Mutator}
variable {action : LargeAction}

theorem determineCollectionKind_compacting :
    determineCollectionKind generational oldSpaceHasRoom .compacting = .compacting := by
  simp [determineCollectionKind]

theorem returnedFromPause_of_ne {was now : Phase} {large : LargePhase}
    (notRunning : now ≠ .running) : returnedFromPause was now large = large := by
  unfold returnedFromPause
  split
  · rw [if_neg notRunning]
  · rfl

/-- What the mutator's protocol does to a large allocation: it goes on waiting, or it returns from
another mutator's collection. -/
theorem stopTheWorldStep_cases {action : Action} (paying : Paying generational before)
    (stepped : stopTheWorldStep before generational action = .next after) :
    ∃ world, Moves before.world world action.mutator (fun _ => True) ∧
      (before.world.lock = some action.mutator →
        before.world.phase action.mutator = world.phase action.mutator) ∧
      (after = ({ before with world := world }.setLarge action.mutator
          (before.large action.mutator)) ∧
        (∀ npages, before.large action.mutator = .triggering npages →
          (world.phase action.mutator).Serves generational .compacting) ∨
      ∃ npages oldSpaceHasRoom, before.large action.mutator = .triggering npages ∧
        action = .wake action.mutator oldSpaceHasRoom ∧
        before.ReturnsWithoutCollecting generational action.mutator ∧
        after = ({ before with world := world }.setLarge action.mutator (.granted npages))) := by
  simp only [stopTheWorldStep, Outcome.bind_eq_next, Outcome.require_eq_next,
    Outcome.mapFailure_eq_next, Outcome.pure_eq_next, Outcome.next.injEq] at stepped
  obtain ⟨-, outside, world, stepped, rfl⟩ := stepped
  have other : ∀ mutator, action ≠ .finishCollection mutator := by
    rintro mutator rfl
    cases outside
  refine ⟨world, step_moves other stepped, ?_, ?_⟩
  · intro held
    obtain ⟨kind, collecting⟩ := paying.holder _ held
    exact absurd collecting (step_not_collecting other stepped held)
  by_cases triggering : ∃ npages, before.large action.mutator = .triggering npages
  · obtain ⟨npages, triggering⟩ := triggering
    have isWake : ∃ oldSpaceHasRoom, action = .wake action.mutator oldSpaceHasRoom := by
      cases action with
      | wake mutator oldSpaceHasRoom => exact ⟨oldSpaceHasRoom, rfl⟩
      | _ => simp [Action.outside, triggering] at outside
    obtain ⟨oldSpaceHasRoom, isWake⟩ := isWake
    generalize action.mutator = mutator at *
    subst isWake
    simp only [step, Outcome.require_bind_eq_next] at stepped
    obtain ⟨free, woken⟩ := stepped
    have serves := paying.serves mutator npages triggering
    rcases (wake_serves free serves woken).phase_self with
      still | ⟨isRunning, calm, kind, was, covers⟩
    · have waits : returnedFromPause (before.world.phase mutator) (world.phase mutator)
          (before.large mutator) = before.large mutator := by
        apply returnedFromPause_of_ne
        intro isRunning
        rw [isRunning] at still
        cases still
      rw [waits]
      exact Or.inl ⟨rfl, fun _ _ => still⟩
    · have returns : returnedFromPause (before.world.phase mutator) (world.phase mutator)
          (before.large mutator) = .granted npages := by
        rw [triggering, was, isRunning]
        rfl
      rw [returns]
      exact Or.inr ⟨npages, oldSpaceHasRoom, triggering, rfl,
        ⟨⟨npages, triggering⟩, calm, kind, was, covers⟩, rfl⟩
  · have same : returnedFromPause (before.world.phase action.mutator)
        (world.phase action.mutator) (before.large action.mutator) =
          before.large action.mutator := by
      unfold returnedFromPause
      split
      next npages _ _ isTriggering _ => exact absurd ⟨npages, isTriggering⟩ triggering
      · rfl
    rw [same]
    exact Or.inl ⟨rfl, fun npages isTriggering => absurd ⟨npages, isTriggering⟩ triggering⟩

theorem stopTheWorldStep_paying {action : Action} (paying : Paying generational before)
    (returnsPaid : (LargeAction.stopTheWorld action).ReturnsPaid generational before)
    (stepped : stopTheWorldStep before generational action = .next after) :
    Paying generational after := by
  obtain ⟨world, moves, holder, ⟨rfl, serves⟩ | ⟨npages, _, _, isWake, returns, rfl⟩⟩ :=
    stopTheWorldStep_cases paying stepped
  · exact paying.transfer moves _ (paying.found _) holder serves
  · rw [isWake] at returnsPaid
    have paid := returnsPaid returns
    exact paying.transfer moves _ (fun _ => Or.inl paid) holder (by simp)

theorem pageOut_paying (paying : Paying generational before) (observed : before.Observed)
    (paged : pageOut before mutator = .next after) : Paying generational after := by
  unfold pageOut at paged
  split at paged
  next npages pending was =>
    split at paged
    · split at paged
      · cases paged
        exact paying.move observed (.short npages) rfl rfl rfl (fun _ => Or.inl) False.elim
          (by simp)
      next space _ =>
        cases paged
        exact paying.move observed (.pagingOut npages space.bytesToPageOut) rfl rfl rfl
          (fun _ => Or.inl) Or.inl (by simp)
    next paid =>
      cases paged
      have isFound : (before.large mutator).FoundPaid := by
        rw [was]
        exact not_lt.mp paid
      exact paying.move observed (.granted npages) rfl rfl rfl (fun _ => Or.inl)
        (fun _ => paying.found mutator isFound) (by simp)
  · cases paged

theorem trigger_paying (paying : Paying generational before)
    (triggered : trigger before mutator generational oldSpaceHasRoom = .next after) :
    Paying generational after := by
  unfold trigger at triggered
  split at triggered
  next npages was =>
    simp only [Outcome.bind_eq_next, Outcome.mapFailure_eq_next, Outcome.pure_eq_next,
      Outcome.next.injEq, step, Outcome.require_eq_next] at triggered
    obtain ⟨world, ⟨-, -, -, free, triggered⟩, rfl⟩ := triggered
    have moves := triggerCollection_moves free triggered
    exact paying.transfer moves (.triggering npages) False.elim
      (fun held => by rw [free] at held; cases held) (fun _ _ => moves.phase_self)
  · cases triggered

/-- The collector returns 1 to its own large allocation only if it has found the debt paid. -/
theorem finishLargeCollection_cases (paying : Paying generational before)
    (finished : finishLargeCollection before mutator = .next after) :
    ∃ world phase, after = ({ before with world := world, stage := .idle }.setLarge mutator phase) ∧
      before.world.lock = some mutator ∧ world.lock = none ∧
      (∀ other, other ≠ mutator → world.phase other = before.world.phase other) ∧
      ((∀ npages, before.large mutator ≠ .triggering npages) ∧ phase = before.large mutator ∨
        ∃ npages, before.large mutator = .triggering npages ∧
          (phase = .refused npages ∨ phase = .granted npages ∧ before.stage.FoundPaid)) := by
  simp only [finishLargeCollection, Outcome.require_bind_eq_next] at finished
  obtain ⟨held, finished⟩ := finished
  split at finished
  next deficit kind resolved kindEq =>
    simp only [Outcome.bind_eq_next, Outcome.mapFailure_eq_next, Outcome.pure_eq_next,
      Outcome.next.injEq, finishCollection_eq_next] at finished
    obtain ⟨world, ⟨-, -, -, rfl⟩, rfl⟩ := finished
    have collecting : before.world.phase mutator = .collecting kind := by
      unfold collectionKind at kindEq
      split at kindEq
      next collecting =>
        cases kindEq
        exact collecting
      · cases kindEq
    refine ⟨_, _, rfl, held, rfl, fun other different => by simp [World.setPhase, different], ?_⟩
    by_cases triggering : ∃ npages, before.large mutator = .triggering npages
    · obtain ⟨npages, triggering⟩ := triggering
      refine Or.inr ⟨npages, triggering, ?_⟩
      have serves := paying.serves mutator npages triggering
      rw [collecting] at serves
      obtain ⟨_, rfl⟩ := serves
      rw [triggering, returnedFromCollect, determineCollectionKind_compacting]
      split
      next success =>
        refine Or.inr ⟨rfl, ?_⟩
        rw [resolved]
        by_contra owed
        have owed : ¬deficit ≤ 0 := owed
        simp [computeSuccess, owed] at success
      · exact Or.inl rfl
    · refine Or.inl ⟨fun npages isTriggering => triggering ⟨npages, isTriggering⟩, ?_⟩
      unfold returnedFromCollect
      split
      next npages isTriggering => exact absurd ⟨npages, isTriggering⟩ triggering
      · rfl
  · cases finished

theorem finishLargeCollection_paying (paying : Paying generational before)
    (finished : finishLargeCollection before mutator = .next after) :
    Paying generational after := by
  obtain ⟨world, phase, rfl, held, free, phases, large⟩ :=
    finishLargeCollection_cases paying finished
  refine
    { found := ?_, resolving := by simp [LargeState.setLarge, free], serves := ?_,
      idle := fun _ => rfl, holder := by simp [LargeState.setLarge, free] }
  · intro other isFound
    by_cases same : other = mutator
    · subst same
      simp only [LargeState.setLarge, update_self] at isFound
      rcases large with ⟨-, rfl⟩ | ⟨npages, -, rfl | ⟨rfl, paid⟩⟩
      · exact paying.found other isFound
      · cases isFound
      · exact paying.resolving other held paid
    · simp only [LargeState.setLarge, update_of_ne same] at isFound
      exact paying.found other isFound
  · intro other npages isTriggering
    by_cases same : other = mutator
    · subst same
      simp only [LargeState.setLarge, update_self] at isTriggering
      rcases large with ⟨notTriggering, rfl⟩ | ⟨_, -, rfl | ⟨rfl, -⟩⟩
      · exact absurd isTriggering (notTriggering npages)
      · cases isTriggering
      · cases isTriggering
    · simp only [LargeState.setLarge, update_of_ne same] at isTriggering
      show (world.phase other).Serves generational .compacting
      rw [phases other same]
      exact paying.serves other npages isTriggering

/-- Every permitted action keeps the invariant. -/
theorem performLarge_paying (paying : Paying generational before) (observed : before.Observed)
    (returnsPaid : action.ReturnsPaid generational before)
    (performed : performLarge generational before action = .next after) :
    Paying generational after := by
  cases action with
  | stopTheWorld action => exact stopTheWorldStep_paying paying returnsPaid performed
  | pageOut mutator => exact pageOut_paying paying observed performed
  | trigger mutator oldSpaceHasRoom => exact trigger_paying paying performed
  | finishCollection mutator => exact finishLargeCollection_paying paying performed
  | acquireBlock mutator =>
      simp only [performLarge, acquireBlock, Outcome.require_bind_eq_next] at performed
      obtain ⟨-, -, performed⟩ := performed
      split at performed
      · cases performed
      · cases performed
        exact paying.advance observed rfl rfl rfl
          (fun other held isFound => Or.inr (observed.paid (paying.resolving other held isFound)))
          paying.idle
  | request mutator npages =>
      simp only [performLarge, requestMemory, Outcome.require_bind_eq_next, Outcome.pure_eq_next,
        Outcome.next.injEq] at performed
      obtain ⟨⟨running, -⟩, rfl⟩ := performed
      refine paying.move observed (.requested npages) rfl rfl rfl ?_ False.elim (by simp)
      intro other paid
      by_cases same : other = mutator
      · exact Or.inr ⟨same, running⟩
      · refine Or.inl ?_
        simpa [LargeState.setLarge, same] using paid
  | loadPending mutator =>
      simp only [performLarge, loadPending] at performed
      split at performed
      · cases performed
        exact paying.move observed (.pagingOut _ _) rfl rfl rfl (fun _ => Or.inl) Or.inl (by simp)
      · cases performed
  | withdraw mutator =>
      simp only [performLarge, withdraw] at performed
      split at performed
      · cases performed
        exact paying.move observed (.reacquiring _) rfl rfl rfl (fun _ => Or.inl) False.elim
          (by simp)
      · cases performed
  | reacquire mutator =>
      simp only [performLarge, reacquire] at performed
      split at performed
      · split at performed
        · split at performed <;> cases performed
          · exact paying.move observed .failing rfl rfl rfl (fun _ => Or.inl) False.elim (by simp)
          · exact paying.move observed (.reacquiring _) rfl rfl rfl (fun _ => Or.inl) False.elim
              (by simp)
        · cases performed
          exact paying.move observed .failing rfl rfl rfl (fun _ => Or.inl) False.elim (by simp)
      · cases performed
  | fail mutator =>
      simp only [performLarge, fail, Outcome.require_bind_eq_next, Outcome.pure_eq_next,
        Outcome.next.injEq] at performed
      obtain ⟨-, rfl⟩ := performed
      exact paying.move observed .idle rfl rfl rfl (fun _ => Or.inl) False.elim (by simp)
  | allocate mutator =>
      simp only [performLarge, allocate] at performed
      split at performed
      · cases performed
        exact paying.move observed .idle rfl rfl rfl (fun _ => Or.inl) False.elim (by simp)
      · cases performed
  | startGc mutator =>
      simp only [performLarge, startGc, Outcome.require_bind_eq_next] at performed
      obtain ⟨⟨held, -⟩, performed⟩ := performed
      split at performed
      · cases performed
      · cases performed
        exact paying.advance observed rfl rfl rfl (fun _ _ => False.elim) (by simp [held])
  | evacuate mutator =>
      simp only [performLarge, evacuate, Outcome.require_bind_eq_next] at performed
      obtain ⟨⟨held, isTracing⟩, performed⟩ := performed
      split at performed
      · cases performed
      · cases performed
        exact paying.advance observed rfl rfl rfl (by simp [isTracing, CollectionStage.FoundPaid])
          (by simp [held])
  | resetLargeObjectPages mutator npages =>
      simp only [performLarge, resetLargeObjectPages, Outcome.require_bind_eq_next,
        Outcome.check_bind_eq_next, Outcome.pure_eq_next, Outcome.next.injEq] at performed
      obtain ⟨⟨held, -⟩, -, rfl⟩ := performed
      exact paying.advance observed rfl rfl rfl (fun _ _ => False.elim) (by simp [held])
  | collectorReacquire mutator =>
      simp only [performLarge, collectorReacquire, Outcome.require_bind_eq_next] at performed
      obtain ⟨held, performed⟩ := performed
      split at performed
      · split at performed
        · split at performed
          · cases performed
          · cases performed
            exact paying.advance observed rfl rfl rfl (fun _ _ => False.elim) (by simp [held])
        · cases performed
          exact paying.advance observed rfl rfl rfl (fun _ _ => False.elim) (by simp [held])
      · cases performed
  | loadDeficit mutator =>
      simp only [performLarge, loadDeficit, Outcome.require_bind_eq_next, Outcome.pure_eq_next,
        Outcome.next.injEq] at performed
      obtain ⟨⟨held, -⟩, rfl⟩ := performed
      exact paying.advance observed rfl rfl rfl (fun _ _ => Or.inl) (by simp [held])
  | collectorPageOut mutator =>
      simp only [performLarge, collectorPageOut, Outcome.require_bind_eq_next] at performed
      obtain ⟨held, performed⟩ := performed
      split at performed
      next pending isPaging =>
        have kept : pending ≤ 0 → ∀ other, before.world.lock = some other →
            before.paid other = true := by
          intro paid other isHolder
          apply observed.paid (paying.resolving other isHolder _)
          rw [isPaging]
          exact paid
        split at performed
        next owed =>
          split at performed
          · cases performed
            exact paying.advance observed rfl rfl rfl
              (fun other isHolder isFound => Or.inr (kept isFound other isHolder)) (by simp [held])
          · cases performed
            exact paying.advance observed rfl rfl rfl (fun _ _ => Or.inl) (by simp [held])
        · cases performed
          exact paying.advance observed rfl rfl rfl
            (fun other isHolder isFound => Or.inr (kept isFound other isHolder)) (by simp [held])
      · cases performed
  | advancePageOutQueue | pageOutBlocks =>
      cases performed
      exact paying.advance observed rfl rfl rfl
        (fun other held isFound => Or.inr (observed.paid (paying.resolving other held isFound)))
        paying.idle

theorem largeStep_paying (paying : Paying generational before) (observed : before.Observed)
    (returnsPaid : action.ReturnsPaid generational before)
    (stepped : largeStep generational before action = .next after) :
    Paying generational after ∧ after.Observed := by
  simp only [largeStep, Outcome.bind_eq_next, Outcome.pure_eq_next, Outcome.next.injEq] at stepped
  obtain ⟨performed, stepped, rfl⟩ := stepped
  exact ⟨observe_paying (performLarge_paying paying observed returnsPaid stepped),
    observe_observed⟩

end Steps

theorem initialLargeState_paying (generational : Bool) (size base pageSize : ℕ) :
    Paying generational (initialLargeState generational size base pageSize) where
  found := by simp [initialLargeState, LargePhase.FoundPaid]
  resolving := by simp [initialLargeState, initialWorld]
  serves := by simp [initialLargeState]
  idle := fun _ => rfl
  holder := by simp [initialLargeState, initialWorld]

end Whippet.Pcc
