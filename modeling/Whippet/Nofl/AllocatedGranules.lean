import Whippet.Nofl.Allocators

/-!
The granules that were allocated since the last collection.

`allocated_granules_since_last_collection` counts the holes of a block when an allocator releases it
as full. No other operation on blocks touches it, until the end of a collection resets it.

Owns: that the counter does not decrease between collections. Does not own: what the counter is used
for.
-/

namespace Whippet.Nofl

open Function

namespace BlockSpace

/-- `allocated_granules_since_last_collection`. -/
def allocatedGranules (space : BlockSpace) : ℕ :=
  space.statistics.allocatedGranulesSinceLastCollection

variable {space popped result : BlockSpace} {name : ListName} {block : ℕ}

/-! ## What leaves the counter alone -/

@[simp] theorem allocatedGranules_setSummary (summary : LinkedSummary) :
    (space.setSummary block summary).allocatedGranules = space.allocatedGranules := rfl

@[simp] theorem allocatedGranules_noflBlockSetFlag (flags : BitVec 64) :
    (space.noflBlockSetFlag block flags).allocatedGranules = space.allocatedGranules := rfl

@[simp] theorem allocatedGranules_noflBlockClearFlag (flags : BitVec 64) :
    (space.noflBlockClearFlag block flags).allocatedGranules = space.allocatedGranules := rfl

@[simp] theorem allocatedGranules_noflBlockListPush :
    (space.noflBlockListPush name block).allocatedGranules = space.allocatedGranules := rfl

@[simp] theorem allocatedGranules_addPending (bytes : ℤ) :
    (space.addPending bytes).allocatedGranules = space.allocatedGranules := rfl

@[simp] theorem allocatedGranules_addOldGenerationGranules (granules : ℕ) :
    (space.addOldGenerationGranules granules).allocatedGranules = space.allocatedGranules := rfl

@[simp] theorem allocatedGranules_noflSpaceAddSlabs (slabs : List ℕ) :
    (space.noflSpaceAddSlabs slabs).allocatedGranules = space.allocatedGranules := rfl

theorem allocatedGranules_of_pop (isPop : space.noflBlockListPop name = some (block, popped)) :
    popped.allocatedGranules = space.allocatedGranules := by
  rw [noflBlockListPop_eq_some_iff] at isPop
  rw [isPop.2.2]
  rfl

theorem allocatedGranules_whilePops {body : ℕ → BlockSpace → BlockSpace}
    (bodyKeeps : ∀ block space, (body block space).allocatedGranules = space.allocatedGranules)
    (rounds : ℕ) (space : BlockSpace) :
    (whilePops name body rounds space).allocatedGranules = space.allocatedGranules := by
  induction rounds generalizing space with
  | zero => rfl
  | succ rounds inductionHypothesis =>
      rw [whilePops]
      split
      · rfl
      · rename_i popped isPop
        rw [inductionHypothesis, bodyKeeps, allocatedGranules_of_pop isPop]

@[simp] theorem allocatedGranules_noflPushUnavailableBlock :
    (space.noflPushUnavailableBlock block).allocatedGranules = space.allocatedGranules := by
  rw [noflPushUnavailableBlock]
  split <;> rfl

theorem allocatedGranules_of_maybePush {reserve : ℚ}
    (isPush : space.noflMaybePushEvacuationTarget block reserve = some result) :
    result.allocatedGranules = space.allocatedGranules := by
  rw [noflMaybePushEvacuationTarget] at isPush
  split at isPush
  · cases isPush
  · obtain rfl := Option.some.inj isPush
    rfl

@[simp] theorem allocatedGranules_pushAvailableBlock :
    (space.pushAvailableBlock block).allocatedGranules = space.allocatedGranules := by
  rw [pushAvailableBlock]
  cases isPush : space.noflPushEvacuationTargetIfNeeded block with
  | none => rfl
  | some pushed => exact allocatedGranules_of_maybePush isPush

theorem allocatedGranules_of_popUnavailable
    (isPop : space.noflPopUnavailableBlock = some (block, popped)) :
    popped.allocatedGranules = space.allocatedGranules := by
  rw [noflPopUnavailableBlock] at isPop
  generalize [(0 : Fin NOFL_PAGE_OUT_QUEUE_SIZE), 1, 2, 3] = ages at isPop
  induction ages with
  | nil => cases isPop
  | cons age ages inductionHypothesis =>
      rw [popUnavailableLoop] at isPop
      split at isPop
      · exact inductionHypothesis isPop
      · rename_i head isHead
        obtain ⟨rfl, rfl⟩ := Prod.mk.inj (Option.some.inj isPop)
        have same := allocatedGranules_of_pop isHead
        exact same

theorem allocatedGranules_reacquireLoop (rounds : ℕ) (space : BlockSpace) :
    (reacquireLoop rounds space).allocatedGranules = space.allocatedGranules := by
  induction rounds generalizing space with
  | zero => rfl
  | succ rounds inductionHypothesis =>
      rw [reacquireLoop]
      split
      · split
        · rfl
        · rename_i isPop
          rw [inductionHypothesis]
          simp [allocatedGranules_of_popUnavailable isPop]
      · rfl

@[simp] theorem allocatedGranules_noflSpaceMaybeReacquireMemory (bytes : ℕ) :
    (space.noflSpaceMaybeReacquireMemory bytes).allocatedGranules = space.allocatedGranules :=
  allocatedGranules_reacquireLoop _ _

theorem allocatedGranules_shrinkLoop {source : ListName} {target : ℕ} (avail : ℕ)
    (space : BlockSpace) :
    (shrinkLoop source target avail space).allocatedGranules = space.allocatedGranules := by
  induction avail generalizing space with
  | zero => rfl
  | succ avail inductionHypothesis =>
      rw [shrinkLoop]
      split
      · split
        · rfl
        · rename_i isPop
          rw [inductionHypothesis]
          simp [allocatedGranules_of_pop isPop]
      · rfl

@[simp] theorem allocatedGranules_noflSpaceShrink (bytes : ℕ) :
    (space.noflSpaceShrink bytes).allocatedGranules = space.allocatedGranules := by
  rw [noflSpaceShrink]
  split
  · rw [allocatedGranules_shrinkLoop, allocatedGranules_shrinkLoop]
    rfl
  · rw [allocatedGranules_shrinkLoop]
    rfl

theorem allocatedGranules_foldl_pushFreshBlock (blocks : List ℕ) (space : BlockSpace) :
    (blocks.foldl pushFreshBlock space).allocatedGranules = space.allocatedGranules := by
  induction blocks generalizing space with
  | nil => rfl
  | cons block blocks inductionHypothesis =>
      rw [List.foldl_cons, inductionHypothesis]
      simp [pushFreshBlock]

@[simp] theorem allocatedGranules_noflSpaceExpand (bytes base : ℕ) :
    (space.noflSpaceExpand bytes base).allocatedGranules = space.allocatedGranules := by
  rw [noflSpaceExpand]
  split
  · exact allocatedGranules_noflSpaceMaybeReacquireMemory bytes
  · rw [pushNewSlabs, allocatedGranules_noflSpaceMaybeReacquireMemory,
      allocatedGranules_foldl_pushFreshBlock]
    exact allocatedGranules_noflSpaceMaybeReacquireMemory bytes

theorem allocatedGranules_of_advanceAge {age older : Fin NOFL_PAGE_OUT_QUEUE_SIZE}
    (advanced : space.advanceAge age older = some result) :
    result.allocatedGranules = space.allocatedGranules := by
  rw [advanceAge] at advanced
  split at advanced
  · cases advanced
  · rename_i isPop
    obtain rfl := Option.some.inj advanced
    have same := allocatedGranules_of_pop isPop
    exact same

@[simp] theorem allocatedGranules_noflSpaceAdvancePageOutQueue :
    space.noflSpaceAdvancePageOutQueue.allocatedGranules = space.allocatedGranules := by
  rw [noflSpaceAdvancePageOutQueue]
  split
  · rfl
  · rename_i first isFirst
    cases isSecond : first.advanceAge 0 1 with
    | none => exact allocatedGranules_of_advanceAge isFirst
    | some second =>
        exact (allocatedGranules_of_advanceAge isSecond).trans
          (allocatedGranules_of_advanceAge isFirst)

@[simp] theorem allocatedGranules_noflSpacePageOutBlocks :
    space.noflSpacePageOutBlocks.allocatedGranules = space.allocatedGranules := by
  apply allocatedGranules_whilePops
  exact fun _ _ => rfl

@[simp] theorem allocatedGranules_noflSpaceSetHeapHasAmbiguousEdges :
    space.noflSpaceSetHeapHasAmbiguousEdges.allocatedGranules = space.allocatedGranules := by
  rw [noflSpaceSetHeapHasAmbiguousEdges]
  split <;> rfl

/-! ## Allocators -/

variable {allocator : Allocator}

@[simp] theorem allocatedGranules_noflAllocatorFinishHole :
    (space.noflAllocatorFinishHole block allocator).allocatedGranules =
      space.allocatedGranules := by
  rw [noflAllocatorFinishHole]
  split <;> rfl

theorem allocatedGranules_finishSweeping (holes : List Hole) (allocator : Allocator)
    (space : BlockSpace) :
    (noflAllocatorFinishSweepingInBlock block allocator holes space).allocatedGranules =
      space.allocatedGranules := by
  induction holes generalizing allocator space with
  | nil => exact allocatedGranules_noflAllocatorFinishHole
  | cons hole holes inductionHypothesis =>
      rw [noflAllocatorFinishSweepingInBlock, inductionHypothesis]
      exact allocatedGranules_noflAllocatorFinishHole

/-- Releasing a full block counts its holes. -/
theorem allocatedGranules_noflAllocatorReleaseFullBlock :
    (space.noflAllocatorReleaseFullBlock block).allocatedGranules =
      space.allocatedGranules + (space.summary block).holeGranules := by
  rw [noflAllocatorReleaseFullBlock]
  split <;> rfl

theorem allocatedGranules_le_releaseFullBlock
    (same : result.allocatedGranules = space.allocatedGranules) :
    space.allocatedGranules ≤ (result.noflAllocatorReleaseFullBlock block).allocatedGranules := by
  rw [allocatedGranules_noflAllocatorReleaseFullBlock, same]
  exact Nat.le_add_right _ _

@[simp] theorem allocatedGranules_releaseFullEvacuationTarget :
    (space.noflAllocatorReleaseFullEvacuationTarget block allocator).allocatedGranules =
      space.allocatedGranules := by
  rw [noflAllocatorReleaseFullEvacuationTarget]
  split <;> rfl

theorem allocatedGranules_le_releaseBlock (holes : List Hole) :
    space.allocatedGranules ≤
      (space.noflAllocatorReleaseBlock block allocator holes).allocatedGranules := by
  rw [noflAllocatorReleaseBlock]
  split
  · exact Nat.le_refl _
  · split
    · exact allocatedGranules_releaseFullEvacuationTarget.ge
    · exact allocatedGranules_le_releaseFullBlock (allocatedGranules_finishSweeping _ _ _)

theorem allocatedGranules_of_acquireBlockToSweep
    (acquired : space.noflAllocatorAcquireBlockToSweep = some (allocator, result)) :
    result.allocatedGranules = space.allocatedGranules := by
  rw [noflAllocatorAcquireBlockToSweep] at acquired
  split at acquired
  · cases acquired
  · rename_i isPop
    obtain ⟨-, rfl⟩ := Prod.mk.inj (Option.some.inj acquired)
    have same := allocatedGranules_of_pop isPop
    exact same

theorem allocatedGranules_of_acquireEmptyBlock
    (acquired : space.noflAllocatorAcquireEmptyBlock = some (allocator, result)) :
    result.allocatedGranules = space.allocatedGranules := by
  rw [noflAllocatorAcquireEmptyBlock] at acquired
  split at acquired
  · cases acquired
  · rename_i isPop
    dsimp only at acquired
    obtain ⟨-, rfl⟩ := Prod.mk.inj (Option.some.inj acquired)
    have same := allocatedGranules_of_pop isPop
    split <;> exact same

theorem allocatedGranules_of_acquireEvacuationTarget
    (acquired : space.noflAllocatorAcquireEvacuationTarget = some (allocator, result)) :
    result.allocatedGranules = space.allocatedGranules := by
  rw [noflAllocatorAcquireEvacuationTarget] at acquired
  split at acquired
  · exact allocatedGranules_of_acquireEmptyBlock acquired
  · rename_i granules partly popped isPartly
    have same : popped.allocatedGranules = space.allocatedGranules := by
      rw [noflAllocatorAcquirePartlyFullBlock] at isPartly
      split at isPartly
      · cases isPartly
      · rename_i isPop
        obtain ⟨-, -, rfl⟩ := Option.some.inj isPartly
        have same := allocatedGranules_of_pop isPop
        exact same
    split at acquired
    · obtain ⟨-, rfl⟩ := Prod.mk.inj (Option.some.inj acquired)
      exact same
    · cases isEmpty : popped.noflAllocatorAcquireEmptyBlock with
      | none =>
          rw [isEmpty] at acquired
          obtain ⟨-, rfl⟩ := Prod.mk.inj (Option.some.inj acquired)
          exact same
      | some found =>
          rw [isEmpty] at acquired
          obtain rfl := Option.some.inj acquired
          exact (allocatedGranules_of_acquireEmptyBlock isEmpty).trans same

end BlockSpace

/-! ## Steps -/

/-- The operations that are not part of a collection. -/
def BlockAction.IsCollection : BlockAction → Prop
  | .startGc _ | .finishGc _ _ _ => True
  | _ => False

instance : (action : BlockAction) → Decidable action.IsCollection
  | .startGc _ | .finishGc _ _ _ => .isTrue trivial
  | .bump _ _ | .sweep _ _ | .acquireBlockToSweep _ | .acquireEvacuationTarget _
  | .acquireEmptyBlock _ | .rejectPartlyFullBlock _ | .releaseFullEvacuationTarget _ | .finish _ _
  | .requestReleaseMemory _ | .shrink _ | .expand _ _ | .advancePageOutQueue | .pageOutBlocks
  | .setHeapHasAmbiguousEdges => .isFalse id

namespace BlockWorld

open BlockSpace

variable {world after : BlockWorld} {name : AllocatorName}

theorem allocatedGranules_acquired {result : Option (Allocator × BlockSpace)}
    (keeps : ∀ allocator space, result = some (allocator, space) →
      space.allocatedGranules = world.space.allocatedGranules)
    (stepped : world.withoutBlock name result = .next after) :
    world.space.allocatedGranules ≤ after.space.allocatedGranules := by
  rw [withoutBlock, Outcome.require_bind_eq_next, Outcome.pure_eq_next,
    Outcome.next.injEq] at stepped
  obtain ⟨-, rfl⟩ := stepped
  rcases result with _ | ⟨allocator, space⟩
  · exact Nat.le_refl _
  · exact (keeps allocator space rfl).ge

theorem of_withBlock {act : ℕ → Outcome Empty BlockWorld}
    (stepped : world.withBlock name act = .next after) : ∃ block, act block = .next after := by
  rw [withBlock] at stepped
  split at stepped
  · exact ⟨_, stepped⟩
  · cases stepped

/-- The counter does not decrease between collections. -/
theorem allocatedGranules_le {action : BlockAction} (notCollection : ¬action.IsCollection)
    (stepped : blockStep world action = .next after) :
    world.space.allocatedGranules ≤ after.space.allocatedGranules := by
  cases action with
  | bump name granules =>
      simp only [blockStep, bump, Outcome.bind_eq_next, Outcome.pure_eq_next,
        Outcome.next.injEq] at stepped
      obtain ⟨_, -, rfl⟩ := stepped
      exact Nat.le_refl _
  | sweep name hole =>
      obtain ⟨block, swept⟩ := of_withBlock stepped
      cases hole with
      | none =>
          obtain rfl := Outcome.next.inj swept
          exact allocatedGranules_le_releaseFullBlock allocatedGranules_noflAllocatorFinishHole
      | some hole =>
          simp only [sweepTurn, Outcome.bind_eq_next, Outcome.pure_eq_next,
            Outcome.next.injEq] at swept
          obtain ⟨_, -, rfl⟩ := swept
          exact allocatedGranules_noflAllocatorFinishHole.ge
  | acquireBlockToSweep name =>
      exact allocatedGranules_acquired (fun _ _ => allocatedGranules_of_acquireBlockToSweep) stepped
  | acquireEvacuationTarget name =>
      exact allocatedGranules_acquired (fun _ _ => allocatedGranules_of_acquireEvacuationTarget)
        stepped
  | acquireEmptyBlock name =>
      exact allocatedGranules_acquired (fun _ _ => allocatedGranules_of_acquireEmptyBlock) stepped
  | rejectPartlyFullBlock name =>
      obtain ⟨block, rejected⟩ := of_withBlock stepped
      obtain rfl := Outcome.next.inj rejected
      exact allocatedGranules_le_releaseFullBlock allocatedGranules_noflAllocatorFinishHole
  | releaseFullEvacuationTarget name =>
      obtain ⟨block, released⟩ := of_withBlock stepped
      obtain rfl := Outcome.next.inj released
      exact allocatedGranules_releaseFullEvacuationTarget.ge
  | finish name holes =>
      obtain ⟨block, released⟩ := of_withBlock stepped
      obtain rfl := Outcome.next.inj released
      exact allocatedGranules_le_releaseBlock holes
  | requestReleaseMemory bytes =>
      obtain rfl := Outcome.next.inj stepped
      exact Nat.le_refl _
  | shrink bytes =>
      obtain rfl := Outcome.next.inj stepped
      exact (allocatedGranules_noflSpaceShrink bytes).ge
  | expand bytes base =>
      simp only [blockStep, Outcome.bind_eq_next, Outcome.pure_eq_next,
        Outcome.next.injEq] at stepped
      obtain ⟨_, -, rfl⟩ := stepped
      exact (allocatedGranules_noflSpaceExpand bytes base).ge
  | advancePageOutQueue =>
      obtain rfl := Outcome.next.inj stepped
      exact allocatedGranules_noflSpaceAdvancePageOutQueue.ge
  | pageOutBlocks =>
      obtain rfl := Outcome.next.inj stepped
      exact allocatedGranules_noflSpacePageOutBlocks.ge
  | setHeapHasAmbiguousEdges =>
      obtain rfl := Outcome.next.inj stepped
      exact allocatedGranules_noflSpaceSetHeapHasAmbiguousEdges.ge
  | startGc kind => exact absurd trivial notCollection
  | finishGc kind marked holes => exact absurd trivial notCollection

/-- The end of a collection resets the counter. -/
theorem allocatedGranules_finishGc {kind : CollectionKind} {marked : ℕ → Bool}
    {holes : ℕ → List Hole}
    (stepped : blockStep world (.finishGc kind marked holes) = .next after) :
    after.space.allocatedGranules = 0 := by
  obtain rfl := Outcome.next.inj stepped
  rfl

end BlockWorld

theorem allocatedGranules_initLoop (blocks : List ℕ) (excess : ℕ) (space : BlockSpace) :
    (BlockSpace.initLoop blocks excess space).allocatedGranules = space.allocatedGranules := by
  induction blocks generalizing excess space with
  | nil => rfl
  | cons block blocks inductionHypothesis =>
      rw [BlockSpace.initLoop]
      split
      · rw [inductionHypothesis]
        simp
      · rw [inductionHypothesis]
        simp

theorem allocatedGranules_fresh {space : BlockSpace} (fresh : IsFreshSpace space) :
    space.allocatedGranules = 0 := by
  obtain ⟨size, base, reserve, threshold, ambiguous, generational, -, rfl⟩ := fresh
  exact allocatedGranules_initLoop _ _ _

end Whippet.Nofl
