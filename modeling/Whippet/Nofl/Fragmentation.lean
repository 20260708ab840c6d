import Whippet.Nofl.BlockHolding

/-!
The granules of a block that are lost to fragmentation.

A release is meant to leave the number of free granules in `fragmentation_granules`. The release of
a full evacuation target turns the rest of its hole to granules twice.

Owns: which releases count the free granules of the block. Does not own: what the counter is used
for.
-/

namespace Whippet.Nofl

open Function

namespace BlockLife

/-! ## Every action -/

/-- Whether allocators release blocks to there. -/
def IsReleased (place : BlockPlace) : Prop :=
  place = .partlyFull ∨ place = .full ∨ place = .promoted ∨ place = .old

/-- A block that is released counts its free granules, and the allocator that takes a partly full
block has the pointers that it was released with. -/
structure Accounted (life after : BlockLife) : Prop where
  counted : after.place ≠ life.place → IsReleased after.place →
    after.sweeper.summary.fragmentationGranules = after.freeGranules
  restored : life.place = .partlyFull → after.place = .held →
    (after.sweeper.alloc, after.sweeper.sweep) = life.released

/-- A full evacuation target is released, and some of its hole is left. -/
def WastesHole (life : BlockLife) : LifeAction → Prop
  | .releaseFullEvacuationTarget _ => life.sweeper.alloc < life.sweeper.sweep
  | _ => False

section Actions

variable {life after : BlockLife} {action : LifeAction}

/-- What each action keeps. -/
structure Sound (life : BlockLife) (action : LifeAction) (after : BlockLife) : Prop where
  invariant : after.Invariant
  accounted : Accounted life after ↔ ¬life.WastesHole action

/-- An action that leaves the block where it is. -/
theorem Sound.of_same (invariant : after.Invariant) (same : after.place = life.place)
    (wastesNone : ¬life.WastesHole action) : Sound life action after := by
  refine ⟨invariant, iff_of_true ⟨fun moved => absurd same moved, ?_⟩ wastesNone⟩
  intro partlyFull held
  rw [same, partlyFull] at held
  cases held

/-- An action that releases no block and takes no partly full one. -/
theorem Sound.of_moved {place : BlockPlace} (invariant : after.Invariant)
    (isPlace : after.place = place)
    (unreleased : place = .held ∧ life.place ≠ .partlyFull ∨ place = .toSweep ∨ place = .empty)
    (wastesNone : ¬life.WastesHole action) : Sound life action after := by
  refine ⟨invariant, iff_of_true ⟨?_, ?_⟩ wastesNone⟩
  · rw [isPlace]
    rintro - (rfl | rfl | rfl | rfl)
    all_goals simp at unreleased
  · rw [isPlace]
    rintro partlyFull rfl
    simp [partlyFull] at unreleased

/-- An action that releases a block and counts its free granules. -/
theorem Sound.of_released (invariant : after.Invariant) (wastesNone : ¬life.WastesHole action)
    (counted : after.sweeper.summary.fragmentationGranules = after.freeGranules)
    (notHeld : after.place ≠ .held) : Sound life action after :=
  ⟨invariant, iff_of_true ⟨fun _ _ => counted, fun _ held => absurd held notHeld⟩ wastesNone⟩

/-- The release of a block that is swept to its end. -/
theorem Sound.of_releaseFullBlock {swept : BlockLife}
    (sweepable : IsSweepable swept.bytes swept.sweeper.block swept.survivorMark)
    (holding : swept.Holding NOFL_GRANULES_PER_BLOCK NOFL_GRANULES_PER_BLOCK)
    (ran : swept.noflAllocatorReleaseFullBlock = .next after)
    (wastesNone : ¬life.WastesHole action) : Sound life action after := by
  obtain ⟨place, isPlace, statistics, released, counted⟩ := holding.releaseFullBlock
  rw [released] at ran
  cases ran
  refine ⟨⟨sweepable, ?_⟩, iff_of_true ⟨fun _ _ => counted, ?_⟩ wastesNone⟩
  · change PlaceInvariant _ place
    rcases isPlace with rfl | rfl
    · trivial
    · trivial
  · intro _ isHeld
    have isPlaceHeld : place = .held := isHeld
    rcases isPlace with rfl | rfl
    · cases isPlaceHeld
    · cases isPlaceHeld

theorem Sound.acquireBlockToSweep (invariant : life.Invariant) {holes : Holeset}
    (ran : lifeStep life (.acquireBlockToSweep holes) = .next after) :
    Sound life (.acquireBlockToSweep holes) after := by
  rw [lifeStep, Outcome.require_bind_eq_next] at ran
  obtain ⟨⟨isPlace, mutating⟩, isAfter⟩ := ran
  cases isAfter
  have unswept := invariant.at_place isPlace
  have acquired : (life.noflAllocatorAcquireBlockToSweep holes).Invariant :=
    .of_place invariant.sweepable rfl ⟨0, 0, holding_blockToSweep holes unswept mutating⟩
  refine Sound.of_moved acquired rfl (.inl ⟨rfl, ?_⟩) not_false
  rw [isPlace]
  nofun

theorem Sound.acquirePartlyFullBlock (invariant : life.Invariant) {holes : Holeset}
    (ran : lifeStep life (.acquirePartlyFullBlock holes) = .next after) :
    Sound life (.acquirePartlyFullBlock holes) after := by
  rw [lifeStep, Outcome.require_bind_eq_next] at ran
  obtain ⟨isPlace, ran⟩ := ran
  obtain ⟨first, parked⟩ := invariant.at_place isPlace
  obtain ⟨taken, took, holding, restored, isHeld, same, -⟩ := holding_partlyFullBlock holes parked
  rw [took, Outcome.bind_next] at ran
  cases ran
  refine ⟨.of_place (invariant.sameBytes same) isHeld ⟨first, _, holding⟩,
    iff_of_true ⟨?_, fun _ _ => restored⟩ not_false⟩
  rw [isHeld]
  rintro - (isReleased | isReleased | isReleased | isReleased)
  all_goals cases isReleased

theorem Sound.acquireEmptyBlock (invariant : life.Invariant) {holes : Holeset}
    (ran : lifeStep life (.acquireEmptyBlock holes) = .next after) :
    Sound life (.acquireEmptyBlock holes) after := by
  rw [lifeStep, Outcome.require_bind_eq_next] at ran
  obtain ⟨isPlace, isAfter⟩ := ran
  cases isAfter
  have holding := holding_emptyBlock holes (invariant.at_place isPlace)
  have taken : (life.noflAllocatorAcquireEmptyBlock holes).place = .held ∧
      SameBytes life (life.noflAllocatorAcquireEmptyBlock holes) := by
    unfold noflAllocatorAcquireEmptyBlock
    dsimp only
    split_ifs
    · exact ⟨rfl, rfl, rfl, rfl⟩
    · exact ⟨rfl, rfl, rfl, rfl⟩
  obtain ⟨isHeld, same⟩ := taken
  refine Sound.of_moved (.of_place (invariant.sameBytes same) isHeld ⟨0, _, holding⟩) isHeld
    (.inl ⟨rfl, ?_⟩) not_false
  rw [isPlace]
  nofun

theorem Sound.rejectPartlyFullBlock (invariant : life.Invariant) {minGranules : ℕ} {holes : Holeset}
    (ran : lifeStep life (.rejectPartlyFullBlock minGranules holes) = .next after) :
    Sound life (.rejectPartlyFullBlock minGranules holes) after := by
  rw [lifeStep, Outcome.require_bind_eq_next] at ran
  obtain ⟨⟨isPlace, mutating⟩, ran⟩ := ran
  obtain ⟨first, parked⟩ := invariant.at_place isPlace
  obtain ⟨taken, took, holding, -, -, same, stillMutating⟩ := holding_partlyFullBlock holes parked
  have sweepable := invariant.sameBytes same
  rw [BlockLife.rejectPartlyFullBlock, took, Outcome.bind_next, Outcome.require_bind_eq_next] at ran
  obtain ⟨-, ran⟩ := ran
  obtain ⟨finished, finishes, sameBlock, atEnd⟩ :=
    holding.finishHole sweepable (stillMutating.trans mutating) !life.evacuating
  rw [withSweeper, finishes] at ran
  refine Sound.of_releaseFullBlock ?_ atEnd ran not_false
  change IsSweepable taken.bytes finished.block taken.survivorMark
  rw [sameBlock]
  exact sweepable

theorem Sound.nextHole (invariant : life.Invariant) {minGranules : ℕ}
    (ran : lifeStep life (.nextHole minGranules) = .next after) :
    Sound life (.nextHole minGranules) after := by
  rw [lifeStep, Outcome.require_bind_eq_next] at ran
  obtain ⟨⟨isPlace, mutating⟩, ran⟩ := ran
  have sweepable := invariant.sweepable
  obtain ⟨first, index, holding⟩ := invariant.at_place isPlace
  obtain ⟨finished, finishes, sameBlock, atEnd⟩ :=
    holding.finishHole sweepable mutating (minGranules ≠ 0 && !life.evacuating)
  rw [BlockLife.nextHoleTurn, withSweeper, finishes] at ran
  have sweepableAfter : IsSweepable life.bytes finished.block life.survivorMark := by
    rw [sameBlock]
    exact sweepable
  rcases atEnd.nextHole sweepableAfter with ⟨swept, found, blockKept, whole⟩ |
    ⟨swept, granules, next, found, positive, -, blockKept, more⟩
  · simp only [Outcome.mapFailure, Outcome.bind_next, Outcome.pure_eq_next, found, if_true] at ran
    refine Sound.of_releaseFullBlock ?_ whole ran not_false
    change IsSweepable life.bytes swept.block life.survivorMark
    rw [blockKept]
    exact sweepableAfter
  · simp only [Outcome.mapFailure, Outcome.bind_next, Outcome.pure_eq_next, found,
      if_neg positive] at ran
    cases ran
    refine Sound.of_same (.of_place ?_ isPlace ⟨next, _, more⟩) rfl not_false
    change IsSweepable life.bytes swept.block life.survivorMark
    rw [blockKept]
    exact sweepableAfter

theorem Sound.finish (invariant : life.Invariant)
    (ran : lifeStep life .finish = .next after) : Sound life .finish after := by
  rw [lifeStep, Outcome.require_bind_eq_next] at ran
  obtain ⟨isPlace, ran⟩ := ran
  obtain ⟨first, index, holding⟩ := invariant.at_place isPlace
  rw [noflAllocatorReleaseBlock] at ran
  split_ifs at ran with partlyFull evacuating
  · obtain ⟨isAfter, parked, counted, same⟩ := holding.releasePartlyFullBlock partlyFull.2.2 ran
    refine Sound.of_released (.of_place (invariant.sameBytes same) isAfter ⟨first, parked⟩)
      not_false
      counted ?_
    rw [isAfter]
    nofun
  · obtain ⟨isAfter, same, counted⟩ := holding.releaseFullEvacuationTarget ran
    -- The hole is at the end of the block, or the release would have failed.
    have atLimit : life.sweeper.sweep = life.limit := by
      rw [noflAllocatorReleaseFullEvacuationTarget] at ran
      simp only [Outcome.check_bind_eq_next] at ran
      exact ran.2.1
    have noneLeft : ¬life.sweeper.alloc < life.sweeper.sweep := fun left =>
      partlyFull ⟨left, atLimit, holding.evacuating evacuating⟩
    refine Sound.of_released (.of_place (invariant.sameBytes same) isAfter trivial) not_false
      (counted.mpr noneLeft) ?_
    rw [isAfter]
    nofun
  · have mutating : life.evacuating = false := by simpa using evacuating
    have inBlock := holding.stands.inBlock
    obtain ⟨swept, sweeps, sameBlock, whole⟩ :=
      holding.sweepHoles invariant.sweepable mutating (!life.evacuating)
        (NOFL_GRANULES_PER_BLOCK + 1) (by omega)
    rw [withSweeper, noflAllocatorFinishSweepingInBlock, sweeps] at ran
    refine Sound.of_releaseFullBlock ?_ whole ran not_false
    change IsSweepable life.bytes swept.block life.survivorMark
    rw [sameBlock]
    exact invariant.sweepable

theorem Sound.releaseFullEvacuationTarget (invariant : life.Invariant) {granules : ℕ}
    (ran : lifeStep life (.releaseFullEvacuationTarget granules) = .next after) :
    Sound life (.releaseFullEvacuationTarget granules) after := by
  rw [lifeStep, Outcome.require_bind_eq_next] at ran
  obtain ⟨⟨isPlace, -⟩, ran⟩ := ran
  obtain ⟨first, index, holding⟩ := invariant.at_place isPlace
  obtain ⟨isAfter, same, counted⟩ := holding.releaseFullEvacuationTarget ran
  refine ⟨.of_place (invariant.sameBytes same) isAfter trivial, ?_⟩
  rw [WastesHole, ← counted]
  constructor
  · intro accounted
    apply accounted.counted
    · rw [isAfter, isPlace]
      nofun
    · exact .inr (.inr (.inr isAfter))
  · intro isCounted
    refine ⟨fun _ _ => isCounted, ?_⟩
    rw [isAfter]
    nofun

/-- Every action keeps the invariant, and it accounts for what it releases unless it wastes the
rest of a hole. -/
theorem sound_of_step (invariant : life.Invariant) (ran : lifeStep life action = .next after) :
    Sound life action after := by
  cases action with
  | acquireBlockToSweep holes => exact Sound.acquireBlockToSweep invariant ran
  | acquirePartlyFullBlock holes => exact Sound.acquirePartlyFullBlock invariant ran
  | acquireEmptyBlock holes => exact Sound.acquireEmptyBlock invariant ran
  | rejectPartlyFullBlock minGranules holes => exact Sound.rejectPartlyFullBlock invariant ran
  | nextHole minGranules => exact Sound.nextHole invariant ran
  | finish => exact Sound.finish invariant ran
  | releaseFullEvacuationTarget granules => exact Sound.releaseFullEvacuationTarget invariant ran
  | allocate granules beginPattern =>
      rw [lifeStep, Outcome.require_bind_eq_next] at ran
      obtain ⟨⟨isPlace, -, positive⟩, ran⟩ := ran
      obtain ⟨first, index, holding⟩ := invariant.at_place isPlace
      obtain ⟨allocated, samePlace, same⟩ := holding.allocate invariant.sweepable positive ran
      exact Sound.of_same (.of_place (invariant.sameBytes same) (samePlace.trans isPlace)
        ⟨_, index, allocated⟩) samePlace not_false
  | evacuate granules =>
      rw [lifeStep, Outcome.require_bind_eq_next] at ran
      obtain ⟨⟨isPlace, -, -, fits⟩, isAfter⟩ := ran
      cases isAfter
      obtain ⟨first, index, holding⟩ := invariant.at_place isPlace
      have bumped := holding.bump (Nat.mul_le_of_le_div NOFL_GRANULE_SIZE granules _ fits)
      have kept : (life.bump granules).Invariant :=
        .of_place invariant.sweepable isPlace ⟨_, index, bumped⟩
      exact Sound.of_same kept rfl not_false
  | writeByte index byte =>
      rw [lifeStep, Outcome.require_bind_eq_next] at ran
      obtain ⟨⟨inBlock, same⟩, isAfter⟩ := ran
      cases isAfter
      exact Sound.of_same (invariant.setByte inBlock same) rfl not_false
  | writeWord addr value =>
      rw [lifeStep, Outcome.require_bind_eq_next] at ran
      obtain ⟨outside, isAfter⟩ := ran
      cases isAfter
      exact Sound.of_same (invariant.setWord outside) rfl not_false
  | setEvacuating evacuating =>
      rw [lifeStep, Outcome.require_bind_eq_next] at ran
      obtain ⟨notHeld, isAfter⟩ := ran
      cases isAfter
      exact Sound.of_same (invariant.setEvacuating notHeld evacuating) rfl not_false
  | mark bytes survivorMark =>
      rw [lifeStep, Outcome.require_bind_eq_next] at ran
      obtain ⟨-, isAfter⟩ := ran
      cases isAfter
      exact Sound.of_moved (invariant.mark bytes survivorMark) rfl (.inr (.inl rfl)) not_false
  | reclaim pagedOut =>
      rw [lifeStep, Outcome.require_bind_eq_next] at ran
      obtain ⟨-, isAfter⟩ := ran
      cases isAfter
      exact Sound.of_moved (invariant.reclaim pagedOut) rfl (.inr (.inr rfl)) not_false

end Actions

end BlockLife

/-! ## Runs -/

open BlockLife

section Runs

variable {life after : BlockLife} {action : LifeAction}

theorem invariant_of_fresh (fresh : IsFreshBlock life) : life.Invariant := by
  have sweepable : IsSweepable life.bytes life.sweeper.block life.survivorMark :=
    { proper := fresh.proper
      aligned := fresh.aligned
      wellFormed := fresh.noObjects ▸ wellFormed_clear
      isMark := fresh.isMark
      notZero := fresh.markNotZero }
  exact .of_place sweepable fresh.place ⟨fresh.noObjects, fun _ => fresh.words⟩

theorem invariant_of_reachable (reachable : lifeSystem.Reachable life) : life.Invariant := by
  apply reachable.invariant
  · exact fun _ => invariant_of_fresh
  · intro before action after invariant _ stepped
    exact (sound_of_step invariant stepped).invariant

/-- A release counts the free granules of the block, and a partly full block is acquired with the
pointers that it was released with, unless the block is a full evacuation target with some of its
hole left. -/
theorem accounted_iff (reachable : lifeSystem.Reachable life)
    (stepped : lifeSystem.step life action = .next after) :
    Accounted life after ↔ ¬life.WastesHole action :=
  (sound_of_step (invariant_of_reachable reachable) stepped).accounted

/-- An empty block of zeros. -/
def freshBlock : BlockLife where
  sweeper :=
    { block := NOFL_BLOCK_SIZE
      alloc := 0
      sweep := 0
      summary := ⟨0, 0, 0, 0, false, true, false, true⟩
      holes := ⟨0, fun _ => 0⟩
      metadata := fun _ => 0
      words := fun _ => 0
      found := [] }
  place := .empty
  evacuating := false
  survivorMark := NOFL_METADATA_BYTE_MARK_0
  generational := true
  promotionThreshold := 1 / 8
  statistics := ⟨0, 0, 0, 0⟩
  bytes := fun _ => 0
  handedOut := ∅
  released := (0, 0)

theorem isFreshBlock_freshBlock : IsFreshBlock freshBlock :=
  { proper := by decide
    aligned := Nat.dvd_refl _
    place := rfl
    zero := rfl
    noObjects := rfl
    metadata := fun _ _ => rfl
    words := fun _ _ _ => rfl
    isMark := by decide
    markNotZero := by decide }

/-- A mutator fills half of the block and stops. -/
theorem accounted_iff_partlyFull : ∃ life after : BlockLife,
    after.place = .partlyFull ∧ Accounted life after := by
  let actions : List LifeAction :=
    [.acquireEmptyBlock ⟨0, fun _ => 0⟩, .allocate 2048 NOFL_METADATA_BYTE_YOUNG]
  have ran : (System.runBy lifeSystem.step (fun _ _ => True) freshBlock actions).leadsTo
      (fun life => (lifeSystem.step life .finish).leadsTo fun after => after.place = .partlyFull) =
        true := by
    decide +kernel
  obtain ⟨life, ran, finishes⟩ := Outcome.exists_next_of_leadsTo ran
  obtain ⟨after, finishes, isPlace⟩ := Outcome.exists_next_of_leadsTo finishes
  have reached := System.ReachableBy.of_runBy lifeSystem (fun _ _ => True) (fun _ _ _ => trivial)
    (.initial isFreshBlock_freshBlock) actions ran
  exact ⟨life, after, of_decide_eq_true isPlace, (accounted_iff reached finishes).mpr not_false⟩

/-- An evacuation target has one granule left when it is released, and counts none. -/
theorem accounted_fails : ¬∀ (life after : BlockLife) (action : LifeAction),
    lifeSystem.Reachable life → lifeSystem.step life action = .next after →
      Accounted life after := by
  intro holds
  let actions : List LifeAction :=
    [.setEvacuating true, .acquireEmptyBlock ⟨0, fun _ => 0⟩, .evacuate 512, .evacuate 512,
      .evacuate 512, .evacuate 512, .evacuate 512, .evacuate 512, .evacuate 512, .evacuate 511]
  have ran : (System.runBy lifeSystem.step (fun _ _ => True) freshBlock actions).leadsTo
      (fun life => life.sweeper.alloc < life.sweeper.sweep ∧
        (lifeSystem.step life (.releaseFullEvacuationTarget 2)).leadsTo (fun _ => true) = true) =
          true := by
    decide +kernel
  obtain ⟨life, ran, facts⟩ := Outcome.exists_next_of_leadsTo ran
  obtain ⟨someLeft, releases⟩ := of_decide_eq_true facts
  obtain ⟨after, releases, -⟩ := Outcome.exists_next_of_leadsTo releases
  have reached := System.ReachableBy.of_runBy lifeSystem (fun _ _ => True) (fun _ _ _ => trivial)
    (.initial isFreshBlock_freshBlock) actions ran
  have sound := @sound_of_step life after (.releaseFullEvacuationTarget 2)
    (invariant_of_reachable reached) releases
  exact sound.accounted.mp (holds life after _ reached releases) someLeft

end Runs

end Whippet.Nofl
