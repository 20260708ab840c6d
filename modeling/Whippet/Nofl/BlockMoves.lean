import Whippet.Nofl.BlockOwners

/-!
What the operations of the nofl space do to the owners of blocks.

Most operations move blocks from some lists of the space to others and leave those of the
allocators alone; `Moves` says so, and composes.

Owns: that each operation on the lists is such a move, and what acquiring and releasing a block
does to its owner. Does not own: runs.
-/

namespace Whippet.Nofl

open Function

/-- The owner is a list of the space. -/
def Place.IsSpaceList (place : Place) : Prop := ∃ name, place = .list name ∧ name ≠ .kept

/-- Blocks only move between the lists of the space. -/
def MovesWithin (before after : ℕ → Place) : Prop :=
  ∀ block, after block = before block ∨ ((before block).IsSpaceList ∧ (after block).IsSpaceList)

namespace MovesWithin

variable {first second third : ℕ → Place} {block : ℕ} {place : Place}

theorem refl (owner : ℕ → Place) : MovesWithin owner owner := fun _ => .inl rfl

theorem trans (moved : MovesWithin first second) (again : MovesWithin second third) :
    MovesWithin first third := by
  intro block
  rcases again block with same | ⟨was, isNow⟩
  · rw [same]
    exact moved block
  · rcases moved block with same | ⟨before, -⟩
    · rw [same] at was
      exact .inr ⟨was, isNow⟩
    · exact .inr ⟨before, isNow⟩

/-- Who is not a list of the space has the same blocks as before. -/
theorem eq_iff (moved : MovesWithin first second) (notList : ¬place.IsSpaceList) :
    second block = place ↔ first block = place := by
  rcases moved block with same | ⟨was, isNow⟩
  · rw [same]
  · constructor
    · rintro rfl
      exact absurd isNow notList
    · rintro rfl
      exact absurd was notList

end MovesWithin

theorem not_isSpaceList_kept : ¬(Place.list .kept).IsSpaceList := by
  rintro ⟨name, same, notKept⟩
  cases same
  exact notKept rfl

/-- No block is on the local list. -/
def NoneKept (owner : ℕ → Place) : Prop := ∀ block, owner block ≠ .list .kept

theorem NoneKept.moved {before after : ℕ → Place} (none : NoneKept before)
    (moved : MovesWithin before after) : NoneKept after := by
  intro block isKept
  exact none block ((moved.eq_iff not_isSpaceList_kept).mp isKept)

/-- The operation moves blocks between the lists of the space, for any owners. -/
def Moves (before after : BlockSpace) : Prop :=
  after.slabs = before.slabs ∧
    ∀ owner, Owned before owner → NoneKept owner →
      ∃ moved, Owned after moved ∧ MovesWithin owner moved

namespace Moves

variable {first second third space changed : BlockSpace} {block : ℕ} {name target : ListName}

theorem refl (space : BlockSpace) : Moves space space :=
  ⟨rfl, fun owner holds _ => ⟨owner, holds, .refl owner⟩⟩

theorem trans (moved : Moves first second) (again : Moves second third) : Moves first third := by
  refine ⟨again.1.trans moved.1, ?_⟩
  intro owner holds none
  obtain ⟨middle, holdsMiddle, toMiddle⟩ := moved.2 owner holds none
  obtain ⟨final, holdsFinal, toFinal⟩ := again.2 middle holdsMiddle (none.moved toMiddle)
  exact ⟨final, holdsFinal, toMiddle.trans toFinal⟩

/-- Changes of fields that say nothing about lists. -/
theorem of_fields (slabs : changed.slabs = space.slabs) (lists : changed.lists = space.lists)
    (summary : changed.summary = space.summary) : Moves space changed :=
  ⟨slabs, fun owner holds _ => ⟨owner, holds.congr lists summary, .refl owner⟩⟩

/-- A block is taken off one list and put on another, and its flags are made right for it in
between. -/
theorem of_pop {popped ready : BlockSpace}
    (taken : space.noflBlockListPop name = some (block, popped))
    (source : name ≠ .kept) (notKept : target ≠ .kept) (notPartlyFull : target ≠ .partlyFull)
    (slabs : ready.slabs = popped.slabs)
    (owned : ∀ owner, owner block = .hand → Owned popped owner → Owned ready owner)
    (flagged : (popped.isUnavailable block = true ↔ ∃ age, name = .pagedOut age) →
      (ready.isUnavailable block = true ↔ ∃ age, target = .pagedOut age)) :
    Moves space (ready.noflBlockListPush target block) := by
  have sameSlabs : popped.slabs = space.slabs := by
    obtain ⟨-, -, rfl⟩ := BlockSpace.noflBlockListPop_eq_some_iff.mp taken
    rfl
  refine ⟨slabs.trans sameSlabs, ?_⟩
  intro owner holds _
  obtain ⟨onList, holdsPopped⟩ := holds.pop taken
  have holdsReady := owned _ (update_self _ _ _) holdsPopped
  have pushed := holdsReady.push (update_self _ _ _) (flagged (holds.isUnavailable_popped taken))
    (fun isPartlyFull => absurd isPartlyFull notPartlyFull)
  rw [update_idem] at pushed
  refine ⟨_, pushed, ?_⟩
  intro other
  by_cases same : other = block
  · subst same
    rw [update_self, onList]
    exact .inr ⟨⟨name, rfl, source⟩, ⟨target, rfl, notKept⟩⟩
  · rw [update_of_ne same]
    exact .inl rfl

/-- A loop whose rounds are moves is a move. -/
theorem whilePops {body : ℕ → BlockSpace → BlockSpace}
    (round : ∀ space block popped, space.noflBlockListPop name = some (block, popped) →
      Moves space (body block popped)) (rounds : ℕ) (space : BlockSpace) :
    Moves space (BlockSpace.whilePops name body rounds space) := by
  induction rounds generalizing space with
  | zero => exact .refl space
  | succ rounds inductionHypothesis =>
      cases taken : space.noflBlockListPop name with
      | none =>
          rw [BlockSpace.whilePops, taken]
          exact .refl space
      | some result =>
          rw [BlockSpace.whilePops, taken]
          exact (round space _ _ taken).trans (inductionHypothesis _)

/-- A block goes from one list to another, and both or neither are for unavailable blocks. -/
theorem of_pop_push {popped : BlockSpace}
    (taken : space.noflBlockListPop name = some (block, popped))
    (source : name ≠ .kept) (notKept : target ≠ .kept) (notPartlyFull : target ≠ .partlyFull)
    (sameFlag : (∃ age, name = .pagedOut age) ↔ ∃ age, target = .pagedOut age) :
    Moves space (popped.noflBlockListPush target block) := by
  apply of_pop taken source notKept notPartlyFull rfl (fun _ _ holds => holds)
  rw [sameFlag]
  exact id

theorem drain (source : name ≠ .kept) (notKept : target ≠ .kept)
    (notPartlyFull : target ≠ .partlyFull)
    (sameFlag : (∃ age, name = .pagedOut age) ↔ ∃ age, target = .pagedOut age)
    (space : BlockSpace) : Moves space (space.drain name target) := by
  apply whilePops
  intro space block popped taken
  exact of_pop_push taken source notKept notPartlyFull sameFlag

/-! ### Unavailable blocks -/

theorem of_pop_pushUnavailable {popped : BlockSpace} (source : name ≠ .kept)
    (taken : space.noflBlockListPop name = some (block, popped)) :
    Moves space (popped.noflPushUnavailableBlock block) := by
  have toAge : ∀ age, Moves space
      ((popped.noflBlockSetFlag block NOFL_BLOCK_UNAVAILABLE).noflBlockListPush (.pagedOut age)
        block) := by
    intro age
    apply of_pop taken source
    · rintro ⟨⟩
    · rintro ⟨⟩
    · rfl
    · exact fun owner inHand holds => holds.setFlag inHand (by decide)
    · simp
  rw [BlockSpace.noflPushUnavailableBlock]
  split
  · exact toAge 3
  · exact toAge 0

/-- Where an unavailable block comes from. -/
theorem of_popUnavailable {ages : List (Fin NOFL_PAGE_OUT_QUEUE_SIZE)} {cleared : BlockSpace}
    (taken : space.popUnavailableLoop ages = some (block, cleared)) :
    ∃ age popped, space.noflBlockListPop (.pagedOut age) = some (block, popped) ∧
      cleared = popped.noflBlockClearFlag block NOFL_BLOCK_UNAVAILABLE := by
  induction ages with
  | nil => cases taken
  | cons age ages inductionHypothesis =>
      rw [BlockSpace.popUnavailableLoop] at taken
      split at taken
      · exact inductionHypothesis taken
      · next popped found =>
          simp only [Option.some.injEq, Prod.mk.injEq] at taken
          obtain ⟨rfl, rfl⟩ := taken
          exact ⟨age, popped, found, rfl⟩

theorem pushAvailableBlock_cases (space : BlockSpace) (block : ℕ) :
    space.pushAvailableBlock block = space.noflBlockListPush .evacuationTargets block ∨
      space.pushAvailableBlock block = space.noflBlockListPush .empty block := by
  rw [BlockSpace.pushAvailableBlock, BlockSpace.noflPushEvacuationTargetIfNeeded,
    BlockSpace.noflMaybePushEvacuationTarget]
  split
  · exact .inr rfl
  · exact .inl rfl

theorem reclaimBlock_cases (space : BlockSpace) (block : ℕ) :
    space.reclaimBlock block = space.noflBlockListPush .evacuationTargets block ∨
      space.reclaimBlock block = space.noflBlockListPush .empty block := by
  rw [BlockSpace.reclaimBlock, BlockSpace.noflPushEvacuationTargetIfPossible,
    BlockSpace.noflMaybePushEvacuationTarget]
  split
  · exact .inr rfl
  · exact .inl rfl

/-- An unavailable block becomes available. -/
theorem of_popUnavailable_pushAvailable {cleared : BlockSpace}
    (taken : space.noflPopUnavailableBlock = some (block, cleared)) :
    Moves space (cleared.pushAvailableBlock block) := by
  obtain ⟨age, popped, found, rfl⟩ := of_popUnavailable taken
  have toList : ∀ target, target ≠ .kept → target ≠ .partlyFull →
      (¬∃ age, target = ListName.pagedOut age) →
      Moves space ((popped.noflBlockClearFlag block
        NOFL_BLOCK_UNAVAILABLE).noflBlockListPush target block) := by
    intro target notKept notPartlyFull notPagedOut
    apply of_pop found
    · rintro ⟨⟩
    · exact notKept
    · exact notPartlyFull
    · rfl
    · exact fun owner inHand holds => holds.clearFlag inHand (by decide)
    · rw [BlockSpace.isUnavailable_clearFlag_self]
      intro _
      simpa using notPagedOut
  rcases pushAvailableBlock_cases (popped.noflBlockClearFlag block NOFL_BLOCK_UNAVAILABLE) block
    with pushed | pushed
  · rw [pushed]
    exact toList _ (by rintro ⟨⟩) (by rintro ⟨⟩) (by simp)
  · rw [pushed]
    exact toList _ (by rintro ⟨⟩) (by rintro ⟨⟩) (by simp)

theorem addPending (space : BlockSpace) (bytes : ℤ) : Moves space (space.addPending bytes) :=
  of_fields rfl rfl rfl

theorem reacquireLoop (rounds : ℕ) (space : BlockSpace) :
    Moves space (BlockSpace.reacquireLoop rounds space) := by
  induction rounds generalizing space with
  | zero => exact .refl space
  | succ rounds inductionHypothesis =>
      rw [BlockSpace.reacquireLoop]
      split
      · split
        · exact .refl space
        · next block cleared taken =>
            have round := (of_popUnavailable_pushAvailable taken).trans
              (addPending _ NOFL_BLOCK_SIZE)
            exact round.trans (inductionHypothesis _)
      · exact .refl space

theorem noflSpaceMaybeReacquireMemory (space : BlockSpace) (bytes : ℕ) :
    Moves space (space.noflSpaceMaybeReacquireMemory bytes) :=
  (addPending space _).trans (reacquireLoop _ _)

theorem shrinkLoop (source : name ≠ .kept) (least rounds : ℕ) (space : BlockSpace) :
    Moves space (BlockSpace.shrinkLoop name least rounds space) := by
  induction rounds generalizing space with
  | zero => exact .refl space
  | succ rounds inductionHypothesis =>
      rw [BlockSpace.shrinkLoop]
      split
      · split
        · exact .refl space
        · next block popped taken =>
            have round := (of_pop_pushUnavailable source taken).trans
              (addPending _ (-NOFL_BLOCK_SIZE))
            exact round.trans (inductionHypothesis _)
      · exact .refl space

theorem noflSpaceShrink (space : BlockSpace) (bytes : ℕ) :
    Moves space (space.noflSpaceShrink bytes) := by
  have fromEmpty : ListName.empty ≠ .kept := by rintro ⟨⟩
  have shrunk := (addPending space bytes).trans
    (shrinkLoop fromEmpty 0 ((space.addPending bytes).noflBlockCount .empty) _)
  rw [BlockSpace.noflSpaceShrink]
  split
  · apply shrunk.trans
    apply shrinkLoop
    rintro ⟨⟩
  · exact shrunk

/-! ### Paging out -/

theorem of_advanceAge {age older : Fin NOFL_PAGE_OUT_QUEUE_SIZE} {advanced : BlockSpace}
    (stepped : space.advanceAge age older = some advanced) : Moves space advanced := by
  rw [BlockSpace.advanceAge] at stepped
  split at stepped
  · cases stepped
  · next block popped taken =>
      cases stepped
      apply of_pop_push taken
      · rintro ⟨⟩
      · rintro ⟨⟩
      · rintro ⟨⟩
      · simp

theorem noflSpaceAdvancePageOutQueue (space : BlockSpace) :
    Moves space space.noflSpaceAdvancePageOutQueue := by
  rw [BlockSpace.noflSpaceAdvancePageOutQueue]
  split
  · exact .refl space
  · next advanced stepped =>
      apply (of_advanceAge stepped).trans
      cases again : advanced.advanceAge 0 1 with
      | none => exact .refl advanced
      | some result => exact of_advanceAge again

theorem noflSpacePageOutBlocks (space : BlockSpace) : Moves space space.noflSpacePageOutBlocks := by
  apply whilePops
  intro space block popped taken
  rw [BlockSpace.pageOut]
  apply of_pop taken
  · rintro ⟨⟩
  · rintro ⟨⟩
  · rintro ⟨⟩
  · rfl
  · exact fun owner inHand holds => holds.setFlag inHand (by decide)
  · rw [BlockSpace.isUnavailable_setFlag (by decide)]
    simp

/-! ### Collections -/

theorem noflSpaceSetHeapHasAmbiguousEdges (space : BlockSpace) :
    Moves space space.noflSpaceSetHeapHasAmbiguousEdges := by
  rw [BlockSpace.noflSpaceSetHeapHasAmbiguousEdges]
  split
  · exact .refl space
  · exact of_fields rfl rfl rfl

/-- The flag for evacuation is none that the owners matter for. -/
theorem flagCandidates {owner : ℕ → Place} {blocks : List ℕ} (histogram : ℕ → ℕ)
    {space : BlockSpace} (holds : Owned space owner)
    (onLists : ∀ block ∈ blocks, owner block = .list .toSweep) :
    Owned (BlockSpace.flagCandidates blocks histogram space) owner := by
  induction blocks generalizing histogram space with
  | nil => exact holds
  | cons block blocks inductionHypothesis =>
      have onList := onLists block List.mem_cons_self
      have rest : ∀ other ∈ blocks, owner other = .list .toSweep :=
        fun other member => onLists other (List.mem_cons_of_mem _ member)
      have somewhere : owner block ≠ .nowhere := by
        rw [onList]
        rintro ⟨⟩
      have notPartlyFull : owner block = .list .partlyFull →
          0 < (space.summary block).fragmentationGranules := by
        rw [onList]
        rintro ⟨⟩
      rw [BlockSpace.flagCandidates]
      split
      · apply inductionHypothesis _ _ rest
        exact holds.setSummary somewhere (LinkedSummary.next_setFlag (by decide))
          (fun _ => LinkedSummary.hasFlag_setFlag_of_apart (by decide)) notPartlyFull
      · apply inductionHypothesis _ _ rest
        exact holds.setSummary somewhere (LinkedSummary.next_clearFlag (by decide))
          (fun _ => LinkedSummary.hasFlag_clearFlag_of_apart (by decide)) notPartlyFull

theorem slabs_flagCandidates (blocks : List ℕ) (histogram : ℕ → ℕ) (space : BlockSpace) :
    (BlockSpace.flagCandidates blocks histogram space).slabs = space.slabs := by
  induction blocks generalizing histogram space with
  | nil => rfl
  | cons block blocks inductionHypothesis =>
      rw [BlockSpace.flagCandidates]
      split
      · exact inductionHypothesis _ _
      · exact inductionHypothesis _ _

theorem noflSpacePrepareEvacuation (space : BlockSpace) :
    Moves space space.noflSpacePrepareEvacuation := by
  have drained : Moves space (space.drain .evacuationTargets .empty) := by
    apply drain
    · rintro ⟨⟩
    · rintro ⟨⟩
    · rintro ⟨⟩
    · simp
  rw [BlockSpace.noflSpacePrepareEvacuation]
  split
  · exact drained
  · apply drained.trans
    refine ⟨slabs_flagCandidates _ _ _, ?_⟩
    intro owner holds _
    refine ⟨owner, ?_, .refl owner⟩
    have evacuating : Owned
        { space.drain .evacuationTargets .empty with
          evacuationReserve := 1 / 2
          evacuating := true } owner := holds.congr rfl rfl
    apply flagCandidates _ evacuating
    intro block member
    exact holds.owner_of_mem_blocksOf member

theorem drainToSweep {source : ListName} (notKept : source ≠ .kept)
    (notPagedOut : ∀ age, source ≠ .pagedOut age) (space : BlockSpace) :
    Moves space (space.drain source .toSweep) := by
  apply drain notKept
  · rintro ⟨⟩
  · rintro ⟨⟩
  · simpa using notPagedOut

theorem drainOldGeneration (space : BlockSpace) : Moves space space.drainOldGeneration := by
  have drained : Moves space ((space.drain .promoted .toSweep).drain .old .toSweep) := by
    apply (drainToSweep _ _ space).trans
    · apply drainToSweep
      · rintro ⟨⟩
      · rintro _ ⟨⟩
    · rintro ⟨⟩
    · rintro _ ⟨⟩
  apply drained.trans
  exact of_fields rfl rfl rfl

theorem noflSpaceStartGc (kind : CollectionKind) (space : BlockSpace) :
    Moves space (space.noflSpaceStartGc kind) := by
  have young : Moves space ((space.drain .partlyFull .toSweep).drain .full .toSweep) := by
    apply (drainToSweep _ _ space).trans
    · apply drainToSweep
      · rintro ⟨⟩
      · rintro _ ⟨⟩
    · rintro ⟨⟩
    · rintro _ ⟨⟩
  rw [BlockSpace.noflSpaceStartGc]
  cases kind with
  | minor => exact young
  | any => exact young.trans (drainOldGeneration _)
  | major => exact young.trans (drainOldGeneration _)
  | compacting =>
      exact (young.trans (drainOldGeneration _)).trans (noflSpacePrepareEvacuation _)

theorem refillReserve (reserve : ℕ) (space : BlockSpace) :
    Moves space (BlockSpace.refillReserve reserve space) := by
  induction reserve generalizing space with
  | zero => exact .refl space
  | succ reserve inductionHypothesis =>
      rw [BlockSpace.refillReserve]
      split
      · exact .refl space
      · next block popped taken =>
          have round : Moves space (popped.noflBlockListPush .evacuationTargets block) := by
            apply of_pop_push taken
            · rintro ⟨⟩
            · rintro ⟨⟩
            · rintro ⟨⟩
            · simp
          exact round.trans (inductionHypothesis _)

theorem noflSpaceFinishEvacuation (space : BlockSpace) :
    Moves space space.noflSpaceFinishEvacuation := by
  have finished : Moves space { space with evacuating := false } := of_fields rfl rfl rfl
  exact finished.trans (refillReserve _ _)

theorem returnReserve (least reserve : ℕ) (space : BlockSpace) :
    Moves space (BlockSpace.returnReserve least reserve space) := by
  induction reserve generalizing space with
  | zero => exact .refl space
  | succ reserve inductionHypothesis =>
      rw [BlockSpace.returnReserve]
      split
      · split
        · exact .refl space
        · next block popped taken =>
            have round : Moves space (popped.noflPushEmptyBlock block) := by
              apply of_pop_push taken
              · rintro ⟨⟩
              · rintro ⟨⟩
              · rintro ⟨⟩
              · simp
            exact round.trans (inductionHypothesis _)
      · exact .refl space

theorem resetReserve (space : BlockSpace) : Moves space space.resetReserve := by
  have reset : Moves space { space with evacuationReserve := space.evacuationMinimumReserve } :=
    of_fields rfl rfl rfl
  exact reset.trans (returnReserve _ _ _)

theorem noflSpaceResetStatistics (space : BlockSpace) :
    Moves space space.noflSpaceResetStatistics :=
  of_fields rfl rfl rfl

end Moves

/-! ## Counters -/

/-- Nothing but counters of the space and of one block has changed. -/
structure CountsOnly (before after : BlockSpace) (block : ℕ) : Prop where
  lists : after.lists = before.lists
  slabs : after.slabs = before.slabs
  word : ∀ other, (after.summary other).nextAndFlags = (before.summary other).nextAndFlags
  others : ∀ other ≠ block, after.summary other = before.summary other

namespace CountsOnly

variable {first second third space changed : BlockSpace} {block : ℕ} {owner : ℕ → Place}

theorem refl (space : BlockSpace) (block : ℕ) : CountsOnly space space block :=
  ⟨rfl, rfl, fun _ => rfl, fun _ _ => rfl⟩

theorem trans (counted : CountsOnly first second block) (again : CountsOnly second third block) :
    CountsOnly first third block := by
  constructor
  · rw [again.lists, counted.lists]
  · rw [again.slabs, counted.slabs]
  · intro other
    rw [again.word, counted.word]
  · intro other different
    rw [again.others other different, counted.others other different]

theorem of_fields (lists : changed.lists = space.lists) (slabs : changed.slabs = space.slabs)
    (summary : changed.summary = space.summary) (block : ℕ) : CountsOnly space changed block :=
  ⟨lists, slabs, fun _ => by rw [summary], fun _ _ => by rw [summary]⟩

theorem setSummary {summary : LinkedSummary}
    (word : summary.nextAndFlags = (space.summary block).nextAndFlags) :
    CountsOnly space (space.setSummary block summary) block := by
  constructor
  · rfl
  · rfl
  · intro other
    by_cases same : other = block
    · subst same
      rw [BlockSpace.summary_setSummary_self, word]
    · rw [BlockSpace.summary_setSummary_of_ne _ _ same]
  · intro other different
    exact BlockSpace.summary_setSummary_of_ne _ _ different

theorem isUnavailable (counted : CountsOnly space changed block) (other : ℕ) :
    changed.isUnavailable other = space.isUnavailable other := by
  rw [BlockSpace.isUnavailable, BlockSpace.noflBlockHasFlag,
    LinkedSummary.noflBlockSummaryHasFlag, counted.word, BlockSpace.isUnavailable,
    BlockSpace.noflBlockHasFlag, LinkedSummary.noflBlockSummaryHasFlag]

/-- Counters do not matter to owners, but for those of partly full blocks. -/
theorem owned (counted : CountsOnly space changed block) (holds : Owned space owner)
    (notPartlyFull : owner block ≠ .list .partlyFull) : Owned changed owner := by
  have nexts : changed.noflBlockNext = space.noflBlockNext := by
    ext other
    rw [BlockSpace.noflBlockNext, LinkedSummary.noflBlockSummaryNext, counted.word,
      BlockSpace.noflBlockNext, LinkedSummary.noflBlockSummaryNext]
  constructor
  · rw [BlockSpace.links, nexts, counted.lists]
    exact holds.listed
  · intro other notInHand
    rw [counted.isUnavailable]
    exact holds.unavailable other notInHand
  · exact holds.address
  · intro other nowhere
    rw [counted.word]
    exact holds.fresh other nowhere
  · intro other onList
    have different : other ≠ block := by
      rintro rfl
      exact notPartlyFull onList
    rw [counted.others other different]
    exact holds.hole other onList

theorem noflAllocatorFinishHole (space : BlockSpace) (block : ℕ) (allocator : Allocator) :
    CountsOnly space (space.noflAllocatorFinishHole block allocator) block := by
  rw [BlockSpace.noflAllocatorFinishHole]
  split
  · exact setSummary rfl
  · exact refl space block

theorem countHole (space : BlockSpace) (block : ℕ) (hole : Hole) :
    CountsOnly space (space.countHole block hole) block :=
  setSummary rfl

theorem noflAllocatorFinishSweepingInBlock (space : BlockSpace) (block : ℕ)
    (allocator : Allocator) (holes : List Hole) :
    CountsOnly space
      (BlockSpace.noflAllocatorFinishSweepingInBlock block allocator holes space) block := by
  induction holes generalizing space allocator with
  | nil => exact noflAllocatorFinishHole space block allocator
  | cons hole holes inductionHypothesis =>
      apply trans (noflAllocatorFinishHole space block allocator)
      apply trans (countHole _ block hole)
      exact inductionHypothesis _ _

theorem countReleasedBlock (space : BlockSpace) (block : ℕ) :
    CountsOnly space (space.countReleasedBlock block) block := by
  apply of_fields
  · rfl
  · rfl
  · rfl

theorem addOldGenerationGranules (space : BlockSpace) (granules block : ℕ) :
    CountsOnly space (space.addOldGenerationGranules granules) block := by
  apply of_fields
  · rfl
  · rfl
  · rfl

theorem sweepPromotedBlock (space : BlockSpace) (holes : List Hole) (block : ℕ) :
    CountsOnly space (space.sweepPromotedBlock holes block) block := by
  have cleared : CountsOnly space
      (space.setSummary block (space.summary block).clearCounters) block := setSummary rfl
  apply cleared.trans
  apply trans (noflAllocatorFinishSweepingInBlock _ block
    { alloc := block, sweep := block, block := some block } holes)
  exact addOldGenerationGranules _ _ block

end CountsOnly

theorem Moves.noflSpacePromoteBlocks (holes : ℕ → List Hole) (space : BlockSpace) :
    Moves space (space.noflSpacePromoteBlocks holes) := by
  apply whilePops
  intro space block popped taken
  have counted := CountsOnly.sweepPromotedBlock popped (holes block) block
  rw [BlockSpace.promoteBlock]
  apply of_pop taken
  · rintro ⟨⟩
  · rintro ⟨⟩
  · rintro ⟨⟩
  · exact counted.slabs
  · intro owner inHand holds
    apply counted.owned holds
    rw [inHand]
    rintro ⟨⟩
  · rw [counted.isUnavailable]
    simp

/-! ## The end of a collection -/

/-- Between the rounds of the loop over the blocks to sweep, some of them are on the local
list. -/
def MovesOrKeeps (before after : ℕ → Place) : Prop :=
  ∀ block, after block = before block ∨
    ((before block).IsSpaceList ∧ ∃ name, after block = .list name)

theorem keepOrReclaim_cases (marked : ℕ → Bool) (space : BlockSpace) (block : ℕ) :
    ∃ target, (∀ age, target ≠ .pagedOut age) ∧ target ≠ .partlyFull ∧ target ≠ .toSweep ∧
      space.keepOrReclaim marked block = space.noflBlockListPush target block := by
  rw [BlockSpace.keepOrReclaim]
  split
  · exact ⟨.kept, by rintro _ ⟨⟩, by rintro ⟨⟩, by rintro ⟨⟩, rfl⟩
  · rcases Moves.reclaimBlock_cases space block with pushed | pushed
    · exact ⟨.evacuationTargets, by rintro _ ⟨⟩, by rintro ⟨⟩, by rintro ⟨⟩, pushed⟩
    · exact ⟨.empty, by rintro _ ⟨⟩, by rintro ⟨⟩, by rintro ⟨⟩, pushed⟩

/-- The state between two rounds of the loop over the blocks to sweep. -/
def Reclaiming (start : BlockSpace) (owner : ℕ → Place) (space : BlockSpace) : Prop :=
  space.slabs = start.slabs ∧ ∃ moved, Owned space moved ∧ MovesOrKeeps owner moved

theorem reclaiming_round {start space popped : BlockSpace} {owner : ℕ → Place} {block : ℕ}
    (marked : ℕ → Bool) (state : Reclaiming start owner space)
    (taken : space.noflBlockListPop .toSweep = some (block, popped)) :
    Reclaiming start owner (popped.keepOrReclaim marked block) ∧
      ((popped.keepOrReclaim marked block).lists .toSweep).count =
        (popped.lists .toSweep).count := by
  obtain ⟨slabs, moved, holds, moves⟩ := state
  obtain ⟨onList, holdsPopped⟩ := holds.pop taken
  obtain ⟨target, notPagedOut, notPartlyFull, notToSweep, pushed⟩ :=
    keepOrReclaim_cases marked popped block
  have holdsPushed : Owned (popped.noflBlockListPush target block)
      (update (update moved block .hand) block (.list target)) := by
    apply holdsPopped.push (update_self _ _ _)
    · rw [holds.isUnavailable_popped taken]
      simpa using notPagedOut
    · exact fun isPartlyFull => absurd isPartlyFull notPartlyFull
  rw [update_idem] at holdsPushed
  have sameSlabs : popped.slabs = space.slabs := by
    obtain ⟨-, -, rfl⟩ := BlockSpace.noflBlockListPop_eq_some_iff.mp taken
    rfl
  rw [pushed]
  refine ⟨⟨sameSlabs.trans slabs, _, holdsPushed, ?_⟩, ?_⟩
  · intro other
    by_cases same : other = block
    · subst same
      rw [update_self]
      right
      refine ⟨?_, target, rfl⟩
      rcases moves other with same | ⟨was, -⟩
      · rw [← same, onList]
        exact ⟨.toSweep, rfl, by rintro ⟨⟩⟩
      · exact was
    · rw [update_of_ne same]
      exact moves other
  · rw [BlockSpace.lists_noflBlockListPush_of_ne _ _ notToSweep.symm]

/-- The owners after the local list has become the list of the space. -/
def renameKept (owner : ℕ → Place) (block : ℕ) : Place :=
  if owner block = .list .kept then .list .toSweep else owner block

theorem links_takeKept (space : BlockSpace) :
    space.takeKept.links = space.links.moveAll 0 .kept .toSweep := by
  have moved : space.takeKept.links.head =
        update (update space.links.head .toSweep (space.links.head .kept)) .kept 0 ∧
      space.takeKept.links.count =
        update (update space.links.count .toSweep (space.links.count .kept)) .kept 0 := by
    constructor
    all_goals
      ext name
      by_cases isKept : name = .kept
      · subst isKept
        simp [BlockSpace.links, BlockSpace.takeKept]
      · by_cases isToSweep : name = .toSweep
        · subst isToSweep
          simp [BlockSpace.links, BlockSpace.takeKept]
        · simp [BlockSpace.links, BlockSpace.takeKept, isKept, isToSweep]
  obtain ⟨heads, counts⟩ := moved
  rw [LinkedLists.moveAll, ← heads, ← counts]
  rfl

/-- What the renaming leaves alone. -/
theorem renameKept_eq_iff (owner : ℕ → Place) (block : ℕ) (place : Place)
    (notKept : place ≠ .list .kept) (notToSweep : place ≠ .list .toSweep) :
    renameKept owner block = place ↔ owner block = place := by
  rw [renameKept]
  split
  · next isKept =>
      rw [isKept]
      exact iff_of_false notToSweep.symm notKept.symm
  · exact Iff.rfl

theorem Owned.takeKept {space : BlockSpace} {owner : ℕ → Place} (holds : Owned space owner)
    (swept : (space.lists .toSweep).blocks = 0) : Owned space.takeKept (renameKept owner) := by
  constructor
  · have apart : ListName.kept ≠ .toSweep := by rintro ⟨⟩
    have renamed := holds.listed.moveAll apart swept
    have names : (fun block => (renameKept owner block).listName?) = fun block =>
        if (owner block).listName? = some .kept then some .toSweep
        else (owner block).listName? := by
      ext1 block
      by_cases isKept : owner block = .list .kept
      · simp [renameKept, isKept]
      · simp [renameKept, isKept]
    rwa [links_takeKept, names]
  · intro block notInHand
    have unchanged : (∃ age, renameKept owner block = .list (.pagedOut age)) ↔
        ∃ age, owner block = .list (.pagedOut age) :=
      exists_congr fun age => renameKept_eq_iff owner block _ (by rintro ⟨⟩) (by rintro ⟨⟩)
    rw [unchanged]
    apply holds.unavailable
    rwa [ne_eq, renameKept_eq_iff owner block .hand (by rintro ⟨⟩) (by rintro ⟨⟩)] at notInHand
  · intro block somewhere
    apply holds.address
    rwa [ne_eq, renameKept_eq_iff owner block .nowhere (by rintro ⟨⟩) (by rintro ⟨⟩)] at somewhere
  · intro block nowhere
    rw [renameKept_eq_iff owner block .nowhere (by rintro ⟨⟩) (by rintro ⟨⟩)] at nowhere
    exact holds.fresh block nowhere
  · intro block onList
    rw [renameKept_eq_iff owner block (.list .partlyFull) (by rintro ⟨⟩) (by rintro ⟨⟩)] at onList
    exact holds.hole block onList

theorem slabs_keepOrReclaim (marked : ℕ → Bool) (rounds : ℕ) (space : BlockSpace) :
    (BlockSpace.whilePops .toSweep (fun block popped => popped.keepOrReclaim marked block)
      rounds space).slabs = space.slabs := by
  induction rounds generalizing space with
  | zero => rfl
  | succ rounds inductionHypothesis =>
      cases taken : space.noflBlockListPop .toSweep with
      | none => rw [BlockSpace.whilePops, taken]
      | some result =>
          obtain ⟨block, popped⟩ := result
          obtain ⟨-, -, rfl⟩ := BlockSpace.noflBlockListPop_eq_some_iff.mp taken
          obtain ⟨target, -, -, -, pushed⟩ :=
            keepOrReclaim_cases marked (space.withoutHead .toSweep) block
          rw [BlockSpace.whilePops, taken]
          simp only [inductionHypothesis, pushed, BlockSpace.slabs_noflBlockListPush]
          rfl

theorem Moves.reclaimBlocks (marked : ℕ → Bool) (space : BlockSpace) :
    Moves space (space.reclaimBlocks marked) := by
  refine ⟨slabs_keepOrReclaim marked _ space, ?_⟩
  intro owner holds none
  have owned : ∀ other, Reclaiming space owner other → ∃ moved, Owned other moved := by
    rintro other ⟨-, moved, holdsMoved, -⟩
    exact ⟨moved, holdsMoved⟩
  have finished := Owned.whilePops_invariant owned
    (fun other block popped state taken => reclaiming_round marked state taken)
    ⟨rfl, owner, holds, fun _ => .inl rfl⟩ (Nat.le_refl _)
  obtain ⟨⟨-, moved, holdsMoved, moves⟩, swept⟩ := finished
  refine ⟨renameKept moved, holdsMoved.takeKept swept, ?_⟩
  intro block
  rcases moves block with same | ⟨was, name, isNow⟩
  · left
    rw [renameKept, same, if_neg (none block)]
  · right
    refine ⟨was, ?_⟩
    by_cases isKept : moved block = .list .kept
    · rw [renameKept, if_pos isKept]
      exact ⟨.toSweep, rfl, by rintro ⟨⟩⟩
    · rw [renameKept, if_neg isKept, isNow]
      refine ⟨name, rfl, ?_⟩
      rintro rfl
      exact isKept isNow

theorem Moves.noflSpaceFinishGc (kind : CollectionKind) (marked : ℕ → Bool)
    (holes : ℕ → List Hole) (space : BlockSpace) :
    Moves space (space.noflSpaceFinishGc kind marked holes) := by
  have started : Moves space
      { space with lastCollectionWasMinor := decide (kind = CollectionKind.minor) } :=
    of_fields rfl rfl rfl
  have ending : ∀ refilled : BlockSpace, Moves refilled
      ((refilled.reclaimBlocks marked).noflSpacePromoteBlocks holes).noflSpaceResetStatistics :=
    fun refilled => ((reclaimBlocks marked refilled).trans
      (noflSpacePromoteBlocks holes _)).trans (noflSpaceResetStatistics _)
  rw [BlockSpace.noflSpaceFinishGc]
  apply started.trans
  cases evacuating : space.evacuating with
  | true =>
      simp only [if_true]
      exact (noflSpaceFinishEvacuation _).trans (ending _)
  | false =>
      simp only [Bool.false_eq_true, if_false]
      exact (resetReserve _).trans (ending _)

/-! ## Acquiring and releasing -/

def Allocator.Aligned (allocator : Allocator) : Prop :=
  allocator.alloc % NOFL_GRANULE_SIZE = 0 ∧ allocator.sweep % NOFL_GRANULE_SIZE = 0

section Acquire

variable {space after : BlockSpace} {owner : ℕ → Place} {allocator : Allocator} {block : ℕ}

/-- A block of a list of the space becomes that of the allocator, whoever has the allocator. -/
def Acquires (space after : BlockSpace) (owner : ℕ → Place) (allocator : Allocator) : Prop :=
  after.slabs = space.slabs ∧ allocator.Aligned ∧
    ∃ block, allocator.block = some block ∧ (owner block).IsSpaceList ∧
      ∀ name, Owned after (update owner block (.allocator name))

theorem Acquires.of_pop {popped : BlockSpace} {list : ListName} (holds : Owned space owner)
    (taken : space.noflBlockListPop list = some (block, popped)) (notKept : list ≠ .kept)
    (notPagedOut : ∀ age, list ≠ .pagedOut age)
    (slabs : after.slabs = popped.slabs)
    (owned : ∀ owner, owner block = .hand → Owned popped owner → Owned after owner)
    (sameFlag : after.isUnavailable block = popped.isUnavailable block)
    (isBlock : allocator.block = some block) (aligned : block % NOFL_BLOCK_SIZE = 0 →
      allocator.Aligned) : Acquires space after owner allocator := by
  obtain ⟨onList, holdsPopped⟩ := holds.pop taken
  have available : after.isUnavailable block = false := by
    have flagged := holds.isUnavailable_popped taken
    rw [sameFlag, Bool.eq_false_iff, ne_eq, flagged]
    simpa using notPagedOut
  have sameSlabs : popped.slabs = space.slabs := by
    obtain ⟨-, -, rfl⟩ := BlockSpace.noflBlockListPop_eq_some_iff.mp taken
    rfl
  have isAddress : IsBlockAddress block := by
    apply holds.address
    rw [onList]
    rintro ⟨⟩
  refine ⟨slabs.trans sameSlabs, aligned isAddress.2.1, block, isBlock, ?_, ?_⟩
  · rw [onList]
    exact ⟨list, rfl, notKept⟩
  · intro name
    have given := (owned _ (update_self _ _ _) holdsPopped).give (update_self _ _ _) available name
    rwa [update_idem] at given

/-- Places in a block that are a number of granules before its end. -/
theorem aligned_sub_blockLimit (aligned : block % NOFL_BLOCK_SIZE = 0) (granules : ℕ) :
    (blockLimit block - granules * NOFL_GRANULE_SIZE) % NOFL_GRANULE_SIZE = 0 := by
  simp only [blockLimit, NOFL_BLOCK_SIZE, NOFL_GRANULE_SIZE] at aligned ⊢
  omega

theorem aligned_blockLimit (aligned : block % NOFL_BLOCK_SIZE = 0) :
    blockLimit block % NOFL_GRANULE_SIZE = 0 := by
  simpa using aligned_sub_blockLimit aligned 0

theorem aligned_block (aligned : block % NOFL_BLOCK_SIZE = 0) : block % NOFL_GRANULE_SIZE = 0 := by
  simp only [NOFL_BLOCK_SIZE, NOFL_GRANULE_SIZE] at aligned ⊢
  omega

theorem acquires_blockToSweep (holds : Owned space owner)
    (acquired : space.noflAllocatorAcquireBlockToSweep = some (allocator, after)) :
    Acquires space after owner allocator := by
  rw [BlockSpace.noflAllocatorAcquireBlockToSweep] at acquired
  split at acquired
  · cases acquired
  · next block popped taken =>
      cases acquired
      have counted : CountsOnly popped
          (popped.setSummary block (popped.summary block).clearCounters) block :=
        CountsOnly.setSummary rfl
      apply Acquires.of_pop holds taken
      · rintro ⟨⟩
      · rintro _ ⟨⟩
      · rfl
      · intro other inHand holdsPopped
        apply counted.owned holdsPopped
        rw [inHand]
        rintro ⟨⟩
      · exact counted.isUnavailable block
      · rfl
      · exact fun aligned => ⟨aligned_block aligned, aligned_block aligned⟩

/-- A partly full block comes with a hole. -/
theorem acquires_partlyFullBlock (holds : Owned space owner) {granules : ℕ}
    (acquired : space.noflAllocatorAcquirePartlyFullBlock = some (granules, allocator, after)) :
    0 < granules ∧ Acquires space after owner allocator := by
  rw [BlockSpace.noflAllocatorAcquirePartlyFullBlock] at acquired
  split at acquired
  · cases acquired
  · next block popped taken =>
      cases acquired
      have counted : CountsOnly popped
          (popped.setSummary block { popped.summary block with fragmentationGranules := 0 })
          block :=
        CountsOnly.setSummary rfl
      constructor
      · rw [Owned.fragmentationGranules_pop taken]
        exact holds.hole block (holds.pop taken).1
      · apply Acquires.of_pop holds taken
        · rintro ⟨⟩
        · rintro _ ⟨⟩
        · rfl
        · intro other inHand holdsPopped
          apply counted.owned holdsPopped
          rw [inHand]
          rintro ⟨⟩
        · exact counted.isUnavailable block
        · rfl
        · exact fun aligned => ⟨aligned_sub_blockLimit aligned _, aligned_blockLimit aligned⟩

theorem acquires_emptyBlock (holds : Owned space owner)
    (acquired : space.noflAllocatorAcquireEmptyBlock = some (allocator, after)) :
    Acquires space after owner allocator := by
  rw [BlockSpace.noflAllocatorAcquireEmptyBlock] at acquired
  split at acquired
  · cases acquired
  · next block popped taken =>
      cases acquired
      have counted : CountsOnly popped
          (popped.setSummary block
            { popped.summary block with
              holeCount := 1
              holeGranules := NOFL_GRANULES_PER_BLOCK
              holesWithFragmentation := 0
              fragmentationGranules := 0 }) block :=
        CountsOnly.setSummary rfl
      apply Acquires.of_pop holds taken
      · rintro ⟨⟩
      · rintro _ ⟨⟩
      · split
        · rfl
        · rfl
      · intro other inHand holdsPopped
        have holdsCounted := counted.owned holdsPopped (by rw [inHand]; exact (by rintro ⟨⟩))
        split
        · exact holdsCounted.clearFlag inHand (by decide)
        · exact holdsCounted
      · split
        · rw [BlockSpace.isUnavailable_clearFlag (by decide)]
          exact counted.isUnavailable block
        · exact counted.isUnavailable block
      · rfl
      · exact fun aligned => ⟨aligned_block aligned, aligned_blockLimit aligned⟩

theorem acquires_evacuationTarget (holds : Owned space owner)
    (acquired : space.noflAllocatorAcquireEvacuationTarget = some (allocator, after)) :
    Acquires space after owner allocator := by
  rw [BlockSpace.noflAllocatorAcquireEvacuationTarget] at acquired
  split at acquired
  · exact acquires_emptyBlock holds acquired
  · next granules found popped taken =>
      obtain ⟨hasHole, acquires⟩ := acquires_partlyFullBlock holds taken
      rw [if_pos hasHole.ne'] at acquired
      cases acquired
      exact acquires

end Acquire

section Release

variable {space ready : BlockSpace} {owner : ℕ → Place} {allocator : Allocator} {block : ℕ}
variable {name : AllocatorName}

/-- The block of an allocator goes to a list of the space. -/
def Releases (space after : BlockSpace) (owner : ℕ → Place) (block : ℕ) : Prop :=
  after.slabs = space.slabs ∧
    ∃ target, target ≠ ListName.kept ∧ Owned after (update owner block (.list target))

theorem Releases.of_push {target : ListName} (holds : Owned space owner)
    (held : owner block = .allocator name) (counted : CountsOnly space ready block)
    (notKept : target ≠ .kept) (notPagedOut : ∀ age, target ≠ .pagedOut age)
    (hole : target = .partlyFull → 0 < (ready.summary block).fragmentationGranules) :
    Releases space (ready.noflBlockListPush target block) owner block := by
  refine ⟨counted.slabs, target, notKept, ?_⟩
  have notPartlyFull : update owner block Place.hand block ≠ .list .partlyFull := by
    rw [update_self]
    rintro ⟨⟩
  have holdsReady := counted.owned (holds.take held) notPartlyFull
  have pushed : Owned (ready.noflBlockListPush target block)
      (update (update owner block .hand) block (.list target)) := by
    apply holdsReady.push (update_self _ _ _) _ hole
    rw [counted.isUnavailable, holds.isUnavailable_held held]
    simpa using notPagedOut
  rwa [update_idem] at pushed

theorem releases_fullBlock (holds : Owned space owner) (held : owner block = .allocator name)
    (counted : CountsOnly space ready block) :
    Releases space (ready.noflAllocatorReleaseFullBlock block) owner block := by
  have all := counted.trans (CountsOnly.countReleasedBlock ready block)
  rw [BlockSpace.noflAllocatorReleaseFullBlock]
  split
  · exact Releases.of_push holds held all (by rintro ⟨⟩) (by rintro _ ⟨⟩) (by rintro ⟨⟩)
  · exact Releases.of_push holds held all (by rintro ⟨⟩) (by rintro _ ⟨⟩) (by rintro ⟨⟩)

theorem releases_fullEvacuationTarget (holds : Owned space owner)
    (held : owner block = .allocator name) :
    Releases space (space.noflAllocatorReleaseFullEvacuationTarget block allocator) owner
        block := by
  have added := CountsOnly.addOldGenerationGranules space NOFL_GRANULES_PER_BLOCK block
  rw [BlockSpace.noflAllocatorReleaseFullEvacuationTarget]
  split
  · apply Releases.of_push holds held
    · exact added.trans (CountsOnly.setSummary rfl)
    · rintro ⟨⟩
    · rintro _ ⟨⟩
    · rintro ⟨⟩
  · exact Releases.of_push holds held added (by rintro ⟨⟩) (by rintro _ ⟨⟩) (by rintro ⟨⟩)

/-- A hole of an aligned allocator has a granule. -/
theorem holeGranules_pos (aligned : allocator.Aligned)
    (hasHole : allocator.alloc < allocator.sweep) : 0 < allocator.holeGranules := by
  obtain ⟨alloc, sweep⟩ := aligned
  rw [Allocator.holeGranules]
  simp only [NOFL_GRANULE_SIZE] at alloc sweep ⊢
  omega

theorem releases_block (holds : Owned space owner) (held : owner block = .allocator name)
    (aligned : allocator.Aligned) (holes : List Hole) :
    Releases space (space.noflAllocatorReleaseBlock block allocator holes) owner block := by
  rw [BlockSpace.noflAllocatorReleaseBlock]
  split
  · next isPartlyFull =>
      simp only [BlockSpace.isPartlyFull, decide_eq_true_eq] at isPartlyFull
      rw [BlockSpace.noflAllocatorReleasePartlyFullBlock]
      apply Releases.of_push holds held
      · exact CountsOnly.setSummary rfl
      · rintro ⟨⟩
      · rintro _ ⟨⟩
      · intro _
        rw [BlockSpace.summary_setSummary_self]
        exact holeGranules_pos aligned isPartlyFull.1
  · split
    · exact releases_fullEvacuationTarget holds held
    · exact releases_fullBlock holds held
        (CountsOnly.noflAllocatorFinishSweepingInBlock space block allocator holes)

end Release

end Whippet.Nofl
