import Mathlib.Tactic.Ring
import Whippet.Nofl.Space

/-!
What the operations on blocks do to the space's budget.

The value of the space is the bytes of its active blocks less the bytes it still owes. Moving a
block between the active and the unavailable ones against one block of debt leaves it alone, and
so does mapping slabs whose blocks all start out unavailable.

Owns: the value of a space, that every block is listed exactly once as far as the counts can tell,
and how each operation of `Space` changes them.
-/

namespace Whippet.Nofl

open Function

namespace NoflSpace

/-- The number of blocks on the lists of available blocks or held by allocators. -/
def availableBlockCount (space : NoflSpace) : ℕ :=
  space.empty.length + space.toSweep.length + space.partlyFull.length + space.full.length +
    space.promoted.length + space.old.length + space.evacuationTargets.length +
    space.held.length

/-- The number of these that are neither empty nor set aside for evacuation. -/
def usedBlockCount (space : NoflSpace) : ℕ :=
  space.toSweep.length + space.partlyFull.length + space.full.length + space.promoted.length +
    space.old.length + space.held.length

theorem availableBlockCount_eq (space : NoflSpace) : space.availableBlockCount =
    space.usedBlockCount + space.noflEmptyBlockCount + space.noflEvacuationBlockCount := by
  simp only [availableBlockCount, usedBlockCount, noflEmptyBlockCount, noflEvacuationBlockCount]
  omega

def totalBlockCount (space : NoflSpace) : ℕ :=
  space.slabs.length * NOFL_NONMETA_BLOCKS_PER_SLAB

/-- The blocks of the slabs are the available and the unavailable ones. -/
def AllListed (space : NoflSpace) : Prop :=
  space.availableBlockCount + space.unavailableBlockCount = space.totalBlockCount

/-- The bytes of the active blocks less the pending ones. -/
def value (space : NoflSpace) : ℤ :=
  ((space.totalBlockCount : ℤ) - space.unavailableBlockCount) * NOFL_BLOCK_SIZE -
    space.pendingUnavailableBytes

/-- With all blocks listed, the value counts the blocks that the code takes for active. -/
theorem value_eq (space : NoflSpace) (listed : space.AllListed) :
    space.value = (space.noflActiveBlockCount : ℤ) * NOFL_BLOCK_SIZE -
      space.pendingUnavailableBytes := by
  have counted : space.availableBlockCount + space.unavailableBlockCount =
      space.totalBlockCount := listed
  have active : (space.noflActiveBlockCount : ℤ) =
      (space.totalBlockCount : ℤ) - space.unavailableBlockCount := by
    have unfolded : space.noflActiveBlockCount =
        space.totalBlockCount - space.unavailableBlockCount := rfl
    omega
  rw [value, active]

theorem noflActiveBlockCount_eq (space : NoflSpace) (listed : space.AllListed) :
    space.noflActiveBlockCount = space.availableBlockCount := by
  have counted : space.availableBlockCount + space.unavailableBlockCount =
      space.totalBlockCount := listed
  have unfolded : space.noflActiveBlockCount =
      space.totalBlockCount - space.unavailableBlockCount := rfl
  omega

/-- The operation adds `bytes` to the value of the space, and loses no block. -/
structure Adds (bytes : ℤ) (before after : NoflSpace) : Prop where
  value_eq : after.value = before.value + bytes
  listed : before.AllListed → after.AllListed

theorem Adds.refl (space : NoflSpace) : Adds 0 space space where
  value_eq := by omega
  listed := id

theorem Adds.trans {first second : ℤ} {before middle after : NoflSpace}
    (left : Adds first before middle) (right : Adds second middle after) :
    Adds (first + second) before after where
  value_eq := by rw [right.value_eq, left.value_eq, add_assoc]
  listed := fun listed => right.listed (left.listed listed)

theorem Adds.congr {bytes other : ℤ} {before after : NoflSpace} (adds : Adds bytes before after)
    (equal : bytes = other) : Adds other before after := equal ▸ adds

/-! ## Single blocks -/

section Single

variable (space : NoflSpace) (block : ℕ)

theorem unavailableBlockCount_update (age : Fin NOFL_PAGE_OUT_QUEUE_SIZE) (blocks : List ℕ) :
    unavailableBlockCount { space with pagedOut := update space.pagedOut age blocks } +
        (space.pagedOut age).length =
      space.unavailableBlockCount + blocks.length := by
  match age with
  | 0 | 1 | 2 | 3 =>
      simp [unavailableBlockCount]
      omega

@[simp] theorem unavailableBlockCount_pushPagedOut (age : Fin NOFL_PAGE_OUT_QUEUE_SIZE) :
    (space.pushPagedOut age block).unavailableBlockCount = space.unavailableBlockCount + 1 := by
  have balance := space.unavailableBlockCount_update age (block :: space.pagedOut age)
  simp only [List.length_cons] at balance
  show unavailableBlockCount
    { space with pagedOut := update space.pagedOut age (block :: space.pagedOut age) } = _
  omega

@[simp] theorem unavailableBlockCount_noflPushUnavailableBlock :
    (space.noflPushUnavailableBlock block).unavailableBlockCount =
      space.unavailableBlockCount + 1 := by
  unfold noflPushUnavailableBlock
  exact unavailableBlockCount_pushPagedOut _ _ _

/-- Pushing an available block on the unavailable ones, for one block of debt. -/
theorem retire_adds (popped : NoflSpace)
    (available : popped.availableBlockCount + 1 = space.availableBlockCount)
    (unavailable : popped.unavailableBlockCount = space.unavailableBlockCount)
    (slabs : popped.slabs = space.slabs)
    (pending : popped.pendingUnavailableBytes = space.pendingUnavailableBytes) :
    Adds 0 space ((popped.noflPushUnavailableBlock block).addPending (-NOFL_BLOCK_SIZE)) := by
  have total : ((popped.noflPushUnavailableBlock block).addPending
      (-NOFL_BLOCK_SIZE)).totalBlockCount = space.totalBlockCount := by
    show popped.slabs.length * _ = space.slabs.length * _
    rw [slabs]
  have count : ((popped.noflPushUnavailableBlock block).addPending
      (-NOFL_BLOCK_SIZE)).unavailableBlockCount = space.unavailableBlockCount + 1 := by
    rw [← unavailable]
    exact popped.unavailableBlockCount_noflPushUnavailableBlock block
  have debt : ((popped.noflPushUnavailableBlock block).addPending
      (-NOFL_BLOCK_SIZE)).pendingUnavailableBytes =
        space.pendingUnavailableBytes - NOFL_BLOCK_SIZE := by
    rw [← pending]
    rfl
  constructor
  · rw [value, value, total, count, debt]
    push_cast
    ring
  · intro listed
    have kept : ((popped.noflPushUnavailableBlock block).addPending
        (-NOFL_BLOCK_SIZE)).availableBlockCount = popped.availableBlockCount := rfl
    rw [AllListed, total, count, kept, ← listed]
    omega

/-- Popping an unavailable block leaves everything else as it is. -/
theorem popPagedOut_eq {ages : List (Fin NOFL_PAGE_OUT_QUEUE_SIZE)} {popped : NoflSpace}
    {block : ℕ} (found : space.popPagedOut ages = some (block, popped)) :
    popped.unavailableBlockCount + 1 = space.unavailableBlockCount ∧
      popped.availableBlockCount = space.availableBlockCount ∧ popped.slabs = space.slabs ∧
      popped.pendingUnavailableBytes = space.pendingUnavailableBytes := by
  induction ages with
  | nil => simp [popPagedOut] at found
  | cons age ages inductionHypothesis =>
      rw [popPagedOut] at found
      split at found
      · exact inductionHypothesis found
      next head rest stackEq =>
        simp only [Option.some.injEq, Prod.mk.injEq] at found
        obtain ⟨-, rfl⟩ := found
        refine ⟨?_, rfl, rfl, rfl⟩
        have balance := space.unavailableBlockCount_update age rest
        rw [stackEq, List.length_cons] at balance
        omega

theorem noflPopUnavailableBlock_eq {popped : NoflSpace} {block : ℕ}
    (found : space.noflPopUnavailableBlock = some (block, popped)) :
    popped.unavailableBlockCount + 1 = space.unavailableBlockCount ∧
      popped.availableBlockCount = space.availableBlockCount ∧ popped.slabs = space.slabs ∧
      popped.pendingUnavailableBytes = space.pendingUnavailableBytes := by
  unfold noflPopUnavailableBlock at found
  split at found
  · simp at found
  next head inner foundInner =>
    simp only [Option.some.injEq, Prod.mk.injEq] at found
    obtain ⟨-, rfl⟩ := found
    have counts := space.popPagedOut_eq foundInner
    exact counts

theorem pushAvailableBlock_eq :
    (space.pushAvailableBlock block).unavailableBlockCount = space.unavailableBlockCount ∧
      (space.pushAvailableBlock block).availableBlockCount = space.availableBlockCount + 1 ∧
      (space.pushAvailableBlock block).slabs = space.slabs ∧
      (space.pushAvailableBlock block).pendingUnavailableBytes =
        space.pendingUnavailableBytes := by
  unfold pushAvailableBlock noflPushEvacuationTargetIfNeeded noflMaybePushEvacuationTarget
  split
  · refine ⟨rfl, ?_, rfl, rfl⟩
    simp only [Option.getD_none, noflPushEmptyBlock, availableBlockCount, List.length_cons]
    omega
  · refine ⟨rfl, ?_, rfl, rfl⟩
    simp only [Option.getD_some, availableBlockCount, List.length_cons]
    omega

/-- Taking back an unavailable block, for one more block of debt. -/
theorem reacquire_adds {popped : NoflSpace} {block : ℕ}
    (found : space.noflPopUnavailableBlock = some (block, popped)) :
    Adds 0 space ((popped.pushAvailableBlock block).addPending NOFL_BLOCK_SIZE) := by
  obtain ⟨unavailable, available, slabs, pending⟩ := space.noflPopUnavailableBlock_eq found
  obtain ⟨unavailable', available', slabs', pending'⟩ := popped.pushAvailableBlock_eq block
  have total : ((popped.pushAvailableBlock block).addPending NOFL_BLOCK_SIZE).totalBlockCount =
      space.totalBlockCount := by
    show (popped.pushAvailableBlock block).slabs.length * _ = space.slabs.length * _
    rw [slabs', slabs]
  have count : ((popped.pushAvailableBlock block).addPending
      NOFL_BLOCK_SIZE).unavailableBlockCount + 1 = space.unavailableBlockCount := by
    rw [← unavailable, ← unavailable']
    rfl
  have debt : ((popped.pushAvailableBlock block).addPending
      NOFL_BLOCK_SIZE).pendingUnavailableBytes =
        space.pendingUnavailableBytes + NOFL_BLOCK_SIZE := by
    rw [← pending, ← pending']
    rfl
  constructor
  · rw [value, value, total, ← count, debt]
    push_cast
    ring
  · intro listed
    have kept : ((popped.pushAvailableBlock block).addPending
        NOFL_BLOCK_SIZE).availableBlockCount = space.availableBlockCount + 1 := by
      rw [← available, ← available']
      rfl
    rw [AllListed, total, kept, ← listed]
    omega

theorem addPending_adds (bytes : ℤ) : Adds (-bytes) space (space.addPending bytes) where
  value_eq := by
    show ((space.totalBlockCount : ℤ) - space.unavailableBlockCount) * NOFL_BLOCK_SIZE -
      (space.pendingUnavailableBytes + bytes) = _
    rw [value]
    ring
  listed := id

end Single

/-! ## Loops -/

section Loops

theorem reacquireLoop_adds (rounds : ℕ) (space : NoflSpace) :
    Adds 0 space (reacquireLoop rounds space) := by
  induction rounds generalizing space with
  | zero => exact Adds.refl space
  | succ rounds inductionHypothesis =>
      rw [reacquireLoop]
      split
      · split
        · exact Adds.refl space
        next block popped found =>
          exact (space.reacquire_adds found).trans (inductionHypothesis _)
      · exact Adds.refl space

/-- The rounds suffice: the loop ends because the debt is below one block, or because no block is
unavailable. -/
theorem reacquireLoop_ends (rounds : ℕ) (space : NoflSpace)
    (enough : space.unavailableBlockCount ≤ rounds) :
    0 < (reacquireLoop rounds space).pendingUnavailableBytes + NOFL_BLOCK_SIZE ∨
      (reacquireLoop rounds space).noflPopUnavailableBlock = none := by
  induction rounds generalizing space with
  | zero =>
      rw [reacquireLoop]
      cases found : space.noflPopUnavailableBlock with
      | none => exact Or.inr rfl
      | some pair =>
          have counted := (space.noflPopUnavailableBlock_eq found).1
          omega
  | succ rounds inductionHypothesis =>
      rw [reacquireLoop]
      split
      · split
        next notFound => exact Or.inr notFound
        next block popped found =>
          apply inductionHypothesis
          have counted := (space.noflPopUnavailableBlock_eq found).1
          have kept := (popped.pushAvailableBlock_eq block).1
          show (popped.pushAvailableBlock block).unavailableBlockCount ≤ rounds
          omega
      · left
        omega

theorem noflSpaceMaybeReacquireMemory_adds (space : NoflSpace) (bytes : ℕ) :
    Adds bytes space (space.noflSpaceMaybeReacquireMemory bytes) := by
  have requested := space.addPending_adds (-bytes)
  exact (requested.trans (reacquireLoop_adds _ _)).congr (by ring)

theorem shrinkEmptyLoop_adds (blocks : List ℕ) (space : NoflSpace)
    (isEmpty : space.empty = blocks) : Adds 0 space (shrinkEmptyLoop blocks space) := by
  induction blocks generalizing space with
  | nil => exact Adds.refl space
  | cons block rest inductionHypothesis =>
      rw [shrinkEmptyLoop]
      split
      · refine (space.retire_adds block { space with empty := rest } ?_ rfl rfl rfl).trans
          (inductionHypothesis _ rfl)
        simp only [availableBlockCount, isEmpty, List.length_cons]
        omega
      · exact Adds.refl space

theorem shrinkReserveLoop_adds (target avail : ℕ) (space : NoflSpace) :
    Adds 0 space (shrinkReserveLoop target avail space) := by
  induction avail generalizing space with
  | zero => exact Adds.refl space
  | succ avail inductionHypothesis =>
      rw [shrinkReserveLoop]
      split
      · split
        · exact Adds.refl space
        next block rest targets =>
          refine (space.retire_adds block { space with evacuationTargets := rest } ?_ rfl rfl
            rfl).trans (inductionHypothesis _)
          simp only [availableBlockCount, targets, List.length_cons]
          omega
      · exact Adds.refl space

theorem noflSpaceShrink_adds (space : NoflSpace) (bytes : ℕ) :
    Adds (-bytes) space (space.noflSpaceShrink bytes) := by
  have requested := space.addPending_adds bytes
  have shrunk := requested.trans (shrinkEmptyLoop_adds _ _ rfl)
  rw [noflSpaceShrink]
  split
  · exact (shrunk.trans (shrinkReserveLoop_adds _ _ _)).congr (by ring)
  · exact shrunk.congr (by ring)

theorem usedBlockCount_shrinkEmptyLoop (blocks : List ℕ) (space : NoflSpace) :
    (shrinkEmptyLoop blocks space).usedBlockCount = space.usedBlockCount := by
  induction blocks generalizing space with
  | nil => rfl
  | cons block rest inductionHypothesis =>
      rw [shrinkEmptyLoop]
      split
      · rw [inductionHypothesis]
        rfl
      · rfl

theorem usedBlockCount_shrinkReserveLoop (target avail : ℕ) (space : NoflSpace) :
    (shrinkReserveLoop target avail space).usedBlockCount = space.usedBlockCount := by
  induction avail generalizing space with
  | zero => rfl
  | succ avail inductionHypothesis =>
      rw [shrinkReserveLoop]
      split
      · split
        · rfl
        · rw [inductionHypothesis]
          rfl
      · rfl

/-- Only empty blocks and evacuation targets become unavailable. -/
theorem usedBlockCount_noflSpaceShrink (space : NoflSpace) (bytes : ℕ) :
    (space.noflSpaceShrink bytes).usedBlockCount = space.usedBlockCount := by
  rw [noflSpaceShrink]
  split
  · rw [usedBlockCount_shrinkReserveLoop, usedBlockCount_shrinkEmptyLoop]
    rfl
  · rw [usedBlockCount_shrinkEmptyLoop]
    rfl

/-- Pushing the blocks of new slabs makes that many blocks unavailable and changes no other
count. -/
theorem foldl_pushFreshBlock_eq (blocks : List ℕ) (space : NoflSpace) :
    (blocks.foldl pushFreshBlock space).unavailableBlockCount =
        space.unavailableBlockCount + blocks.length ∧
      (blocks.foldl pushFreshBlock space).availableBlockCount = space.availableBlockCount ∧
      (blocks.foldl pushFreshBlock space).slabs = space.slabs ∧
      (blocks.foldl pushFreshBlock space).pendingUnavailableBytes =
        space.pendingUnavailableBytes := by
  induction blocks generalizing space with
  | nil => exact ⟨rfl, rfl, rfl, rfl⟩
  | cons block blocks inductionHypothesis =>
      obtain ⟨unavailable, available, slabs, pending⟩ :=
        inductionHypothesis (space.pushFreshBlock block)
      have pushed : (space.pushFreshBlock block).unavailableBlockCount =
          space.unavailableBlockCount + 1 :=
        (space.setPagedOut block).unavailableBlockCount_noflPushUnavailableBlock block
      refine ⟨?_, available, slabs, pending⟩
      rw [List.foldl_cons, unavailable, pushed, List.length_cons]
      omega

theorem length_slabBlocks (slab : ℕ) :
    (slabBlocks slab).length = NOFL_NONMETA_BLOCKS_PER_SLAB := by
  simp [slabBlocks]

theorem length_slabsAt (base count : ℕ) : (slabsAt base count).length = count := by
  simp [slabsAt]

theorem length_flatMap_slabBlocks (slabs : List ℕ) :
    (slabs.flatMap slabBlocks).length = slabs.length * NOFL_NONMETA_BLOCKS_PER_SLAB := by
  induction slabs with
  | nil => simp
  | cons slab slabs inductionHypothesis =>
      rw [List.flatMap_cons, List.length_append, inductionHypothesis, length_slabBlocks,
        List.length_cons]
      ring

/-- New slabs come with all their blocks unavailable. -/
theorem addSlabs_adds (space : NoflSpace) (slabs : List ℕ) :
    Adds 0 space ((slabs.flatMap slabBlocks).foldl pushFreshBlock
      { space with slabs := space.slabs ++ slabs }) := by
  obtain ⟨unavailable, available, slabsEq, pending⟩ := foldl_pushFreshBlock_eq
    (slabs.flatMap slabBlocks) { space with slabs := space.slabs ++ slabs }
  rw [length_flatMap_slabBlocks] at unavailable
  have count : ((slabs.flatMap slabBlocks).foldl pushFreshBlock
      { space with slabs := space.slabs ++ slabs }).unavailableBlockCount =
        space.unavailableBlockCount + slabs.length * NOFL_NONMETA_BLOCKS_PER_SLAB := unavailable
  have total : ((slabs.flatMap slabBlocks).foldl pushFreshBlock
      { space with slabs := space.slabs ++ slabs }).totalBlockCount =
        space.totalBlockCount + slabs.length * NOFL_NONMETA_BLOCKS_PER_SLAB := by
    rw [totalBlockCount, slabsEq, List.length_append, totalBlockCount]
    ring
  constructor
  · rw [value, value, total, count, pending]
    push_cast
    ring
  · intro listed
    have kept : ((slabs.flatMap slabBlocks).foldl pushFreshBlock
        { space with slabs := space.slabs ++ slabs }).availableBlockCount =
          space.availableBlockCount := available
    rw [AllListed, total, count, kept, ← listed]
    omega

theorem noflSpaceExpand_adds (space : NoflSpace) (bytes base : ℕ) :
    Adds bytes space (space.noflSpaceExpand bytes base) := by
  have reacquired := space.noflSpaceMaybeReacquireMemory_adds bytes
  rw [noflSpaceExpand]
  split
  · exact reacquired
  · refine ((reacquired.trans (addSlabs_adds _ (slabsAt base _))).trans
      (noflSpaceMaybeReacquireMemory_adds _ 0)).congr ?_
    simp

end Loops

/-! ## Paging out -/

/-- Moving a block from one unavailable stack to another. -/
theorem movePagedOut_adds (space : NoflSpace) {age older : Fin NOFL_PAGE_OUT_QUEUE_SIZE}
    {block : ℕ} {rest : List ℕ} (stack : space.pagedOut age = block :: rest)
    (popped : NoflSpace)
    (unavailable : popped.unavailableBlockCount =
      unavailableBlockCount { space with pagedOut := update space.pagedOut age rest })
    (available : popped.availableBlockCount = space.availableBlockCount)
    (slabs : popped.slabs = space.slabs)
    (pending : popped.pendingUnavailableBytes = space.pendingUnavailableBytes) :
    Adds 0 space (popped.pushPagedOut older block) := by
  have balance := space.unavailableBlockCount_update age rest
  rw [stack, List.length_cons] at balance
  have count : (popped.pushPagedOut older block).unavailableBlockCount =
      space.unavailableBlockCount := by
    rw [unavailableBlockCount_pushPagedOut, unavailable]
    omega
  have total : (popped.pushPagedOut older block).totalBlockCount = space.totalBlockCount := by
    show popped.slabs.length * _ = space.slabs.length * _
    rw [slabs]
  have debt : (popped.pushPagedOut older block).pendingUnavailableBytes =
      space.pendingUnavailableBytes := pending
  constructor
  · rw [value, value, total, count, debt]
    ring
  · intro listed
    have kept : (popped.pushPagedOut older block).availableBlockCount =
        space.availableBlockCount := available
    rw [AllListed, total, count, kept]
    exact listed

theorem advanceAge_adds {space advanced : NoflSpace} {age older : Fin NOFL_PAGE_OUT_QUEUE_SIZE}
    (moved : space.advanceAge age older = some advanced) : Adds 0 space advanced := by
  unfold advanceAge at moved
  split at moved
  · cases moved
  next block rest stack =>
    cases moved
    exact space.movePagedOut_adds stack _ rfl rfl rfl rfl

theorem noflSpaceAdvancePageOutQueue_adds (space : NoflSpace) :
    Adds 0 space space.noflSpaceAdvancePageOutQueue := by
  unfold noflSpaceAdvancePageOutQueue
  split
  · exact Adds.refl space
  next advanced moved =>
    have first := advanceAge_adds moved
    cases again : advanced.advanceAge 0 1 with
    | none => exact first
    | some result => exact first.trans (advanceAge_adds again)

theorem pageOutLoop_adds (blocks : List ℕ) (space : NoflSpace)
    (isStack : space.pagedOut 2 = blocks) : Adds 0 space (pageOutLoop blocks space) := by
  induction blocks generalizing space with
  | nil => exact Adds.refl space
  | cons block rest inductionHypothesis =>
      rw [pageOutLoop]
      let popped : NoflSpace := { space with pagedOut := update space.pagedOut 2 rest }
      refine (space.movePagedOut_adds isStack (popped.setPagedOut block) rfl rfl rfl rfl).trans
        (inductionHypothesis _ ?_)
      simp [popped, pushPagedOut, setPagedOut]

theorem noflSpacePageOutBlocks_adds (space : NoflSpace) :
    Adds 0 space space.noflSpacePageOutBlocks :=
  pageOutLoop_adds _ _ rfl

/-! ## Initialization -/

/-- Each round of the initial loop lists one more block. -/
theorem initLoop_eq (blocks : List ℕ) (excess : ℕ) (space : NoflSpace) :
    (initLoop blocks excess space).availableBlockCount +
        (initLoop blocks excess space).unavailableBlockCount =
      space.availableBlockCount + space.unavailableBlockCount + blocks.length ∧
      (initLoop blocks excess space).slabs = space.slabs := by
  induction blocks generalizing excess space with
  | nil => exact ⟨rfl, rfl⟩
  | cons block blocks inductionHypothesis =>
      rw [initLoop]
      split
      · obtain ⟨counts, slabs⟩ := inductionHypothesis (excess - NOFL_BLOCK_SIZE)
          ((space.setPagedOut block).noflPushUnavailableBlock block)
        have unavailable :=
          (space.setPagedOut block).unavailableBlockCount_noflPushUnavailableBlock block
        have kept : (space.setPagedOut block).unavailableBlockCount =
            space.unavailableBlockCount := rfl
        have available : ((space.setPagedOut block).noflPushUnavailableBlock
            block).availableBlockCount = space.availableBlockCount := rfl
        refine ⟨?_, slabs⟩
        rw [counts, unavailable, available, kept, List.length_cons]
        omega
      · obtain ⟨counts, slabs⟩ := inductionHypothesis excess
          ((space.setPagedOut block).pushAvailableBlock block)
        obtain ⟨unavailable, available, slabs', -⟩ :=
          (space.setPagedOut block).pushAvailableBlock_eq block
        have keptUnavailable : (space.setPagedOut block).unavailableBlockCount =
            space.unavailableBlockCount := rfl
        have keptAvailable : (space.setPagedOut block).availableBlockCount =
            space.availableBlockCount := rfl
        refine ⟨?_, slabs.trans slabs'⟩
        rw [counts, unavailable, available, keptUnavailable, keptAvailable, List.length_cons]
        omega

theorem pendingUnavailableBytes_initLoop (blocks : List ℕ) (excess : ℕ) (space : NoflSpace) :
    (initLoop blocks excess space).pendingUnavailableBytes = space.pendingUnavailableBytes := by
  induction blocks generalizing excess space with
  | nil => rfl
  | cons block blocks inductionHypothesis =>
      rw [initLoop]
      split
      · exact inductionHypothesis _ _
      · obtain ⟨-, -, -, pending⟩ := (space.setPagedOut block).pushAvailableBlock_eq block
        exact (inductionHypothesis _ _).trans pending

/-- Nothing is owed at first. -/
theorem pendingUnavailableBytes_noflSpaceInit (size base : ℕ) (evacuationMinimumReserve : ℚ) :
    (noflSpaceInit size base evacuationMinimumReserve).pendingUnavailableBytes = 0 := by
  unfold noflSpaceInit
  exact pendingUnavailableBytes_initLoop _ _ _

/-- After initialization every block is listed. -/
theorem noflSpaceInit_listed (size base : ℕ) (evacuationMinimumReserve : ℚ) :
    (noflSpaceInit size base evacuationMinimumReserve).AllListed := by
  unfold noflSpaceInit
  dsimp only
  rw [AllListed, (initLoop_eq _ _ _).1, totalBlockCount, (initLoop_eq _ _ _).2,
    length_flatMap_slabBlocks]
  simp [availableBlockCount, unavailableBlockCount]

end NoflSpace

end Whippet.Nofl
