import Whippet.Pcc.BlockPlaces
import Whippet.Pcc.SharedSpace

/-!
What a turn of an allocator can do.

Every turn is one of a few moves: a block goes from a list to the allocator or back, the allocator
bumps its pointer, or it counts its block before it gives it up.

Owns: the moves, that every turn is one of them, and what they leave of the places of a block. Does
not own: what a run keeps.
-/

namespace Whippet.Pcc

open Function
open Nofl (alignUp)

/-- The block of an allocator. -/
def AllocatorStage.block? : AllocatorStage → Option ℕ
  | .idle | .seeking _ | .seekingEmpty _ => none
  | .holding allocator | .found allocator _ => some allocator.block
  | .releasingFull block _ | .releasingPartlyFull block => some block

/-- The size of the allocation that is not finished. -/
def AllocatorStage.pending? : AllocatorStage → Option ℕ
  | .idle | .holding _ | .releasingPartlyFull _ => none
  | .releasingFull _ pending => pending
  | .seeking size | .found _ size | .seekingEmpty size => some size

/-- The moves. `size` is what an unfinished allocation asks for. -/
inductive Move (space : SharedSpace) : AllocatorStage → Turn → Prop
  /-- The allocator has no block before and after. -/
  | wait {stage next : AllocatorStage} (before : stage.block? = none) (after : next.block? = none)
      (pending : next.pending? = none ∨ next.pending? = stage.pending? ∨
        ∃ size, 0 < size ∧ size ≤ GC_LARGE_OBJECT_THRESHOLD ∧
          next.pending? = some (alignUp size GC_ALIGNMENT)) :
      Move space stage { stage := next, space := space, ref := none }
  | bump {stage : AllocatorStage} {allocator : BlockAllocator} {size : ℕ}
      (before : stage = .holding allocator ∨ stage = .found allocator size)
      (positive : 0 < size) (fits : allocator.hp + size ≤ allocator.limit) :
      Move space stage
        { stage := .holding { allocator with hp := allocator.hp + size }
          space := space
          ref := some allocator.hp }
  | countFull {stage : AllocatorStage} {allocator : BlockAllocator} {size : ℕ}
      (before : stage = .holding allocator ∨ stage = .found allocator size) (positive : 0 < size)
      (small : size ≤ COPY_SPACE_REGION_SIZE) :
      Move space stage
        { stage := .releasingFull allocator.block (some size)
          space := space.countFullBlock allocator
          ref := none }
  /-- `hp` is at the end of the region. -/
  | countWrapped {allocator : BlockAllocator}
      (atEnd : allocator.hp % COPY_SPACE_REGION_SIZE = 0) :
      Move space (.holding allocator)
        { stage := .releasingFull allocator.block none
          space := { space with
            allocatedBytes := space.allocatedBytes +
              (COPY_SPACE_REGION_SIZE - space.allocated allocator.block) }
          ref := none }
  | countPartlyFull {allocator : BlockAllocator}
      (inside : allocator.hp % COPY_SPACE_REGION_SIZE ≠ 0) :
      Move space (.holding allocator)
        { stage := .releasingPartlyFull allocator.block
          space := { space with
            allocatedBytes := space.allocatedBytes +
              (allocator.hp % COPY_SPACE_REGION_SIZE - space.allocated allocator.block)
            allocated := update space.allocated allocator.block
              (allocator.hp % COPY_SPACE_REGION_SIZE) }
          ref := none }
  | pushFull {block : ℕ} {pending : Option ℕ} {next : AllocatorStage}
      (after : next.block? = none) (samePending : next.pending? = pending) :
      Move space (.releasingFull block pending)
        { stage := next, space := space.pushFullBlock block, ref := none }
  | pushPartlyFull {block : ℕ} :
      Move space (.releasingPartlyFull block)
        { stage := .idle, space := space.pushPartlyFullBlock block, ref := none }
  | popPartlyFull {block size : ℕ} {rest : List ℕ} (popped : space.partlyFull = block :: rest) :
      Move space (.seeking size)
        { stage := .found
            { hp := regionStart block space.activeRegion + space.allocated block
              limit := regionStart block space.activeRegion + COPY_SPACE_REGION_SIZE
              block := block } size
          space := { space with partlyFull := rest }
          ref := none }
  | popEmpty {block size : ℕ} {popped : SharedSpace}
      (found : space.popEmptyBlock = some (block, popped)) :
      Move space (.seekingEmpty size)
        { stage := .holding
            { hp := regionStart block space.activeRegion + size
              limit := regionStart block space.activeRegion + COPY_SPACE_REGION_SIZE
              block := block }
          space := popped.occupy block
          ref := some (regionStart block space.activeRegion) }
  /-- The block keeps its flags. -/
  | pageIn {block size : ℕ} {popped : CopySpace} (inGc : space.blocks.inGc = true)
      (found : space.blocks.pageInBlock = some (block, popped)) :
      Move space (.seekingEmpty size)
        { stage := .holding
            { hp := regionStart block space.activeRegion + size
              limit := regionStart block space.activeRegion + COPY_SPACE_REGION_SIZE
              block := block }
          space := { space with blocks := popped.addToPageOut COPY_SPACE_BLOCK_SIZE }.occupy block
          ref := some (regionStart block space.activeRegion) }

/-- The sizes of unfinished allocations are not zero and fit in an empty block. -/
def AllocatorStage.PendingFits (stage : AllocatorStage) : Prop :=
  ∀ size, stage.pending? = some size → 0 < size ∧ size ≤ COPY_SPACE_REGION_SIZE

theorem alignUp_fits {size : ℕ} (positive : 0 < size)
    (small : size ≤ GC_LARGE_OBJECT_THRESHOLD) :
    0 < alignUp size GC_ALIGNMENT ∧ alignUp size GC_ALIGNMENT ≤ COPY_SPACE_REGION_SIZE := by
  simp only [GC_LARGE_OBJECT_THRESHOLD, COPY_SPACE_REGION_SIZE, GC_ALIGNMENT, alignUp] at *
  omega

section Turns

variable {space : SharedSpace} {stage : AllocatorStage} {turn : Turn}

theorem move_of_bump {allocator : BlockAllocator} {size : ℕ}
    (before : stage = .holding allocator ∨ stage = .found allocator size) (positive : 0 < size)
    (small : size ≤ COPY_SPACE_REGION_SIZE) : Move space stage (space.bump allocator size) := by
  unfold SharedSpace.bump
  split
  next fits => exact .bump before positive fits
  next => exact .countFull before positive small

theorem move_of_startAllocate {size : ℕ} (positive : 0 < size)
    (small : size ≤ GC_LARGE_OBJECT_THRESHOLD)
    (taken : space.startAllocate size stage = some turn) : Move space stage turn := by
  cases stage with
  | idle =>
      cases taken
      exact .wait rfl rfl (.inr (.inr ⟨size, positive, small, rfl⟩))
  | holding allocator =>
      cases taken
      have fits := alignUp_fits positive small
      exact move_of_bump (.inl rfl) fits.1 fits.2
  | _ => cases taken

theorem move_of_startFinish (taken : space.startFinish stage = some turn) :
    Move space stage turn := by
  cases stage with
  | idle =>
      cases taken
      exact .wait rfl rfl (.inl rfl)
  | holding allocator =>
      simp only [SharedSpace.startFinish] at taken
      split at taken
      next inside =>
        cases taken
        exact .countPartlyFull inside
      next atEnd =>
        cases taken
        exact .countWrapped (not_not.mp atEnd)
  | _ => cases taken

theorem move_of_acquireEmptyBlock {allocator : BlockAllocator} {acquired : SharedSpace} {size : ℕ}
    (found : space.acquireEmptyBlock = some (allocator, acquired)) :
    Move space (.seekingEmpty size)
      { stage := .holding { allocator with hp := allocator.hp + size }
        space := acquired
        ref := some allocator.hp } := by
  simp only [SharedSpace.acquireEmptyBlock] at found
  cases poppedEq : space.popEmptyBlock with
  | some popped =>
      simp only [poppedEq, Option.some.injEq, Prod.mk.injEq] at found
      obtain ⟨rfl, rfl⟩ := found
      exact .popEmpty poppedEq
  | none =>
      simp only [poppedEq] at found
      split at found
      · cases found
      next block popped obtained =>
        cases found
        split at obtained
        next inGc =>
          unfold SharedSpace.obtainEmptyBlockDuringGc CopySpace.obtainEmptyBlockDuringGc at obtained
          cases pagedEq : space.blocks.pageInBlock with
          | none => simp [pagedEq] at obtained
          | some paged =>
              simp only [pagedEq, Option.some.injEq, Prod.mk.injEq] at obtained
              obtain ⟨rfl, rfl⟩ := obtained
              exact .pageIn inGc pagedEq
        next => cases obtained

theorem move_of_continueTurn (fits : stage.PendingFits)
    (taken : space.continueTurn stage = some turn) : Move space stage turn := by
  cases stage with
  | idle => cases taken
  | holding allocator => cases taken
  | releasingFull block pending =>
      cases taken
      cases pending with
      | none => exact .pushFull rfl rfl
      | some size => exact .pushFull rfl rfl
  | releasingPartlyFull block =>
      cases taken
      exact .pushPartlyFull
  | seeking size =>
      simp only [SharedSpace.continueTurn, SharedSpace.acquirePartlyFullBlock] at taken
      cases partlyEq : space.partlyFull with
      | nil =>
          rw [partlyEq] at taken
          cases taken
          exact .wait rfl rfl (.inr (.inl rfl))
      | cons block rest =>
          rw [partlyEq] at taken
          cases taken
          exact .popPartlyFull partlyEq
  | found allocator size =>
      cases taken
      obtain ⟨positive, small⟩ := fits size rfl
      exact move_of_bump (.inr rfl) positive small
  | seekingEmpty size =>
      simp only [SharedSpace.continueTurn] at taken
      cases foundEq : space.acquireEmptyBlock with
      | none =>
          rw [foundEq] at taken
          cases taken
          exact .wait rfl rfl (.inl rfl)
      | some found =>
          rw [foundEq] at taken
          cases taken
          exact move_of_acquireEmptyBlock foundEq

end Turns

end Whippet.Pcc
