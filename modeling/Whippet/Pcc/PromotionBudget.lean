import Mathlib.Data.List.Perm.Basic
import Whippet.Pcc.CopySpaceBudget
import Whippet.Pcc.Promotion

/-!
How much an allocation takes out of a copy space.

An allocator gives up a block only for an object that does not fit, so it leaves less than the
largest small object behind. The other bytes of a block are sure to be used before the block is
given up, whatever the sizes of the objects are. They are counted here over the blocks of a space
and those that allocators hold: an allocation takes no more of them than it returns, and one that
fails finds none.

Owns: the sure bytes of a block, a space and an allocator, what `copy_space_allocate` and
`copy_space_allocator_finish` do to them, and which bits of a space they leave alone. Does not own:
runs.
-/

namespace Whippet.Pcc

open Function
open Nofl (alignUp)

/-! ## Sure bytes -/

/-- What is sure to be used of `room` bytes at the end of a block. -/
def sureBytes (room : ℕ) : ℕ := room - (GC_LARGE_OBJECT_THRESHOLD - GC_ALIGNMENT)

/-- The blocks that `copy_space_allocator_acquire_empty_block` can still get. -/
def CopySpace.available (space : CopySpace) : ℕ :=
  space.empty.length + if space.inGc = true then space.pagedOutCount else 0

def SpaceContents.sureRoom (contents : SpaceContents) : ℕ :=
  (contents.partlyFull.map fun found => sureBytes (COPY_SPACE_REGION_SIZE - found.allocated)).sum

def FilledSpace.sureRoom (space : FilledSpace) : ℕ :=
  sureBytes COPY_SPACE_REGION_SIZE * space.blocks.available + space.contents.sureRoom

def allocatorRoom : Option CopyAllocator → ℕ
  | none => 0
  | some allocator => sureBytes (COPY_SPACE_REGION_SIZE - allocator.hp)

/-- The sizes that a small object may have. -/
def IsSmall (size : ℕ) : Prop := 0 < size ∧ size ≤ GC_LARGE_OBJECT_THRESHOLD

theorem alignUp_small {size : ℕ} (small : IsSmall size) :
    GC_ALIGNMENT ≤ alignUp size GC_ALIGNMENT ∧
      alignUp size GC_ALIGNMENT ≤ GC_LARGE_OBJECT_THRESHOLD ∧
      alignUp size GC_ALIGNMENT % GC_ALIGNMENT = 0 := by
  obtain ⟨positive, atMost⟩ := small
  simp only [GC_LARGE_OBJECT_THRESHOLD, GC_ALIGNMENT, alignUp] at *
  omega

theorem sureBytes_mono {less more : ℕ} (atMost : less ≤ more) : sureBytes less ≤ sureBytes more :=
  Nat.sub_le_sub_right atMost _

/-- An allocation uses up no more sure bytes than it takes. -/
theorem sureBytes_le_add (room size : ℕ) : sureBytes room ≤ sureBytes (room - size) + size := by
  unfold sureBytes
  omega

/-- A block is given up when it has no sure bytes left. -/
theorem sureBytes_eq_zero {hp size : ℕ} (aligned : hp % GC_ALIGNMENT = 0)
    (sizeAligned : size % GC_ALIGNMENT = 0) (atMost : size ≤ GC_LARGE_OBJECT_THRESHOLD)
    (full : COPY_SPACE_REGION_SIZE < hp + size) :
    sureBytes (COPY_SPACE_REGION_SIZE - hp) = 0 := by
  simp only [sureBytes, GC_ALIGNMENT, GC_LARGE_OBJECT_THRESHOLD, COPY_SPACE_REGION_SIZE] at *
  omega

/-! ## Blocks that are filled as they should be -/

/-- The allocator has allocated from its block, and only aligned sizes. -/
structure CopyAllocator.Aligned (allocator : CopyAllocator) : Prop where
  aligned : allocator.hp % GC_ALIGNMENT = 0
  used : GC_ALIGNMENT ≤ allocator.hp
  inRegion : allocator.hp ≤ COPY_SPACE_REGION_SIZE

def SpaceContents.Aligned (contents : SpaceContents) : Prop :=
  ∀ found ∈ contents.partlyFull, found.allocated % GC_ALIGNMENT = 0

def AllocatorAligned (allocator : Option CopyAllocator) : Prop :=
  ∀ current, allocator = some current → current.Aligned

theorem AllocatorAligned.none : AllocatorAligned none := by
  intro current found
  cases found

/-- What an allocator that holds a block has of it is less than a whole block. -/
theorem AllocatorAligned.room_le {allocator : Option CopyAllocator}
    (aligned : AllocatorAligned allocator) :
    allocatorRoom allocator ≤ sureBytes (COPY_SPACE_REGION_SIZE - GC_ALIGNMENT) := by
  cases allocator with
  | none => exact Nat.zero_le _
  | some current =>
      have used := (aligned current rfl).used
      rw [allocatorRoom]
      exact sureBytes_mono (by omega)

/-! ## What the operations leave alone -/

/-- The operation leaves alone what a collection asks the space about: which objects to promote. -/
structure SpaceContents.SamePromotion (before after : SpaceContents) : Prop where
  activeRegion_eq : after.activeRegion = before.activeRegion
  isSurvivor_eq (block : ℕ) : after.isSurvivor block (!before.activeRegion) =
    before.isSurvivor block (!before.activeRegion)

namespace SpaceContents.SamePromotion

variable {before middle after : SpaceContents}

theorem refl (contents : SpaceContents) : SamePromotion contents contents where
  activeRegion_eq := rfl
  isSurvivor_eq _ := rfl

theorem trans (left : SamePromotion before middle) (right : SamePromotion middle after) :
    SamePromotion before after where
  activeRegion_eq := right.activeRegion_eq.trans left.activeRegion_eq
  isSurvivor_eq block := by
    have other := right.isSurvivor_eq block
    rw [left.activeRegion_eq] at other
    exact other.trans (left.isSurvivor_eq block)

theorem shouldPromote_eq (same : SamePromotion before after) (object : SmallObject) :
    after.shouldPromote object = before.shouldPromote object := by
  rw [shouldPromote, same.activeRegion_eq]
  exact same.isSurvivor_eq object.block

theorem setSurvivor (contents : SpaceContents) (block : ℕ) (survives : Bool) :
    SamePromotion contents (contents.setSurvivor block survives) where
  activeRegion_eq := rfl
  isSurvivor_eq other := by
    by_cases same : other = block
    · subst same
      cases regionEq : contents.activeRegion <;> simp [SpaceContents.setSurvivor, regionEq]
    · simp [SpaceContents.setSurvivor, same]

theorem partlyFull (contents : SpaceContents) (blocks : List PartlyFullBlock) :
    SamePromotion contents { contents with partlyFull := blocks } where
  activeRegion_eq := rfl
  isSurvivor_eq _ := rfl

end SpaceContents.SamePromotion

namespace CopySpace

variable {space acquired : CopySpace}

theorem available_of_acquire (found : space.acquireEmptyBlock = some acquired) :
    space.available = acquired.available + 1 := by
  unfold available
  rcases acquireEmptyBlock_eq_some found with
    ⟨block, rest, _, emptyEq, rfl⟩ | ⟨⟨collecting, emptyEq⟩, _, pagedOut, _, count, rfl⟩
  · rw [emptyEq, List.length_cons, Nat.add_right_comm]
    rfl
  · show _ = space.empty.length + (if space.inGc = true then
      pagedOutCount { space with pagedOut := pagedOut } else 0) + 1
    rw [if_pos collecting, if_pos collecting, ← count]
    rfl

theorem available_of_acquire_eq_none (missing : space.acquireEmptyBlock = none) :
    space.available = 0 := by
  unfold acquireEmptyBlock popEmptyBlock at missing
  unfold available
  cases emptyEq : space.empty with
  | cons block rest => simp [emptyEq] at missing
  | nil =>
      simp only [emptyEq] at missing
      split
      next collecting =>
        rw [if_pos collecting] at missing
        unfold obtainEmptyBlockDuringGc at missing
        split at missing
        next pagedEq =>
          split at pagedEq
          next inner => rw [pageInBlock_eq_none inner]; rfl
          · cases pagedEq
        · cases missing
      · rfl

theorem occupied_of_acquire (found : space.acquireEmptyBlock = some acquired) :
    acquired.occupied ≠ [] := by
  unfold acquireEmptyBlock at found
  dsimp only at found
  split at found
  · cases found
  · cases found
    exact List.cons_ne_nil _ _

end CopySpace

namespace FilledSpace

/-- The operation moves blocks within the space, or marks them, and keeps the sure bytes that are
not its own. -/
structure Moves (before after : FilledSpace) : Prop where
  samePromotion : before.contents.SamePromotion after.contents
  aligned : before.contents.Aligned → after.contents.Aligned

namespace Moves

variable {before middle after : FilledSpace}

theorem refl (space : FilledSpace) : Moves space space where
  samePromotion := .refl _
  aligned := id

theorem trans (left : Moves before middle) (right : Moves middle after) : Moves before after where
  samePromotion := left.samePromotion.trans right.samePromotion
  aligned := right.aligned ∘ left.aligned

end Moves

section Operations

variable (space : FilledSpace)

theorem pushFullBlock_moves (block : ℕ) : Moves space (space.pushFullBlock block) := by
  unfold pushFullBlock
  split
  · exact { samePromotion := .setSurvivor _ _ _, aligned := id }
  · exact .refl space

@[simp] theorem pushFullBlock_blocks (block : ℕ) :
    (space.pushFullBlock block).blocks = space.blocks := by
  unfold pushFullBlock
  split <;> rfl

@[simp] theorem pushFullBlock_partlyFull (block : ℕ) :
    (space.pushFullBlock block).contents.partlyFull = space.contents.partlyFull := by
  unfold pushFullBlock
  split <;> rfl

@[simp] theorem pushFullBlock_sureRoom (block : ℕ) :
    (space.pushFullBlock block).sureRoom = space.sureRoom := by
  rw [sureRoom, sureRoom, SpaceContents.sureRoom, SpaceContents.sureRoom, pushFullBlock_blocks,
    pushFullBlock_partlyFull]

/-- A block that is acquired empty is one fewer to get. -/
theorem acquireEmptyBlock_eq_some {space acquired : FilledSpace} {allocator : CopyAllocator}
    (found : space.acquireEmptyBlock = some (allocator, acquired)) :
    Moves space acquired ∧ allocator.hp = 0 ∧
      space.sureRoom = acquired.sureRoom + sureBytes COPY_SPACE_REGION_SIZE := by
  unfold acquireEmptyBlock at found
  split at found
  · cases found
  next blocks acquiredEq =>
    have available := CopySpace.available_of_acquire acquiredEq
    split at found
    · cases found
    next block rest occupiedEq =>
      simp only [Option.some.injEq, Prod.mk.injEq] at found
      obtain ⟨rfl, rfl⟩ := found
      have partlyFull : ∀ kept : Prop, ∀ [Decidable kept],
          (if kept then space.contents else space.contents.setSurvivor block false).sureRoom =
            space.contents.sureRoom := by
        intro kept _
        split <;> rfl
      refine ⟨?_, rfl, ?_⟩
      · constructor
        · dsimp only
          split
          · exact .refl _
          · exact .setSurvivor _ _ _
        · dsimp only
          split
          · exact id
          · exact id
      · rw [sureRoom, sureRoom, partlyFull, available, Nat.mul_add, Nat.mul_one]
        exact Nat.add_right_comm _ _ _

theorem acquireEmptyBlock_eq_none {space : FilledSpace}
    (missing : space.acquireEmptyBlock = none) : space.blocks.available = 0 := by
  unfold acquireEmptyBlock at missing
  split at missing
  next acquiredEq => exact CopySpace.available_of_acquire_eq_none acquiredEq
  next blocks acquiredEq =>
    split at missing
    next occupiedEq => exact absurd occupiedEq (CopySpace.occupied_of_acquire acquiredEq)
    · cases missing

end Operations

/-! ## The loop over the partly-full blocks -/

section Loops

variable {size : ℕ} {space result : FilledSpace} {blocks : List PartlyFullBlock}

/-- The sure bytes of the blocks that the loop has yet to look at. -/
def blocksRoom (blocks : List PartlyFullBlock) : ℕ :=
  (blocks.map fun found => sureBytes (COPY_SPACE_REGION_SIZE - found.allocated)).sum

/-- The loop leaves on the list what it has not looked at. What it gives up has no sure bytes. -/
theorem acquirePartlyFullBlock_eq {allocator : Option CopyAllocator}
    (small : size % GC_ALIGNMENT = 0 ∧ size ≤ GC_LARGE_OBJECT_THRESHOLD)
    (aligned : ∀ found ∈ blocks, found.allocated % GC_ALIGNMENT = 0)
    (found : acquirePartlyFullBlock size space blocks = (allocator, result)) :
    space.contents.SamePromotion result.contents ∧ result.contents.Aligned ∧
      result.blocks = space.blocks ∧
      blocksRoom blocks = result.contents.sureRoom + allocatorRoom allocator ∧
      (∀ current, allocator = some current →
        current.hp % GC_ALIGNMENT = 0 ∧ current.hp + size ≤ COPY_SPACE_REGION_SIZE) ∧
      (allocator = none → result.contents.partlyFull = []) := by
  induction blocks generalizing space with
  | nil =>
      simp only [acquirePartlyFullBlock, Prod.mk.injEq] at found
      obtain ⟨rfl, rfl⟩ := found
      refine ⟨.partlyFull _ _, ?_, rfl, rfl, ?_, fun _ => rfl⟩
      · intro found member
        cases member
      · intro current found
        cases found
  | cons first rest inductionHypothesis =>
      have firstAligned := aligned first List.mem_cons_self
      have restAligned : ∀ found ∈ rest, found.allocated % GC_ALIGNMENT = 0 :=
        fun other member => aligned other (List.mem_cons_of_mem _ member)
      rw [acquirePartlyFullBlock] at found
      split at found
      next fits =>
        simp only [Prod.mk.injEq] at found
        obtain ⟨rfl, rfl⟩ := found
        refine ⟨.partlyFull _ _, restAligned, rfl, ?_, ?_, ?_⟩
        · rw [blocksRoom, List.map_cons, List.sum_cons, Nat.add_comm]
          rfl
        · intro current found
          cases found
          exact ⟨firstAligned, fits⟩
        · intro missing
          cases missing
      next full =>
        have nothing := sureBytes_eq_zero firstAligned small.1 small.2 (by omega)
        obtain ⟨same, kept, blocksEq, room, fits, missing⟩ :=
          inductionHypothesis restAligned found
        refine ⟨(space.pushFullBlock_moves _).samePromotion.trans same, kept,
          blocksEq.trans (space.pushFullBlock_blocks _), ?_, fits, missing⟩
        rw [← room, blocksRoom, List.map_cons, List.sum_cons, nothing, Nat.zero_add, blocksRoom]

end Loops

/-! ## Allocation -/

/-- What `copy_space_allocate` does, given an allocator that has used its block and blocks that are
filled as they should be. -/
structure Allocates (space : FilledSpace) (allocator : Option CopyAllocator) (size : ℕ)
    (result : CopyAllocation) : Prop where
  samePromotion : space.contents.SamePromotion result.space.contents
  aligned : result.space.contents.Aligned
  allocatorAligned : AllocatorAligned result.allocator
  room_le : result.space.sureRoom + allocatorRoom result.allocator ≤
    space.sureRoom + allocatorRoom allocator
  le_room : result.place ≠ none → space.sureRoom + allocatorRoom allocator ≤
    result.space.sureRoom + allocatorRoom result.allocator + alignUp size GC_ALIGNMENT
  exhausted : result.place = none → result.allocator = none ∧
    space.sureRoom + allocatorRoom allocator = 0

section Allocation

variable {space : FilledSpace} {allocator : Option CopyAllocator} {size : ℕ}

/-- The end of `copy_space_allocate`, in a block with `current.hp` bytes before it. -/
theorem bump_allocates {before : FilledSpace} {given : Option CopyAllocator}
    {current : CopyAllocator} (small : IsSmall size)
    (same : before.contents.SamePromotion space.contents) (aligned : space.contents.Aligned)
    (hpAligned : current.hp % GC_ALIGNMENT = 0)
    (fits : current.hp + alignUp size GC_ALIGNMENT ≤ COPY_SPACE_REGION_SIZE)
    (room : before.sureRoom + allocatorRoom given =
      space.sureRoom + sureBytes (COPY_SPACE_REGION_SIZE - current.hp)) :
    Allocates before given size (space.bump current (alignUp size GC_ALIGNMENT)) where
  samePromotion := same
  aligned := aligned
  allocatorAligned := by
    intro bumped found
    cases found
    obtain ⟨atLeast, -, sizeAligned⟩ := alignUp_small small
    constructor
    · show (current.hp + alignUp size GC_ALIGNMENT) % GC_ALIGNMENT = 0
      rw [Nat.add_mod, hpAligned, sizeAligned]
      rfl
    · exact atLeast.trans (Nat.le_add_left _ _)
    · exact fits
  room_le := by
    rw [room]
    apply Nat.add_le_add_left
    exact sureBytes_mono (Nat.sub_le_sub_left (Nat.le_add_right _ _) _)
  le_room := by
    intro
    have used := sureBytes_le_add (COPY_SPACE_REGION_SIZE - current.hp)
      (alignUp size GC_ALIGNMENT)
    rw [room, Nat.add_assoc, bump, allocatorRoom, ← Nat.sub_sub]
    exact Nat.add_le_add_left used _
  exhausted := by
    intro missing
    cases missing

/-- `copy_space_allocate`, when the block that is given up has no sure bytes. -/
theorem refill_allocates {before : FilledSpace} {given : Option CopyAllocator}
    (small : IsSmall size) (moved : Moves before space) (aligned : space.contents.Aligned)
    (room : before.sureRoom + allocatorRoom given = space.sureRoom) :
    Allocates before given size (space.refill (alignUp size GC_ALIGNMENT)) := by
  obtain ⟨-, atMost, sizeAligned⟩ := alignUp_small small
  unfold refill
  split
  next current partly partlyEq =>
    obtain ⟨same, kept, blocksEq, listRoom, fits, -⟩ :=
      acquirePartlyFullBlock_eq ⟨sizeAligned, atMost⟩ aligned partlyEq
    obtain ⟨hpAligned, fits⟩ := fits current rfl
    apply bump_allocates small (moved.samePromotion.trans same) kept hpAligned fits
    rw [room, sureRoom, sureRoom, blocksEq, Nat.add_assoc]
    exact congrArg _ listRoom
  next partly partlyEq =>
    obtain ⟨same, kept, blocksEq, listRoom, -, missing⟩ :=
      acquirePartlyFullBlock_eq ⟨sizeAligned, atMost⟩ aligned partlyEq
    have sameRoom : space.sureRoom = partly.sureRoom := by
      rw [sureRoom, sureRoom, blocksEq]
      exact congrArg _ listRoom
    split
    next current acquired acquiredEq =>
      obtain ⟨acquiredMoves, hpEq, acquiredRoom⟩ := acquireEmptyBlock_eq_some acquiredEq
      apply bump_allocates small
        ((moved.samePromotion.trans same).trans acquiredMoves.samePromotion)
        (acquiredMoves.aligned kept)
      · rw [hpEq]
        rfl
      · rw [hpEq, Nat.zero_add]
        exact atMost.trans (by decide)
      · rw [room, sameRoom, acquiredRoom, hpEq, Nat.sub_zero]
    next acquiredEq =>
      have nothing : partly.sureRoom = 0 := by
        rw [sureRoom, acquireEmptyBlock_eq_none acquiredEq, SpaceContents.sureRoom, missing rfl]
        rfl
      exact
        { samePromotion := moved.samePromotion.trans same
          aligned := kept
          allocatorAligned := .none
          room_le := by rw [room, sameRoom, allocatorRoom]; exact Nat.le_refl _
          le_room := fun placed => absurd rfl placed
          exhausted := fun _ => ⟨rfl, by rw [room, sameRoom, nothing]⟩ }

theorem allocate_allocates (small : IsSmall size) (aligned : space.contents.Aligned)
    (allocatorAligned : AllocatorAligned allocator) :
    Allocates space allocator size (space.allocate allocator size) := by
  obtain ⟨-, atMost, sizeAligned⟩ := alignUp_small small
  unfold allocate
  cases allocator with
  | none => exact refill_allocates small (.refl space) aligned rfl
  | some current =>
      have hpAligned := (allocatorAligned current rfl).aligned
      dsimp only
      split
      next fits => exact bump_allocates small (.refl _) aligned hpAligned fits rfl
      next full =>
        have nothing := sureBytes_eq_zero hpAligned sizeAligned atMost (by omega)
        have moved := space.pushFullBlock_moves current.block
        apply refill_allocates small moved (moved.aligned aligned)
        rw [allocatorRoom, nothing, Nat.add_zero]
        exact (space.pushFullBlock_sureRoom _).symm

/-- `copy_space_allocator_finish` gives the sure bytes of the allocator's block back. -/
theorem finishAllocator_keeps (allocatorAligned : AllocatorAligned allocator) :
    Moves space (space.finishAllocator allocator) ∧
      (space.finishAllocator allocator).sureRoom = space.sureRoom + allocatorRoom allocator := by
  cases allocator with
  | none => exact ⟨.refl space, rfl⟩
  | some current =>
      obtain ⟨aligned, used, inRegion⟩ := allocatorAligned current rfl
      unfold finishAllocator
      dsimp only
      split
      next partly =>
        have inside : current.hp < COPY_SPACE_REGION_SIZE := by
          apply Nat.lt_of_le_of_ne inRegion
          intro full
          exact partly (by rw [full, Nat.mod_self])
        rw [Nat.mod_eq_of_lt inside]
        refine ⟨{ samePromotion := .partlyFull _ _, aligned := ?_ }, ?_⟩
        · intro others found member
          rcases List.mem_cons.mp member with rfl | listed
          · exact aligned
          · exact others found listed
        · have sameBlocks : (space.pushPartlyFullBlock
              { block := current.block, allocated := current.hp }).blocks = space.blocks := rfl
          rw [sureRoom, sureRoom, sameBlocks, pushPartlyFullBlock, SpaceContents.sureRoom,
            SpaceContents.pushPartlyFullBlock, List.map_cons, List.sum_cons, allocatorRoom,
            SpaceContents.sureRoom]
          dsimp only
          omega
      next full =>
        refine ⟨space.pushFullBlock_moves _, ?_⟩
        have atLimit : current.hp = COPY_SPACE_REGION_SIZE := by
          simp only [GC_ALIGNMENT, COPY_SPACE_REGION_SIZE] at *
          omega
        rw [pushFullBlock_sureRoom, allocatorRoom, atLimit, Nat.sub_self, sureBytes, Nat.zero_sub,
          Nat.add_zero]

/-- After a minor collection no block of the space is partly full. -/
theorem releasePartlyFullBlocks_aligned (space : FilledSpace) :
    space.releasePartlyFullBlocks.contents.Aligned := by
  have emptied : ∀ (blocks : List PartlyFullBlock) (start : FilledSpace),
      (blocks.foldl (fun space found => space.pushFullBlock found.block)
        start).contents.partlyFull = start.contents.partlyFull := by
    intro blocks
    induction blocks with
    | nil => exact fun _ => rfl
    | cons first rest inductionHypothesis =>
        intro start
        rw [List.foldl_cons, inductionHypothesis, pushFullBlock_partlyFull]
  intro found member
  rw [releasePartlyFullBlocks, emptied] at member
  cases member

end Allocation

end FilledSpace

end Whippet.Pcc
