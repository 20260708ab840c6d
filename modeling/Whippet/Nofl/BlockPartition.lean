import Whippet.Nofl.BlockMoves

/-!
Every block of the nofl space has one owner, in every run.

`Settled` ties the owners of blocks to the allocators and to the slabs. Initialization
establishes it: each block of a slab is pushed once. Each step keeps it: operations of the space
move blocks between lists, an acquisition takes one block off a list, a release puts one back, and
new slabs add blocks that were no one's.

Owns: blocks of new slabs, the invariant of runs, and that blocks are partitioned in every state
that is reached.
-/

namespace Whippet.Nofl

open Function

/-! ## Blocks of slabs -/

/-- The blocks of the slabs that hold objects. -/
def payloadBlocks (slabs : List ℕ) : List ℕ := slabs.flatMap NoflSpace.slabBlocks

theorem mem_slabBlocks {slab block : ℕ} :
    block ∈ NoflSpace.slabBlocks slab ↔ ∃ index < NOFL_NONMETA_BLOCKS_PER_SLAB,
      block = slab + (NOFL_META_BLOCKS_PER_SLAB + index) * NOFL_BLOCK_SIZE := by
  simp only [NoflSpace.slabBlocks, List.mem_map, List.mem_range, eq_comm]

/-- The slab that a block is in. -/
theorem slab_of_mem_slabBlocks {slab block : ℕ} (aligned : slab % NOFL_SLAB_SIZE = 0)
    (member : block ∈ NoflSpace.slabBlocks slab) :
    block / NOFL_SLAB_SIZE * NOFL_SLAB_SIZE = slab := by
  obtain ⟨index, below, rfl⟩ := mem_slabBlocks.mp member
  have size : NOFL_SLAB_SIZE = 4194304 := by decide
  have blockSize : NOFL_BLOCK_SIZE = 65536 := by decide
  have metaBlocks : NOFL_META_BLOCKS_PER_SLAB = 4 := by decide
  have nonmeta : NOFL_NONMETA_BLOCKS_PER_SLAB = 60 := by decide
  rw [size] at aligned ⊢
  rw [nonmeta] at below
  rw [blockSize, metaBlocks]
  omega

theorem mem_payloadBlocks {slabs : List ℕ} {block : ℕ} :
    block ∈ payloadBlocks slabs ↔ ∃ slab ∈ slabs, block ∈ NoflSpace.slabBlocks slab :=
  List.mem_flatMap

theorem nodup_slabBlocks (slab : ℕ) : (NoflSpace.slabBlocks slab).Nodup := by
  apply List.Nodup.map _ List.nodup_range
  intro left right same
  have size : 0 < NOFL_BLOCK_SIZE := by decide
  have positions := Nat.add_left_cancel same
  exact Nat.add_left_cancel (Nat.eq_of_mul_eq_mul_right size positions)

theorem nodup_slabsAt (base count : ℕ) : (NoflSpace.slabsAt base count).Nodup := by
  apply List.Nodup.map _ List.nodup_range
  intro left right same
  have size : 0 < NOFL_SLAB_SIZE := by decide
  exact Nat.eq_of_mul_eq_mul_right size (Nat.add_left_cancel same)

/-- The blocks of different slabs are different. -/
theorem nodup_payloadBlocks {slabs : List ℕ} (nodup : slabs.Nodup)
    (aligned : ∀ slab ∈ slabs, slab % NOFL_SLAB_SIZE = 0) : (payloadBlocks slabs).Nodup := by
  rw [payloadBlocks, List.nodup_flatMap]
  refine ⟨fun slab _ => nodup_slabBlocks slab, ?_⟩
  apply nodup.imp_of_mem
  intro left right leftMember rightMember different block inLeft inRight
  apply different
  rw [← slab_of_mem_slabBlocks (aligned left leftMember) inLeft,
    ← slab_of_mem_slabBlocks (aligned right rightMember) inRight]

theorem mem_slabsAt {base count slab : ℕ} :
    slab ∈ NoflSpace.slabsAt base count ↔
        ∃ index < count, slab = base + index * NOFL_SLAB_SIZE := by
  simp only [NoflSpace.slabsAt, List.mem_map, List.mem_range, eq_comm]

section Available

variable {inUse : List ℕ} {base count slab block : ℕ}

theorem SlabsAvailable.aligned (available : SlabsAvailable inUse base count)
    (member : slab ∈ NoflSpace.slabsAt base count) : slab % NOFL_SLAB_SIZE = 0 := by
  obtain ⟨index, -, rfl⟩ := mem_slabsAt.mp member
  rw [Nat.add_mul_mod_self_right]
  exact available.2.1

/-- Blocks of memory that was acquired have addresses. -/
theorem SlabsAvailable.isBlockAddress (available : SlabsAvailable inUse base count)
    (member : block ∈ payloadBlocks (NoflSpace.slabsAt base count)) : IsBlockAddress block := by
  obtain ⟨notNull, aligned, inRange, -⟩ := available
  obtain ⟨slab, inSlabs, inSlab⟩ := mem_payloadBlocks.mp member
  obtain ⟨index, below, rfl⟩ := mem_slabsAt.mp inSlabs
  obtain ⟨position, belowPosition, rfl⟩ := mem_slabBlocks.mp inSlab
  have size : NOFL_SLAB_SIZE = 4194304 := by decide
  have blockSize : NOFL_BLOCK_SIZE = 65536 := by decide
  have metaBlocks : NOFL_META_BLOCKS_PER_SLAB = 4 := by decide
  have nonmeta : NOFL_NONMETA_BLOCKS_PER_SLAB = 60 := by decide
  rw [size] at aligned inRange ⊢
  rw [nonmeta] at belowPosition
  rw [blockSize, metaBlocks, IsBlockAddress, blockSize]
  omega

/-- They are none of the blocks in use. -/
theorem SlabsAvailable.notMem (available : SlabsAvailable inUse base count)
    (alignedInUse : ∀ slab ∈ inUse, slab % NOFL_SLAB_SIZE = 0)
    (member : block ∈ payloadBlocks (NoflSpace.slabsAt base count)) :
    block ∉ payloadBlocks inUse := by
  intro isUsed
  obtain ⟨slab, inSlabs, inSlab⟩ := mem_payloadBlocks.mp member
  obtain ⟨used, inUsed, inUsedSlab⟩ := mem_payloadBlocks.mp isUsed
  have same := slab_of_mem_slabBlocks (available.aligned inSlabs) inSlab
  rw [slab_of_mem_slabBlocks (alignedInUse used inUsed) inUsedSlab] at same
  subst same
  exact available.2.2.2 used inUsed inSlabs

theorem SlabsAvailable.nodup (available : SlabsAvailable inUse base count) :
    (payloadBlocks (NoflSpace.slabsAt base count)).Nodup :=
  nodup_payloadBlocks (nodup_slabsAt base count) fun _ member => available.aligned member

end Available

/-! ## Adding blocks -/

section Adds

variable {space after : BlockSpace} {owner : ℕ → Place} {block : ℕ}

/-- The blocks, which are no one's, go on lists of the space. -/
def Adds (space after : BlockSpace) (owner : ℕ → Place) (blocks : List ℕ) : Prop :=
  after.slabs = space.slabs ∧ ∃ moved, Owned after moved ∧
    (∀ block ∉ blocks, moved block = owner block) ∧ ∀ block ∈ blocks, (moved block).IsSpaceList

/-- A block of a new slab is in hand. -/
theorem Owned.found (holds : Owned space owner) (nowhere : owner block = .nowhere)
    (isAddress : IsBlockAddress block) : Owned space (update owner block .hand) := by
  constructor
  · rw [Owned.listName?_update, Place.listName?_hand,
      show none = (owner block).listName? by rw [nowhere]; rfl, update_eq_self block]
    exact holds.listed
  · intro other notInHand
    have different : other ≠ block := by
      rintro rfl
      simp at notInHand
    rw [update_of_ne different] at notInHand ⊢
    exact holds.unavailable other notInHand
  · intro other somewhere
    by_cases same : other = block
    · rwa [same]
    · rw [update_of_ne same] at somewhere
      exact holds.address other somewhere
  · intro other isNowhere
    have different : other ≠ block := by
      rintro rfl
      simp at isNowhere
    rw [update_of_ne different] at isNowhere
    exact holds.fresh other isNowhere
  · intro other onList
    have different : other ≠ block := by
      rintro rfl
      simp at onList
    rw [update_of_ne different] at onList
    exact holds.hole other onList

/-- The flag of a block of a new slab is clear. -/
theorem Owned.isUnavailable_nowhere (holds : Owned space owner) (nowhere : owner block = .nowhere) :
    space.isUnavailable block = false := by
  have flagged := holds.unavailable block (by rw [nowhere]; exact nofun)
  simpa [nowhere] using flagged

/-- A block in hand becomes unavailable. -/
theorem Owned.pushUnavailable (holds : Owned space owner) (inHand : owner block = .hand) :
    ∃ age, Owned (space.noflPushUnavailableBlock block)
      (update owner block (.list (.pagedOut age))) := by
  have flagged : Owned (space.noflBlockSetFlag block NOFL_BLOCK_UNAVAILABLE) owner :=
    holds.setFlag inHand (by decide)
  have toAge : ∀ age,
      Owned ((space.noflBlockSetFlag block NOFL_BLOCK_UNAVAILABLE).noflBlockListPush
        (.pagedOut age) block) (update owner block (.list (.pagedOut age))) := by
    intro age
    apply flagged.push inHand
    · simp
    · exact nofun
  rw [BlockSpace.noflPushUnavailableBlock]
  split
  · exact ⟨3, toAge 3⟩
  · exact ⟨0, toAge 0⟩

/-- A block in hand becomes available. -/
theorem Owned.pushAvailable (holds : Owned space owner) (inHand : owner block = .hand)
    (available : space.isUnavailable block = false) :
    ∃ name, name ≠ .kept ∧
      Owned (space.pushAvailableBlock block) (update owner block (.list name)) := by
  have toList : ∀ name, name ≠ .partlyFull → (∀ age, name ≠ .pagedOut age) →
      Owned (space.noflBlockListPush name block) (update owner block (.list name)) := by
    intro name notPartlyFull notPagedOut
    apply holds.push inHand
    · rw [available]
      simpa using notPagedOut
    · exact fun isPartlyFull => absurd isPartlyFull notPartlyFull
  rcases Moves.pushAvailableBlock_cases space block with pushed | pushed
  · rw [pushed]
    exact ⟨.evacuationTargets, nofun, toList _ nofun nofun⟩
  · rw [pushed]
    exact ⟨.empty, nofun, toList _ nofun nofun⟩

theorem slabs_noflPushUnavailableBlock (space : BlockSpace) (block : ℕ) :
    (space.noflPushUnavailableBlock block).slabs = space.slabs := by
  rw [BlockSpace.noflPushUnavailableBlock]
  split
  · rfl
  · rfl

theorem slabs_pushAvailableBlock (space : BlockSpace) (block : ℕ) :
    (space.pushAvailableBlock block).slabs = space.slabs := by
  rcases Moves.pushAvailableBlock_cases space block with pushed | pushed
  · rw [pushed]
    rfl
  · rw [pushed]
    rfl

/-- One block that is put on a list, and then the others. -/
theorem Adds.cons {blocks : List ℕ} {middle : BlockSpace} {name : ListName}
    (slabs : middle.slabs = space.slabs) (notKept : name ≠ .kept) (absent : block ∉ blocks)
    (rest : Adds middle after (update owner block (.list name)) blocks) :
    Adds space after owner (block :: blocks) := by
  obtain ⟨restSlabs, moved, holds, others, added⟩ := rest
  refine ⟨restSlabs.trans slabs, moved, holds, ?_, ?_⟩
  · intro other notMember
    rw [List.mem_cons, not_or] at notMember
    rw [others other notMember.2, update_of_ne notMember.1]
  · intro other member
    rcases List.mem_cons.mp member with rfl | member
    · rw [others other absent, update_self]
      exact ⟨name, rfl, notKept⟩
    · exact added other member

/-- The blocks of new slabs become unavailable, one after the other. -/
theorem adds_foldl_pushFreshBlock {blocks : List ℕ} (holds : Owned space owner)
    (nodup : blocks.Nodup) (fresh : ∀ block ∈ blocks, owner block = .nowhere)
    (addresses : ∀ block ∈ blocks, IsBlockAddress block) :
    Adds space (blocks.foldl BlockSpace.pushFreshBlock space) owner blocks := by
  induction blocks generalizing space owner with
  | nil => exact ⟨rfl, owner, holds, fun _ _ => rfl, nofun⟩
  | cons block blocks inductionHypothesis =>
      obtain ⟨absent, restNodup⟩ := List.nodup_cons.mp nodup
      have found := holds.found (fresh block List.mem_cons_self)
        (addresses block List.mem_cons_self)
      have flagged : Owned
          (space.noflBlockSetFlag block (NOFL_BLOCK_ZERO ||| NOFL_BLOCK_PAGED_OUT))
          (update owner block .hand) :=
        found.setFlag (update_self _ _ _) (by decide)
      obtain ⟨age, pushed⟩ := flagged.pushUnavailable (update_self _ _ _)
      rw [update_idem] at pushed
      have slabs : (space.pushFreshBlock block).slabs = space.slabs :=
        slabs_noflPushUnavailableBlock _ _
      have notKept : ListName.pagedOut age ≠ .kept := nofun
      apply Adds.cons slabs notKept absent
      apply inductionHypothesis pushed restNodup
      · intro other member
        rw [update_of_ne (ne_of_mem_of_not_mem member absent)]
        exact fresh other (List.mem_cons_of_mem _ member)
      · exact fun other member => addresses other (List.mem_cons_of_mem _ member)

/-- The blocks of the first slabs become unavailable or available, one after the other. -/
theorem adds_initLoop {blocks : List ℕ} (excess : ℕ) (holds : Owned space owner)
    (nodup : blocks.Nodup) (fresh : ∀ block ∈ blocks, owner block = .nowhere)
    (addresses : ∀ block ∈ blocks, IsBlockAddress block) :
    Adds space (BlockSpace.initLoop blocks excess space) owner blocks := by
  induction blocks generalizing space owner excess with
  | nil => exact ⟨rfl, owner, holds, fun _ _ => rfl, nofun⟩
  | cons block blocks inductionHypothesis =>
      obtain ⟨absent, restNodup⟩ := List.nodup_cons.mp nodup
      have nowhere := fresh block List.mem_cons_self
      have found := holds.found nowhere (addresses block List.mem_cons_self)
      have flagged : Owned
          (space.noflBlockSetFlag block (NOFL_BLOCK_ZERO ||| NOFL_BLOCK_PAGED_OUT))
          (update owner block .hand) :=
        found.setFlag (update_self _ _ _) (by decide)
      have restFresh : ∀ name, ∀ other ∈ blocks,
          update owner block (.list name) other = .nowhere := by
        intro name other member
        rw [update_of_ne (ne_of_mem_of_not_mem member absent)]
        exact fresh other (List.mem_cons_of_mem _ member)
      have restAddresses : ∀ other ∈ blocks, IsBlockAddress other :=
        fun other member => addresses other (List.mem_cons_of_mem _ member)
      rw [BlockSpace.initLoop]
      split
      · obtain ⟨age, pushed⟩ := flagged.pushUnavailable (update_self _ _ _)
        rw [update_idem] at pushed
        have slabs : (space.pushFreshBlock block).slabs = space.slabs :=
          slabs_noflPushUnavailableBlock _ _
        have notKept : ListName.pagedOut age ≠ .kept := nofun
        apply Adds.cons slabs notKept absent
        exact inductionHypothesis _ pushed restNodup (restFresh _) restAddresses
      · have available : (space.noflBlockSetFlag block
            (NOFL_BLOCK_ZERO ||| NOFL_BLOCK_PAGED_OUT)).isUnavailable block = false := by
          rw [BlockSpace.isUnavailable_setFlag (by decide)]
          exact holds.isUnavailable_nowhere nowhere
        obtain ⟨name, notKept, pushed⟩ := flagged.pushAvailable (update_self _ _ _) available
        rw [update_idem] at pushed
        have slabs : ((space.noflBlockSetFlag block
            (NOFL_BLOCK_ZERO ||| NOFL_BLOCK_PAGED_OUT)).pushAvailableBlock block).slabs =
              space.slabs :=
          slabs_pushAvailableBlock _ _
        apply Adds.cons slabs notKept absent
        exact inductionHypothesis _ pushed restNodup (restFresh _) restAddresses

end Adds

/-! ## The invariant -/

structure Settled (world : BlockWorld) (owner : ℕ → Place) : Prop where
  owned : Owned world.space owner
  held : ∀ name block,
    (world.allocator name).block = some block ↔ owner block = .allocator name
  notInHand : ∀ block, owner block ≠ .hand
  noneKept : NoneKept owner
  payload : ∀ block, owner block ≠ .nowhere ↔ block ∈ payloadBlocks world.space.slabs
  alignedSlabs : ∀ slab ∈ world.space.slabs, slab % NOFL_SLAB_SIZE = 0
  alignedAllocators : ∀ name, (world.allocator name).Aligned

namespace Settled

variable {world : BlockWorld} {owner : ℕ → Place} {after : BlockSpace} {name : AllocatorName}
variable {allocator : Allocator} {block : ℕ}

/-- Operations of the space that move blocks keep the rest. -/
theorem moves (settled : Settled world owner) (moved : Moves world.space after) :
    ∃ owners, Settled { world with space := after } owners := by
  obtain ⟨slabs, moving⟩ := moved
  obtain ⟨owners, owned, within⟩ := moving owner settled.owned settled.noneKept
  refine ⟨owners, owned, ?_, ?_, settled.noneKept.moved within, ?_, ?_,
    settled.alignedAllocators⟩
  · intro name block
    rw [within.eq_iff (by rintro ⟨list, same, -⟩; cases same)]
    exact settled.held name block
  · intro block inHand
    exact settled.notInHand block
      ((within.eq_iff (by rintro ⟨list, same, -⟩; cases same)).mp inHand)
  · intro block
    rw [ne_eq, within.eq_iff (by rintro ⟨list, same, -⟩; cases same), slabs]
    exact settled.payload block
  · intro slab member
    rw [slabs] at member
    exact settled.alignedSlabs slab member

theorem acquires (settled : Settled world owner) (free : (world.allocator name).block = none)
    (acquired : Acquires world.space after owner allocator) :
    ∃ owners, Settled
      { space := after
        allocator := update world.allocator name allocator } owners := by
  obtain ⟨slabs, aligned, block, isBlock, onList, owned⟩ := acquired
  refine ⟨update owner block (.allocator name), owned name, ?_, ?_, ?_, ?_, ?_, ?_⟩
  · intro other otherBlock
    change (update world.allocator name allocator other).block = some otherBlock ↔ _
    by_cases sameName : other = name
    · subst sameName
      rw [update_self, isBlock, Option.some.injEq]
      by_cases sameBlock : otherBlock = block
      · subst sameBlock
        simp
      · rw [update_of_ne sameBlock, ← settled.held, free]
        exact iff_of_false (Ne.symm sameBlock) nofun
    · rw [update_of_ne sameName, settled.held]
      by_cases sameBlock : otherBlock = block
      · subst sameBlock
        obtain ⟨list, isList, -⟩ := onList
        rw [isList, update_self]
        simpa using Ne.symm sameName
      · rw [update_of_ne sameBlock]
  · intro other
    by_cases same : other = block
    · subst same
      simp
    · rw [update_of_ne same]
      exact settled.notInHand other
  · intro other
    by_cases same : other = block
    · subst same
      simp
    · rw [update_of_ne same]
      exact settled.noneKept other
  · intro other
    rw [slabs, ← settled.payload]
    by_cases same : other = block
    · subst same
      obtain ⟨list, isList, -⟩ := onList
      simp [isList]
    · rw [update_of_ne same]
  · intro slab member
    rw [slabs] at member
    exact settled.alignedSlabs slab member
  · intro other
    change (update world.allocator name allocator other).Aligned
    by_cases same : other = name
    · subst same
      rwa [update_self]
    · rw [update_of_ne same]
      exact settled.alignedAllocators other

theorem releases (settled : Settled world owner)
    (isBlock : (world.allocator name).block = some block)
    (released : Releases world.space after owner block) :
    ∃ owners, Settled (world.released name after) owners := by
  obtain ⟨slabs, target, notKept, owned⟩ := released
  have wasHeld := (settled.held name block).mp isBlock
  refine ⟨update owner block (.list target), owned, ?_, ?_, ?_, ?_, ?_, ?_⟩
  · intro other otherBlock
    change (update world.allocator name Allocator.noflAllocatorReset other).block =
      some otherBlock ↔ _
    by_cases sameName : other = name
    · subst sameName
      rw [update_self]
      by_cases sameBlock : otherBlock = block
      · subst sameBlock
        rw [update_self]
        exact iff_of_false nofun nofun
      · rw [update_of_ne sameBlock, ← settled.held, isBlock, Option.some.injEq]
        exact iff_of_false nofun (Ne.symm sameBlock)
    · rw [update_of_ne sameName, settled.held]
      by_cases sameBlock : otherBlock = block
      · subst sameBlock
        rw [wasHeld, update_self]
        simpa using Ne.symm sameName
      · rw [update_of_ne sameBlock]
  · intro other
    by_cases same : other = block
    · subst same
      simp
    · rw [update_of_ne same]
      exact settled.notInHand other
  · intro other
    by_cases same : other = block
    · subst same
      simpa using notKept
    · rw [update_of_ne same]
      exact settled.noneKept other
  · intro other
    change _ ↔ other ∈ payloadBlocks after.slabs
    rw [slabs, ← settled.payload]
    by_cases same : other = block
    · subst same
      simp [wasHeld]
    · rw [update_of_ne same]
  · intro slab member
    change slab ∈ after.slabs at member
    rw [slabs] at member
    exact settled.alignedSlabs slab member
  · intro other
    change (update world.allocator name Allocator.noflAllocatorReset other).Aligned
    by_cases same : other = name
    · subst same
      rw [update_self]
      exact ⟨rfl, rfl⟩
    · rw [update_of_ne same]
      exact settled.alignedAllocators other

/-- An allocator that moves on in its block. -/
theorem adjusts (settled : Settled world owner)
    (counted : ∀ block, (world.allocator name).block = some block →
      CountsOnly world.space after block)
    (unheld : (world.allocator name).block = none → after = world.space)
    (sameBlock : allocator.block = (world.allocator name).block) (aligned : allocator.Aligned) :
    Settled
      { space := after
        allocator := update world.allocator name allocator } owner := by
  have owned : Owned after owner ∧ after.slabs = world.space.slabs := by
    cases isBlock : (world.allocator name).block with
    | none =>
        rw [unheld isBlock]
        exact ⟨settled.owned, rfl⟩
    | some block =>
        refine ⟨(counted block isBlock).owned settled.owned ?_, (counted block isBlock).slabs⟩
        rw [(settled.held name block).mp isBlock]
        exact nofun
  refine ⟨owned.1, ?_, settled.notInHand, settled.noneKept, ?_, ?_, ?_⟩
  · intro other block
    change (update world.allocator name allocator other).block = some block ↔ _
    rw [← settled.held]
    by_cases same : other = name
    · subst same
      rw [update_self, sameBlock]
    · rw [update_of_ne same]
  · intro block
    change _ ↔ block ∈ payloadBlocks after.slabs
    rw [owned.2]
    exact settled.payload block
  · intro slab member
    change slab ∈ after.slabs at member
    rw [owned.2] at member
    exact settled.alignedSlabs slab member
  · intro other
    change (update world.allocator name allocator other).Aligned
    by_cases same : other = name
    · subst same
      rwa [update_self]
    · rw [update_of_ne same]
      exact settled.alignedAllocators other

/-- Blocks of new slabs that went on lists of the space. -/
theorem adds (settled : Settled world owner) {base count : ℕ}
    (available : SlabsAvailable world.space.slabs base count)
    (added : Adds (world.space.noflSpaceAddSlabs (NoflSpace.slabsAt base count)) after owner
      (payloadBlocks (NoflSpace.slabsAt base count))) :
    ∃ owners, Settled { world with space := after } owners := by
  obtain ⟨slabs, moved, owned, others, onLists⟩ := added
  have notOwned : ∀ block ∈ payloadBlocks (NoflSpace.slabsAt base count),
      owner block = .nowhere := by
    intro block member
    by_contra somewhere
    exact available.notMem settled.alignedSlabs member ((settled.payload block).mp somewhere)
  refine ⟨moved, owned, ?_, ?_, ?_, ?_, ?_, settled.alignedAllocators⟩
  · intro name block
    by_cases isNew : block ∈ payloadBlocks (NoflSpace.slabsAt base count)
    · obtain ⟨list, isList, -⟩ := onLists block isNew
      rw [settled.held, notOwned block isNew, isList]
      exact iff_of_false nofun nofun
    · rw [others block isNew]
      exact settled.held name block
  · intro block
    by_cases isNew : block ∈ payloadBlocks (NoflSpace.slabsAt base count)
    · obtain ⟨list, isList, -⟩ := onLists block isNew
      rw [isList]
      exact nofun
    · rw [others block isNew]
      exact settled.notInHand block
  · intro block
    by_cases isNew : block ∈ payloadBlocks (NoflSpace.slabsAt base count)
    · intro isKept
      exact not_isSpaceList_kept (isKept ▸ onLists block isNew)
    · rw [others block isNew]
      exact settled.noneKept block
  · intro block
    rw [slabs, BlockSpace.noflSpaceAddSlabs, payloadBlocks, List.flatMap_append, List.mem_append]
    by_cases isNew : block ∈ payloadBlocks (NoflSpace.slabsAt base count)
    · obtain ⟨list, isList, -⟩ := onLists block isNew
      rw [isList]
      exact iff_of_true nofun (.inr isNew)
    · rw [others block isNew, settled.payload]
      exact (or_iff_left isNew).symm
  · intro slab member
    rw [slabs, BlockSpace.noflSpaceAddSlabs, List.mem_append] at member
    rcases member with old | new
    · exact settled.alignedSlabs slab old
    · exact available.aligned new

theorem pushNewSlabs (settled : Settled world owner) {base count : ℕ}
    (available : SlabsAvailable world.space.slabs base count) :
    ∃ owners, Settled
      { world with space := world.space.pushNewSlabs (NoflSpace.slabsAt base count) } owners := by
  have fresh : ∀ block ∈ payloadBlocks (NoflSpace.slabsAt base count),
      owner block = .nowhere := by
    intro block member
    by_contra somewhere
    exact available.notMem settled.alignedSlabs member ((settled.payload block).mp somewhere)
  have withSlabs : Owned (world.space.noflSpaceAddSlabs (NoflSpace.slabsAt base count)) owner :=
    settled.owned.congr rfl rfl
  have added := adds_foldl_pushFreshBlock withSlabs available.nodup fresh
    fun _ member => available.isBlockAddress member
  obtain ⟨middle, settledMiddle⟩ := settled.adds available added
  exact settledMiddle.moves (Moves.noflSpaceMaybeReacquireMemory _ 0)

end Settled

/-! ## Runs -/

theorem settled_of_initial {world : BlockWorld} (start : blockSystem.initial world) :
    ∃ owner, Settled world owner := by
  obtain ⟨⟨size, base, reserve, threshold, ambiguous, generational, available, space⟩,
    allocators⟩ := start
  let unused : BlockWorld :=
    { space := BlockSpace.unused reserve threshold ambiguous generational
      allocator := world.allocator }
  have owned : Owned unused.space fun _ => .nowhere := by
    refine ⟨⟨?_, ?_⟩, ?_, fun _ somewhere => absurd rfl somewhere, fun _ _ => rfl, nofun⟩
    · intro name
      exact ⟨[], .nil, List.nodup_nil, rfl, fun _ => iff_of_false nofun nofun⟩
    · intro block _
      have null : (0 &&& ~~~flagMask).toNat = 0 := by decide
      exact null
    · intro block _
      have clear : (0 &&& NOFL_BLOCK_UNAVAILABLE == NOFL_BLOCK_UNAVAILABLE) = false := by decide
      exact iff_of_false (Bool.eq_false_iff.mp clear) nofun
  have settled : Settled unused fun _ => .nowhere := by
    refine ⟨owned, ?_, nofun, nofun, ?_, nofun, ?_⟩
    · intro name block
      change (world.allocator name).block = some block ↔ _
      rw [allocators]
      exact iff_of_false nofun nofun
    · intro block
      exact iff_of_false (by simp) nofun
    · intro name
      change (world.allocator name).Aligned
      rw [allocators]
      exact ⟨rfl, rfl⟩
  have withSlabs : Owned
      (unused.space.noflSpaceAddSlabs (NoflSpace.slabsAt base (BlockSpace.slabsFor size)))
      fun _ => .nowhere := owned.congr rfl rfl
  have added := adds_initLoop
    (alignUp (alignUp size NOFL_BLOCK_SIZE) NOFL_SLAB_SIZE - alignUp size NOFL_BLOCK_SIZE)
    withSlabs available.nodup (fun _ _ => rfl) fun _ member => available.isBlockAddress member
  obtain ⟨owners, final⟩ := settled.adds available added
  refine ⟨owners, ?_⟩
  have same : world = { unused with space := world.space } := rfl
  rw [same, space]
  exact final

theorem settled_withoutBlock {world after : BlockWorld} {owner : ℕ → Place}
    {name : AllocatorName} {result : Option (Allocator × BlockSpace)}
    (settled : Settled world owner)
    (acquires : ∀ allocator space, result = some (allocator, space) →
      Acquires world.space space owner allocator)
    (stepped : world.withoutBlock name result = .next after) :
    ∃ owners, Settled after owners := by
  rw [BlockWorld.withoutBlock, Outcome.require_bind_eq_next, Outcome.pure_eq_next,
    Outcome.next.injEq] at stepped
  obtain ⟨free, rfl⟩ := stepped
  cases result with
  | none => exact ⟨owner, settled⟩
  | some pair => exact settled.acquires free (acquires pair.1 pair.2 rfl)

theorem settled_sweepTurn {world after : BlockWorld} {owner : ℕ → Place} {name : AllocatorName}
    {block : ℕ} {hole : Option Hole} (settled : Settled world owner)
    (isBlock : (world.allocator name).block = some block)
    (stepped : world.sweepTurn name block hole = .next after) :
    ∃ owners, Settled after owners := by
  have finished := CountsOnly.noflAllocatorFinishHole world.space block (world.allocator name)
  cases hole with
  | none =>
      cases stepped
      apply settled.releases isBlock
      exact releases_fullBlock settled.owned ((settled.held name block).mp isBlock) finished
  | some hole =>
      rw [BlockWorld.sweepTurn, Outcome.require_bind_eq_next, Outcome.pure_eq_next,
        Outcome.next.injEq] at stepped
      obtain ⟨⟨-, aligned, -, -⟩, rfl⟩ := stepped
      refine ⟨owner, settled.adjusts ?_ ?_ ?_ ?_⟩
      · intro other otherIsBlock
        rw [isBlock, Option.some.injEq] at otherIsBlock
        subst otherIsBlock
        exact finished.trans (CountsOnly.countHole _ block hole)
      · intro free
        rw [isBlock] at free
        cases free
      · exact isBlock.symm
      · refine ⟨aligned, ?_⟩
        rw [Nat.add_mul_mod_self_right]
        exact aligned

theorem withBlock_eq_next {world after : BlockWorld} {name : AllocatorName}
    {act : ℕ → Outcome Empty BlockWorld} (stepped : world.withBlock name act = .next after) :
    ∃ block, (world.allocator name).block = some block ∧ act block = .next after := by
  rw [BlockWorld.withBlock] at stepped
  split at stepped
  · next block isBlock => exact ⟨block, isBlock, stepped⟩
  · cases stepped

/-- The step lemma, one case for each action. -/
theorem settled_of_step {world after : BlockWorld} {action : BlockAction} {owner : ℕ → Place}
    (settled : Settled world owner) (stepped : blockStep world action = .next after) :
    ∃ owners, Settled after owners := by
  cases action with
  | bump name granules =>
      rw [blockStep, BlockWorld.bump] at stepped
      simp only [Outcome.require_bind_eq_next, Outcome.pure_eq_next, Outcome.next.injEq] at stepped
      obtain ⟨-, rfl⟩ := stepped
      obtain ⟨alloc, sweep⟩ := settled.alignedAllocators name
      refine ⟨owner, settled.adjusts (fun block _ => .refl _ block) (fun _ => rfl) rfl ⟨?_, sweep⟩⟩
      rw [Nat.add_mul_mod_self_right]
      exact alloc
  | sweep name hole =>
      obtain ⟨block, isBlock, turned⟩ := withBlock_eq_next stepped
      exact settled_sweepTurn settled isBlock turned
  | acquireBlockToSweep name =>
      exact settled_withoutBlock settled
        (fun _ _ acquired => acquires_blockToSweep settled.owned acquired) stepped
  | acquireEvacuationTarget name =>
      exact settled_withoutBlock settled
        (fun _ _ acquired => acquires_evacuationTarget settled.owned acquired) stepped
  | acquireEmptyBlock name =>
      exact settled_withoutBlock settled
        (fun _ _ acquired => acquires_emptyBlock settled.owned acquired) stepped
  | rejectPartlyFullBlock name =>
      obtain ⟨block, isBlock, rejected⟩ := withBlock_eq_next stepped
      cases rejected
      apply settled.releases isBlock
      exact releases_fullBlock settled.owned ((settled.held name block).mp isBlock)
        (CountsOnly.noflAllocatorFinishHole world.space block (world.allocator name))
  | releaseFullEvacuationTarget name =>
      obtain ⟨block, isBlock, released⟩ := withBlock_eq_next stepped
      cases released
      apply settled.releases isBlock
      exact releases_fullEvacuationTarget settled.owned ((settled.held name block).mp isBlock)
  | finish name holes =>
      obtain ⟨block, isBlock, released⟩ := withBlock_eq_next stepped
      cases released
      apply settled.releases isBlock
      exact releases_block settled.owned ((settled.held name block).mp isBlock)
        (settled.alignedAllocators name) holes
  | requestReleaseMemory bytes =>
      cases stepped
      exact settled.moves (Moves.addPending _ _)
  | shrink bytes =>
      cases stepped
      exact settled.moves (Moves.noflSpaceShrink _ _)
  | expand bytes base =>
      rw [blockStep] at stepped
      simp only [Outcome.require_bind_eq_next, Outcome.pure_eq_next, Outcome.next.injEq] at stepped
      obtain ⟨memory, rfl⟩ := stepped
      obtain ⟨middle, reacquired⟩ :=
        settled.moves (Moves.noflSpaceMaybeReacquireMemory world.space bytes)
      rw [BlockSpace.noflSpaceExpand]
      split
      · exact ⟨middle, reacquired⟩
      · next needsSlabs =>
          have available := memory.resolve_left needsSlabs
          rw [← (Moves.noflSpaceMaybeReacquireMemory world.space bytes).1] at available
          exact reacquired.pushNewSlabs available
  | advancePageOutQueue =>
      cases stepped
      exact settled.moves (Moves.noflSpaceAdvancePageOutQueue _)
  | pageOutBlocks =>
      cases stepped
      exact settled.moves (Moves.noflSpacePageOutBlocks _)
  | setHeapHasAmbiguousEdges =>
      cases stepped
      exact settled.moves (Moves.noflSpaceSetHeapHasAmbiguousEdges _)
  | startGc kind =>
      cases stepped
      exact settled.moves (Moves.noflSpaceStartGc _ _)
  | finishGc kind marked holes =>
      cases stepped
      exact settled.moves (Moves.noflSpaceFinishGc _ _ _ _)

theorem settled_of_reachable {world : BlockWorld} (reached : blockSystem.Reachable world) :
    ∃ owner, Settled world owner := by
  apply System.ReachableBy.invariant blockSystem _ _ reached
  · exact fun _ start => settled_of_initial start
  · rintro before action after ⟨owner, settled⟩ - stepped
    exact settled_of_step settled stepped

/-! ## The partition -/

/-- Where a block is: on a list of the space, or in an allocator. -/
def BlockWorld.IsAt (world : BlockWorld) (block : ℕ) : Place → Prop
  | .list name => name ≠ .kept ∧ block ∈ world.space.blocksOf name
  | .allocator name => (world.allocator name).block = some block
  | .hand => False
  | .nowhere => False

/-- Every block is at one place, the lists are well formed and have nothing but blocks, and the
flag for unavailable blocks is right. -/
structure Partitioned (world : BlockWorld) : Prop where
  onePlace : ∀ block ∈ payloadBlocks world.space.slabs, ∃! place, world.IsAt block place
  chained : ∀ name, Chained world.space.noflBlockNext 0 (world.space.lists name).blocks
    (world.space.blocksOf name)
  nodup : ∀ name, (world.space.blocksOf name).Nodup
  counted : ∀ name, (world.space.lists name).count = (world.space.blocksOf name).length
  onlyBlocks : ∀ block place, world.IsAt block place → block ∈ payloadBlocks world.space.slabs
  unavailable : ∀ block ∈ payloadBlocks world.space.slabs,
    world.space.isUnavailable block = true ↔
      ∃ age, block ∈ world.space.blocksOf (.pagedOut age)

namespace Settled

variable {world : BlockWorld} {owner : ℕ → Place}

/-- A block is at its owner. -/
theorem isAt_iff (settled : Settled world owner) {block : ℕ} {place : Place} :
    world.IsAt block place ↔ owner block = place ∧ place ≠ .nowhere := by
  cases place with
  | list name =>
      rw [BlockWorld.IsAt, (settled.owned.chained_blocksOf name).2.2]
      constructor
      · exact fun at_ => ⟨at_.2, nofun⟩
      · rintro ⟨owned, -⟩
        refine ⟨?_, owned⟩
        rintro rfl
        exact settled.noneKept block owned
  | allocator name =>
      rw [BlockWorld.IsAt, settled.held]
      exact (and_iff_left nofun).symm
  | hand => exact iff_of_false id fun inHand => settled.notInHand block inHand.1
  | nowhere => exact iff_of_false id fun nowhere => nowhere.2 rfl

theorem partitioned (settled : Settled world owner) : Partitioned world := by
  constructor
  · intro block member
    have somewhere := (settled.payload block).mpr member
    refine ⟨owner block, settled.isAt_iff.mpr ⟨rfl, somewhere⟩, ?_⟩
    intro place isAt
    exact (settled.isAt_iff.mp isAt).1.symm
  · exact fun name => (settled.owned.chained_blocksOf name).1
  · intro name
    obtain ⟨nodes, chain, nodup, -⟩ := settled.owned.listed.chain name
    rwa [(settled.owned.chained_blocksOf name).1.unique chain]
  · exact fun name => (settled.owned.chained_blocksOf name).2.1.symm
  · intro block place isAt
    obtain ⟨rfl, somewhere⟩ := settled.isAt_iff.mp isAt
    exact (settled.payload block).mp somewhere
  · intro block _
    rw [settled.owned.unavailable block (settled.notInHand block)]
    simp only [(settled.owned.chained_blocksOf _).2.2]

end Settled

/-- In every state that is reached, each block of each slab is on one list of the space or in one
allocator. -/
theorem blocks_partitioned {world : BlockWorld} (reached : blockSystem.Reachable world) :
    Partitioned world := by
  obtain ⟨owner, settled⟩ := settled_of_reachable reached
  exact settled.partitioned

/-- A new heap of `size` bytes, with its slabs at `base`. -/
def freshWorld (size base : ℕ) (reserve threshold : ℚ) (ambiguous generational : Bool) :
    BlockWorld :=
  { space := (BlockSpace.unused reserve threshold ambiguous generational).noflSpaceInit size base
    allocator := fun _ => Allocator.noflAllocatorReset }

theorem reachable_freshWorld {size base : ℕ} (reserve threshold : ℚ)
    (ambiguous generational : Bool)
    (available : SlabsAvailable [] base (BlockSpace.slabsFor size)) :
    blockSystem.Reachable (freshWorld size base reserve threshold ambiguous generational) :=
  .initial ⟨⟨size, base, reserve, threshold, ambiguous, generational, available, rfl⟩, rfl⟩

/-- Two mutators take empty blocks, one of which is given back with its rest as a hole. The heap is
compacted, for which a worker takes a target; after that a mutator takes a block again. -/
def compactingActions : List BlockAction :=
  [.acquireEmptyBlock (.mutator 0), .bump (.mutator 0) 10, .acquireEmptyBlock (.mutator 1),
    .bump (.mutator 1) 4, .finish (.mutator 0) [], .finish (.mutator 1) [],
    .startGc .compacting, .acquireEvacuationTarget (.worker 0), .bump (.worker 0) 3,
    .finish (.worker 0) [], .finishGc .compacting (fun _ => false) fun _ => [],
    .acquireEmptyBlock (.mutator 1), .bump (.mutator 1) 7]

theorem blocks_partitioned_after_compaction :
    ∃ (world : BlockWorld) (block : ℕ), (world.allocator (.mutator 1)).block = some block ∧
      world.space.noflBlockCount .evacuationTargets = 4 ∧
      world.space.noflBlockCount .partlyFull = 1 ∧ Partitioned world := by
  have available : SlabsAvailable [] 4194304 (BlockSpace.slabsFor 4194304) :=
    ⟨by decide, by decide, by decide, nofun⟩
  have fresh := reachable_freshWorld (1 / 50) (1 / 2) false true available
  have leads : (System.runBy blockSystem.step (fun _ _ => True)
      (freshWorld 4194304 4194304 (1 / 50) (1 / 2) false true) compactingActions).leadsTo
        (fun world => decide ((world.allocator (.mutator 1)).block ≠ none ∧
          world.space.noflBlockCount .evacuationTargets = 4 ∧
          world.space.noflBlockCount .partlyFull = 1)) = true := by
    decide +kernel
  obtain ⟨world, ran, facts⟩ := Outcome.exists_next_of_leadsTo leads
  obtain ⟨holds, targets, partlyFull⟩ := of_decide_eq_true facts
  obtain ⟨block, isBlock⟩ := Option.ne_none_iff_exists'.mp holds
  have reached := fresh.of_runBy blockSystem (fun _ _ => True) (fun _ _ => id) compactingActions ran
  exact ⟨world, block, isBlock, targets, partlyFull, blocks_partitioned reached⟩

end Whippet.Nofl
