import Whippet.Library.Processes
import Whippet.Pcc.BlockTurns

/-!
The accounts of a copy space's blocks.

A block's `allocated` field is what the space has counted of it so far. It is set anew when an empty
block is taken, left alone while an allocator has the block, and out of date on the list of empty
blocks after a flip.

Owns: the invariants that every block is in one place and that the counters agree with the lists,
and what the moves of an allocator do to either. Does not own: the other actions and whole runs.
-/

namespace Whippet.Pcc

open Function

def AllocatorStage.holds (block : ℕ) (stage : AllocatorStage) : Bool :=
  decide (stage.block? = some block)

/-- The blocks of the slabs of a space. -/
def SharedSpace.payload (space : SharedSpace) : List ℕ :=
  space.slabs.flatMap space.blocks.payloadBlocks

/-! ## Places -/

/-- Every block of a slab is in one place. -/
structure SharedWorld.Placed (world : SharedWorld) : Prop where
  slabs_nodup : world.space.slabs.Nodup
  slabs_aligned : ∀ slab ∈ world.space.slabs, COPY_SPACE_SLAB_SIZE ∣ slab
  places_eq : ∀ block, world.space.blocks.places block = world.space.payload.count block
  occupied_eq : ∀ block, world.space.blocks.occupied.count block =
    world.space.partlyFull.count block + world.space.full.count block +
      world.allocators.countP (AllocatorStage.holds block)

/-- The operation hands blocks over between an allocator and the lists. -/
structure Hands (before : SharedSpace) (stage : AllocatorStage) (after : SharedSpace)
    (next : AllocatorStage) : Prop where
  slabs_eq : after.slabs = before.slabs
  logging_eq : after.blocks.hasFieldLoggingBits = before.blocks.hasFieldLoggingBits
  inGc_eq : after.blocks.inGc = before.blocks.inGc
  activeRegion_eq : after.activeRegion = before.activeRegion
  places_eq : ∀ block, after.blocks.places block = before.blocks.places block
  moved : ∀ block, after.partlyFull.count block + after.full.count block +
      (next.holds block).toNat + before.blocks.occupied.count block =
    before.partlyFull.count block + before.full.count block + (stage.holds block).toNat +
      after.blocks.occupied.count block

section Places

variable {space : SharedSpace} {stage next : AllocatorStage} {world : SharedWorld} {block : ℕ}

theorem holds_eq_count (stage : AllocatorStage) (held : stage.block? = some block) (other : ℕ) :
    (stage.holds other).toNat = [block].count other := by
  unfold AllocatorStage.holds
  rw [held, List.count_singleton]
  by_cases same : block = other <;> simp [same]

theorem holds_eq_zero (stage : AllocatorStage) (none : stage.block? = none) (other : ℕ) :
    (stage.holds other).toNat = 0 := by
  unfold AllocatorStage.holds
  rw [none]
  rfl

theorem holds_congr (same : next.block? = stage.block?) (other : ℕ) :
    next.holds other = stage.holds other := by
  unfold AllocatorStage.holds
  rw [same]

/-- What does not move blocks. -/
theorem Hands.of_same {after : SharedSpace} (held : next.block? = stage.block?)
    (blocks : after.blocks = space.blocks) (partlyFull : after.partlyFull = space.partlyFull)
    (full : after.full = space.full) (slabs : after.slabs = space.slabs)
    (activeRegion : after.activeRegion = space.activeRegion) : Hands space stage after next where
  slabs_eq := slabs
  logging_eq := by rw [blocks]
  inGc_eq := by rw [blocks]
  activeRegion_eq := activeRegion
  places_eq other := by rw [blocks]
  moved other := by rw [blocks, partlyFull, full, holds_congr held]

/-- What moves blocks between the allocator and the lists of partly-full and full blocks. -/
theorem Hands.of_moved {after : SharedSpace} (blocks : after.blocks = space.blocks)
    (slabs : after.slabs = space.slabs) (activeRegion : after.activeRegion = space.activeRegion)
    (moved : ∀ block, after.partlyFull.count block + after.full.count block +
        (next.holds block).toNat =
      space.partlyFull.count block + space.full.count block + (stage.holds block).toNat) :
    Hands space stage after next where
  slabs_eq := slabs
  logging_eq := by rw [blocks]
  inGc_eq := by rw [blocks]
  activeRegion_eq := activeRegion
  places_eq other := by rw [blocks]
  moved other := by rw [moved other, blocks]

theorem popEmptyBlock_eq_some {popped : SharedSpace}
    (found : space.popEmptyBlock = some (block, popped)) :
    ∃ blocks, space.blocks.popEmptyBlock = some (block, blocks) ∧
      popped = { space with
        blocks := blocks
        allocated := update space.allocated block 0
        isSurvivor := update space.isSurvivor block
          (update (space.isSurvivor block) space.activeRegion false) } := by
  unfold SharedSpace.popEmptyBlock at found
  cases foundEq : space.blocks.popEmptyBlock with
  | none => simp [foundEq] at found
  | some pair =>
      simp only [foundEq, Option.some.injEq, Prod.mk.injEq] at found
      obtain ⟨rfl, rfl⟩ := found
      exact ⟨pair.2, rfl, rfl⟩

theorem pushFullBlock_eq (space : SharedSpace) (block : ℕ) :
    ∃ isSurvivor, space.pushFullBlock block =
      { space with isSurvivor := isSurvivor, full := block :: space.full } := by
  unfold SharedSpace.pushFullBlock
  dsimp only
  split
  · exact ⟨_, rfl⟩
  · exact ⟨_, rfl⟩

/-- A block that comes off the lists of blocks that are not occupied. -/
theorem hands_occupy {after : SharedSpace} {allocator : BlockAllocator} {size : ℕ}
    (block_eq : allocator.block = block)
    (slabs : after.slabs = space.slabs) (partlyFull : after.partlyFull = space.partlyFull)
    (full : after.full = space.full) (activeRegion : after.activeRegion = space.activeRegion)
    (occupied : after.blocks.occupied = space.blocks.occupied)
    (inGc : after.blocks.inGc = space.blocks.inGc)
    (logging : after.blocks.hasFieldLoggingBits = space.blocks.hasFieldLoggingBits)
    (places : ∀ other, after.blocks.places other + [block].count other =
      space.blocks.places other) :
    Hands space (.seekingEmpty size) (after.occupy block) (.holding allocator) where
  slabs_eq := slabs
  logging_eq := logging
  inGc_eq := inGc
  activeRegion_eq := activeRegion
  places_eq other := by
    have balance := places other
    unfold CopySpace.places at balance ⊢
    show after.blocks.empty.count other + (block :: after.blocks.occupied).count other +
      after.blocks.pagedOutPlaces other = _
    rw [count_cons block other after.blocks.occupied]
    omega
  moved other := by
    subst block_eq
    rw [holds_eq_count (.holding allocator) rfl, holds_eq_zero (.seekingEmpty size) rfl]
    show after.partlyFull.count other + after.full.count other + _ + _ =
      _ + (allocator.block :: after.blocks.occupied).count other
    rw [count_cons allocator.block other after.blocks.occupied, partlyFull, full, occupied]
    omega

/-- Every move hands blocks over. -/
theorem Move.hands {turn : Turn} (move : Move space stage turn) :
    Hands space stage turn.space turn.stage := by
  cases move with
  | wait before after pending =>
      exact .of_same (after.trans before.symm) rfl rfl rfl rfl rfl
  | bump before positive fits =>
      apply Hands.of_same _ rfl rfl rfl rfl rfl
      rcases before with rfl | rfl <;> rfl
  | countFull before positive small =>
      rcases before with rfl | rfl
      · exact .of_same rfl rfl rfl rfl rfl rfl
      · exact .of_same rfl rfl rfl rfl rfl rfl
  | countWrapped atEnd => exact .of_same rfl rfl rfl rfl rfl rfl
  | countPartlyFull inside => exact .of_same rfl rfl rfl rfl rfl rfl
  | @pushFull block pending next after samePending =>
      obtain ⟨isSurvivor, pushed⟩ := pushFullBlock_eq space block
      dsimp only
      rw [pushed]
      refine Hands.of_moved rfl rfl rfl ?_
      intro other
      have held := holds_eq_count (.releasingFull block pending) rfl other
      have given := holds_eq_zero next after other
      have pushedCount := count_cons block other space.full
      dsimp only
      omega
  | @pushPartlyFull block =>
      refine Hands.of_moved rfl rfl rfl ?_
      intro other
      have held := holds_eq_count (.releasingPartlyFull block) rfl other
      have given := holds_eq_zero .idle rfl other
      have pushedCount := count_cons block other space.partlyFull
      dsimp only [SharedSpace.pushPartlyFullBlock]
      omega
  | @popPartlyFull block size rest popped =>
      refine Hands.of_moved rfl rfl rfl ?_
      intro other
      have held := holds_eq_zero (.seeking size) rfl other
      have taken : (AllocatorStage.holds other (.found
          { hp := regionStart block space.activeRegion + space.allocated block
            limit := regionStart block space.activeRegion + COPY_SPACE_REGION_SIZE
            block := block } size)).toNat = [block].count other := holds_eq_count _ rfl other
      have poppedCount := count_cons block other rest
      dsimp only
      rw [popped]
      omega
  | @popEmpty block size popped found =>
      obtain ⟨blocks, foundEq, rfl⟩ := popEmptyBlock_eq_some found
      obtain ⟨emptyEq, poppedEq⟩ := CopySpace.popEmptyBlock_eq_some foundEq
      generalize blocks.empty = rest at emptyEq poppedEq
      subst poppedEq
      refine hands_occupy rfl rfl rfl rfl rfl rfl rfl rfl ?_
      intro other
      unfold CopySpace.places
      rw [emptyEq, count_cons block other rest]
      show rest.count other + space.blocks.occupied.count other +
        space.blocks.pagedOutPlaces other + _ = _
      omega
  | @pageIn block size popped inGc found =>
      obtain ⟨poppedEq, balance⟩ := CopySpace.pageInBlock_eq_some found
      have emptyEq : popped.empty = space.blocks.empty := by rw [poppedEq]
      have occupiedEq : popped.occupied = space.blocks.occupied := by rw [poppedEq]
      have inGcEq : popped.inGc = space.blocks.inGc := by rw [poppedEq]
      have loggingEq : popped.hasFieldLoggingBits = space.blocks.hasFieldLoggingBits := by
        rw [poppedEq]
      refine hands_occupy rfl rfl rfl rfl rfl occupiedEq inGcEq loggingEq ?_
      intro other
      have taken := balance other
      show popped.places other + _ = _
      unfold CopySpace.places
      rw [emptyEq, occupiedEq]
      omega

end Places

section Placed

variable {world : SharedWorld} {stage : AllocatorStage} {block index : ℕ}

theorem SharedSpace.payload_congr {space after : SharedSpace} (slabs : after.slabs = space.slabs)
    (logging : after.blocks.hasFieldLoggingBits = space.blocks.hasFieldLoggingBits) :
    after.payload = space.payload := by
  unfold SharedSpace.payload
  rw [slabs, CopySpace.payloadBlocks_congr logging]

theorem SharedWorld.Placed.count_payload (placed : world.Placed) (block : ℕ) :
    world.space.payload.count block = if block ∈ world.space.payload then 1 else 0 := by
  have nodup := CopySpace.nodup_flatMap_payloadBlocks world.space.blocks placed.slabs_nodup
    placed.slabs_aligned
  split
  next member => exact List.count_eq_one_of_mem nodup member
  next missing => exact List.count_eq_zero.mpr missing

theorem SharedWorld.Placed.places_le (placed : world.Placed) (block : ℕ) :
    world.space.blocks.places block ≤ 1 := by
  rw [placed.places_eq, placed.count_payload]
  split
  · exact le_rfl
  · exact Nat.zero_le _

theorem SharedWorld.Placed.aligned (placed : world.Placed)
    (somewhere : world.space.blocks.places block ≠ 0) : COPY_SPACE_BLOCK_SIZE ∣ block := by
  rw [placed.places_eq] at somewhere
  have member := List.count_pos_iff.mp (Nat.pos_of_ne_zero somewhere)
  obtain ⟨slab, inSlabs, inSlab⟩ := List.mem_flatMap.mp member
  exact (CopySpace.mem_payloadBlocks (placed.slabs_aligned slab inSlabs) inSlab).1

theorem holders_pos (found : world.allocators[index]? = some stage)
    (held : stage.block? = some block) :
    0 < world.allocators.countP (AllocatorStage.holds block) :=
  List.countP_pos_iff.mpr ⟨stage, List.mem_of_getElem? found, decide_eq_true held⟩

/-- The block of an allocator is on no list and has no other allocator. -/
theorem SharedWorld.Placed.held (placed : world.Placed)
    (found : world.allocators[index]? = some stage) (held : stage.block? = some block) :
    world.space.partlyFull.count block = 0 ∧ world.space.full.count block = 0 ∧
      world.allocators.countP (AllocatorStage.holds block) = 1 ∧
      world.space.blocks.empty.count block = 0 ∧ world.space.blocks.pagedOutPlaces block = 0 := by
  have atMost := placed.places_le block
  have occupied := placed.occupied_eq block
  have holders := holders_pos found held
  unfold CopySpace.places at atMost
  omega

theorem SharedWorld.Placed.notOccupied (placed : world.Placed)
    (free : 0 < world.space.blocks.empty.count block + world.space.blocks.pagedOutPlaces block) :
    world.space.blocks.occupied.count block = 0 := by
  have atMost := placed.places_le block
  unfold CopySpace.places at atMost
  omega

/-- No other allocator has the block. -/
theorem SharedWorld.Placed.others (placed : world.Placed)
    (found : world.allocators[index]? = some stage) (held : stage.block? = some block)
    {other : AllocatorStage} (isOther : other ∈ world.allocators.set index .idle) :
    other.block? ≠ some block := by
  intro same
  have once := (placed.held found held).2.2.1
  have parked : (world.allocators.set index .idle).countP (AllocatorStage.holds block) +
      (stage.holds block).toNat = world.allocators.countP (AllocatorStage.holds block) +
        (AllocatorStage.holds block .idle).toNat := Processes.countP_set_add _ found
  have own := holds_eq_count stage held block
  rw [List.count_singleton_self] at own
  have idle := holds_eq_zero .idle rfl block
  have positive : 0 < (world.allocators.set index .idle).countP (AllocatorStage.holds block) :=
    List.countP_pos_iff.mpr ⟨other, isOther, decide_eq_true same⟩
  omega

/-- A move keeps every block in its one place. -/
theorem SharedWorld.Placed.turn (placed : world.Placed) {after : SharedSpace}
    {next : AllocatorStage} (found : world.allocators[index]? = some stage)
    (hands : Hands world.space stage after next) :
    SharedWorld.Placed { space := after, allocators := world.allocators.set index next } where
  slabs_nodup := by
    rw [hands.slabs_eq]
    exact placed.slabs_nodup
  slabs_aligned := by
    rw [hands.slabs_eq]
    exact placed.slabs_aligned
  places_eq block := by
    rw [hands.places_eq, SharedSpace.payload_congr hands.slabs_eq hands.logging_eq]
    exact placed.places_eq block
  occupied_eq block := by
    have before := placed.occupied_eq block
    have moved := hands.moved block
    have counted : (world.allocators.set index next).countP (AllocatorStage.holds block) +
        (stage.holds block).toNat = world.allocators.countP (AllocatorStage.holds block) +
          (next.holds block).toNat := Processes.countP_set_add _ found
    dsimp only
    omega

/-- Paging leaves the occupied blocks where they are. -/
theorem SharedWorld.Placed.repage (placed : world.Placed) {after : SharedSpace}
    (repages : CopySpace.Repages world.space.blocks after.blocks)
    (slabs : after.slabs = world.space.slabs)
    (partlyFull : after.partlyFull = world.space.partlyFull)
    (full : after.full = world.space.full) :
    (world.setSpace after).Placed where
  slabs_nodup := slabs ▸ placed.slabs_nodup
  slabs_aligned := slabs ▸ placed.slabs_aligned
  places_eq block := by
    show after.blocks.places block = after.payload.count block
    rw [repages.places_eq, SharedSpace.payload_congr slabs repages.logging_eq]
    exact placed.places_eq block
  occupied_eq block := by
    show after.blocks.occupied.count block =
      after.partlyFull.count block + after.full.count block + _
    rw [repages.occupied_eq, partlyFull, full]
    exact placed.occupied_eq block

end Placed

/-! ## Counters -/

/-- The pointer of an allocator with a block. -/
def AllocatorStage.allocator? : AllocatorStage → Option BlockAllocator
  | .holding allocator | .found allocator _ => some allocator
  | _ => none

/-- What the space has counted of an allocator's block. -/
def AllocatorStage.counted (allocated : ℕ → ℕ) : AllocatorStage → ℕ
  | .idle | .seeking _ | .seekingEmpty _ => 0
  | .holding allocator | .found allocator _ => allocated allocator.block
  | .releasingPartlyFull block => allocated block
  | .releasingFull _ _ => COPY_SPACE_REGION_SIZE

/-- The pointer is in the active region of the block, past what is counted of it. -/
structure BlockAllocator.Within (space : SharedSpace) (allocator : BlockAllocator) : Prop where
  aligned : COPY_SPACE_BLOCK_SIZE ∣ allocator.block
  limit_eq : allocator.limit =
    regionStart allocator.block space.activeRegion + COPY_SPACE_REGION_SIZE
  counted_le : regionStart allocator.block space.activeRegion +
    space.allocated allocator.block ≤ allocator.hp
  hp_le : allocator.hp ≤ allocator.limit

structure AllocatorStage.Ok (space : SharedSpace) (stage : AllocatorStage) : Prop where
  fits : stage.PendingFits
  within : ∀ allocator, stage.allocator? = some allocator → allocator.Within space
  allocated_le : ∀ block, stage = .releasingPartlyFull block →
    space.allocated block ≤ COPY_SPACE_REGION_SIZE

/-- The counters agree with the lists and the allocators. -/
structure SharedWorld.Counted (world : SharedWorld) : Prop where
  stages : ∀ stage ∈ world.allocators, stage.Ok world.space
  partlyFull_le : ∀ block ∈ world.space.partlyFull,
    world.space.allocated block ≤ COPY_SPACE_REGION_SIZE
  clean : ∀ block, world.space.blocks.pagedOutPlaces block ≠ 0 → world.space.allocated block = 0
  bytes_eq : world.space.allocatedBytes = COPY_SPACE_REGION_SIZE * world.space.full.length +
    (world.space.partlyFull.map world.space.allocated).sum +
      (world.allocators.map (AllocatorStage.counted world.space.allocated)).sum

section Moves

variable {space : SharedSpace} {stage : AllocatorStage} {turn : Turn}

theorem counted_of_none {allocated : ℕ → ℕ} (none : stage.block? = none) :
    stage.counted allocated = 0 := by
  cases stage <;> first | rfl | cases none

theorem allocator_of_none (none : stage.block? = none) : stage.allocator? = Option.none := by
  cases stage <;> first | rfl | cases none

theorem block_of_allocator {allocator : BlockAllocator}
    (found : stage.allocator? = some allocator) : stage.block? = some allocator.block := by
  cases stage <;> first | cases found; rfl | cases found

theorem counted_congr {before after : ℕ → ℕ}
    (same : ∀ block, stage.block? = some block → after block = before block) :
    stage.counted after = stage.counted before := by
  cases stage <;> first | rfl | exact same _ rfl

theorem AllocatorStage.Ok.congr {after : SharedSpace} (ok : stage.Ok space)
    (region : after.activeRegion = space.activeRegion)
    (same : ∀ block, stage.block? = some block → after.allocated block = space.allocated block) :
    stage.Ok after where
  fits := ok.fits
  within allocator found := by
    have before := ok.within allocator found
    have unchanged := same allocator.block (block_of_allocator found)
    exact ⟨before.aligned, region ▸ before.limit_eq, by
      rw [region, unchanged]
      exact before.counted_le, before.hp_le⟩
  allocated_le block isReleasing := by
    rw [same block (by rw [isReleasing]; rfl)]
    exact ok.allocated_le block isReleasing

/-- A pointer inside the region is as far from its start as its remainder says. -/
theorem BlockAllocator.Within.mod_spec {allocator : BlockAllocator}
    (within : allocator.Within space) :
    space.allocated allocator.block ≤ COPY_SPACE_REGION_SIZE ∧
      (allocator.hp % COPY_SPACE_REGION_SIZE ≠ 0 →
        space.allocated allocator.block ≤ allocator.hp % COPY_SPACE_REGION_SIZE) := by
  obtain ⟨⟨number, block_eq⟩, limit_eq, counted_le, hp_le⟩ := within
  have blockSize : COPY_SPACE_BLOCK_SIZE = 131072 := by decide
  have regionSize : COPY_SPACE_REGION_SIZE = 65536 := by decide
  rw [blockSize] at block_eq
  unfold regionStart at limit_eq counted_le
  rw [regionSize] at limit_eq counted_le ⊢
  cases region : space.activeRegion with
  | false =>
      simp only [region, Bool.toNat_false] at limit_eq counted_le
      omega
  | true =>
      simp only [region, Bool.toNat_true] at limit_eq counted_le
      omega

/-- Only a block that the allocator has, or takes off the list of empty ones, is counted anew. -/
theorem Move.allocated_eq (move : Move space stage turn) {block : ℕ}
    (notHeld : stage.block? ≠ some block) (notEmpty : space.blocks.empty.count block = 0) :
    turn.space.allocated block = space.allocated block := by
  cases move with
  | @pushFull pushed pending next after samePending =>
      obtain ⟨isSurvivor, pushedEq⟩ := pushFullBlock_eq space pushed
      dsimp only
      rw [pushedEq]
  | countPartlyFull inside =>
      apply Function.update_of_ne
      intro same
      exact notHeld (congrArg some same.symm)
  | @popEmpty popped size space found =>
      obtain ⟨blocks, foundEq, rfl⟩ := popEmptyBlock_eq_some found
      obtain ⟨emptyEq, -⟩ := CopySpace.popEmptyBlock_eq_some foundEq
      apply Function.update_of_ne
      rintro rfl
      rw [emptyEq, List.count_cons_self] at notEmpty
      cases notEmpty
  | _ => rfl

theorem Move.pagedOutPlaces_le (move : Move space stage turn) (block : ℕ) :
    turn.space.blocks.pagedOutPlaces block ≤ space.blocks.pagedOutPlaces block := by
  cases move with
  | @pushFull pushed pending next after samePending =>
      obtain ⟨isSurvivor, pushedEq⟩ := pushFullBlock_eq space pushed
      dsimp only
      rw [pushedEq]
  | popEmpty found =>
      obtain ⟨blocks, foundEq, rfl⟩ := popEmptyBlock_eq_some found
      obtain ⟨-, poppedEq⟩ := CopySpace.popEmptyBlock_eq_some foundEq
      generalize blocks.empty = rest at poppedEq
      subst poppedEq
      exact le_rfl
  | @pageIn taken size popped inGc found =>
      have balance := (CopySpace.pageInBlock_eq_some found).2 block
      show popped.pagedOutPlaces block ≤ _
      omega
  | _ => exact le_rfl

/-- A block comes on the list of partly-full blocks from the allocator. -/
theorem Move.mem_partlyFull (move : Move space stage turn) {block : ℕ}
    (member : block ∈ turn.space.partlyFull) :
    block ∈ space.partlyFull ∨
      stage = .releasingPartlyFull block ∧ turn.space.allocated = space.allocated := by
  cases move with
  | @pushFull pushed pending next after samePending =>
      obtain ⟨isSurvivor, pushedEq⟩ := pushFullBlock_eq space pushed
      dsimp only at member
      rw [pushedEq] at member
      exact .inl member
  | pushPartlyFull =>
      rcases List.mem_cons.mp member with rfl | listed
      · exact .inr ⟨rfl, rfl⟩
      · exact .inl listed
  | popPartlyFull popped =>
      rw [popped]
      exact .inl (List.mem_cons_of_mem _ member)
  | popEmpty found =>
      obtain ⟨blocks, -, rfl⟩ := popEmptyBlock_eq_some found
      exact .inl member
  | _ => exact .inl member

theorem Move.activeRegion_eq (move : Move space stage turn) :
    turn.space.activeRegion = space.activeRegion := move.hands.activeRegion_eq

/-- A block that an allocator gets is aligned, since it was somewhere. -/
theorem setBlock_within {after : SharedSpace} {block size : ℕ}
    (aligned : COPY_SPACE_BLOCK_SIZE ∣ block)
    (region : after.activeRegion = space.activeRegion) (clean : after.allocated block = 0)
    (small : size ≤ COPY_SPACE_REGION_SIZE) :
    BlockAllocator.Within after
      { hp := regionStart block space.activeRegion + size
        limit := regionStart block space.activeRegion + COPY_SPACE_REGION_SIZE
        block := block } where
  aligned := aligned
  limit_eq := by rw [region]
  counted_le := by
    dsimp only
    rw [region, clean]
    omega
  hp_le := by
    dsimp only
    omega

/-- A move leaves its allocator in order. -/
theorem Move.ok (move : Move space stage turn) (ok : stage.Ok space)
    (aligned : ∀ block, space.blocks.places block ≠ 0 → COPY_SPACE_BLOCK_SIZE ∣ block)
    (occupied : ∀ block ∈ space.partlyFull, space.blocks.places block ≠ 0)
    (partlyFull_le : ∀ block ∈ space.partlyFull,
      space.allocated block ≤ COPY_SPACE_REGION_SIZE)
    (clean : ∀ block, space.blocks.pagedOutPlaces block ≠ 0 → space.allocated block = 0) :
    turn.stage.Ok turn.space := by
  cases move with
  | @wait stage next before after pending =>
      refine ⟨?_, ?_, ?_⟩
      · intro size isPending
        rcases pending with none | same | ⟨wanted, positive, small, rounded⟩
        · rw [none] at isPending
          cases isPending
        · exact ok.fits size (same ▸ isPending)
        · rw [rounded] at isPending
          cases isPending
          exact alignUp_fits positive small
      · intro allocator found
        rw [allocator_of_none after] at found
        cases found
      · intro block isReleasing
        dsimp only at isReleasing
        rw [isReleasing] at after
        cases after
  | @bump stage allocator size before positive fits =>
      have within : allocator.Within space := by
        rcases before with rfl | rfl
        · exact ok.within allocator rfl
        · exact ok.within allocator rfl
      refine ⟨nofun, ?_, nofun⟩
      rintro moved ⟨⟩
      have counted_le := within.counted_le
      exact ⟨within.aligned, within.limit_eq, counted_le.trans (Nat.le_add_right _ _), fits⟩
  | countFull before positive small =>
      refine ⟨?_, nofun, nofun⟩
      rintro pending ⟨⟩
      exact ⟨positive, small⟩
  | countWrapped atEnd => exact ⟨nofun, nofun, nofun⟩
  | @countPartlyFull allocator inside =>
      refine ⟨nofun, nofun, ?_⟩
      rintro block ⟨⟩
      dsimp only
      rw [Function.update_self]
      exact le_of_lt (Nat.mod_lt _ (by decide))
  | @pushFull block pending next after samePending =>
      refine ⟨?_, ?_, ?_⟩
      · intro size isPending
        exact ok.fits size (samePending.symm.trans isPending)
      · intro allocator found
        rw [allocator_of_none after] at found
        cases found
      · intro other isReleasing
        dsimp only at isReleasing
        rw [isReleasing] at after
        cases after
  | pushPartlyFull => exact ⟨nofun, nofun, nofun⟩
  | @popPartlyFull block size rest popped =>
      have member : block ∈ space.partlyFull := popped ▸ List.mem_cons_self
      have atMost := partlyFull_le block member
      refine ⟨ok.fits, ?_, nofun⟩
      rintro allocator ⟨⟩
      refine ⟨aligned block (occupied block member), rfl, le_rfl, ?_⟩
      dsimp only
      omega
  | @popEmpty block size popped found =>
      obtain ⟨blocks, foundEq, rfl⟩ := popEmptyBlock_eq_some found
      obtain ⟨emptyEq, -⟩ := CopySpace.popEmptyBlock_eq_some foundEq
      have somewhere : space.blocks.places block ≠ 0 := by
        have first := count_cons block block blocks.empty
        rw [List.count_singleton_self] at first
        unfold CopySpace.places
        rw [emptyEq]
        omega
      refine ⟨nofun, ?_, nofun⟩
      rintro allocator ⟨⟩
      refine setBlock_within (aligned block somewhere) rfl ?_ (ok.fits size rfl).2
      exact Function.update_self ..
  | @pageIn block size popped inGc found =>
      have balance := (CopySpace.pageInBlock_eq_some found).2 block
      rw [List.count_singleton_self] at balance
      have somewhere : space.blocks.places block ≠ 0 := by
        unfold CopySpace.places
        omega
      refine ⟨nofun, ?_, nofun⟩
      rintro allocator ⟨⟩
      exact setBlock_within (aligned block somewhere) rfl (clean block (by omega))
        (ok.fits size rfl).2

/-- What is counted moves with the block. -/
theorem Move.bytes_eq (move : Move space stage turn) (ok : stage.Ok space)
    (same : ∀ block ∈ space.partlyFull, turn.space.allocated block = space.allocated block)
    (clean : ∀ block, space.blocks.pagedOutPlaces block ≠ 0 → space.allocated block = 0) :
    turn.space.allocatedBytes + COPY_SPACE_REGION_SIZE * space.full.length +
        (space.partlyFull.map space.allocated).sum + stage.counted space.allocated =
      space.allocatedBytes + COPY_SPACE_REGION_SIZE * turn.space.full.length +
        (turn.space.partlyFull.map turn.space.allocated).sum +
          turn.stage.counted turn.space.allocated := by
  cases move with
  | wait before after pending =>
      rw [counted_of_none before, counted_of_none after]
  | bump before positive fits =>
      rcases before with rfl | rfl <;> rfl
  | @countFull stage allocator size before positive small =>
      have within : allocator.Within space := by
        rcases before with rfl | rfl
        · exact ok.within allocator rfl
        · exact ok.within allocator rfl
      have atMost := within.mod_spec.1
      have counted : stage.counted space.allocated = space.allocated allocator.block := by
        rcases before with rfl | rfl <;> rfl
      rw [counted]
      dsimp only [SharedSpace.countFullBlock, AllocatorStage.counted]
      omega
  | @countWrapped allocator atEnd =>
      have atMost := (ok.within allocator rfl).mod_spec.1
      dsimp only [AllocatorStage.counted]
      omega
  | @countPartlyFull allocator inside =>
      have atLeast := (ok.within allocator rfl).mod_spec.2 inside
      have unchanged := List.map_congr_left same
      dsimp only at unchanged
      dsimp only [AllocatorStage.counted]
      rw [unchanged, Function.update_self]
      omega
  | @pushFull block pending next after samePending =>
      obtain ⟨isSurvivor, pushedEq⟩ := pushFullBlock_eq space block
      dsimp only
      rw [pushedEq, counted_of_none after]
      dsimp only [AllocatorStage.counted]
      rw [List.length_cons, Nat.mul_add, Nat.mul_one]
      omega
  | @pushPartlyFull block =>
      dsimp only [SharedSpace.pushPartlyFullBlock, AllocatorStage.counted]
      rw [List.map_cons, List.sum_cons]
      omega
  | @popPartlyFull block size rest popped =>
      dsimp only [AllocatorStage.counted]
      rw [popped, List.map_cons, List.sum_cons]
      omega
  | @popEmpty block size popped found =>
      obtain ⟨blocks, -, rfl⟩ := popEmptyBlock_eq_some found
      have unchanged := List.map_congr_left same
      dsimp only [SharedSpace.occupy] at unchanged
      dsimp only [AllocatorStage.counted, SharedSpace.occupy]
      rw [unchanged, Function.update_self]
  | @pageIn block size popped inGc found =>
      have balance := (CopySpace.pageInBlock_eq_some found).2 block
      rw [List.count_singleton_self] at balance
      have none := clean block (by omega)
      dsimp only [AllocatorStage.counted, SharedSpace.occupy]
      rw [none]

end Moves

end Whippet.Pcc
