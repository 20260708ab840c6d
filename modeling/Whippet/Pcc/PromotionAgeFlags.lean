import Whippet.Pcc.PromotionAge

/-!
What happens to the survivor flags of a nursery between the start and the end of a collection.

Owns: how the turns of allocators and paging change the flags, and where the objects are that an
allocator returns. Does not own: what the flags say of the objects' ages.
-/

namespace Whippet.Pcc

open Function

/-! ## Addresses -/

theorem address_in_block {address : ℕ} (block : ℕ) (region : Bool)
    (aligned : COPY_SPACE_BLOCK_SIZE ∣ block) (above : regionStart block region ≤ address)
    (below : address < regionStart block region + COPY_SPACE_REGION_SIZE) :
    copySpaceBlockForAddr address = block ∧ copySpaceObjectRegion address = region := by
  obtain ⟨number, rfl⟩ := aligned
  have blockSize : COPY_SPACE_BLOCK_SIZE = 131072 := by decide
  have regionSize : COPY_SPACE_REGION_SIZE = 65536 := by decide
  unfold regionStart at above below
  unfold copySpaceBlockForAddr copySpaceObjectRegion
  simp only [blockSize, regionSize] at above below ⊢
  cases region with
  | false =>
      simp only [Bool.toNat_false] at above below
      refine ⟨by omega, ?_⟩
      apply decide_eq_false
      omega
  | true =>
      simp only [Bool.toNat_true] at above below
      refine ⟨by omega, ?_⟩
      apply decide_eq_true
      omega

theorem regionStart_in_block {block : ℕ} (region : Bool) (aligned : COPY_SPACE_BLOCK_SIZE ∣ block) :
    copySpaceBlockForAddr (regionStart block region) = block ∧
      copySpaceObjectRegion (regionStart block region) = region :=
  address_in_block block region aligned le_rfl (Nat.lt_add_of_pos_right (by decide))

/-- The block that the flags of an object's region are in is in the slab of the object. -/
theorem slab_of_block (address : ℕ) :
    copySpaceBlockForAddr address / COPY_SPACE_SLAB_SIZE = address / COPY_SPACE_SLAB_SIZE := by
  have blockSize : COPY_SPACE_BLOCK_SIZE = 131072 := by decide
  have slabSize : COPY_SPACE_SLAB_SIZE = 67108864 := by decide
  unfold copySpaceBlockForAddr
  rw [blockSize, slabSize]
  omega

theorem containsAddress_of_payload {world : SharedWorld} {address : ℕ} (placed : world.Placed)
    (member : copySpaceBlockForAddr address ∈ world.space.payload) :
    world.space.containsAddress address = true := by
  obtain ⟨slab, inSlabs, inSlab⟩ := List.mem_flatMap.mp member
  have slabEq := (CopySpace.mem_payloadBlocks (placed.slabs_aligned slab inSlabs) inSlab).2
  rw [slab_of_block] at slabEq
  apply decide_eq_true
  rw [slabEq]
  exact inSlabs

/-! ## Moves -/

section Moves

variable {space : SharedSpace} {stage : AllocatorStage} {turn : Turn} {block : ℕ}

/-- A flag changes where a block is pushed on the list of full blocks in a collection, and where
an empty block is taken. -/
theorem Move.isSurvivor_cases (move : Move space stage turn) (block : ℕ) (region : Bool) :
    turn.space.isSurvivor block region = space.isSurvivor block region ∨
      (region = space.activeRegion ∧ space.blocks.inGc = true ∧
        turn.space.isSurvivor block region = true) ∨
      (region = space.activeRegion ∧ space.blocks.empty.count block ≠ 0 ∧
        turn.space.isSurvivor block region = false) := by
  cases move with
  | @pushFull pushed pending next after samePending =>
      dsimp only [SharedSpace.pushFullBlock]
      split
      next inGc =>
        by_cases sameBlock : block = pushed
        · by_cases sameRegion : region = space.activeRegion
          · refine .inr (.inl ⟨sameRegion, inGc, ?_⟩)
            rw [sameBlock, sameRegion]
            simp [SharedSpace.setSurvivor]
          · left
            rw [sameBlock]
            simp [SharedSpace.setSurvivor, sameRegion]
        · left
          simp [SharedSpace.setSurvivor, sameBlock]
      next => exact .inl rfl
  | @popEmpty taken size popped found =>
      obtain ⟨blocks, foundEq, rfl⟩ := popEmptyBlock_eq_some found
      obtain ⟨emptyEq, -⟩ := CopySpace.popEmptyBlock_eq_some foundEq
      dsimp only [SharedSpace.occupy]
      by_cases sameBlock : block = taken
      · by_cases sameRegion : region = space.activeRegion
        · refine .inr (.inr ⟨sameRegion, ?_, ?_⟩)
          · rw [sameBlock, emptyEq, List.count_cons_self]
            exact Nat.succ_ne_zero _
          · rw [sameBlock, sameRegion]
            simp
        · left
          rw [sameBlock]
          simp [sameRegion]
      · left
        simp [sameBlock]
  | _ => exact .inl rfl

/-- The block of an allocator was with it or partly full before, unless it was taken empty, or paged
in by a collection. -/
theorem Move.block_cases (move : Move space stage turn) (held : turn.stage.block? = some block) :
    stage.block? = some block ∨ block ∈ space.partlyFull ∨
      turn.space.isSurvivor block space.activeRegion = false ∨ space.blocks.inGc = true := by
  cases move with
  | wait before after pending =>
      rw [after] at held
      cases held
  | bump before positive fits =>
      left
      rcases before with rfl | rfl <;> exact held
  | countFull before positive small =>
      left
      rcases before with rfl | rfl <;> exact held
  | countWrapped atEnd => exact .inl held
  | countPartlyFull inside => exact .inl held
  | pushFull after samePending =>
      dsimp only at held
      rw [after] at held
      cases held
  | pushPartlyFull => cases held
  | popPartlyFull popped =>
      cases held
      right
      left
      rw [popped]
      exact List.mem_cons_self
  | @popEmpty taken size popped found =>
      cases held
      obtain ⟨blocks, -, rfl⟩ := popEmptyBlock_eq_some found
      right
      right
      left
      simp [SharedSpace.occupy]
  | pageIn inGc found => exact .inr (.inr (.inr inGc))

/-- A block on the list of full ones was there or is pushed there, and is flagged then if this is
in a collection. -/
theorem Move.mem_full (move : Move space stage turn) (member : block ∈ turn.space.full) :
    block ∈ space.full ∨
      (space.blocks.inGc = true → turn.space.isSurvivor block space.activeRegion = true) := by
  cases move with
  | @pushFull pushed pending next after samePending =>
      dsimp only [SharedSpace.pushFullBlock] at member ⊢
      split at member
      next inGc =>
        rcases List.mem_cons.mp member with rfl | listed
        · right
          intro _
          simp [SharedSpace.setSurvivor, inGc]
        · exact .inl listed
      next notInGc =>
        right
        intro inGc
        exact absurd inGc notInGc
  | popEmpty found =>
      obtain ⟨blocks, -, rfl⟩ := popEmptyBlock_eq_some found
      exact .inl member
  | _ => exact .inl member

/-- What is returned is in the active region of the allocator's block. -/
theorem Move.ref_spec (move : Move space stage turn) (ok : stage.Ok space)
    (turnOk : turn.stage.Ok turn.space) {address : ℕ} (returned : turn.ref = some address) :
    turn.stage.block? = some (copySpaceBlockForAddr address) ∧
      copySpaceObjectRegion address = space.activeRegion := by
  cases move with
  | @bump stage allocator size before positive fits =>
      cases returned
      have within : allocator.Within space := by
        rcases before with rfl | rfl
        · exact ok.within allocator rfl
        · exact ok.within allocator rfl
      have counted_le := within.counted_le
      have limit_eq := within.limit_eq
      have above : regionStart allocator.block space.activeRegion ≤ allocator.hp := by omega
      have below : allocator.hp <
          regionStart allocator.block space.activeRegion + COPY_SPACE_REGION_SIZE := by omega
      obtain ⟨blockEq, regionEq⟩ := address_in_block allocator.block space.activeRegion
        within.aligned above below
      exact ⟨congrArg some blockEq.symm, regionEq⟩
  | @popEmpty taken size popped found =>
      cases returned
      obtain ⟨blockEq, regionEq⟩ :=
        regionStart_in_block space.activeRegion (turnOk.within _ rfl).aligned
      exact ⟨congrArg some blockEq.symm, regionEq⟩
  | @pageIn taken size popped inGc found =>
      cases returned
      obtain ⟨blockEq, regionEq⟩ :=
        regionStart_in_block space.activeRegion (turnOk.within _ rfl).aligned
      exact ⟨congrArg some blockEq.symm, regionEq⟩
  | _ => cases returned

theorem Move.occupied_le (move : Move space stage turn) (block : ℕ) :
    space.blocks.occupied.count block ≤ turn.space.blocks.occupied.count block := by
  cases move with
  | @pushFull pushed pending next after samePending =>
      obtain ⟨isSurvivor, pushedEq⟩ := pushFullBlock_eq space pushed
      dsimp only
      rw [pushedEq]
  | @popEmpty taken size popped found =>
      obtain ⟨blocks, foundEq, rfl⟩ := popEmptyBlock_eq_some found
      obtain ⟨-, poppedEq⟩ := CopySpace.popEmptyBlock_eq_some foundEq
      have occupiedEq : blocks.occupied = space.blocks.occupied := by rw [poppedEq]
      dsimp only [SharedSpace.occupy]
      rw [occupiedEq]
      exact List.count_le_count_cons
  | @pageIn taken size popped inGc found =>
      obtain ⟨poppedEq, -⟩ := CopySpace.pageInBlock_eq_some found
      have occupiedEq : popped.occupied = space.blocks.occupied := by rw [poppedEq]
      dsimp only [SharedSpace.occupy, CopySpace.addToPageOut]
      rw [occupiedEq]
      exact List.count_le_count_cons
  | _ => exact le_rfl

end Moves

/-! ## Steps -/

/-- A block that allocators may still add objects to. -/
def SharedWorld.InUse (world : SharedWorld) (block : ℕ) : Prop :=
  block ∈ world.space.partlyFull ∨ ∃ stage ∈ world.allocators, stage.block? = some block

/-- The flag of a block for the active region. -/
def SharedSpace.activeFlag (space : SharedSpace) (block : ℕ) : Bool :=
  space.isSurvivor block space.activeRegion

/-- The flag of a block for the other region. -/
def SharedSpace.inactiveFlag (space : SharedSpace) (block : ℕ) : Bool :=
  space.isSurvivor block (!space.activeRegion)

/-- What a step between the start and the end of a collection, or between two collections, keeps of
the flags. -/
structure KeepsFlags (before after : SharedWorld) : Prop where
  inGc_eq : after.space.blocks.inGc = before.space.blocks.inGc
  activeRegion_eq : after.space.activeRegion = before.space.activeRegion
  payload : ∀ block ∈ before.space.payload, block ∈ after.space.payload
  occupied : ∀ block, before.space.blocks.occupied.count block ≠ 0 →
    after.space.blocks.occupied.count block ≠ 0
  inactive : ∀ block ∈ before.space.payload,
    after.space.inactiveFlag block = before.space.inactiveFlag block
  active : before.space.blocks.inGc = false → ∀ block,
    before.space.blocks.occupied.count block ≠ 0 →
      after.space.activeFlag block = before.space.activeFlag block
  inUse : before.space.blocks.inGc = false →
    (∀ block, before.InUse block → before.space.activeFlag block = false) →
      ∀ block, after.InUse block → after.space.activeFlag block = false
  full : before.space.blocks.inGc = true →
    (∀ block ∈ before.space.full, before.space.activeFlag block = true) →
      ∀ block ∈ after.space.full, after.space.activeFlag block = true

section Steps

variable {world : SharedWorld} {index : ℕ} {stage : AllocatorStage} {block : ℕ}

theorem SharedWorld.Placed.occupied_of_inUse (placed : world.Placed) (inUse : world.InUse block) :
    world.space.blocks.occupied.count block ≠ 0 := by
  have occupied := placed.occupied_eq block
  rcases inUse with listed | ⟨other, isMember, held⟩
  · have positive := List.count_pos_iff.mpr listed
    omega
  · have positive : 0 < world.allocators.countP (AllocatorStage.holds block) :=
      List.countP_pos_iff.mpr ⟨other, isMember, decide_eq_true held⟩
    omega

theorem SharedWorld.Placed.occupied_of_full (placed : world.Placed)
    (listed : block ∈ world.space.full) : world.space.blocks.occupied.count block ≠ 0 := by
  have occupied := placed.occupied_eq block
  have positive := List.count_pos_iff.mpr listed
  omega

theorem SharedWorld.Placed.mem_payload (placed : world.Placed)
    (occupied : world.space.blocks.occupied.count block ≠ 0) : block ∈ world.space.payload := by
  have places := placed.places_eq block
  unfold CopySpace.places at places
  apply List.count_pos_iff.mp
  omega

theorem SharedWorld.Placed.not_empty_of_occupied (placed : world.Placed)
    (occupied : world.space.blocks.occupied.count block ≠ 0) :
    world.space.blocks.empty.count block = 0 := by
  have atMost := placed.places_le block
  unfold CopySpace.places at atMost
  omega

theorem mem_payload_of_same {space after : SharedSpace} (slabs : after.slabs = space.slabs)
    (logging : after.blocks.hasFieldLoggingBits = space.blocks.hasFieldLoggingBits)
    (member : block ∈ space.payload) : block ∈ after.payload := by
  rw [SharedSpace.payload_congr slabs logging]
  exact member

theorem KeepsFlags.turn {turn : Turn} (placed : world.Placed)
    (found : world.allocators[index]? = some stage) (move : Move world.space stage turn) :
    KeepsFlags world
      { space := turn.space, allocators := world.allocators.set index turn.stage } := by
  have hands := move.hands
  have sameRegion := move.activeRegion_eq
  have active : world.space.blocks.inGc = false → ∀ block,
      world.space.blocks.occupied.count block ≠ 0 →
        turn.space.activeFlag block = world.space.activeFlag block := by
    intro notInGc block occupied
    unfold SharedSpace.activeFlag
    rw [sameRegion]
    rcases move.isSurvivor_cases block world.space.activeRegion with
      same | ⟨-, inGc, -⟩ | ⟨-, wasEmpty, -⟩
    · exact same
    · rw [notInGc] at inGc
      cases inGc
    · exact absurd (placed.not_empty_of_occupied occupied) wasEmpty
  refine ⟨hands.inGc_eq, sameRegion, ?_, ?_, ?_, active, ?_, ?_⟩
  · intro block member
    rw [SharedSpace.payload_congr hands.slabs_eq hands.logging_eq]
    exact member
  · intro block occupied
    have grows := move.occupied_le block
    dsimp only
    omega
  · intro block member
    unfold SharedSpace.inactiveFlag
    rw [sameRegion]
    rcases move.isSurvivor_cases block (!world.space.activeRegion) with
      same | ⟨region, -⟩ | ⟨region, -⟩
    · exact same
    · cases region' : world.space.activeRegion <;> simp [region'] at region
    · cases region' : world.space.activeRegion <;> simp [region'] at region
  · intro notInGc young block inUse
    have kept (before : world.InUse block) : turn.space.activeFlag block = false :=
      (active notInGc block (placed.occupied_of_inUse before)).trans (young block before)
    rcases inUse with listed | ⟨other, isMember, held⟩
    · rcases move.mem_partlyFull listed with old | ⟨rfl, -⟩
      · exact kept (.inl old)
      · exact kept (.inr ⟨_, List.mem_of_getElem? found, rfl⟩)
    · rcases Processes.mem_set_cases isMember with rfl | old
      · rcases move.block_cases held with own | listed | reset | inGc
        · exact kept (.inr ⟨stage, List.mem_of_getElem? found, own⟩)
        · exact kept (.inl listed)
        · unfold SharedSpace.activeFlag
          dsimp only
          rw [sameRegion]
          exact reset
        · rw [notInGc] at inGc
          cases inGc
      · exact kept (.inr ⟨other, old, held⟩)
  · intro inGc flagged block listed
    unfold SharedSpace.activeFlag
    dsimp only
    rw [sameRegion]
    rcases move.mem_full listed with old | pushed
    · rcases move.isSurvivor_cases block world.space.activeRegion with
        same | ⟨-, -, set⟩ | ⟨-, wasEmpty, -⟩
      · exact same.trans (flagged block old)
      · exact set
      · exact absurd (placed.not_empty_of_occupied (placed.occupied_of_full old)) wasEmpty
    · exact pushed inGc

/-- Paging leaves the flags of the occupied blocks alone. -/
theorem KeepsFlags.of_paging {after : SharedSpace} (placed : world.Placed)
    (inGc : after.blocks.inGc = world.space.blocks.inGc)
    (activeRegion : after.activeRegion = world.space.activeRegion)
    (partlyFull : after.partlyFull = world.space.partlyFull)
    (full : after.full = world.space.full)
    (occupied : after.blocks.occupied = world.space.blocks.occupied)
    (payload : ∀ block ∈ world.space.payload, block ∈ after.payload)
    (inactive : ∀ block ∈ world.space.payload,
      after.inactiveFlag block = world.space.inactiveFlag block)
    (active : ∀ block, world.space.blocks.occupied.count block ≠ 0 →
      after.activeFlag block = world.space.activeFlag block) :
    KeepsFlags world (world.setSpace after) where
  inGc_eq := inGc
  activeRegion_eq := activeRegion
  payload := payload
  occupied block isOccupied := by
    show after.blocks.occupied.count block ≠ 0
    rw [occupied]
    exact isOccupied
  inactive := inactive
  active _ := active
  inUse _ young block inUse := by
    have before : world.InUse block := by
      rcases inUse with listed | held
      · exact .inl (partlyFull ▸ listed)
      · exact .inr held
    exact (active block (placed.occupied_of_inUse before)).trans (young block before)
  full _ flagged block listed := by
    have before : block ∈ world.space.full := full ▸ listed
    exact (active block (placed.occupied_of_full before)).trans (flagged block before)

theorem KeepsFlags.repage {blocks : CopySpace} (placed : world.Placed)
    (repages : CopySpace.Repages world.space.blocks blocks) :
    KeepsFlags world (world.setSpace { world.space with blocks := blocks }) := by
  exact .of_paging placed repages.inGc_eq rfl rfl rfl repages.occupied_eq
    (fun _ => mem_payload_of_same rfl repages.logging_eq) (fun _ _ => rfl) fun _ _ => rfl

theorem KeepsFlags.pageOut {after : SharedSpace} (placed : world.Placed)
    (paged : world.space.pageOutOne = some after) : KeepsFlags world (world.setSpace after) := by
  unfold SharedSpace.pageOutOne at paged
  split at paged
  · cases paged
  next taken popped found =>
    cases paged
    obtain ⟨blocks, foundEq, rfl⟩ := popEmptyBlock_eq_some found
    obtain ⟨emptyEq, -⟩ := CopySpace.popEmptyBlock_eq_some foundEq
    have repages := (CopySpace.pageOutBlock_repages foundEq).trans
      (CopySpace.addToPageOut_repages _ (-COPY_SPACE_BLOCK_SIZE))
    refine .of_paging placed repages.inGc_eq rfl rfl rfl repages.occupied_eq
      (fun _ => mem_payload_of_same rfl repages.logging_eq) ?_ ?_
    · intro block member
      show update world.space.isSurvivor taken _ block (!world.space.activeRegion) = _
      by_cases same : block = taken
      · rw [same, Function.update_self, Function.update_of_ne (by simp)]
        rfl
      · rw [Function.update_of_ne same]
        rfl
    · intro block occupied
      show update world.space.isSurvivor taken _ block world.space.activeRegion = _
      rw [Function.update_of_ne]
      · rfl
      · rintro rfl
        have notEmpty := placed.not_empty_of_occupied occupied
        rw [emptyEq, List.count_cons_self] at notEmpty
        cases notEmpty

/-- The blocks of fresh slabs are new. -/
theorem not_added_of_payload {base count : ℕ} (placed : world.Placed)
    (aligned : COPY_SPACE_SLAB_SIZE ∣ base)
    (fresh : ∀ slab ∈ CopySpace.slabsAt base count, slab ∉ world.space.slabs)
    (member : block ∈ world.space.payload) :
    block ∉ (CopySpace.slabsAt base count).flatMap world.space.blocks.payloadBlocks := by
  intro added
  obtain ⟨slab, inSlabs, inSlab⟩ := List.mem_flatMap.mp member
  obtain ⟨new, isNew, inNew⟩ := List.mem_flatMap.mp added
  have oldEq := (CopySpace.mem_payloadBlocks (placed.slabs_aligned slab inSlabs) inSlab).2
  have newEq := (CopySpace.mem_payloadBlocks (CopySpace.aligned_slabsAt aligned isNew) inNew).2
  rw [oldEq] at newEq
  subst newEq
  exact fresh slab isNew inSlabs

theorem KeepsFlags.addSlabs {base count : ℕ} (placed : world.Placed)
    (aligned : COPY_SPACE_SLAB_SIZE ∣ base)
    (fresh : ∀ slab ∈ CopySpace.slabsAt base count, slab ∉ world.space.slabs) :
    KeepsFlags world (world.setSpace (world.space.addSlabs base count)) := by
  obtain ⟨-, occupied, inGc, logging, -⟩ := CopySpace.addSlabs_spec world.space.blocks base count
  have same : ∀ block ∈ world.space.payload, ∀ region,
      (world.space.addSlabs base count).isSurvivor block region =
        world.space.isSurvivor block region := by
    intro block member region
    exact if_neg (not_added_of_payload placed aligned fresh member)
  refine .of_paging placed inGc rfl rfl rfl occupied ?_ ?_ ?_
  · intro block member
    obtain ⟨slab, inSlabs, inSlab⟩ := List.mem_flatMap.mp member
    refine List.mem_flatMap.mpr ⟨slab, List.mem_append_left _ inSlabs, ?_⟩
    show block ∈ (world.space.blocks.addSlabs base count).payloadBlocks slab
    rw [CopySpace.payloadBlocks_congr logging]
    exact inSlab
  · intro block member
    exact same block member _
  · intro block isOccupied
    exact same block (placed.mem_payload isOccupied) _

/-- Every step but those of a collection keeps the flags. -/
theorem KeepsFlags.of_step {action : SharedAction} {after : SharedWorld} {ref : Option ℕ}
    (invariant : world.Invariant) (stepped : world.stepWithRef action = .next (after, ref))
    (notFlip : action ≠ .flip) (notFinish : ∀ isMinorGc, action ≠ .finishGc isMinorGc) :
    KeepsFlags world after := by
  cases sharedMove_of_step invariant stepped with
  | turn isTurn found move => exact .turn invariant.placed found move
  | flip => exact absurd rfl notFlip
  | finishGc isMinorGc => exact absurd rfl (notFinish isMinorGc)
  | repage repages => exact .repage invariant.placed repages
  | pageOut paged => exact .pageOut invariant.placed paged
  | addSlabs aligned fresh => exact .addSlabs invariant.placed aligned fresh

/-- What a step returns is in the active region of a block that an allocator has. -/
theorem ref_of_step {action : SharedAction} {after : SharedWorld} {address : ℕ}
    (invariant : world.Invariant)
    (stepped : world.stepWithRef action = .next (after, some address)) :
    after.InUse (copySpaceBlockForAddr address) ∧
      copySpaceObjectRegion address = world.space.activeRegion := by
  obtain ⟨ref, returned⟩ : ∃ ref, some address = ref := ⟨_, rfl⟩
  rw [returned] at stepped
  cases sharedMove_of_step invariant stepped with
  | @turn action index stage turn isTurn found move =>
      have inRange := (List.getElem?_eq_some_iff.mp found).1
      have member : turn.stage ∈ world.allocators.set index turn.stage :=
        List.mem_of_getElem? (List.getElem?_set_self inRange)
      have turnOk := (invariant.turn found move).counted.stages turn.stage member
      have ok := invariant.counted.stages stage (List.mem_of_getElem? found)
      obtain ⟨held, region⟩ := move.ref_spec ok turnOk returned.symm
      exact ⟨.inr ⟨turn.stage, member, held⟩, region⟩
  | _ => cases returned

end Steps

end Whippet.Pcc
