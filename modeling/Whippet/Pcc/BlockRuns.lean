import Whippet.Pcc.BlockAccounting

/-!
The accounts of a copy space in whole runs.

Owns: that every action keeps the accounts, and what they say of every reachable state: each block
is on one list or with one allocator, and `allocated_bytes` is what the lists and the allocators
make it. Does not own: the objects in a block.
-/

namespace Whippet.Pcc

open Function

/-! ## Steps -/

section Steps

variable {world : SharedWorld} {index : ℕ} {stage : AllocatorStage}

theorem SharedWorld.Placed.partlyFull_places (placed : world.Placed) {block : ℕ}
    (member : block ∈ world.space.partlyFull) : world.space.blocks.places block ≠ 0 := by
  have listed := List.count_pos_iff.mpr member
  have occupied := placed.occupied_eq block
  unfold CopySpace.places
  omega

/-- What an allocator's turn may count anew is not on the list of partly-full blocks, not paged out,
and not with another allocator. -/
theorem SharedWorld.Placed.allocated_eq {turn : Turn} (placed : world.Placed)
    (found : world.allocators[index]? = some stage) (move : Move world.space stage turn) :
    (∀ block ∈ world.space.partlyFull,
      turn.space.allocated block = world.space.allocated block) ∧
    (∀ block, world.space.blocks.pagedOutPlaces block ≠ 0 →
      turn.space.allocated block = world.space.allocated block) ∧
    ∀ other ∈ world.allocators.set index .idle, ∀ block, other.block? = some block →
      turn.space.allocated block = world.space.allocated block := by
  refine ⟨?_, ?_, ?_⟩
  · intro block member
    have listed := List.count_pos_iff.mpr member
    have atMost := placed.places_le block
    have occupied := placed.occupied_eq block
    unfold CopySpace.places at atMost
    apply move.allocated_eq
    · intro held
      have notListed := (placed.held found held).1
      omega
    · omega
  · intro block pagedOut
    have atMost := placed.places_le block
    unfold CopySpace.places at atMost
    apply move.allocated_eq
    · intro held
      have notPaged := (placed.held found held).2.2.2.2
      omega
    · omega
  · intro other isOther block held
    apply move.allocated_eq
    · intro own
      exact placed.others found own isOther held
    · rcases Processes.mem_set_cases isOther with rfl | isMember
      · cases held
      · obtain ⟨position, atPosition⟩ := List.mem_iff_getElem?.mp isMember
        exact (placed.held atPosition held).2.2.2.1

/-- An allocator's turn keeps the accounts. -/
theorem SharedWorld.Counted.turn {turn : Turn} (counted : world.Counted) (placed : world.Placed)
    (found : world.allocators[index]? = some stage) (move : Move world.space stage turn) :
    SharedWorld.Counted
      { space := turn.space, allocators := world.allocators.set index turn.stage } := by
  have ok := counted.stages stage (List.mem_of_getElem? found)
  obtain ⟨partlyFull, pagedOut, others⟩ := placed.allocated_eq found move
  refine ⟨?_, ?_, ?_, ?_⟩
  · intro other isMember
    obtain ⟨position, atPosition⟩ := List.mem_iff_getElem?.mp isMember
    rcases Processes.getElem?_set_cases atPosition with ⟨-, rfl⟩ | ⟨different, before⟩
    · exact move.ok ok (fun _ => placed.aligned) (fun _ => placed.partlyFull_places)
        counted.partlyFull_le counted.clean
    · apply (counted.stages other (List.mem_of_getElem? before)).congr move.activeRegion_eq
      apply others
      apply List.mem_of_getElem? (i := position)
      rw [List.getElem?_set_ne different.symm]
      exact before
  · intro block member
    rcases move.mem_partlyFull member with listed | ⟨rfl, same⟩
    · exact (partlyFull block listed).symm ▸ counted.partlyFull_le block listed
    · exact same.symm ▸ ok.allocated_le block rfl
  · intro block somewhere
    have before := move.pagedOutPlaces_le block
    have isPaged : world.space.blocks.pagedOutPlaces block ≠ 0 := by
      dsimp only at somewhere
      omega
    exact (pagedOut block isPaged).trans (counted.clean block isPaged)
  · have moved := move.bytes_eq ok partlyFull counted.clean
    have total := counted.bytes_eq
    have sums : ((world.allocators.set index turn.stage).map
          (AllocatorStage.counted turn.space.allocated)).sum +
            stage.counted world.space.allocated =
        (world.allocators.map (AllocatorStage.counted world.space.allocated)).sum +
          turn.stage.counted turn.space.allocated :=
      Processes.sum_map_set_of_others _ _ found .idle fun other isOther =>
        counted_congr (others other isOther)
    dsimp only
    omega

/-! ### Collections -/

theorem idle_of_allIdle (idle : world.AllIdle) :
    (∀ block, world.allocators.countP (AllocatorStage.holds block) = 0) ∧
      ∀ allocated : ℕ → ℕ, (world.allocators.map (AllocatorStage.counted allocated)).sum = 0 := by
  constructor
  · intro block
    apply List.countP_eq_zero.mpr
    intro other isMember
    rw [idle other isMember]
    exact Bool.false_ne_true
  · intro allocated
    apply List.sum_eq_zero
    intro value isMember
    obtain ⟨other, member, rfl⟩ := List.mem_map.mp isMember
    rw [idle other member]
    rfl

theorem ok_of_allIdle (idle : world.AllIdle) (space : SharedSpace) :
    ∀ other ∈ world.allocators, other.Ok space := by
  intro other isMember
  rw [idle other isMember]
  exact ⟨nofun, nofun, nofun⟩

theorem SharedWorld.Placed.flip (placed : world.Placed) (idle : world.AllIdle) :
    (world.setSpace world.space.flip).Placed where
  slabs_nodup := placed.slabs_nodup
  slabs_aligned := placed.slabs_aligned
  places_eq block := by
    have before := placed.places_eq block
    have occupied := placed.occupied_eq block
    rw [(idle_of_allIdle idle).1] at occupied
    unfold CopySpace.places at before
    show (world.space.blocks.empty ++ (world.space.partlyFull ++ world.space.full)).count block +
      ([] : List ℕ).count block + world.space.blocks.pagedOutPlaces block = _
    rw [List.count_append, List.count_append, List.count_nil]
    show _ = world.space.payload.count block
    omega
  occupied_eq block := by
    show ([] : List ℕ).count block = ([] : List ℕ).count block + ([] : List ℕ).count block +
      world.allocators.countP (AllocatorStage.holds block)
    rw [(idle_of_allIdle idle).1, List.count_nil]

theorem SharedWorld.Counted.flip (counted : world.Counted) (idle : world.AllIdle) :
    (world.setSpace world.space.flip).Counted where
  stages := ok_of_allIdle idle _
  partlyFull_le := nofun
  clean := counted.clean
  bytes_eq := by
    show 0 = COPY_SPACE_REGION_SIZE * 0 + 0 +
      (world.allocators.map (AllocatorStage.counted world.space.allocated)).sum
    rw [(idle_of_allIdle idle).2, Nat.mul_zero]

/-- What the loop of `copy_space_finish_gc` does: every partly-full block becomes a full one. -/
theorem drainPartlyFull_spec (space : SharedSpace) (blocks : List ℕ)
    (atMost : ∀ block ∈ blocks, space.allocated block ≤ COPY_SPACE_REGION_SIZE) :
    ∃ full isSurvivor allocatedBytes fragmentation,
      space.drainPartlyFull blocks = { space with
        partlyFull := []
        full := full
        isSurvivor := isSurvivor
        allocatedBytes := allocatedBytes
        fragmentation := fragmentation } ∧
      full = blocks.reverse ++ space.full ∧
      allocatedBytes + (blocks.map space.allocated).sum =
        space.allocatedBytes + COPY_SPACE_REGION_SIZE * blocks.length := by
  induction blocks generalizing space with
  | nil => exact ⟨space.full, space.isSurvivor, space.allocatedBytes, space.fragmentation, rfl,
      rfl, by simp⟩
  | cons block rest inductionHypothesis =>
      rw [SharedSpace.drainPartlyFull]
      generalize counted : SharedSpace.countFullBlock _ _ = after
      obtain ⟨isSurvivor, pushed⟩ := pushFullBlock_eq after block
      rw [pushed]
      obtain ⟨full, flags, bytes, fragmentation, equal, fullEq, bytesEq⟩ :=
        inductionHypothesis { after with isSurvivor := isSurvivor, full := block :: after.full } (by
          intro other member
          rw [← counted]
          exact atMost other (List.mem_cons_of_mem _ member))
      refine ⟨full, flags, bytes, fragmentation, ?_, ?_, ?_⟩
      · rw [equal, ← counted]
        rfl
      · rw [fullEq, ← counted]
        simp [SharedSpace.countFullBlock]
      · have first := atMost block List.mem_cons_self
        rw [← counted] at bytesEq
        dsimp only [SharedSpace.countFullBlock, BlockAllocator.setBlock] at bytesEq
        rw [List.map_cons, List.sum_cons, List.length_cons, Nat.mul_add, Nat.mul_one]
        omega

/-- A collection ends with the blocks where they are, or with all partly-full blocks full. -/
theorem finishGc_spec (counted : world.Counted) (isMinorGc : Bool) :
    ∃ partlyFull full isSurvivor allocatedBytes fragmentation,
      world.space.finishGc isMinorGc = { world.space with
        blocks := world.space.blocks.finishGc
        partlyFull := partlyFull
        full := full
        isSurvivor := isSurvivor
        allocatedBytes := allocatedBytes
        fragmentation := fragmentation
        allocatedBytesAtLastGc := allocatedBytes
        fragmentationAtLastGc := fragmentation } ∧
      (∀ block, partlyFull.count block + full.count block =
        world.space.partlyFull.count block + world.space.full.count block) ∧
      (∀ block ∈ partlyFull, block ∈ world.space.partlyFull) ∧
      allocatedBytes + COPY_SPACE_REGION_SIZE * world.space.full.length +
          (world.space.partlyFull.map world.space.allocated).sum =
        world.space.allocatedBytes + COPY_SPACE_REGION_SIZE * full.length +
          (partlyFull.map world.space.allocated).sum := by
  unfold SharedSpace.finishGc
  cases isMinorGc with
  | false => exact ⟨_, _, _, _, _, rfl, fun _ => rfl, fun _ => id, rfl⟩
  | true =>
      obtain ⟨full, isSurvivor, bytes, fragmentation, equal, fullEq, bytesEq⟩ :=
        drainPartlyFull_spec world.space world.space.partlyFull counted.partlyFull_le
      refine ⟨[], full, isSurvivor, bytes, fragmentation, ?_, ?_, nofun, ?_⟩
      · rw [if_pos rfl, equal]
      · intro block
        rw [fullEq, List.count_append, List.count_reverse, List.count_nil, Nat.zero_add]
      · rw [fullEq, List.length_append, List.length_reverse, Nat.mul_add, List.map_nil,
          List.sum_nil]
        omega

theorem SharedWorld.Placed.finishGc (placed : world.Placed) (counted : world.Counted)
    (isMinorGc : Bool) : (world.setSpace (world.space.finishGc isMinorGc)).Placed := by
  obtain ⟨partlyFull, full, isSurvivor, bytes, fragmentation, equal, counts, -, -⟩ :=
    finishGc_spec counted isMinorGc
  rw [equal]
  refine ⟨placed.slabs_nodup, placed.slabs_aligned, placed.places_eq, ?_⟩
  intro block
  have before := placed.occupied_eq block
  have same := counts block
  show world.space.blocks.occupied.count block = partlyFull.count block + full.count block +
    world.allocators.countP (AllocatorStage.holds block)
  omega

theorem SharedWorld.Counted.finishGc (counted : world.Counted) (idle : world.AllIdle)
    (isMinorGc : Bool) : (world.setSpace (world.space.finishGc isMinorGc)).Counted := by
  obtain ⟨partlyFull, full, isSurvivor, bytes, fragmentation, equal, -, listed, bytesEq⟩ :=
    finishGc_spec counted isMinorGc
  rw [equal]
  refine ⟨ok_of_allIdle idle _, ?_, counted.clean, ?_⟩
  · intro block member
    exact counted.partlyFull_le block (listed block member)
  · have before := counted.bytes_eq
    rw [(idle_of_allIdle idle).2] at before
    show bytes = COPY_SPACE_REGION_SIZE * full.length +
      (partlyFull.map world.space.allocated).sum +
        (world.allocators.map (AllocatorStage.counted world.space.allocated)).sum
    rw [(idle_of_allIdle idle).2]
    omega

/-! ### Paging -/

/-- What pages blocks in or out may count those anew that are not occupied. -/
theorem SharedWorld.Counted.repage (counted : world.Counted) (placed : world.Placed)
    {after : SharedSpace} (partlyFull : after.partlyFull = world.space.partlyFull)
    (full : after.full = world.space.full)
    (activeRegion : after.activeRegion = world.space.activeRegion)
    (allocatedBytes : after.allocatedBytes = world.space.allocatedBytes)
    (allocated : ∀ block, world.space.blocks.occupied.count block ≠ 0 →
      after.allocated block = world.space.allocated block)
    (clean : ∀ block, after.blocks.pagedOutPlaces block ≠ 0 → after.allocated block = 0) :
    (world.setSpace after).Counted := by
  have inPartlyFull : ∀ block ∈ world.space.partlyFull,
      after.allocated block = world.space.allocated block := by
    intro block member
    have listed := List.count_pos_iff.mpr member
    have occupied := placed.occupied_eq block
    exact allocated block (by omega)
  have withAllocator : ∀ other ∈ world.allocators, ∀ block, other.block? = some block →
      after.allocated block = world.space.allocated block := by
    intro other isMember block held
    have holders : 0 < world.allocators.countP (AllocatorStage.holds block) :=
      List.countP_pos_iff.mpr ⟨other, isMember, decide_eq_true held⟩
    have occupied := placed.occupied_eq block
    exact allocated block (by omega)
  refine ⟨?_, ?_, clean, ?_⟩
  · intro other isMember
    exact (counted.stages other isMember).congr activeRegion (withAllocator other isMember)
  · intro block member
    have listed : block ∈ world.space.partlyFull := partlyFull ▸ member
    show after.allocated block ≤ _
    rw [inPartlyFull block listed]
    exact counted.partlyFull_le block listed
  · show after.allocatedBytes = COPY_SPACE_REGION_SIZE * after.full.length +
      (after.partlyFull.map after.allocated).sum +
        (world.allocators.map (AllocatorStage.counted after.allocated)).sum
    rw [allocatedBytes, full, partlyFull, List.map_congr_left inPartlyFull,
      List.map_congr_left fun other isMember => counted_congr (withAllocator other isMember)]
    exact counted.bytes_eq

/-- The two invariants together. -/
structure SharedWorld.Invariant (world : SharedWorld) : Prop where
  placed : world.Placed
  counted : world.Counted

theorem SharedWorld.Invariant.pageOut (invariant : world.Invariant) {after : SharedSpace}
    (paged : world.space.pageOutOne = some after) : (world.setSpace after).Invariant := by
  unfold SharedSpace.pageOutOne at paged
  split at paged
  · cases paged
  next block popped found =>
    cases paged
    obtain ⟨blocks, foundEq, rfl⟩ := popEmptyBlock_eq_some found
    have repages := CopySpace.pageOutBlock_repages foundEq
    have owed := CopySpace.addToPageOut_repages (blocks.pageOutBlock block)
      (-COPY_SPACE_BLOCK_SIZE)
    obtain ⟨emptyEq, poppedEq⟩ := CopySpace.popEmptyBlock_eq_some foundEq
    constructor
    · exact invariant.placed.repage (repages.trans owed) rfl rfl rfl
    · refine invariant.counted.repage invariant.placed rfl rfl rfl rfl ?_ ?_
      · intro other occupied
        apply Function.update_of_ne
        rintro rfl
        apply occupied
        apply invariant.placed.notOccupied
        rw [emptyEq, List.count_cons_self]
        omega
      · intro other somewhere
        show update world.space.allocated block 0 other = 0
        by_cases same : other = block
        · rw [same, Function.update_self]
        · rw [Function.update_of_ne same]
          apply invariant.counted.clean
          have pushed := blocks.pagedOutPlaces_pageOutBlock block other
          have away : [block].count other = 0 := by
            rw [List.count_singleton]
            simp [Ne.symm same]
          have kept : blocks.pagedOutPlaces other = world.space.blocks.pagedOutPlaces other := by
            rw [poppedEq]
            rfl
          have unchanged : ((blocks.pageOutBlock block).addToPageOut
              (-COPY_SPACE_BLOCK_SIZE)).pagedOutPlaces other =
                (blocks.pageOutBlock block).pagedOutPlaces other := rfl
          dsimp only at somewhere
          omega

/-- Paging that leaves the headers alone. -/
theorem SharedWorld.Invariant.repage (invariant : world.Invariant) {blocks : CopySpace}
    (repages : CopySpace.Repages world.space.blocks blocks)
    (fewer : ∀ block, blocks.pagedOutPlaces block ≤ world.space.blocks.pagedOutPlaces block) :
    (world.setSpace { world.space with blocks := blocks }).Invariant := by
  constructor
  · exact invariant.placed.repage repages rfl rfl rfl
  · refine invariant.counted.repage invariant.placed rfl rfl rfl rfl (fun _ _ => rfl) ?_
    intro block somewhere
    have atMost := fewer block
    apply invariant.counted.clean
    dsimp only at somewhere
    omega

/-- New slabs add their blocks, with nothing counted of them. -/
theorem SharedWorld.Invariant.addSlabs (invariant : world.Invariant) {base count : ℕ}
    (aligned : COPY_SPACE_SLAB_SIZE ∣ base)
    (fresh : ∀ slab ∈ CopySpace.slabsAt base count, slab ∉ world.space.slabs) :
    (world.setSpace (world.space.addSlabs base count)).Invariant := by
  obtain ⟨empty, occupied, inGc, logging, pagedOut⟩ :=
    CopySpace.addSlabs_spec world.space.blocks base count
  have payload : (world.space.addSlabs base count).payload = world.space.payload ++
      (CopySpace.slabsAt base count).flatMap world.space.blocks.payloadBlocks := by
    show (world.space.slabs ++ CopySpace.slabsAt base count).flatMap
      (world.space.blocks.addSlabs base count).payloadBlocks = _
    rw [CopySpace.payloadBlocks_congr logging, List.flatMap_append]
    rfl
  have placed : (world.setSpace (world.space.addSlabs base count)).Placed := by
    refine ⟨?_, ?_, ?_, ?_⟩
    · apply List.nodup_append'.mpr
      refine ⟨invariant.placed.slabs_nodup, CopySpace.nodup_slabsAt base count, ?_⟩
      intro slab old new
      exact fresh slab new old
    · intro slab member
      rcases List.mem_append.mp member with old | new
      · exact invariant.placed.slabs_aligned slab old
      · exact CopySpace.aligned_slabsAt aligned new
    · intro block
      show (world.space.blocks.addSlabs base count).places block =
        (world.space.addSlabs base count).payload.count block
      rw [payload, List.count_append, ← invariant.placed.places_eq]
      unfold CopySpace.places
      rw [empty, occupied, pagedOut]
      omega
    · intro block
      show (world.space.blocks.addSlabs base count).occupied.count block = _
      rw [occupied]
      exact invariant.placed.occupied_eq block
  refine ⟨placed, ?_⟩
  refine invariant.counted.repage invariant.placed rfl rfl rfl rfl ?_ ?_
  · intro block isOccupied
    apply if_neg
    intro added
    have atMost := placed.places_le block
    have counted := List.count_pos_iff.mpr added
    have more := pagedOut block
    have same : (world.setSpace (world.space.addSlabs base count)).space.blocks =
      world.space.blocks.addSlabs base count := rfl
    unfold CopySpace.places at atMost
    rw [same, occupied] at atMost
    omega
  · intro block somewhere
    show (if block ∈ _ then 0 else world.space.allocated block) = 0
    split
    next => rfl
    next old =>
      apply invariant.counted.clean
      have more := pagedOut block
      rw [List.count_eq_zero.mpr old] at more
      have same : (world.space.addSlabs base count).blocks =
        world.space.blocks.addSlabs base count := rfl
      rw [same] at somewhere
      omega

/-! ### Runs -/

theorem initialShared_invariant {base : ℕ} (size : ℕ) (aligned hasFieldLoggingBits : Bool)
    (count : ℕ) (slabAligned : COPY_SPACE_SLAB_SIZE ∣ base) :
    SharedWorld.Invariant
      { space := initialSharedSpace size base aligned hasFieldLoggingBits
        allocators := List.replicate count .idle } := by
  have idle : SharedWorld.AllIdle
      { space := initialSharedSpace size base aligned hasFieldLoggingBits
        allocators := List.replicate count .idle } := fun _ => List.eq_of_mem_replicate
  have init : ∃ blocks excess space, CopySpace.init size base aligned hasFieldLoggingBits =
      CopySpace.initLoop blocks excess space ∧
        blocks = (CopySpace.slabsAt base space.nslabs).flatMap space.payloadBlocks ∧
          space = CopySpace.bare space.nslabs hasFieldLoggingBits :=
    ⟨_, _, _, rfl, rfl, rfl⟩
  obtain ⟨blocks, excess, space, initEq, blocksEq, bare⟩ := init
  obtain ⟨occupied, inGc, logging, nslabs, places⟩ :=
    CopySpace.initLoop_places blocks excess space
  have none (block : ℕ) : space.places block = 0 := by
    rw [bare]
    rfl
  have noneOccupied : space.occupied = [] := by rw [bare]; rfl
  refine ⟨⟨CopySpace.nodup_slabsAt _ _, fun _ => CopySpace.aligned_slabsAt slabAligned, ?_, ?_⟩,
    ⟨ok_of_allIdle idle _, nofun, fun _ _ => rfl, ?_⟩⟩
  · intro block
    show (CopySpace.init size base aligned hasFieldLoggingBits).places block =
      (initialSharedSpace size base aligned hasFieldLoggingBits).payload.count block
    unfold SharedSpace.payload initialSharedSpace
    dsimp only
    rw [initEq, places, none, Nat.zero_add, CopySpace.payloadBlocks_congr logging, nslabs,
      ← blocksEq]
  · intro block
    rw [(idle_of_allIdle idle).1]
    show (CopySpace.init size base aligned hasFieldLoggingBits).occupied.count block = 0
    rw [initEq, occupied, noneOccupied, List.count_nil]
  · rw [(idle_of_allIdle idle).2]
    rfl

theorem turnOf_eq_next {after : SharedWorld} {ref : Option ℕ}
    {turn : AllocatorStage → Option Turn} (taken : world.turnOf index turn = .next (after, ref)) :
    ∃ stage result, world.allocators[index]? = some stage ∧ turn stage = some result ∧
      after = { space := result.space, allocators := world.allocators.set index result.stage } ∧
        ref = result.ref := by
  unfold SharedWorld.turnOf at taken
  split at taken
  · cases taken
  next stage found =>
    split at taken
    · cases taken
    next result turned =>
      cases taken
      exact ⟨stage, result, found, turned, rfl, rfl⟩

theorem paged_eq_next {after : SharedWorld} {ref : Option ℕ} {paged : Option SharedSpace}
    (taken : world.paged paged = .next (after, ref)) :
    ∃ space, paged = some space ∧ after = world.setSpace space ∧ ref = none := by
  cases paged with
  | none => cases taken
  | some space =>
      cases taken
      exact ⟨space, rfl, rfl, rfl⟩

theorem SharedWorld.Invariant.turn {turn : Turn} (invariant : world.Invariant)
    (found : world.allocators[index]? = some stage) (move : Move world.space stage turn) :
    SharedWorld.Invariant
      { space := turn.space, allocators := world.allocators.set index turn.stage } :=
  ⟨invariant.placed.turn found move.hands, invariant.counted.turn invariant.placed found move⟩

/-- The turn of an allocator is a move. -/
theorem move_of_step {action : SharedAction} {after : SharedWorld} {ref : Option ℕ}
    (invariant : world.Invariant) (stepped : world.stepWithRef action = .next (after, ref))
    (isTurn : action = .finish index ∨ action = .continue index ∨
      ∃ size, action = .allocate index size) :
    ∃ stage turn, world.allocators[index]? = some stage ∧ Move world.space stage turn ∧
      after = { space := turn.space, allocators := world.allocators.set index turn.stage } ∧
        ref = turn.ref := by
  rcases isTurn with rfl | rfl | ⟨size, rfl⟩
  · obtain ⟨stage, turn, found, taken, rest⟩ := turnOf_eq_next stepped
    exact ⟨stage, turn, found, move_of_startFinish taken, rest⟩
  · obtain ⟨stage, turn, found, taken, rest⟩ := turnOf_eq_next stepped
    have fits := (invariant.counted.stages stage (List.mem_of_getElem? found)).fits
    exact ⟨stage, turn, found, move_of_continueTurn fits taken, rest⟩
  · simp only [SharedWorld.stepWithRef, Outcome.require_bind_eq_next] at stepped
    obtain ⟨⟨positive, small⟩, stepped⟩ := stepped
    obtain ⟨stage, turn, found, taken, rest⟩ := turnOf_eq_next stepped
    exact ⟨stage, turn, found, move_of_startAllocate positive small taken, rest⟩

/-- What a step can do: an allocator takes its turn, a collection starts or ends, blocks are paged,
or slabs are added. -/
inductive SharedMove (world : SharedWorld) : SharedAction → SharedWorld → Option ℕ → Prop
  | turn {action : SharedAction} {index : ℕ} {stage : AllocatorStage} {turn : Turn}
      (isTurn : action = .finish index ∨ action = .continue index ∨
        ∃ size, action = .allocate index size)
      (found : world.allocators[index]? = some stage) (move : Move world.space stage turn) :
      SharedMove world action
        { space := turn.space, allocators := world.allocators.set index turn.stage } turn.ref
  | flip (idle : world.AllIdle) : SharedMove world .flip (world.setSpace world.space.flip) none
  | finishGc (isMinorGc : Bool) (idle : world.AllIdle) :
      SharedMove world (.finishGc isMinorGc) (world.setSpace (world.space.finishGc isMinorGc)) none
  | repage {action : SharedAction} {blocks : CopySpace}
      (repages : CopySpace.Repages world.space.blocks blocks)
      (fewer : ∀ block, blocks.pagedOutPlaces block ≤ world.space.blocks.pagedOutPlaces block) :
      SharedMove world action (world.setSpace { world.space with blocks := blocks }) none
  | pageOut {action : SharedAction} {space : SharedSpace}
      (paged : world.space.pageOutOne = some space) :
      SharedMove world action (world.setSpace space) none
  | addSlabs {action : SharedAction} {base count : ℕ} (aligned : COPY_SPACE_SLAB_SIZE ∣ base)
      (fresh : ∀ slab ∈ CopySpace.slabsAt base count, slab ∉ world.space.slabs) :
      SharedMove world action (world.setSpace (world.space.addSlabs base count)) none

theorem sharedMove_of_step {action : SharedAction} {after : SharedWorld} {ref : Option ℕ}
    (invariant : world.Invariant) (stepped : world.stepWithRef action = .next (after, ref)) :
    SharedMove world action after ref := by
  have ofTurn {index : ℕ} (isTurn : action = .finish index ∨ action = .continue index ∨
      ∃ size, action = .allocate index size) : SharedMove world action after ref := by
    obtain ⟨stage, turn, found, move, rfl, rfl⟩ := move_of_step invariant stepped isTurn
    exact .turn isTurn found move
  cases action with
  | allocate index size => exact ofTurn (.inr (.inr ⟨size, rfl⟩))
  | finish index => exact ofTurn (.inl rfl)
  | «continue» index => exact ofTurn (.inr (.inl rfl))
  | flip =>
      simp only [SharedWorld.stepWithRef, Outcome.require_bind_eq_next] at stepped
      obtain ⟨⟨idle, -⟩, stepped⟩ := stepped
      cases stepped
      exact .flip idle
  | finishGc isMinorGc =>
      simp only [SharedWorld.stepWithRef, Outcome.require_bind_eq_next] at stepped
      obtain ⟨⟨idle, -⟩, stepped⟩ := stepped
      cases stepped
      exact .finishGc isMinorGc idle
  | addToPageOut bytes =>
      cases stepped
      exact .repage (CopySpace.addToPageOut_repages _ bytes) fun _ => le_rfl
  | pageOut =>
      obtain ⟨space, paged, rfl, rfl⟩ := paged_eq_next stepped
      exact .pageOut paged
  | reacquire =>
      obtain ⟨space, paged, rfl, rfl⟩ := paged_eq_next stepped
      unfold SharedSpace.reacquireOne at paged
      split at paged
      · cases paged
      next reacquired reacquiredEq =>
        cases paged
        obtain ⟨repages, fewer⟩ := CopySpace.reacquireOne_repages reacquiredEq
        exact .repage repages fewer
  | addSlabs base count =>
      simp only [SharedWorld.stepWithRef, Outcome.require_bind_eq_next] at stepped
      obtain ⟨aligned, fresh, stepped⟩ := stepped
      cases stepped
      exact .addSlabs aligned fresh
  | advancePageOutQueue =>
      cases stepped
      obtain ⟨repages, same⟩ := CopySpace.advancePageOutQueue_repages world.space.blocks
      exact .repage repages fun block => (same block).le
  | pageOutBlocks =>
      cases stepped
      obtain ⟨repages, same⟩ := CopySpace.pageOutBlocks_repages world.space.blocks
      exact .repage repages fun block => (same block).le

theorem SharedWorld.Invariant.stepWithRef {action : SharedAction} {after : SharedWorld}
    {ref : Option ℕ} (invariant : world.Invariant)
    (stepped : world.stepWithRef action = .next (after, ref)) : after.Invariant := by
  cases sharedMove_of_step invariant stepped with
  | turn isTurn found move => exact invariant.turn found move
  | flip idle => exact ⟨invariant.placed.flip idle, invariant.counted.flip idle⟩
  | finishGc isMinorGc idle =>
      exact ⟨invariant.placed.finishGc invariant.counted isMinorGc,
        invariant.counted.finishGc idle isMinorGc⟩
  | repage repages fewer => exact invariant.repage repages fewer
  | pageOut paged => exact invariant.pageOut paged
  | addSlabs aligned fresh => exact invariant.addSlabs aligned fresh

theorem reachable_accounts (reached : sharedSystem.Reachable world) : world.Invariant := by
  apply reached.invariant
  · rintro state ⟨size, base, aligned, hasFieldLoggingBits, count, slabAligned, rfl⟩
    exact initialShared_invariant size aligned hasFieldLoggingBits count slabAligned
  · intro before action after invariant _ stepped
    obtain ⟨⟨middle, ref⟩, withRef, rest⟩ := Outcome.bind_eq_next.mp stepped
    cases rest
    exact invariant.stepWithRef withRef

end Steps

/-! ## Accounts -/

/-- The lists that a block is on, and the allocators that have it. -/
def SharedWorld.placesOf (world : SharedWorld) (block : ℕ) : ℕ :=
  world.space.blocks.empty.count block + world.space.partlyFull.count block +
    world.space.full.count block + world.space.blocks.pagedOutPlaces block +
      world.allocators.countP (AllocatorStage.holds block)

/-- The block is counted as it will be on its next list, and not on that list yet. -/
def AllocatorStage.isReleasing : AllocatorStage → Bool
  | .releasingFull _ _ | .releasingPartlyFull _ => true
  | _ => false

/-- The `allocated` field of an allocator's block. -/
def AllocatorStage.heldAllocated (allocated : ℕ → ℕ) (stage : AllocatorStage) : ℕ :=
  match stage.block? with
  | none => 0
  | some block => allocated block

structure SharedWorld.Accounted (world : SharedWorld) : Prop where
  /-- Each block of the space's slabs is on one list or with one allocator. -/
  onePlace : ∀ block ∈ world.space.payload, world.placesOf block = 1
  noOther : ∀ block ∉ world.space.payload, world.placesOf block = 0
  /-- While no allocator is giving up its block, what is allocated is the regions of the full
  blocks and what is counted of the others. -/
  bytes : (∀ stage ∈ world.allocators, stage.isReleasing = false) →
    world.space.allocatedBytes = COPY_SPACE_REGION_SIZE * world.space.full.length +
      (world.space.partlyFull.map world.space.allocated).sum +
        (world.allocators.map (AllocatorStage.heldAllocated world.space.allocated)).sum

theorem counted_eq_heldAllocated {stage : AllocatorStage} (allocated : ℕ → ℕ)
    (notReleasing : stage.isReleasing = false) :
    stage.counted allocated = stage.heldAllocated allocated := by
  cases stage <;> first | rfl | cases notReleasing

theorem SharedWorld.Placed.placesOf_eq {world : SharedWorld} (placed : world.Placed) (block : ℕ) :
    world.placesOf block = world.space.payload.count block := by
  have occupied := placed.occupied_eq block
  rw [← placed.places_eq]
  unfold SharedWorld.placesOf CopySpace.places
  omega

/-- In every run, each block has one place, and the counter of allocated bytes agrees with the
blocks. -/
theorem blocks_accounted (world : SharedWorld) (reached : sharedSystem.Reachable world) :
    world.Accounted := by
  have invariant := reachable_accounts reached
  refine ⟨?_, ?_, ?_⟩
  · intro block member
    rw [invariant.placed.placesOf_eq, invariant.placed.count_payload, if_pos member]
  · intro block missing
    rw [invariant.placed.placesOf_eq, invariant.placed.count_payload, if_neg missing]
  · intro notReleasing
    rw [invariant.counted.bytes_eq]
    congr 1
    apply congrArg List.sum
    apply List.map_congr_left
    intro stage member
    exact counted_eq_heldAllocated _ (notReleasing stage member)

/-- An allocator puts its block of one object on the list of partly-full blocks, and another one
takes it from there to add to it. -/
theorem blocks_accounted_shared :
    ∃ world : SharedWorld, world.space.allocatedBytes = 104 ∧
      world.allocators = [.idle, .holding
        { hp := 134086864, limit := 134152192, block := 134086656 }] ∧
      world.Accounted := by
  have start : sharedSystem.initial
      { space := initialSharedSpace 262144 (2 ^ 26) false false
        allocators := List.replicate 2 .idle } :=
    ⟨262144, 2 ^ 26, false, false, 2, by decide, rfl⟩
  have leads : (System.runBy sharedSystem.step (fun _ _ => True)
      { space := initialSharedSpace 262144 (2 ^ 26) false false
        allocators := List.replicate 2 .idle }
      [.allocate 0 100, .continue 0, .continue 0, .finish 0, .continue 0, .allocate 1 100,
        .continue 1, .continue 1]).leadsTo (fun world =>
          decide (world.space.allocatedBytes = 104) && decide (world.allocators = [.idle, .holding
            { hp := 134086864, limit := 134152192, block := 134086656 }])) = true := by
    decide +kernel
  obtain ⟨world, ran, tested⟩ := Outcome.exists_next_of_leadsTo leads
  rw [Bool.and_eq_true, decide_eq_true_eq, decide_eq_true_eq] at tested
  have reached := System.ReachableBy.of_runBy sharedSystem (fun _ _ => True) (fun _ _ => id)
    (.initial start) _ ran
  exact ⟨world, tested.1, tested.2, blocks_accounted world reached⟩

end Whippet.Pcc
