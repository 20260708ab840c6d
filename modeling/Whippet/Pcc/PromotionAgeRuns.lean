import Whippet.Pcc.PromotionAgeFlags

/-!
The flags of a nursery tell the ages of its objects.

Between two collections, the objects that have survived one are in full blocks whose flags are set,
and the allocators only add to blocks whose flags are not. A flip leaves these flags alone until the
collection ends, and the collection's own allocators set those of the other region.

Owns: the invariant of the nursery in either phase, that every action keeps it, and what
`copy_space_should_promote` answers in a minor collection. Does not own: what promotes an object
that there is no room for.
-/

namespace Whippet.Pcc

open Function

/-! ## Phases -/

section Phases

variable (world : AgedWorld)

/-- What is known of an object between two collections. -/
structure Settled (object : AgedObject) : Prop where
  region_eq : object.region = world.space.activeRegion
  occupied : world.space.blocks.occupied.count object.block ≠ 0
  flag_eq : world.space.activeFlag object.block = decide (0 < object.survived)
  fresh_iff : object.survived = 0 ↔ object.born = world.collections
  born_le : object.born ≤ world.collections

/-- What is known of an object that the current collection has not copied. -/
structure FromSpace (object : AgedObject) : Prop where
  region_eq : object.region = !world.space.activeRegion
  member : object.block ∈ world.space.payload
  flag_eq : world.space.inactiveFlag object.block = decide (0 < object.survived)
  fresh_iff : object.survived = 0 ↔ object.born = world.collections
  born_le : object.born ≤ world.collections

/-- What is known of an object that the current collection has copied within the nursery. -/
structure ToSpace (object : AgedObject) : Prop where
  region_eq : object.region = world.space.activeRegion
  occupied : world.space.blocks.occupied.count object.block ≠ 0
  isMinorGc_eq : world.isMinorGc = true
  survived_pos : 0 < object.survived
  born_le : object.born ≤ world.collections

structure Mutating : Prop where
  notInGc : world.inGc = false
  copying_eq : world.copying = []
  young : ∀ block, world.shared.InUse block → world.space.activeFlag block = false
  settled : ∀ object ∈ world.objects, Settled world object

structure Collecting : Prop where
  inGc : world.inGc = true
  flagged : ∀ block ∈ world.space.full, world.space.activeFlag block = true
  known : ∀ object ∈ world.objects, FromSpace world object ∨ ToSpace world object
  born_le : ∀ claim ∈ world.copying, claim.2.born ≤ world.collections
  /-- An allocator that is in the middle of an allocation copies an object. -/
  claimed : ∀ index stage, world.shared.allocators[index]? = some stage →
    stage.pending? ≠ none → ∃ claim ∈ world.copying, claim.1 = index
  /-- A major collection leaves nothing in the nursery. -/
  major : world.isMinorGc = false → world.shared.AllIdle ∧ world.space.partlyFull = [] ∧
    world.space.full = []

structure AgedWorld.Invariant : Prop where
  shared : world.shared.Invariant
  phase : Mutating world ∨ Collecting world

end Phases

section Keeping

variable {world : AgedWorld} {shared : SharedWorld} {object : AgedObject}

theorem Settled.keep (settled : Settled world object) (keeps : KeepsFlags world.shared shared)
    (notInGc : world.inGc = false) : Settled { world with shared := shared } object where
  region_eq := settled.region_eq.trans keeps.activeRegion_eq.symm
  occupied := keeps.occupied _ settled.occupied
  flag_eq := (keeps.active notInGc _ settled.occupied).trans settled.flag_eq
  fresh_iff := settled.fresh_iff
  born_le := settled.born_le

theorem FromSpace.keep (fromSpace : FromSpace world object)
    (keeps : KeepsFlags world.shared shared) : FromSpace { world with shared := shared } object
      where
  region_eq := fromSpace.region_eq.trans (congrArg not keeps.activeRegion_eq.symm)
  member := keeps.payload _ fromSpace.member
  flag_eq := (keeps.inactive _ fromSpace.member).trans fromSpace.flag_eq
  fresh_iff := fromSpace.fresh_iff
  born_le := fromSpace.born_le

theorem ToSpace.keep (toSpace : ToSpace world object) (keeps : KeepsFlags world.shared shared) :
    ToSpace { world with shared := shared } object where
  region_eq := toSpace.region_eq.trans keeps.activeRegion_eq.symm
  occupied := keeps.occupied _ toSpace.occupied
  isMinorGc_eq := toSpace.isMinorGc_eq
  survived_pos := toSpace.survived_pos
  born_le := toSpace.born_le

theorem Mutating.keep (mutating : Mutating world) (keeps : KeepsFlags world.shared shared) :
    Mutating { world with shared := shared } where
  notInGc := keeps.inGc_eq.trans mutating.notInGc
  copying_eq := mutating.copying_eq
  young := keeps.inUse mutating.notInGc mutating.young
  settled object member := (mutating.settled object member).keep keeps mutating.notInGc

/-- What a collection keeps in a step that changes no claim. -/
theorem Collecting.keep (collecting : Collecting world) (keeps : KeepsFlags world.shared shared)
    (claimed : ∀ index stage, shared.allocators[index]? = some stage →
      stage.pending? ≠ none → ∃ claim ∈ world.copying, claim.1 = index)
    (major : world.isMinorGc = false → shared.AllIdle ∧ shared.space.partlyFull = [] ∧
      shared.space.full = []) :
    Collecting { world with shared := shared } where
  inGc := keeps.inGc_eq.trans collecting.inGc
  flagged := keeps.full collecting.inGc collecting.flagged
  known object member := by
    rcases collecting.known object member with fromSpace | toSpace
    · exact .inl (fromSpace.keep keeps)
    · exact .inr (toSpace.keep keeps)
  born_le := collecting.born_le
  claimed := claimed
  major := major

/-- What is known of an object does not depend on the other objects, nor on the claims. -/
theorem Collecting.known_with (collecting : Collecting world) (member : object ∈ world.objects)
    {objects : List AgedObject} {copying : List (ℕ × AgedObject)} :
    FromSpace { world with objects := objects, copying := copying } object ∨
      ToSpace { world with objects := objects, copying := copying } object := by
  rcases collecting.known object member with fromSpace | toSpace
  · exact .inl { fromSpace with }
  · exact .inr { toSpace with }

/-- The claims of an allocator may go when it is not in the middle of an allocation. -/
theorem Collecting.claimed_of_filter (collecting : Collecting world) {index other : ℕ}
    (finished : ∀ stage, world.shared.allocators[index]? = some stage → stage.pending? = none)
    {stage : AllocatorStage} (atOther : world.shared.allocators[other]? = some stage)
    (pending : stage.pending? ≠ none) :
    ∃ claim ∈ world.copying.filter fun claim => claim.1 ≠ index, claim.1 = other := by
  obtain ⟨claim, isClaim, ofOther⟩ := collecting.claimed other stage atOther pending
  refine ⟨claim, List.mem_filter.mpr ⟨isClaim, ?_⟩, ofOther⟩
  apply decide_eq_true
  rintro same
  rw [ofOther] at same
  subst same
  exact pending (finished stage atOther)

end Keeping

/-! ## Turns -/

section Turns

variable {world : AgedWorld} {index address : ℕ}

/-- A mutator's allocation returns a new object. -/
theorem Mutating.returned (mutating : Mutating world) (invariant : world.shared.Invariant)
    (inUse : world.shared.InUse (copySpaceBlockForAddr address))
    (region : copySpaceObjectRegion address = world.space.activeRegion) :
    Mutating (world.returned index address) := by
  have noClaim : world.copying.find? (fun claim => claim.1 = index) = none := by
    rw [mutating.copying_eq]
    rfl
  unfold AgedWorld.returned
  rw [noClaim]
  refine ⟨mutating.notInGc, mutating.copying_eq, mutating.young, ?_⟩
  intro object member
  rcases List.mem_cons.mp member with rfl | old
  · exact
      { region_eq := region
        occupied := invariant.placed.occupied_of_inUse inUse
        flag_eq := mutating.young _ inUse
        fresh_iff := Iff.intro (fun _ => rfl) fun _ => rfl
        born_le := le_rfl }
  · have settled := mutating.settled object old
    exact ⟨settled.region_eq, settled.occupied, settled.flag_eq, settled.fresh_iff,
      settled.born_le⟩

/-- A trace worker's allocation returns the place of a copy. -/
theorem Collecting.returned (collecting : Collecting world) (invariant : world.shared.Invariant)
    (isMinorGc : world.isMinorGc = true)
    (inUse : world.shared.InUse (copySpaceBlockForAddr address))
    (region : copySpaceObjectRegion address = world.space.activeRegion)
    (claim : ∃ claim ∈ world.copying, claim.1 = index)
    (finished : ∀ stage, world.shared.allocators[index]? = some stage → stage.pending? = none) :
    Collecting (world.returned index address) := by
  obtain ⟨claim, isClaim, ofIndex⟩ := claim
  unfold AgedWorld.returned
  cases foundEq : world.copying.find? (fun claim => claim.1 = index) with
  | none =>
      rw [List.find?_eq_none] at foundEq
      have impossible := foundEq claim isClaim
      simp [ofIndex] at impossible
  | some found =>
      have foundMember := List.mem_of_find?_eq_some foundEq
      refine ⟨collecting.inGc, collecting.flagged, ?_, ?_, ?_, collecting.major⟩
      · intro object member
        rcases List.mem_cons.mp member with rfl | old
        · right
          exact
            { region_eq := region
              occupied := invariant.placed.occupied_of_inUse inUse
              isMinorGc_eq := isMinorGc
              survived_pos := Nat.succ_pos _
              born_le := collecting.born_le found foundMember }
        · exact collecting.known_with (List.mem_of_mem_erase old)
      · intro other member
        exact collecting.born_le other (List.mem_filter.mp member).1
      · exact fun other stage => collecting.claimed_of_filter finished

/-- A worker that gets a null reference gives up its claim. -/
theorem Collecting.dropClaim (collecting : Collecting world)
    (idle : world.shared.allocators[index]? = some .idle) :
    Collecting { world with copying := world.copying.filter fun claim => claim.1 ≠ index } := by
  refine ⟨collecting.inGc, collecting.flagged, ?_, ?_, ?_, collecting.major⟩
  · exact fun object member => collecting.known_with member
  · intro claim member
    exact collecting.born_le claim (List.mem_filter.mp member).1
  · refine fun other stage => collecting.claimed_of_filter fun stage atIndex => ?_
    rw [idle] at atIndex
    cases atIndex
    rfl

variable {stage : AllocatorStage} {turn : Turn}

theorem Move.pending_of_ref {space : SharedSpace} (move : Move space stage turn)
    (returned : turn.ref ≠ none) : turn.stage.pending? = none := by
  cases move <;> first | rfl | exact absurd rfl returned

/-- Only an allocation that was not finished goes on or returns. -/
theorem pending_of_continueTurn {space : SharedSpace}
    (taken : space.continueTurn stage = some turn)
    (goesOn : turn.stage.pending? ≠ none ∨ turn.ref ≠ none) : stage.pending? ≠ none := by
  cases stage with
  | idle => cases taken
  | holding allocator => cases taken
  | releasingFull block pending =>
      cases taken
      cases pending with
      | none => simp [AllocatorStage.pending?] at goesOn
      | some size => rintro ⟨⟩
  | releasingPartlyFull block =>
      cases taken
      simp [AllocatorStage.pending?] at goesOn
  | _ => rintro ⟨⟩

theorem pending_of_startFinish {space : SharedSpace}
    (taken : space.startFinish stage = some turn) :
    turn.stage.pending? = none ∧ turn.ref = none := by
  cases stage with
  | idle =>
      cases taken
      exact ⟨rfl, rfl⟩
  | holding allocator =>
      simp only [SharedSpace.startFinish] at taken
      split at taken <;> cases taken <;> exact ⟨rfl, rfl⟩
  | _ => cases taken

theorem inUse_of_ref (invariant : world.shared.Invariant)
    (found : world.shared.allocators[index]? = some stage) (move : Move world.space stage turn)
    (returned : turn.ref = some address) :
    SharedWorld.InUse
      { space := turn.space, allocators := world.shared.allocators.set index turn.stage }
        (copySpaceBlockForAddr address) ∧
      copySpaceObjectRegion address = world.space.activeRegion := by
  have inRange := (List.getElem?_eq_some_iff.mp found).1
  have member : turn.stage ∈ world.shared.allocators.set index turn.stage :=
    List.mem_of_getElem? (List.getElem?_set_self inRange)
  have turnOk := (invariant.turn found move).counted.stages turn.stage member
  have ok := invariant.counted.stages stage (List.mem_of_getElem? found)
  obtain ⟨held, region⟩ := move.ref_spec ok turnOk returned
  exact ⟨.inr ⟨turn.stage, member, held⟩, region⟩

/-- A mutator's turn. -/
theorem Mutating.afterTurn (mutating : Mutating world) (invariant : world.shared.Invariant)
    (found : world.shared.allocators[index]? = some stage) (move : Move world.space stage turn) :
    Mutating (AgedWorld.afterTurn
      { world with shared :=
        { space := turn.space, allocators := world.shared.allocators.set index turn.stage } }
      index turn.ref) := by
  have kept := mutating.keep (KeepsFlags.turn invariant.placed found move)
  cases returned : turn.ref with
  | none =>
      unfold AgedWorld.afterTurn
      dsimp only
      split
      · refine ⟨kept.notInGc, ?_, kept.young, ?_⟩
        · dsimp only
          rw [mutating.copying_eq]
          rfl
        · intro object member
          have settled := kept.settled object member
          exact ⟨settled.region_eq, settled.occupied, settled.flag_eq, settled.fresh_iff,
            settled.born_le⟩
      · exact kept
  | some address =>
      obtain ⟨inUse, region⟩ := inUse_of_ref invariant found move returned
      exact kept.returned (invariant.turn found move) inUse
        (region.trans move.activeRegion_eq.symm)

/-- A trace worker's turn. In a major collection it has nothing to do here. -/
theorem Collecting.afterTurn (collecting : Collecting world) (invariant : world.shared.Invariant)
    (found : world.shared.allocators[index]? = some stage) (move : Move world.space stage turn)
    (claim : turn.stage.pending? ≠ none ∨ turn.ref ≠ none →
      ∃ claim ∈ world.copying, claim.1 = index)
    (major : world.isMinorGc = false →
      turn.stage = .idle ∧ turn.space = world.space ∧ turn.ref = none) :
    Collecting (AgedWorld.afterTurn
      { world with shared :=
        { space := turn.space, allocators := world.shared.allocators.set index turn.stage } }
      index turn.ref) := by
  have inRange := (List.getElem?_eq_some_iff.mp found).1
  have kept := collecting.keep (KeepsFlags.turn invariant.placed found move)
    (by
      intro other otherStage atOther pending
      rcases Processes.getElem?_set_cases atOther with ⟨rfl, rfl⟩ | ⟨-, before⟩
      · exact claim (.inl pending)
      · exact collecting.claimed other otherStage before pending)
    (by
      intro isMajor
      obtain ⟨idle, noPartlyFull, noFull⟩ := collecting.major isMajor
      obtain ⟨stageEq, spaceEq, -⟩ := major isMajor
      refine ⟨?_, spaceEq ▸ noPartlyFull, spaceEq ▸ noFull⟩
      intro other member
      rcases Processes.mem_set_cases member with rfl | before
      · exact stageEq
      · exact idle other before)
  cases returned : turn.ref with
  | none =>
      unfold AgedWorld.afterTurn
      dsimp only
      split
      next idle => exact kept.dropClaim idle
      next => exact kept
  | some address =>
      obtain ⟨inUse, region⟩ := inUse_of_ref invariant found move returned
      have isMinorGc : world.isMinorGc = true := by
        by_contra notMinor
        have none := (major (Bool.eq_false_iff.mpr notMinor)).2.2
        rw [returned] at none
        cases none
      have goesOn : turn.ref ≠ none := by
        rw [returned]
        rintro ⟨⟩
      apply kept.returned (invariant.turn found move) isMinorGc inUse
        (region.trans move.activeRegion_eq.symm) (claim (.inr goesOn))
      intro other atIndex
      dsimp only at atIndex
      rw [List.getElem?_set_self inRange] at atIndex
      cases atIndex
      exact move.pending_of_ref goesOn

end Turns

/-! ## Collections -/

section Collections

variable {world : AgedWorld} {shared : SharedWorld} {ref : Option ℕ}

/-- Paging leaves the allocators and the lists of occupied blocks alone. -/
theorem paging_same {action : SharedAction} (invariant : world.shared.Invariant)
    (stepped : world.shared.stepWithRef action = .next (shared, ref))
    (notTurn : ∀ index, action ≠ .finish index ∧ action ≠ .continue index ∧
      ∀ size, action ≠ .allocate index size)
    (notFlip : action ≠ .flip) (notFinish : ∀ isMinorGc, action ≠ .finishGc isMinorGc) :
    shared.allocators = world.shared.allocators ∧
      shared.space.partlyFull = world.space.partlyFull ∧
        shared.space.full = world.space.full := by
  cases sharedMove_of_step invariant stepped with
  | @turn action index stage turn isTurn found move =>
      obtain ⟨finishes, continues, allocates⟩ := notTurn index
      rcases isTurn with isFinish | isContinue | ⟨size, isAllocate⟩
      · exact absurd isFinish finishes
      · exact absurd isContinue continues
      · exact absurd isAllocate (allocates size)
  | flip => exact absurd rfl notFlip
  | finishGc isMinorGc => exact absurd rfl (notFinish isMinorGc)
  | pageOut paged =>
      unfold SharedSpace.pageOutOne at paged
      split at paged
      · cases paged
      next block popped found =>
        cases paged
        obtain ⟨blocks, -, rfl⟩ := popEmptyBlock_eq_some found
        exact ⟨rfl, rfl, rfl⟩
  | repage | addSlabs => exact ⟨rfl, rfl, rfl⟩

theorem inactiveFlag_flip (space : SharedSpace) (block : ℕ) :
    space.flip.inactiveFlag block = space.activeFlag block := by
  show space.isSurvivor block (!(!space.activeRegion)) = _
  rw [Bool.not_not]
  rfl

/-- The flip hands the flags of the active region over to the collection. -/
theorem Mutating.flip (mutating : Mutating world) (invariant : world.shared.Invariant)
    (idle : world.shared.AllIdle) (isMinorGc : Bool) :
    Collecting { world with
      shared := world.shared.setSpace world.space.flip, isMinorGc := isMinorGc } where
  inGc := rfl
  flagged := by rintro _ ⟨⟩
  known object member := by
    have settled := mutating.settled object member
    left
    exact
      { region_eq := settled.region_eq.trans (Bool.not_not _).symm
        member := mem_payload_of_same rfl rfl (invariant.placed.mem_payload settled.occupied)
        flag_eq := (inactiveFlag_flip world.space object.block).trans settled.flag_eq
        fresh_iff := settled.fresh_iff
        born_le := settled.born_le }
  born_le := by
    show ∀ claim ∈ world.copying, _
    rw [mutating.copying_eq]
    rintro _ ⟨⟩
  claimed index stage atIndex pending := by
    rw [idle stage (List.mem_of_getElem? atIndex)] at pending
    exact absurd rfl pending
  major _ := ⟨idle, rfl, rfl⟩

theorem pushFullBlock_flagged {space : SharedSpace} (inGc : space.blocks.inGc = true) (block : ℕ)
    (flagged : ∀ other ∈ space.full, space.activeFlag other = true) :
    ∀ other ∈ (space.pushFullBlock block).full,
      (space.pushFullBlock block).activeFlag other = true := by
  unfold SharedSpace.pushFullBlock SharedSpace.activeFlag
  rw [if_pos inGc]
  intro other member
  show update space.isSurvivor block (update (space.isSurvivor block) space.activeRegion true)
    other space.activeRegion = true
  by_cases same : other = block
  · rw [same, Function.update_self, Function.update_self]
  · rw [Function.update_of_ne same]
    rcases List.mem_cons.mp member with isBlock | listed
    · exact absurd isBlock same
    · exact flagged other listed

theorem pushFullBlock_inGc (space : SharedSpace) (block : ℕ) :
    (space.pushFullBlock block).blocks.inGc = space.blocks.inGc := by
  obtain ⟨isSurvivor, pushed⟩ := pushFullBlock_eq space block
  rw [pushed]

/-- The end of a minor collection sets the flags of what its allocators leave partly full. -/
theorem drainPartlyFull_flagged (space : SharedSpace) (blocks : List ℕ)
    (inGc : space.blocks.inGc = true)
    (flagged : ∀ block ∈ space.full, space.activeFlag block = true) :
    (space.drainPartlyFull blocks).partlyFull = [] ∧
      ∀ block ∈ (space.drainPartlyFull blocks).full,
        (space.drainPartlyFull blocks).activeFlag block = true := by
  induction blocks generalizing space with
  | nil => exact ⟨rfl, flagged⟩
  | cons block rest inductionHypothesis =>
      rw [SharedSpace.drainPartlyFull]
      apply inductionHypothesis
      · rw [pushFullBlock_inGc]
        exact inGc
      · refine pushFullBlock_flagged ?_ block ?_
        · exact inGc
        · exact flagged

/-- What is left in the nursery is settled, with one more collection ended. -/
theorem Collecting.finishGc (collecting : Collecting world) (invariant : world.shared.Invariant)
    (idle : world.shared.AllIdle) (noClaims : world.copying = []) :
    Mutating { world with
      shared := world.shared.setSpace (world.space.finishGc world.isMinorGc)
      objects := world.objects.filter fun object => object.region = world.space.activeRegion
      collections := world.collections + 1 } := by
  obtain ⟨partlyFull, full, isSurvivor, bytes, fragmentation, equal, counts, -, -⟩ :=
    finishGc_spec invariant.counted world.isMinorGc
  change world.space.finishGc world.isMinorGc = _ at equal
  have finished := invariant.placed.finishGc invariant.counted world.isMinorGc
  have noPartlyFull : (world.space.finishGc world.isMinorGc).partlyFull = [] := by
    unfold SharedSpace.finishGc
    cases isMinorGc : world.isMinorGc with
    | false => exact (collecting.major isMinorGc).2.1
    | true =>
        exact (drainPartlyFull_flagged world.space _ collecting.inGc collecting.flagged).1
  have activeRegion : (world.space.finishGc world.isMinorGc).activeRegion =
      world.space.activeRegion := by
    rw [equal]
    rfl
  refine ⟨rfl, noClaims, ?_, ?_⟩
  · rintro block (listed | ⟨stage, member, held⟩)
    · dsimp only [SharedWorld.setSpace] at listed
      rw [noPartlyFull] at listed
      cases listed
    · rw [idle stage member] at held
      cases held
  · intro object member
    obtain ⟨old, region⟩ := List.mem_filter.mp member
    have region := of_decide_eq_true region
    rcases collecting.known object old with fromSpace | toSpace
    · rw [fromSpace.region_eq] at region
      cases activeEq : world.space.activeRegion <;> simp [activeEq] at region
    · have occupiedEq : (world.space.finishGc world.isMinorGc).blocks.occupied =
          world.space.blocks.occupied := by
        rw [equal]
        rfl
      have occupied : (world.space.finishGc world.isMinorGc).blocks.occupied.count
          object.block ≠ 0 := by
        rw [occupiedEq]
        exact toSpace.occupied
      have isFull : object.block ∈ (world.space.finishGc world.isMinorGc).full := by
        apply List.count_pos_iff.mp
        have counted : (world.space.finishGc world.isMinorGc).blocks.occupied.count object.block =
            (world.space.finishGc world.isMinorGc).partlyFull.count object.block +
              (world.space.finishGc world.isMinorGc).full.count object.block +
                world.shared.allocators.countP (AllocatorStage.holds object.block) :=
          finished.occupied_eq object.block
        have holders := (idle_of_allIdle idle).1 object.block
        have listed : (world.space.finishGc world.isMinorGc).partlyFull.count object.block = 0 := by
          rw [noPartlyFull, List.count_nil]
        omega
      have flagged : (world.space.finishGc world.isMinorGc).activeFlag object.block = true := by
        rw [toSpace.isMinorGc_eq] at isFull ⊢
        exact (drainPartlyFull_flagged world.space _ collecting.inGc collecting.flagged).2 _ isFull
      have survived := toSpace.survived_pos
      have born_le := toSpace.born_le
      exact
        { region_eq := region.trans activeRegion.symm
          occupied := occupied
          flag_eq := flagged.trans (decide_eq_true survived).symm
          fresh_iff := by
            dsimp only
            omega
          born_le := by
            dsimp only
            omega }

end Collections

/-! ## Runs -/

section Runs

variable {world : AgedWorld}

/-- The turn that an action takes, if it takes one. -/
theorem turn_of_shareStep {index : ℕ} {action : SharedAction} {after : AgedWorld}
    (invariant : world.shared.Invariant) (stepped : world.shareStep action = .next after)
    (isTurn : action = .finish index ∨ action = .continue index ∨
      ∃ size, action = .allocate index size) :
    ∃ stage turn, world.shared.allocators[index]? = some stage ∧ Move world.space stage turn ∧
      after = AgedWorld.afterTurn
        { world with shared :=
          { space := turn.space, allocators := world.shared.allocators.set index turn.stage } }
        index turn.ref ∧
      (action = .finish index → world.space.startFinish stage = some turn) ∧
      (action = .continue index → world.space.continueTurn stage = some turn) := by
  obtain ⟨⟨shared, ref⟩, withRef, rest⟩ := Outcome.bind_eq_next.mp stepped
  rcases isTurn with rfl | rfl | ⟨size, rfl⟩
  · obtain ⟨stage, turn, found, taken, rfl, rfl⟩ := turnOf_eq_next withRef
    cases rest
    exact ⟨stage, turn, found, move_of_startFinish taken, rfl, fun _ => taken, by rintro ⟨⟩⟩
  · obtain ⟨stage, turn, found, taken, rfl, rfl⟩ := turnOf_eq_next withRef
    cases rest
    have fits := (invariant.counted.stages stage (List.mem_of_getElem? found)).fits
    exact ⟨stage, turn, found, move_of_continueTurn fits taken, rfl, by rintro ⟨⟩, fun _ => taken⟩
  · simp only [SharedWorld.stepWithRef, Outcome.require_bind_eq_next] at withRef
    obtain ⟨⟨positive, small⟩, withRef⟩ := withRef
    obtain ⟨stage, turn, found, taken, rfl, rfl⟩ := turnOf_eq_next withRef
    cases rest
    exact ⟨stage, turn, found, move_of_startAllocate positive small taken, rfl, by rintro ⟨⟩,
      by rintro ⟨⟩⟩

/-- What takes no turn pages blocks. -/
theorem paging_of_shareStep {action : SharedAction} {after : AgedWorld}
    (stepped : world.shareStep action = .next after)
    (notTurn : ∀ index, action ≠ .finish index ∧ action ≠ .continue index ∧
      ∀ size, action ≠ .allocate index size) :
    ∃ shared ref, world.shared.stepWithRef action = .next (shared, ref) ∧
      after = { world with shared := shared } := by
  obtain ⟨⟨shared, ref⟩, withRef, rest⟩ := Outcome.bind_eq_next.mp stepped
  refine ⟨shared, ref, withRef, ?_⟩
  cases action with
  | allocate index size => exact absurd rfl ((notTurn index).2.2 size)
  | finish index => exact absurd rfl (notTurn index).1
  | «continue» index => exact absurd rfl (notTurn index).2.1
  | _ =>
      cases rest
      rfl

theorem isTurn_or_not (action : SharedAction) :
    (∃ index, action = .finish index ∨ action = .continue index ∨
      ∃ size, action = .allocate index size) ∨
    ∀ index, action ≠ .finish index ∧ action ≠ .continue index ∧
      ∀ size, action ≠ .allocate index size := by
  cases action with
  | allocate index size => exact .inl ⟨index, .inr (.inr ⟨size, rfl⟩)⟩
  | finish index => exact .inl ⟨index, .inl rfl⟩
  | «continue» index => exact .inl ⟨index, .inr (.inl rfl)⟩
  | _ => exact .inr fun _ => ⟨by rintro ⟨⟩, by rintro ⟨⟩, by rintro _ ⟨⟩⟩

theorem afterTurn_shared (world : AgedWorld) (index : ℕ) (ref : Option ℕ) :
    (world.afterTurn index ref).shared = world.shared := by
  unfold AgedWorld.afterTurn AgedWorld.returned
  cases ref with
  | none =>
      dsimp only
      split <;> rfl
  | some address =>
      dsimp only
      split <;> rfl

/-- A mutator's step, or paging. -/
theorem Mutating.shareStep {action : SharedAction} {after : AgedWorld} (mutating : Mutating world)
    (invariant : world.shared.Invariant) (stepped : world.shareStep action = .next after)
    (notFlip : action ≠ .flip) (notFinish : ∀ isMinorGc, action ≠ .finishGc isMinorGc) :
    after.shared.Invariant ∧ Mutating after := by
  rcases isTurn_or_not action with ⟨index, isTurn⟩ | notTurn
  · obtain ⟨stage, turn, found, move, rfl, -, -⟩ := turn_of_shareStep invariant stepped isTurn
    rw [afterTurn_shared]
    exact ⟨invariant.turn found move, mutating.afterTurn invariant found move⟩
  · obtain ⟨shared, ref, withRef, rfl⟩ := paging_of_shareStep stepped notTurn
    exact ⟨invariant.stepWithRef withRef,
      mutating.keep (KeepsFlags.of_step invariant withRef notFlip notFinish)⟩

/-- A trace worker's step, or paging. -/
theorem Collecting.shareStep {action : SharedAction} {after : AgedWorld}
    (collecting : Collecting world) (invariant : world.shared.Invariant)
    (stepped : world.shareStep action = .next after)
    (notFlip : action ≠ .flip) (notFinish : ∀ isMinorGc, action ≠ .finishGc isMinorGc)
    (claimed : ∀ index size, action = .allocate index size → world.isMinorGc = true ∧
      ∃ claim ∈ world.copying, claim.1 = index) :
    after.shared.Invariant ∧ Collecting after := by
  rcases isTurn_or_not action with ⟨index, isTurn⟩ | notTurn
  · obtain ⟨stage, turn, found, move, rfl, finishes, continues⟩ :=
      turn_of_shareStep invariant stepped isTurn
    rw [afterTurn_shared]
    refine ⟨invariant.turn found move, collecting.afterTurn invariant found move ?_ ?_⟩
    · intro goesOn
      rcases isTurn with isFinish | isContinue | ⟨size, isAllocate⟩
      · obtain ⟨noPending, noRef⟩ := pending_of_startFinish (finishes isFinish)
        simp [noPending, noRef] at goesOn
      · exact collecting.claimed index stage found
          (pending_of_continueTurn (continues isContinue) goesOn)
      · exact (claimed index size isAllocate).2
    · intro isMajor
      have stageEq := (collecting.major isMajor).1 stage (List.mem_of_getElem? found)
      subst stageEq
      rcases isTurn with isFinish | isContinue | ⟨size, isAllocate⟩
      · cases finishes isFinish
        exact ⟨rfl, rfl, rfl⟩
      · cases continues isContinue
      · rw [(claimed index size isAllocate).1] at isMajor
        cases isMajor
  · obtain ⟨shared, ref, withRef, rfl⟩ := paging_of_shareStep stepped notTurn
    obtain ⟨allocators, partlyFull, full⟩ := paging_same invariant withRef notTurn notFlip notFinish
    refine ⟨invariant.stepWithRef withRef, collecting.keep
      (KeepsFlags.of_step invariant withRef notFlip notFinish) ?_ ?_⟩
    · rw [allocators]
      exact collecting.claimed
    · intro isMajor
      obtain ⟨idle, noPartlyFull, noFull⟩ := collecting.major isMajor
      refine ⟨?_, partlyFull.trans noPartlyFull, full.trans noFull⟩
      unfold SharedWorld.AllIdle
      rw [allocators]
      exact idle

theorem AgedWorld.Invariant.shareStep {action : SharedAction} {after : AgedWorld}
    (invariant : world.Invariant) (stepped : world.shareStep action = .next after)
    (notFlip : action ≠ .flip) (notFinish : ∀ isMinorGc, action ≠ .finishGc isMinorGc)
    (mutates : ∀ index size, action = .allocate index size → world.inGc = false) :
    after.Invariant := by
  rcases invariant.phase with mutating | collecting
  · obtain ⟨shared, after⟩ := mutating.shareStep invariant.shared stepped notFlip notFinish
    exact ⟨shared, .inl after⟩
  · obtain ⟨shared, after⟩ := collecting.shareStep invariant.shared stepped notFlip notFinish (by
      intro index size isAllocate
      have notInGc := mutates index size isAllocate
      rw [collecting.inGc] at notInGc
      cases notInGc)
    exact ⟨shared, .inr after⟩

theorem AgedWorld.Invariant.step {action : AgedAction} {after : AgedWorld}
    (invariant : world.Invariant) (stepped : world.step action = .next after) :
    after.Invariant := by
  cases action with
  | shared action =>
      cases action with
      | flip => cases stepped
      | finishGc isMinorGc => cases stepped
      | allocate index size =>
          simp only [AgedWorld.step, Outcome.require_bind_eq_next] at stepped
          exact invariant.shareStep stepped.2 (by rintro ⟨⟩) (by rintro _ ⟨⟩) fun _ _ _ => stepped.1
      | _ => exact invariant.shareStep stepped (by rintro ⟨⟩) (by rintro _ ⟨⟩) (by rintro _ _ ⟨⟩)
  | startGc isMinorGc =>
      have notTurn : ∀ index, SharedAction.flip ≠ .finish index ∧
          SharedAction.flip ≠ .continue index ∧ ∀ size, SharedAction.flip ≠ .allocate index size :=
        fun _ => ⟨by rintro ⟨⟩, by rintro ⟨⟩, fun _ => (by rintro ⟨⟩)⟩
      obtain ⟨started, flipped, rest⟩ := Outcome.bind_eq_next.mp stepped
      cases rest
      obtain ⟨shared, ref, withRef, rfl⟩ := paging_of_shareStep flipped notTurn
      have kept := invariant.shared.stepWithRef withRef
      simp only [SharedWorld.stepWithRef, Outcome.require_bind_eq_next] at withRef
      obtain ⟨⟨idle, notInGc⟩, withRef⟩ := withRef
      cases withRef
      rcases invariant.phase with mutating | collecting
      · exact ⟨kept, .inr (mutating.flip invariant.shared idle isMinorGc)⟩
      · have inGc := collecting.inGc
        unfold AgedWorld.inGc AgedWorld.space at inGc
        rw [notInGc] at inGc
        cases inGc
  | evacuate index object size =>
      simp only [AgedWorld.step, Outcome.require_bind_eq_next] at stepped
      obtain ⟨⟨inGc, isMinorGc⟩, ⟨member, -⟩, region, -, stepped⟩ := stepped
      rcases invariant.phase with mutating | collecting
      · rw [mutating.notInGc] at inGc
        cases inGc
      · have born_le : object.born ≤ world.collections := by
          rcases collecting.known object member with fromSpace | toSpace
          · exact fromSpace.born_le
          · exact toSpace.born_le
        have claiming : Collecting { world with copying := (index, object) :: world.copying } := by
          refine ⟨collecting.inGc, collecting.flagged, ?_, ?_, ?_, collecting.major⟩
          · exact fun other isOther => collecting.known_with isOther
          · intro claim isClaim
            rcases List.mem_cons.mp isClaim with rfl | old
            · exact born_le
            · exact collecting.born_le claim old
          · intro other stage atOther pending
            obtain ⟨claim, isClaim, ofOther⟩ := collecting.claimed other stage atOther pending
            exact ⟨claim, List.mem_cons_of_mem _ isClaim, ofOther⟩
        obtain ⟨shared, after⟩ := claiming.shareStep invariant.shared stepped (by rintro ⟨⟩)
          (by rintro _ ⟨⟩) (by
          rintro _ _ ⟨⟩
          exact ⟨isMinorGc, _, List.mem_cons_self, rfl⟩)
        exact ⟨shared, .inr after⟩
  | promote object =>
      simp only [AgedWorld.step, Outcome.require_bind_eq_next] at stepped
      obtain ⟨inGc, -, -, stepped⟩ := stepped
      cases stepped
      rcases invariant.phase with mutating | collecting
      · rw [mutating.notInGc] at inGc
        cases inGc
      · refine ⟨invariant.shared, .inr ⟨collecting.inGc, collecting.flagged, ?_,
          collecting.born_le, collecting.claimed, collecting.major⟩⟩
        intro other isOther
        exact collecting.known_with (List.mem_of_mem_erase isOther)
  | finishGc =>
      simp only [AgedWorld.step, Outcome.require_bind_eq_next] at stepped
      obtain ⟨noClaims, stepped⟩ := stepped
      have notTurn : ∀ index, SharedAction.finishGc world.isMinorGc ≠ .finish index ∧
          SharedAction.finishGc world.isMinorGc ≠ .continue index ∧
            ∀ size, SharedAction.finishGc world.isMinorGc ≠ .allocate index size :=
        fun _ => ⟨by rintro ⟨⟩, by rintro ⟨⟩, fun _ => (by rintro ⟨⟩)⟩
      obtain ⟨finished, shareFinish, rest⟩ := Outcome.bind_eq_next.mp stepped
      cases rest
      obtain ⟨shared, ref, withRef, rfl⟩ := paging_of_shareStep shareFinish notTurn
      have kept := invariant.shared.stepWithRef withRef
      simp only [SharedWorld.stepWithRef, Outcome.require_bind_eq_next] at withRef
      obtain ⟨⟨idle, inGc⟩, withRef⟩ := withRef
      cases withRef
      rcases invariant.phase with mutating | collecting
      · have notInGc := mutating.notInGc
        unfold AgedWorld.inGc AgedWorld.space at notInGc
        rw [inGc] at notInGc
        cases notInGc
      · exact ⟨kept, .inl (collecting.finishGc invariant.shared idle noClaims)⟩

theorem reachable_aged (reached : agedSystem.Reachable world) : world.Invariant := by
  apply reached.invariant
  · rintro state ⟨shared, initial, rfl⟩
    have accounts := reachable_accounts (System.ReachableBy.initial initial)
    obtain ⟨size, base, aligned, hasFieldLoggingBits, count, -, rfl⟩ := initial
    refine ⟨accounts, .inl ⟨?_, rfl, ?_, by rintro _ ⟨⟩⟩⟩
    · exact (CopySpace.initLoop_places _ _ (CopySpace.bare _ hasFieldLoggingBits)).2.1
    · intro block inUse
      rcases inUse with listed | ⟨stage, member, held⟩
      · cases listed
      · rw [List.eq_of_mem_replicate member] at held
        cases held
  · intro before action after invariant _ stepped
    exact invariant.step stepped

end Runs

/-- In a collection, an object of the nursery that has not been copied yet is promoted if and only
if it survived an earlier minor collection there, and not if it was allocated since the last one. -/
theorem promotes_survivors (world : AgedWorld) (reached : agedSystem.Reachable world)
    (inGc : world.inGc = true) (object : AgedObject) (member : object ∈ world.objects)
    (notCopied : object.region = !world.space.activeRegion) :
    world.space.shouldPromote object.address = .next (decide (0 < object.survived)) ∧
      (object.born = world.collections →
        world.space.shouldPromote object.address = .next false) := by
  have invariant := reachable_aged reached
  rcases invariant.phase with mutating | collecting
  · rw [mutating.notInGc] at inGc
    cases inGc
  rcases collecting.known object member with fromSpace | toSpace
  · have answer : world.space.shouldPromote object.address =
        .next (decide (0 < object.survived)) := by
      have contains : world.space.containsAddress object.address = true :=
        containsAddress_of_payload invariant.shared.placed fromSpace.member
      have region : copySpaceObjectRegion object.address = !world.space.activeRegion :=
        fromSpace.region_eq
      unfold SharedSpace.shouldPromote
      rw [Outcome.check_bind contains, Outcome.check_bind region]
      exact congrArg Outcome.next fromSpace.flag_eq
    refine ⟨answer, ?_⟩
    intro fresh
    rw [answer, fromSpace.fresh_iff.mpr fresh]
    rfl
  · rw [toSpace.region_eq] at notCopied
    cases region : world.space.activeRegion <;> simp [region] at notCopied

/-- At the start of a second minor collection, the survivor of the first is promoted and an object
allocated in between is not. -/
theorem promotes_survivors_second :
    ∃ world : AgedWorld, world.space.shouldPromote 134021120 = .next true ∧
      world.space.shouldPromote 133890048 = .next false := by
  have start : agedSystem.initial
      { shared := { space := initialSharedSpace 524288 (2 ^ 26) false false
                    allocators := List.replicate 2 .idle }
        objects := [], copying := [], isMinorGc := false, collections := 0 } :=
    ⟨_, ⟨524288, 2 ^ 26, false, false, 2, by decide, rfl⟩, rfl⟩
  have leads : (System.runBy agedSystem.step (fun _ _ => True)
      { shared := { space := initialSharedSpace 524288 (2 ^ 26) false false
                    allocators := List.replicate 2 .idle }
        objects := [], copying := [], isMinorGc := false, collections := 0 }
      [.shared (.allocate 0 100), .shared (.continue 0), .shared (.continue 0),
        .shared (.finish 0), .shared (.continue 0), .startGc true,
        .evacuate 0 { address := 134086656, born := 0, survived := 0 } 100,
        .shared (.continue 0), .shared (.continue 0), .shared (.finish 0), .shared (.continue 0),
        .finishGc,
        .shared (.allocate 1 100), .shared (.continue 1), .shared (.continue 1),
        .shared (.finish 1), .shared (.continue 1), .startGc true]).leadsTo (fun world =>
          world.inGc && !world.space.activeRegion && decide (world.objects =
            [{ address := 133890048, born := 1, survived := 0 },
              { address := 134021120, born := 0, survived := 1 }])) = true := by
    decide +kernel
  obtain ⟨world, ran, tested⟩ := Outcome.exists_next_of_leadsTo leads
  simp only [Bool.and_eq_true, Bool.not_eq_true', decide_eq_true_eq] at tested
  obtain ⟨⟨inGc, activeRegion⟩, objects⟩ := tested
  have reached := System.ReachableBy.of_runBy agedSystem (fun _ _ => True) (fun _ _ => id)
    (.initial start) _ ran
  have region (object : AgedObject) (inOther : object.region = true) :
      object.region = !world.space.activeRegion := by
    rw [inOther, activeRegion]
    rfl
  refine ⟨world, ?_, ?_⟩
  · exact (promotes_survivors world reached inGc
      { address := 134021120, born := 0, survived := 1 } (by rw [objects]; simp)
      (region _ (by decide))).1
  · exact (promotes_survivors world reached inGc
      { address := 133890048, born := 1, survived := 0 } (by rw [objects]; simp)
      (region _ (by decide))).1

end Whippet.Pcc
