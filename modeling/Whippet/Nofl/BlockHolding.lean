import Whippet.Nofl.BlockLife
import Whippet.Nofl.SweptBlock

/-!
What holds of a block under the allocators that hold it.

While an allocator has the block, `fragmentation_granules` counts the free granules before the
allocation pointer; on the list of partly full blocks it is the size of the hole at the end.

Owns: which granules are free, the invariant of the block, and what acquiring, sweeping, allocating,
releasing, the writes of others and collections do to it.
-/

namespace Whippet.Nofl

open Function

/-! ## Metadata that a sweep cannot tell apart -/

section SameBits

variable {bytes other : ℕ → Byte} {mark : Byte} {start granules index block : ℕ}

/-- The bytes have the same marks and end bits. -/
def SameSweepBits (bytes other : ℕ → Byte) : Prop :=
  ∀ index, bytes index &&& BlockLife.sweepBits = other index &&& BlockLife.sweepBits

theorem SameSweepBits.symm (same : SameSweepBits bytes other) : SameSweepBits other bytes :=
  fun index => (same index).symm

theorem SameSweepBits.markOf (same : SameSweepBits bytes other) (index : ℕ) :
    markOf (bytes index) = markOf (other index) := by
  have read (byte : Byte) : Nofl.markOf byte = byte &&& BlockLife.sweepBits &&&
      NOFL_METADATA_BYTE_MARK_MASK := by
    rw [BitVec.and_assoc]
    rfl
  rw [read, same, ← read]

theorem SameSweepBits.ends (same : SameSweepBits bytes other) (index : ℕ) :
    bytes index &&& NOFL_METADATA_BYTE_END = other index &&& NOFL_METADATA_BYTE_END := by
  have read (byte : Byte) : byte &&& NOFL_METADATA_BYTE_END = byte &&& BlockLife.sweepBits &&&
      NOFL_METADATA_BYTE_END := by
    rw [BitVec.and_assoc]
    rfl
  rw [read, same, ← read]

theorem IsObject.congr (object : IsObject bytes start granules) (same : SameSweepBits bytes other) :
    IsObject other start granules := by
  refine ⟨object.positive, object.inBlock, ?_, ?_, ?_, ?_⟩
  · rw [← same.markOf]
    exact object.marked
  · intro index after before
    rw [← same.markOf]
    exact object.unmarked index after before
  · rw [← same.ends]
    exact object.ends
  · intro index after before
    rw [← same.ends]
    exact object.goesOn index after before

theorem WellFormed.congr (wellFormed : WellFormed bytes) (same : SameSweepBits bytes other) :
    WellFormed other := by
  constructor
  · intro index inside marked
    rw [← same.markOf] at marked
    obtain ⟨granules, object⟩ := wellFormed.starts index inside marked
    exact ⟨granules, object.congr same⟩
  · intro index inside ended
    rw [← same.ends] at ended
    obtain ⟨start, granules, object, isEnd⟩ := wellFormed.ended index inside ended
    exact ⟨start, granules, object.congr same, isEnd⟩

theorem Survives.congr (survives : Survives bytes mark index) (same : SameSweepBits bytes other) :
    Survives other mark index := by
  obtain ⟨start, granules, object, marked, within⟩ := survives
  exact ⟨start, granules, object.congr same, (same.markOf start).symm.trans marked, within⟩

theorem IsBoundary.congr (boundary : IsBoundary bytes mark index)
    (same : SameSweepBits bytes other) : IsBoundary other mark index := by
  intro start granules object marked
  exact boundary start granules (object.congr same.symm) ((same.markOf start).trans marked)

theorem StopsAt.congr (stopped : StopsAt bytes mark index) (same : SameSweepBits bytes other) :
    StopsAt other mark index := by
  rw [StopsAt, ← same.markOf]
  exact stopped

theorem IsSweepable.congr (sweepable : IsSweepable bytes block mark)
    (same : SameSweepBits bytes other) : IsSweepable other block mark :=
  { sweepable with wellFormed := sweepable.wellFormed.congr same }

theorem isBoundary_last : IsBoundary bytes mark NOFL_GRANULES_PER_BLOCK :=
  fun _ _ object _ => .inl object.inBlock

/-- Nothing survives in a block without marks. -/
theorem not_survives_clear : ¬Survives (fun _ => 0) mark index := by
  rintro ⟨start, granules, object, -⟩
  exact object.marked rfl

theorem wellFormed_clear : WellFormed fun _ => 0 :=
  ⟨fun _ _ marked => absurd rfl marked, fun _ _ ended => absurd rfl ended⟩

end SameBits

/-! ## Free granules -/

namespace BlockLife

section Free

variable (life : BlockLife)

/-- No survivor has the granule, and it was not handed out. -/
def IsFree (index : ℕ) : Prop :=
  ¬Survives life.bytes life.survivorMark index ∧ index ∉ life.handedOut

open Classical in
/-- The number of free granules of the block before a granule. -/
noncomputable def freeBefore (index : ℕ) : ℕ := Nat.count life.IsFree index

noncomputable def freeGranules : ℕ := life.freeBefore NOFL_GRANULES_PER_BLOCK

variable {life} {other : BlockLife} {first index : ℕ}

theorem freeBefore_of_free (notAfter : first ≤ index)
    (free : ∀ place, first ≤ place → place < index → life.IsFree place) :
    life.freeBefore index = life.freeBefore first + (index - first) := by
  classical
  obtain ⟨more, rfl⟩ := Nat.exists_eq_add_of_le notAfter
  have all : Nat.count (fun place => life.IsFree (first + place)) more = more := by
    rw [Nat.count_iff_forall]
    intro place before
    exact free _ (Nat.le_add_right _ _) (by omega)
  rw [freeBefore, freeBefore, Nat.count_add, all, Nat.add_sub_cancel_left]

theorem freeBefore_of_not_free (notAfter : first ≤ index)
    (taken : ∀ place, first ≤ place → place < index → ¬life.IsFree place) :
    life.freeBefore index = life.freeBefore first := by
  classical
  obtain ⟨more, rfl⟩ := Nat.exists_eq_add_of_le notAfter
  have none : Nat.count (fun place => life.IsFree (first + place)) more = 0 := by
    rw [Nat.count_iff_forall_not]
    intro place before
    exact taken _ (Nat.le_add_right _ _) (by omega)
  rw [freeBefore, freeBefore, Nat.count_add, none, Nat.add_zero]

theorem freeBefore_congr (same : ∀ place < index, life.IsFree place ↔ other.IsFree place) :
    life.freeBefore index = other.freeBefore index := by
  induction index with
  | zero => rw [freeBefore, freeBefore, Nat.count_zero, Nat.count_zero]
  | succ index inductionHypothesis =>
      have before := inductionHypothesis fun place inside => same place (by omega)
      have here := same index (Nat.lt_succ_self _)
      simp only [freeBefore, Nat.count_succ] at before ⊢
      rw [before]
      by_cases free : life.IsFree index
      · rw [if_pos free, if_pos (here.mp free)]
      · rw [if_neg free, if_neg (mt here.mpr free)]

end Free

/-! ## A block with an allocator -/

/-- An allocator has the block. It allocates at the granule `first`; the block is swept up to the
granule `index`. -/
structure Holding (life : BlockLife) (first index : ℕ) : Prop where
  stands : life.sweeper.StandsAt life.bytes life.sweeper.block life.survivorMark index
  stops : StopsAt life.bytes life.survivorMark index
  alloc : life.sweeper.alloc = life.sweeper.block + first * NOFL_GRANULE_SIZE
  notAfter : first ≤ index
  rest : ∀ place, first ≤ place → place < index → ¬Survives life.bytes life.survivorMark place
  handed : ∀ place ∈ life.handedOut, place < first
  counted : life.sweeper.summary.fragmentationGranules = life.freeBefore first
  unfragmented : life.sweeper.summary.holesWithFragmentation = 0 →
    life.sweeper.summary.fragmentationGranules = 0
  evacuating : life.evacuating = true → life.sweeper.summary.holesWithFragmentation = 0
  clear : ∀ addr, life.sweeper.alloc ≤ addr → addr < life.sweeper.sweep → 8 ∣ addr →
    life.sweeper.words addr = 0

/-- The block is on the list of partly full blocks, with a hole from the granule `first` on. -/
structure Parked (life : BlockLife) (first : ℕ) : Prop where
  notAfter : first ≤ NOFL_GRANULES_PER_BLOCK
  counted : life.sweeper.summary.fragmentationGranules = NOFL_GRANULES_PER_BLOCK - first
  unfragmented : life.sweeper.summary.holesWithFragmentation = 0
  rest : ∀ place, first ≤ place → place < NOFL_GRANULES_PER_BLOCK →
    ¬Survives life.bytes life.survivorMark place
  handed : ∀ place ∈ life.handedOut, place < first
  noneFree : life.freeBefore first = 0
  room : life.sweeper.summary.holeGranules ≤ NOFL_GRANULES_PER_BLOCK
  clear : ∀ addr, life.sweeper.block + first * NOFL_GRANULE_SIZE ≤ addr → addr < life.limit →
    8 ∣ addr → life.sweeper.words addr = 0
  released : life.released = (life.sweeper.block + first * NOFL_GRANULE_SIZE, life.limit)

/-- What holds of the block where it is. -/
def PlaceInvariant (life : BlockLife) : BlockPlace → Prop
  | .toSweep => ∀ index < NOFL_GRANULES_PER_BLOCK,
      blockBytes life.sweeper.metadata life.sweeper.block index = life.bytes index
  | .empty => life.bytes = (fun _ => 0) ∧ (life.sweeper.summary.zero = true →
      ∀ addr, life.sweeper.block ≤ addr → addr < life.limit → life.sweeper.words addr = 0)
  | .held => ∃ first index, life.Holding first index
  | .partlyFull => ∃ first, life.Parked first
  | .full | .promoted | .old => True

structure Invariant (life : BlockLife) : Prop where
  sweepable : IsSweepable life.bytes life.sweeper.block life.survivorMark
  ofPlace : life.PlaceInvariant life.place

theorem Invariant.of_place {life : BlockLife} {place : BlockPlace}
    (sweepable : IsSweepable life.bytes life.sweeper.block life.survivorMark)
    (isPlace : life.place = place) (ofPlace : life.PlaceInvariant place) : life.Invariant := by
  refine ⟨sweepable, ?_⟩
  rw [isPlace]
  exact ofPlace

theorem Invariant.at_place {life : BlockLife} {place : BlockPlace} (invariant : life.Invariant)
    (isPlace : life.place = place) : life.PlaceInvariant place := by
  rw [← isPlace]
  exact invariant.ofPlace

/-- The same block, with the same survivors. -/
structure SameBytes (life after : BlockLife) : Prop where
  block : after.sweeper.block = life.sweeper.block
  bytes : after.bytes = life.bytes
  survivorMark : after.survivorMark = life.survivorMark

theorem Invariant.sameBytes {life after : BlockLife} (invariant : life.Invariant)
    (same : SameBytes life after) :
    IsSweepable after.bytes after.sweeper.block after.survivorMark := by
  rw [same.block, same.bytes, same.survivorMark]
  exact invariant.sweepable

section Steps

variable {life after : BlockLife} {first index : ℕ}

theorem limit_eq : life.limit =
    life.sweeper.block + NOFL_GRANULES_PER_BLOCK * NOFL_GRANULE_SIZE := rfl

theorem granuleOf_eq : life.granuleOf (life.sweeper.block + index * NOFL_GRANULE_SIZE) = index := by
  rw [granuleOf, Nat.add_sub_cancel_left]
  exact Nat.mul_div_cancel _ (by decide)

/-- The rest of the hole, in granules. -/
theorem Holding.rest_granules (holding : life.Holding first index) :
    life.sweeper.sweep - life.sweeper.alloc = (index - first) * NOFL_GRANULE_SIZE := by
  rw [holding.stands.sweep, holding.alloc, Nat.add_sub_add_left, Nat.sub_mul]

theorem Holding.isFree (holding : life.Holding first index) {place : ℕ} (notBefore : first ≤ place)
    (before : place < index) : life.IsFree place :=
  ⟨holding.rest place notBefore before, fun handed =>
    absurd (holding.handed place handed) (Nat.not_lt.mpr notBefore)⟩

/-- The hole is a region that is clear. -/
theorem Holding.region (sweepable : IsSweepable life.bytes life.sweeper.block life.survivorMark)
    (holding : life.Holding first index) (less : first < index) :
    GranuleRange.IsRegion ⟨life.sweeper.alloc, index - first⟩ ∧
      GranuleRange.IsClear life.sweeper.words ⟨life.sweeper.alloc, index - first⟩ := by
  have inBlock := holding.stands.inBlock
  have proper := sweepable.proper
  have ends : life.sweeper.sweep =
      life.sweeper.alloc + (index - first) * NOFL_GRANULE_SIZE := by
    have size := holding.rest_granules
    have atAlloc := holding.alloc
    have atSweep := holding.stands.sweep
    simp only [NOFL_GRANULE_SIZE] at *
    omega
  refine ⟨⟨Nat.sub_pos_of_lt less, by change index - first ≤ _; omega, ?_, ?_⟩, ?_⟩
  · change life.sweeper.alloc ≠ 0
    rw [holding.alloc]
    omega
  · change NOFL_GRANULE_SIZE ∣ life.sweeper.alloc
    rw [holding.alloc]
    exact Nat.dvd_add (Nat.dvd_trans (by decide) sweepable.aligned) (Nat.dvd_mul_left _ _)
  · rintro addr ⟨notBefore, before⟩ aligned
    exact holding.clear addr notBefore (by rw [ends]; exact before) aligned

/-- Finishing the hole counts the rest of it. -/
theorem Holding.finishHole
    (sweepable : IsSweepable life.bytes life.sweeper.block life.survivorMark)
    (holding : life.Holding first index) (mutating : life.evacuating = false)
    (collectHoles : Bool) :
    ∃ sweeper, noflAllocatorFinishHole life.sweeper collectHoles = .next sweeper ∧
      sweeper.block = life.sweeper.block ∧
      Holding { life with sweeper := sweeper } index index := by
  have size : (life.sweeper.sweep - life.sweeper.alloc) / NOFL_GRANULE_SIZE = index - first := by
    rw [holding.rest_granules]
    exact Nat.mul_div_cancel _ (by decide)
  rw [noflAllocatorFinishHole, size]
  rcases Nat.eq_or_lt_of_le holding.notAfter with rfl | less
  · rw [Nat.sub_self]
    exact ⟨life.sweeper, rfl, rfl, holding⟩
  · obtain ⟨region, clear⟩ := holding.region sweepable less
    have collected : ∃ words holes,
        collectHole life.sweeper collectHoles (index - first) = .next (words, holes) := by
      rw [collectHole]
      cases collectHoles with
      | false => exact ⟨_, _, rfl⟩
      | true =>
          simp only [if_true]
          rw [noflHolesetPushLocal_eq region clear]
          exact ⟨_, _, rfl⟩
    obtain ⟨words, holes, isCollected⟩ := collected
    have positive : index - first ≠ 0 := by omega
    simp only [ne_eq, positive, not_false_eq_true, if_true]
    rw [isCollected, Outcome.bind_next]
    refine ⟨_, rfl, rfl, ?_⟩
    have atEnd := holding.stands.sweep
    refine
      { stands := { holding.stands with }
        stops := holding.stops
        alloc := atEnd
        notAfter := Nat.le_refl _
        rest := fun place notBefore before => absurd before (Nat.not_lt.mpr notBefore)
        handed := fun place handed => (holding.handed place handed).trans less
        counted := ?_
        unfragmented := fun none => absurd none (Nat.succ_ne_zero _)
        evacuating := fun evacuating => by simp [mutating] at evacuating
        clear := fun addr notBefore before => absurd before (Nat.not_lt.mpr notBefore) }
    have counted := freeBefore_of_free (Nat.le_of_lt less) fun place => holding.isFree
    change life.sweeper.summary.fragmentationGranules + (index - first) = life.freeBefore index
    rw [counted, holding.counted]

/-- The next hole is found, or the block is swept to its end. -/
theorem Holding.nextHole (sweepable : IsSweepable life.bytes life.sweeper.block life.survivorMark)
    (holding : life.Holding index index) :
    (∃ sweeper, noflAllocatorNextHoleInBlock life.sweeper life.survivorMark =
        .next (sweeper, 0) ∧ sweeper.block = life.sweeper.block ∧
      Holding { life with sweeper := sweeper } NOFL_GRANULES_PER_BLOCK NOFL_GRANULES_PER_BLOCK) ∨
    ∃ sweeper granules next, noflAllocatorNextHoleInBlock life.sweeper life.survivorMark =
        .next (sweeper, granules) ∧ granules ≠ 0 ∧ index ≤ next ∧
      sweeper.block = life.sweeper.block ∧
      Holding { life with sweeper := sweeper } next (next + granules) := by
  have finished : life.sweeper.alloc = life.sweeper.sweep :=
    holding.alloc.trans holding.stands.sweep.symm
  have room := holding.stands.room
  rcases nextHole_eq sweepable holding.stands holding.stops finished with
    ⟨survive, boundary, ended⟩ |
    ⟨next, granules, notBefore, run, survive, boundary, endsAt, stopsAfter, taken⟩
  · refine .inl ⟨_, ended, rfl, ?_⟩
    have notBeyond := holding.stands.inBlock
    have counted : life.freeBefore NOFL_GRANULES_PER_BLOCK = life.freeBefore index :=
      freeBefore_of_not_free notBeyond fun place notBefore before free =>
        free.1 (survive place notBefore before)
    exact
      { stands :=
          { isBlock := rfl
            sweep := rfl
            inBlock := Nat.le_refl _
            boundary := boundary
            unswept := fun place notBefore before => absurd before (Nat.not_lt.mpr notBefore)
            room := room.trans notBeyond }
        stops := .inr (.inl rfl)
        alloc := rfl
        notAfter := Nat.le_refl _
        rest := fun place notBefore before => absurd before (Nat.not_lt.mpr notBefore)
        handed := fun place handed => (holding.handed place handed).trans_le notBeyond
        counted := holding.counted.trans counted.symm
        unfragmented := holding.unfragmented
        evacuating := holding.evacuating
        clear := fun addr notBefore before => absurd before (Nat.not_lt.mpr notBefore) }
  · refine .inr ⟨_, granules, next, taken, Nat.ne_of_gt run.positive, notBefore, rfl, ?_⟩
    have counted : life.freeBefore next = life.freeBefore index :=
      freeBefore_of_not_free notBefore fun place notBefore before free =>
        free.1 (survive place notBefore before)
    exact
      { stands :=
          { isBlock := rfl
            sweep := by rw [Nat.add_mul, ← Nat.add_assoc]; rfl
            inBlock := run.inBlock
            boundary := endsAt
            unswept := by
              intro place notBefore before
              have notCleared : ¬(noflMetadataByteForAddr life.sweeper.block + next ≤
                    noflMetadataByteForAddr life.sweeper.block + place ∧
                  noflMetadataByteForAddr life.sweeper.block + place <
                    noflMetadataByteForAddr life.sweeper.block + next + granules) := by omega
              exact (if_neg notCleared).trans (holding.stands.unswept place (by omega) before)
            room := by
              change life.sweeper.summary.holeGranules + granules ≤ next + granules
              omega }
        stops := stopsAfter
        alloc := rfl
        notAfter := Nat.le_add_right _ _
        rest := run.free
        handed := fun place handed => (holding.handed place handed).trans_le notBefore
        counted := holding.counted.trans counted.symm
        unfragmented := holding.unfragmented
        evacuating := holding.evacuating
        clear := fun addr notBefore before _ => if_pos ⟨notBefore, before⟩ }

/-- Each round of the sweep finishes a hole and finds the next one, until the block is swept. -/
theorem Holding.sweepHoles (sweepable : IsSweepable life.bytes life.sweeper.block life.survivorMark)
    (mutating : life.evacuating = false) (collectHoles : Bool) (count : ℕ)
    (holding : life.Holding first index) (enough : NOFL_GRANULES_PER_BLOCK - index < count) :
    ∃ sweeper, Nofl.sweepHoles life.survivorMark collectHoles count life.sweeper = .next sweeper ∧
      sweeper.block = life.sweeper.block ∧
      Holding { life with sweeper := sweeper } NOFL_GRANULES_PER_BLOCK NOFL_GRANULES_PER_BLOCK := by
  induction count generalizing life first index with
  | zero => omega
  | succ count inductionHypothesis =>
      obtain ⟨finished, ran, sameBlock, atEnd⟩ :=
        holding.finishHole sweepable mutating collectHoles
      rw [Nofl.sweepHoles, ran, Outcome.bind_next]
      have sweepableAfter : IsSweepable life.bytes finished.block life.survivorMark := by
        rw [sameBlock]
        exact sweepable
      rcases atEnd.nextHole sweepableAfter with ⟨swept, found, blockKept, whole⟩ |
        ⟨swept, granules, next, found, positive, notBefore, blockKept, more⟩
      · rw [found, Outcome.bind_next]
        exact ⟨swept, rfl, blockKept.trans sameBlock, whole⟩
      · rw [found, Outcome.bind_next]
        simp only [if_neg positive]
        have inBlock := more.stands.inBlock
        have sweepableNext : IsSweepable life.bytes swept.block life.survivorMark := by
          rw [blockKept]
          exact sweepableAfter
        obtain ⟨last, rest, lastBlock, whole⟩ :=
          @inductionHypothesis { life with sweeper := swept } next (next + granules) sweepableNext
            mutating more (by omega)
        exact ⟨last, rest, lastBlock.trans (blockKept.trans sameBlock), whole⟩

/-! ## Acquiring -/

theorem holding_blockToSweep (holes : Holeset)
    (unswept : life.PlaceInvariant .toSweep) (mutating : life.evacuating = false) :
    (life.noflAllocatorAcquireBlockToSweep holes).Holding 0 0 :=
  { stands :=
      { isBlock := rfl
        sweep := by rw [Nat.zero_mul, Nat.add_zero]; rfl
        inBlock := Nat.zero_le _
        boundary := isBoundary_zero
        unswept := fun place _ before => unswept place before
        room := Nat.le_refl _ }
    stops := .inl rfl
    alloc := by rw [Nat.zero_mul, Nat.add_zero]; rfl
    notAfter := Nat.le_refl _
    rest := nofun
    handed := nofun
    counted := by rw [freeBefore, Nat.count_zero]; rfl
    unfragmented := fun _ => rfl
    evacuating := fun evacuating => by
      have contrary : life.evacuating = true := evacuating
      simp [mutating] at contrary
    clear := fun addr notBefore before => absurd before (Nat.not_lt.mpr notBefore) }

/-- The allocator of a partly full block has the pointers it was released with. -/
theorem holding_partlyFullBlock (holes : Holeset) (parked : life.Parked first) :
    ∃ taken, life.noflAllocatorAcquirePartlyFullBlock holes =
        .next (taken, NOFL_GRANULES_PER_BLOCK - first) ∧
      taken.Holding first NOFL_GRANULES_PER_BLOCK ∧
      (taken.sweeper.alloc, taken.sweeper.sweep) = life.released ∧ taken.place = .held ∧
      SameBytes life taken ∧ taken.evacuating = life.evacuating := by
  have notAfter := parked.notAfter
  have atFirst : life.limit - life.sweeper.summary.fragmentationGranules <<<
      NOFL_GRANULE_SIZE_LOG_2 = life.sweeper.block + first * NOFL_GRANULE_SIZE := by
    rw [parked.counted, Nat.shiftLeft_eq, limit_eq]
    simp only [NOFL_GRANULE_SIZE_LOG_2, NOFL_GRANULE_SIZE]
    omega
  rw [noflAllocatorAcquirePartlyFullBlock, Outcome.check_bind parked.unfragmented]
  simp only [atFirst]
  refine ⟨_, congrArg (fun granules => Outcome.next (_, granules)) parked.counted, ?_,
    parked.released.symm, rfl, ⟨rfl, rfl, rfl⟩, rfl⟩
  exact
    { stands :=
        { isBlock := rfl
          sweep := rfl
          inBlock := Nat.le_refl _
          boundary := isBoundary_last
          unswept := fun place notBefore before => absurd before (Nat.not_lt.mpr notBefore)
          room := parked.room }
      stops := .inr (.inl rfl)
      alloc := rfl
      notAfter := notAfter
      rest := parked.rest
      handed := parked.handed
      counted := parked.noneFree.symm
      unfragmented := fun _ => rfl
      evacuating := fun _ => parked.unfragmented
      clear := parked.clear }

/-- An allocator at the start of a block without objects. -/
theorem holding_wholeBlock (noObjects : life.bytes = fun _ => 0) (noneHanded : life.handedOut = ∅)
    (alloc : life.sweeper.alloc = life.sweeper.block) (sweep : life.sweeper.sweep = life.limit)
    (room : life.sweeper.summary.holeGranules ≤ NOFL_GRANULES_PER_BLOCK)
    (noHoles : life.sweeper.summary.holesWithFragmentation = 0)
    (noGranules : life.sweeper.summary.fragmentationGranules = 0)
    (zeros : ∀ addr, life.sweeper.block ≤ addr → addr < life.limit → life.sweeper.words addr = 0) :
    life.Holding 0 NOFL_GRANULES_PER_BLOCK :=
  { stands :=
      { isBlock := rfl
        sweep := sweep
        inBlock := Nat.le_refl _
        boundary := isBoundary_last
        unswept := fun place notBefore before => absurd before (Nat.not_lt.mpr notBefore)
        room := room }
    stops := .inr (.inl rfl)
    alloc := by rw [Nat.zero_mul, Nat.add_zero, alloc]
    notAfter := Nat.zero_le _
    rest := by
      rw [noObjects]
      exact fun _ _ _ => not_survives_clear
    handed := by simp [noneHanded]
    counted := by rw [freeBefore, Nat.count_zero, noGranules]
    unfragmented := fun _ => noGranules
    evacuating := fun _ => noHoles
    clear := fun addr notBefore before _ => zeros addr (alloc ▸ notBefore) (sweep ▸ before) }

theorem holding_emptyBlock (holes : Holeset) (unused : life.PlaceInvariant .empty) :
    (life.noflAllocatorAcquireEmptyBlock holes).Holding 0 NOFL_GRANULES_PER_BLOCK := by
  obtain ⟨noObjects, zeros⟩ := unused
  unfold noflAllocatorAcquireEmptyBlock
  by_cases zero : life.sweeper.summary.zero = true
  · simp only [zero, if_true]
    exact holding_wholeBlock noObjects rfl rfl rfl (Nat.le_refl _) rfl rfl (zeros zero)
  · simp only [zero]
    exact holding_wholeBlock noObjects rfl rfl rfl (Nat.le_refl _) rfl rfl
      fun addr notBefore before => if_pos ⟨notBefore, before⟩

/-! ## Releasing -/

/-- A block that is swept to its end counts its free granules when it is released. -/
theorem Holding.releaseFullBlock
    (holding : life.Holding NOFL_GRANULES_PER_BLOCK NOFL_GRANULES_PER_BLOCK) :
    ∃ place, (place = .promoted ∨ place = .full) ∧ ∃ statistics,
      life.noflAllocatorReleaseFullBlock =
        .next (({ life with statistics := statistics } : BlockLife).releaseTo place) ∧
      life.sweeper.summary.fragmentationGranules = life.freeGranules := by
  rw [noflAllocatorReleaseFullBlock,
    Outcome.check_bind (holding.alloc.trans holding.stands.sweep.symm)]
  refine ⟨_, ?_, _, rfl, holding.counted⟩
  split_ifs
  · exact .inl rfl
  · exact .inr rfl

/-- A block that is released as partly full keeps its hole, and no other granule of it is free. -/
theorem Holding.releasePartlyFullBlock (holding : life.Holding first index)
    (unfragmented : life.sweeper.summary.holesWithFragmentation = 0)
    (ran : life.noflAllocatorReleasePartlyFullBlock = .next after) :
    after.place = .partlyFull ∧ after.Parked first ∧
      after.sweeper.summary.fragmentationGranules = after.freeGranules ∧
      SameBytes life after := by
  rw [noflAllocatorReleasePartlyFullBlock, Outcome.check_bind_eq_next,
    Outcome.check_bind_eq_next, Outcome.check_bind_eq_next] at ran
  obtain ⟨-, atLimit, -, isAfter⟩ := ran
  have room := holding.stands.room
  obtain rfl : index = NOFL_GRANULES_PER_BLOCK := by
    have atSweep := holding.stands.sweep
    rw [atLimit, limit_eq] at atSweep
    simp only [NOFL_GRANULE_SIZE] at atSweep
    omega
  have size : (life.sweeper.sweep - life.sweeper.alloc) / NOFL_GRANULE_SIZE =
      NOFL_GRANULES_PER_BLOCK - first := by
    rw [holding.rest_granules]
    exact Nat.mul_div_cancel _ (by decide)
  have noneFree : life.freeBefore first = 0 :=
    holding.counted.symm.trans (holding.unfragmented unfragmented)
  have free : life.freeGranules = NOFL_GRANULES_PER_BLOCK - first := by
    rw [freeGranules, freeBefore_of_free holding.notAfter fun place => holding.isFree, noneFree,
      Nat.zero_add]
  cases isAfter
  refine ⟨rfl, ?_, size.trans free.symm, ⟨rfl, rfl, rfl⟩⟩
  exact
    { notAfter := holding.notAfter
      counted := size
      unfragmented := unfragmented
      rest := holding.rest
      handed := holding.handed
      noneFree := noneFree
      room := room
      clear := by
        intro addr notBefore before
        apply holding.clear addr
        · rw [holding.alloc]
          exact notBefore
        · rw [atLimit]
          exact before
      released := Prod.ext holding.alloc atLimit }

/-- The rest of the hole of a full evacuation target is free, and it is not counted. -/
theorem Holding.releaseFullEvacuationTarget (holding : life.Holding first index)
    (ran : life.noflAllocatorReleaseFullEvacuationTarget = .next after) :
    after.place = .old ∧ SameBytes life after ∧
      (after.sweeper.summary.fragmentationGranules = after.freeGranules ↔
        ¬life.sweeper.alloc < life.sweeper.sweep) := by
  rw [noflAllocatorReleaseFullEvacuationTarget] at ran
  simp only [Outcome.check_bind_eq_next] at ran
  obtain ⟨-, atLimit, -, -, ran⟩ := ran
  obtain rfl : index = NOFL_GRANULES_PER_BLOCK := by
    have atSweep := holding.stands.sweep
    rw [atLimit, limit_eq] at atSweep
    simp only [NOFL_GRANULE_SIZE] at atSweep
    omega
  have rest := holding.rest_granules
  have free : life.freeGranules = life.freeBefore first + (NOFL_GRANULES_PER_BLOCK - first) :=
    freeBefore_of_free holding.notAfter fun place => holding.isFree
  split_ifs at ran with someLeft
  · cases ran
    refine ⟨rfl, ⟨rfl, rfl, rfl⟩, ?_⟩
    have counted : (life.sweeper.sweep - life.sweeper.alloc) >>> NOFL_GRANULE_SIZE_LOG_2 /
        NOFL_GRANULE_SIZE = (NOFL_GRANULES_PER_BLOCK - first) / NOFL_GRANULE_SIZE := by
      rw [Nat.shiftRight_eq_div_pow, rest]
      exact congrArg (· / _) (Nat.mul_div_cancel _ (by decide))
    change (life.sweeper.sweep - life.sweeper.alloc) >>> NOFL_GRANULE_SIZE_LOG_2 /
      NOFL_GRANULE_SIZE = life.freeGranules ↔ _
    rw [counted, free]
    simp only [NOFL_GRANULE_SIZE] at *
    omega
  · simp only [Outcome.check_bind_eq_next] at ran
    obtain ⟨none, -, isAfter⟩ := ran
    cases isAfter
    refine ⟨rfl, ⟨rfl, rfl, rfl⟩, ?_⟩
    change life.sweeper.summary.fragmentationGranules = life.freeGranules ↔ _
    rw [free, ← holding.counted, none]
    simp only [NOFL_GRANULE_SIZE] at *
    omega

/-! ## Allocating -/

/-- What is handed out comes off the hole. -/
theorem Holding.bump (holding : life.Holding first index) {granules : ℕ}
    (fits : granules * NOFL_GRANULE_SIZE ≤ life.sweeper.sweep - life.sweeper.alloc) :
    (life.bump granules).Holding (first + granules) index := by
  have inHole : first + granules ≤ index := by
    have notAfter := holding.notAfter
    rw [holding.rest_granules] at fits
    simp only [NOFL_GRANULE_SIZE] at fits
    omega
  have alloc : life.sweeper.alloc + granules * NOFL_GRANULE_SIZE =
      life.sweeper.block + (first + granules) * NOFL_GRANULE_SIZE := by
    rw [holding.alloc, Nat.add_assoc, ← Nat.add_mul]
  have handed : (life.bump granules).handedOut =
      life.handedOut ∪ Finset.Ico first (first + granules) := by
    change _ ∪ Finset.Ico (life.granuleOf life.sweeper.alloc)
      (life.granuleOf (life.sweeper.alloc + granules * NOFL_GRANULE_SIZE)) = _
    rw [alloc, holding.alloc, granuleOf_eq, granuleOf_eq]
  have before : (life.bump granules).freeBefore (first + granules) = life.freeBefore first := by
    apply (freeBefore_of_not_free (Nat.le_add_right first granules) _).trans
    · apply freeBefore_congr
      intro place earlier
      rw [IsFree, handed, Finset.mem_union, Finset.mem_Ico]
      apply and_congr_right
      intro _
      have notThere : ¬(first ≤ place ∧ place < first + granules) := by omega
      rw [or_iff_left notThere]
    · intro place notBefore inAllocation free
      apply free.2
      rw [handed, Finset.mem_union, Finset.mem_Ico]
      exact .inr ⟨notBefore, inAllocation⟩
  exact
    { stands := { holding.stands with }
      stops := holding.stops
      alloc := alloc
      notAfter := inHole
      rest := fun place notBefore => holding.rest place (by omega)
      handed := by
        intro place isHanded
        rw [handed, Finset.mem_union, Finset.mem_Ico] at isHanded
        rcases isHanded with old | new
        · exact (holding.handed place old).trans_le (Nat.le_add_right _ _)
        · exact new.2
      counted := holding.counted.trans before.symm
      unfragmented := holding.unfragmented
      evacuating := holding.evacuating
      clear := fun addr notBefore => holding.clear addr (le_of_add_le_left notBefore) }

/-- A sweep does not read the metadata of what is swept. -/
theorem Holding.setMetadata (holding : life.Holding first index) {metadata : ℕ → Byte}
    (same : ∀ place, index ≤ place → place < NOFL_GRANULES_PER_BLOCK →
      blockBytes metadata life.sweeper.block place =
        blockBytes life.sweeper.metadata life.sweeper.block place) :
    Holding { life with sweeper := { life.sweeper with metadata := metadata } } first index :=
  { holding with
    stands :=
      { holding.stands with
        unswept := fun place notBefore before =>
          (same place notBefore before).trans (holding.stands.unswept place notBefore before) } }

/-- The metadata of an allocation is inside the allocation. -/
theorem gcUpdateAllocTable_of_outside {metadata : ℕ → Byte} {addr granules byte : ℕ}
    {beginPattern : Byte} (positive : 0 < granules)
    (outside : noflMetadataByteForAddr addr + granules ≤ byte) :
    gcUpdateAllocTable metadata addr granules beginPattern byte = metadata byte := by
  unfold gcUpdateAllocTable
  split_ifs with single
  · apply update_of_ne
    omega
  · rw [update_of_ne (by omega), update_of_ne (by omega)]

theorem Holding.allocate (sweepable : IsSweepable life.bytes life.sweeper.block life.survivorMark)
    (holding : life.Holding first index) {granules : ℕ} {beginPattern : Byte}
    (positive : 0 < granules)
    (ran : life.noflAllocateBumpPointer granules beginPattern = .next after) :
    after.Holding (first + granules) index ∧ after.place = life.place ∧ SameBytes life after := by
  rw [noflAllocateBumpPointer, Outcome.check_bind_eq_next] at ran
  obtain ⟨fits, isAfter⟩ := ran
  cases isAfter
  have bumped := holding.bump fits
  refine ⟨bumped.setMetadata ?_, rfl, ⟨rfl, rfl, rfl⟩⟩
  intro place notBefore _
  apply gcUpdateAllocTable_of_outside positive
  have inHole := bumped.notAfter
  have inBlock := holding.stands.inBlock
  rw [holding.alloc, noflMetadataByteForAddr_add sweepable.aligned (by omega)]
  change _ ≤ noflMetadataByteForAddr life.sweeper.block + place
  omega

/-! ## What others write -/

theorem sameSweepBits_update {byte : Byte}
    (same : byte &&& sweepBits = life.bytes index &&& sweepBits) :
    SameSweepBits life.bytes (update life.bytes index byte) := by
  intro place
  by_cases here : place = index
  · rw [here, update_self, same]
  · rw [update_of_ne here]

theorem blockBytes_update {metadata : ℕ → Byte} {byte : Byte} {block place : ℕ} :
    blockBytes (update metadata (noflMetadataByteForAddr block + index) byte) block place =
      update (blockBytes metadata block) index byte place := by
  by_cases here : place = index
  · rw [here, update_self]
    exact update_self _ _ _
  · rw [update_of_ne here]
    exact update_of_ne (by omega) _ _

/-- Other bits of metadata do not change what survives. -/
theorem isFree_setBytes {bytes : ℕ → Byte} (same : SameSweepBits life.bytes bytes) (place : ℕ) :
    life.IsFree place ↔ IsFree { life with bytes := bytes } place := by
  apply and_congr_left
  intro _
  exact not_congr ⟨fun survives => survives.congr same, fun survives => survives.congr same.symm⟩

theorem Holding.setByte (holding : life.Holding first index) {place : ℕ} {byte : Byte}
    (isHeld : life.place = .held)
    (same : life.unsweptFrom ≤ place → byte &&& sweepBits = life.bytes place &&& sweepBits) :
    (life.setByte place byte).Holding first index := by
  have unsweptFrom : life.unsweptFrom = index := by
    rw [BlockLife.unsweptFrom, isHeld]
    simp only []
    rw [holding.stands.sweep, granuleOf_eq]
  rw [unsweptFrom] at same
  unfold BlockLife.setByte
  rw [unsweptFrom]
  by_cases unswept : index ≤ place
  · rw [if_pos unswept]
    have sameBits := sameSweepBits_update (same unswept)
    exact
      { stands :=
          { isBlock := rfl
            sweep := holding.stands.sweep
            inBlock := holding.stands.inBlock
            boundary := holding.stands.boundary.congr sameBits
            unswept := by
              intro other notBefore before
              have old := holding.stands.unswept other notBefore before
              apply blockBytes_update.trans
              by_cases here : other = place
              · rw [here, update_self]
                exact (update_self place byte life.bytes).symm
              · rw [update_of_ne here, old]
                exact (update_of_ne here byte life.bytes).symm
            room := holding.stands.room }
        stops := holding.stops.congr sameBits
        alloc := holding.alloc
        notAfter := holding.notAfter
        rest := fun other notBefore before survives =>
          holding.rest other notBefore before (survives.congr sameBits.symm)
        handed := holding.handed
        counted := holding.counted.trans
          (freeBefore_congr fun other _ => isFree_setBytes sameBits other)
        unfragmented := holding.unfragmented
        evacuating := holding.evacuating
        clear := holding.clear }
  · rw [if_neg unswept]
    apply holding.setMetadata
    intro other notBefore _
    rw [blockBytes_update, update_of_ne (by omega)]

/-- A write to the metadata keeps the invariant. -/
theorem Invariant.setByte (invariant : life.Invariant) {place : ℕ} {byte : Byte}
    (inBlock : place < NOFL_GRANULES_PER_BLOCK)
    (same : life.unsweptFrom ≤ place → byte &&& sweepBits = life.bytes place &&& sweepBits) :
    (life.setByte place byte).Invariant := by
  obtain ⟨sweepable, ofPlace⟩ := invariant
  have samePlace : (life.setByte place byte).place = life.place := rfl
  have sweepableAfter : IsSweepable (life.setByte place byte).bytes life.sweeper.block
      life.survivorMark := by
    by_cases unswept : life.unsweptFrom ≤ place
    · have isUpdate : (life.setByte place byte).bytes = update life.bytes place byte :=
        if_pos unswept
      rw [isUpdate]
      exact sweepable.congr (sameSweepBits_update (same unswept))
    · have isSame : (life.setByte place byte).bytes = life.bytes := if_neg unswept
      rw [isSame]
      exact sweepable
  refine ⟨sweepableAfter, ?_⟩
  rw [samePlace]
  have swept (notToSweep : life.place ≠ .toSweep) (notHeld : life.place ≠ .held) :
      (life.setByte place byte).bytes = life.bytes := by
    apply if_neg
    rw [unsweptFrom]
    cases isPlace : life.place with
    | toSweep => exact absurd isPlace notToSweep
    | held => exact absurd isPlace notHeld
    | empty => simp only []; omega
    | partlyFull => simp only []; omega
    | full => simp only []; omega
    | promoted => simp only []; omega
    | old => simp only []; omega
  cases isPlace : life.place with
  | toSweep =>
      rw [isPlace] at ofPlace
      have isUpdate : (life.setByte place byte).bytes = update life.bytes place byte := by
        apply if_pos
        rw [unsweptFrom, isPlace]
        exact Nat.zero_le _
      intro index inside
      rw [isUpdate]
      apply blockBytes_update.trans
      by_cases here : index = place
      · rw [here, update_self, update_self]
      · rw [update_of_ne here, update_of_ne here]
        exact ofPlace index inside
  | empty =>
      rw [isPlace] at ofPlace
      refine ⟨?_, ofPlace.2⟩
      rw [swept (by rw [isPlace]; nofun) (by rw [isPlace]; nofun)]
      exact ofPlace.1
  | held =>
      rw [isPlace] at ofPlace
      obtain ⟨first, index, holding⟩ := ofPlace
      exact ⟨first, index, holding.setByte isPlace same⟩
  | partlyFull =>
      rw [isPlace] at ofPlace
      obtain ⟨first, parked⟩ := ofPlace
      have sameBytes := swept (by rw [isPlace]; nofun) (by rw [isPlace]; nofun)
      have sameFree (other : ℕ) (_ : other < first) :
          (life.setByte place byte).IsFree other ↔ life.IsFree other := by
        rw [IsFree, sameBytes]
        rfl
      refine ⟨first, ?_⟩
      exact
        { parked with
          rest := by
            rw [sameBytes]
            exact parked.rest
          noneFree := (freeBefore_congr sameFree).trans parked.noneFree }
  | full => trivial
  | promoted => trivial
  | old => trivial

/-- Nobody writes into the hole. -/
theorem Invariant.setWord (invariant : life.Invariant) {addr value : ℕ}
    (outside : addr < life.untouchable.1 ∨ life.untouchable.2 ≤ addr) :
    (life.setWord addr value).Invariant := by
  obtain ⟨sweepable, ofPlace⟩ := invariant
  refine ⟨sweepable, ?_⟩
  change (life.setWord addr value).PlaceInvariant life.place
  have kept {start finish : ℕ} (untouched : addr < start ∨ finish ≤ addr) {other : ℕ}
      (notBefore : start ≤ other) (before : other < finish) :
      (life.setWord addr value).sweeper.words other = life.sweeper.words other :=
    update_of_ne (by omega) _ _
  unfold untouchable at outside
  cases isPlace : life.place with
  | toSweep =>
      rw [isPlace] at ofPlace
      exact ofPlace
  | empty =>
      rw [isPlace] at ofPlace outside
      refine ⟨ofPlace.1, ?_⟩
      intro zero other notBefore before
      have isZero : life.sweeper.summary.zero = true := zero
      simp only [isZero, if_true] at outside
      exact (kept outside notBefore before).trans (ofPlace.2 zero other notBefore before)
  | held =>
      rw [isPlace] at ofPlace outside
      obtain ⟨first, index, holding⟩ := ofPlace
      refine ⟨first, index, ?_⟩
      exact
        { holding with
          stands := { holding.stands with }
          clear := fun other notBefore before aligned =>
            (kept outside notBefore before).trans (holding.clear other notBefore before aligned) }
  | partlyFull =>
      rw [isPlace] at ofPlace outside
      obtain ⟨first, parked⟩ := ofPlace
      have notAfter := parked.notAfter
      have start : life.limit - life.sweeper.summary.fragmentationGranules * NOFL_GRANULE_SIZE =
          life.sweeper.block + first * NOFL_GRANULE_SIZE := by
        rw [parked.counted, limit_eq]
        simp only [NOFL_GRANULE_SIZE]
        omega
      rw [start] at outside
      refine ⟨first, ?_⟩
      exact
        { parked with
          clear := fun other notBefore before aligned =>
            (kept outside notBefore before).trans (parked.clear other notBefore before aligned) }
  | full => trivial
  | promoted => trivial
  | old => trivial

/-! ## Collections -/

theorem Invariant.setEvacuating (invariant : life.Invariant) (notHeld : life.place ≠ .held)
    (evacuating : Bool) : Invariant { life with evacuating := evacuating } := by
  obtain ⟨sweepable, ofPlace⟩ := invariant
  refine ⟨sweepable, ?_⟩
  change PlaceInvariant _ life.place
  cases isPlace : life.place with
  | held => exact absurd isPlace notHeld
  | toSweep =>
      rw [isPlace] at ofPlace
      exact ofPlace
  | empty =>
      rw [isPlace] at ofPlace
      exact ofPlace
  | partlyFull =>
      rw [isPlace] at ofPlace
      obtain ⟨first, parked⟩ := ofPlace
      exact ⟨first, { parked with }⟩
  | full => trivial
  | promoted => trivial
  | old => trivial

theorem blockBytes_setBytes (bytes : ℕ → Byte) :
    blockBytes (life.setBytes bytes).sweeper.metadata life.sweeper.block = bytes := by
  funext index
  change bytes (noflMetadataByteForAddr life.sweeper.block + index -
    noflMetadataByteForAddr life.sweeper.block) = bytes index
  rw [Nat.add_sub_cancel_left]

theorem Invariant.mark (invariant : life.Invariant) (bytes : MarkedBytes)
    (survivorMark : SurvivorMark) :
    Invariant { life.setBytes bytes.val with
      place := .toSweep, survivorMark := survivorMark.val } := by
  have sweepable : IsSweepable bytes.val life.sweeper.block survivorMark.val :=
    { invariant.sweepable with
      wellFormed := bytes.property
      isMark := survivorMark.property.1
      notZero := survivorMark.property.2 }
  exact .of_place sweepable rfl fun index _ => congrFun (blockBytes_setBytes bytes.val) index

theorem Invariant.reclaim (invariant : life.Invariant) (pagedOut : Bool) :
    (life.reclaim pagedOut).Invariant := by
  have sweepable : IsSweepable (fun _ => 0) life.sweeper.block life.survivorMark :=
    { invariant.sweepable with wellFormed := wellFormed_clear }
  have zeros (isPagedOut : pagedOut = true) (addr : ℕ) (notBefore : life.sweeper.block ≤ addr)
      (before : addr < life.limit) : (life.reclaim pagedOut).sweeper.words addr = 0 := by
    change (if pagedOut = true then clearWords life.sweeper.words life.sweeper.block NOFL_BLOCK_SIZE
      else life.sweeper.words) addr = 0
    rw [if_pos isPagedOut]
    exact if_pos ⟨notBefore, before⟩
  exact .of_place sweepable rfl ⟨rfl, zeros⟩

end Steps

end BlockLife

end Whippet.Nofl
