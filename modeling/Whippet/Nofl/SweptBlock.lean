import Whippet.Nofl.SweepBlock

/-!
What a sweep of a block leaves.

Owns: what holds of a block that is swept up to a granule, that finishing a hole and finding the
next one keep it, and what holds of a block that is swept to its end.
-/

namespace Whippet.Nofl

open Function GranuleRange

/-! ## One step of a sweep -/

/-- Where holes end: the granule is the first of the block, or none of it, or starts a survivor. -/
def StopsAt (bytes : ℕ → Byte) (mark : Byte) (index : ℕ) : Prop :=
  index = 0 ∨ index = NOFL_GRANULES_PER_BLOCK ∨ markOf (bytes index) = mark

/-- A block with well-formed bytes, and the mark of its survivors. -/
structure IsSweepable (bytes : ℕ → Byte) (block : ℕ) (mark : Byte) : Prop where
  proper : block ≠ 0
  aligned : NOFL_BLOCK_SIZE ∣ block
  wellFormed : WellFormed bytes
  isMark : IsMark mark
  notZero : mark ≠ 0

/-- The sweep of a block stands at a granule; the bytes from there on are as they were. -/
structure Sweeper.StandsAt (sweeper : Sweeper) (bytes : ℕ → Byte) (block : ℕ) (mark : Byte)
    (index : ℕ) : Prop where
  isBlock : sweeper.block = block
  sweep : sweeper.sweep = block + index * NOFL_GRANULE_SIZE
  inBlock : index ≤ NOFL_GRANULES_PER_BLOCK
  boundary : IsBoundary bytes mark index
  unswept : ∀ place, index ≤ place → place < NOFL_GRANULES_PER_BLOCK →
    blockBytes sweeper.metadata block place = bytes place
  room : sweeper.summary.holeGranules ≤ index

/-- The sweep has taken a hole that starts at a granule of the block. -/
def Sweeper.withHole (sweeper : Sweeper) (block index granules : ℕ) : Sweeper :=
  { sweeper with
    metadata := clearBytes sweeper.metadata (noflMetadataByteForAddr block + index) granules
    words := clearWords sweeper.words (block + index * NOFL_GRANULE_SIZE)
      (granules * NOFL_GRANULE_SIZE)
    summary := { sweeper.summary with
      holeCount := sweeper.summary.holeCount + 1
      holeGranules := sweeper.summary.holeGranules + granules }
    alloc := block + index * NOFL_GRANULE_SIZE
    sweep := block + index * NOFL_GRANULE_SIZE + granules * NOFL_GRANULE_SIZE
    found := sweeper.found ++ [⟨block + index * NOFL_GRANULE_SIZE, granules⟩] }

theorem Sweeper.found_withHole (sweeper : Sweeper) (block index granules : ℕ) :
    (sweeper.withHole block index granules).found =
      sweeper.found ++ [⟨block + index * NOFL_GRANULE_SIZE, granules⟩] := rfl

section Step

variable {sweeper : Sweeper} {bytes : ℕ → Byte} {mark : Byte} {block index : ℕ}

theorem isTag_mark (isMark : IsMark mark) : Swar.IsTag NOFL_METADATA_BYTE_MARK_MASK mark :=
  ⟨isMark, by decide, by decide, by decide⟩

/-- From a granule that no survivor has, the run of such granules up to the next survivor is a
hole. -/
theorem takeHole_eq (sweepable : IsSweepable bytes block mark) {start : ℕ}
    (stands : sweeper.StandsAt bytes block mark start) (notBefore : start ≤ index)
    (inside : index < NOFL_GRANULES_PER_BLOCK) (boundary : IsBoundary bytes mark index)
    (begins : index = 0 ∨ Survives bytes mark (index - 1))
    (notMarked : markOf (bytes index) ≠ mark) :
    ∃ granules, takeHole sweeper mark (block + index * NOFL_GRANULE_SIZE)
        (NOFL_GRANULES_PER_BLOCK - index) (noflMetadataByteForAddr block + index) =
          .next (sweeper.withHole block index granules, granules) ∧
      IsMaximalRun bytes mark index granules ∧ IsBoundary bytes mark (index + granules) ∧
      StopsAt bytes mark (index + granules) := by
  set base := noflMetadataByteForAddr block with isBase
  have read (offset : ℕ) (inBlock : index + offset < NOFL_GRANULES_PER_BLOCK) :
      sweeper.metadata (base + index + offset) = bytes (index + offset) := by
    rw [Nat.add_assoc]
    exact stands.unswept _ (by omega) inBlock
  have aligned : (base + index + (NOFL_GRANULES_PER_BLOCK - index)) % 8 = 0 := by
    have blockAligned := noflMetadataByteForAddr_mod block
    have same : alignDown block NOFL_BLOCK_SIZE = block := Nat.div_mul_cancel sweepable.aligned
    rw [same, ← isBase] at blockAligned
    have multiple : NOFL_GRANULES_PER_BLOCK % 8 = 0 := by decide
    omega
  obtain ⟨distance, scanned, isFirst⟩ := Swar.scanForByteWithTag_spec (isTag_mark sweepable.isMark)
    sweepable.notZero (.inl aligned : Swar.EndsAt sweeper.metadata
      (fun byte => byte &&& NOFL_METADATA_BYTE_MARK_MASK = mark) (base + index)
      (NOFL_GRANULES_PER_BLOCK - index))
  have fits := isFirst.le_limit
  have noMark (offset : ℕ) (before : offset < distance) : markOf (bytes (index + offset)) ≠
      mark := by
    rw [← read offset (by omega)]
    exact isFirst.before offset before
  have hit (early : distance < NOFL_GRANULES_PER_BLOCK - index) :
      markOf (bytes (index + distance)) = mark := by
    rw [← read distance (by omega)]
    exact isFirst.here early
  have positive : distance ≠ 0 := by
    rintro rfl
    exact notMarked (hit (by omega))
  have room : distance ≤ NOFL_GRANULES_PER_BLOCK - sweeper.summary.holeGranules := by
    have counted := stands.room
    omega
  have atEnd : index + distance = NOFL_GRANULES_PER_BLOCK ∨
      markOf (bytes (index + distance)) = mark := by
    by_cases early : distance < NOFL_GRANULES_PER_BLOCK - index
    · exact .inr (hit early)
    · exact .inl (by omega)
  have free (place : ℕ) (notBefore : index ≤ place) (before : place < index + distance) :
      ¬Survives bytes mark place := boundary.not_survives noMark notBefore before
  have run : IsMaximalRun bytes mark index distance := by
    refine ⟨by omega, by omega, free, begins, ?_⟩
    rcases atEnd with isLast | isMarked
    · exact .inl isLast
    · by_cases isLast : index + distance = NOFL_GRANULES_PER_BLOCK
      · exact .inl isLast
      · obtain ⟨granules, object⟩ := sweepable.wellFormed.starts (index + distance) (by omega)
          (by rw [isMarked]; exact sweepable.notZero)
        have objectPositive := object.positive
        exact .inr (survives_of_object object isMarked (by omega) (by omega))
  rw [takeHole, scanned]
  simp only [Outcome.mapFailure, Outcome.bind_next]
  rw [Outcome.check_bind positive, Outcome.check_bind fits, Outcome.check_bind room]
  exact ⟨distance, rfl, run, boundary.of_not_survives noMark, .inr atEnd⟩

theorem noflMetadataByteForAddr_add (aligned : NOFL_BLOCK_SIZE ∣ block)
    (inside : index < NOFL_GRANULES_PER_BLOCK) :
    noflMetadataByteForAddr (block + index * NOFL_GRANULE_SIZE) =
      noflMetadataByteForAddr block + index := by
  have inBlock : alignDown (block + index * NOFL_GRANULE_SIZE) NOFL_BLOCK_SIZE = block ∧
      (block + index * NOFL_GRANULE_SIZE) % NOFL_BLOCK_SIZE / NOFL_GRANULE_SIZE = index := by
    simp only [alignDown, NOFL_GRANULES_PER_BLOCK, NOFL_BLOCK_SIZE, NOFL_GRANULE_SIZE] at *
    omega
  rw [noflMetadataByteForAddr_eq, inBlock.1, inBlock.2]

/-- The rest of the block survives, or the sweep skips survivors and takes the hole after them. -/
theorem nextHole_eq (sweepable : IsSweepable bytes block mark)
    (stands : sweeper.StandsAt bytes block mark index) (stopped : StopsAt bytes mark index)
    (finished : sweeper.alloc = sweeper.sweep) :
    ((∀ place, index ≤ place → place < NOFL_GRANULES_PER_BLOCK → Survives bytes mark place) ∧
      IsBoundary bytes mark NOFL_GRANULES_PER_BLOCK ∧
      noflAllocatorNextHoleInBlock sweeper mark =
        .next ({ sweeper with
          alloc := block + NOFL_GRANULES_PER_BLOCK * NOFL_GRANULE_SIZE
          sweep := block + NOFL_GRANULES_PER_BLOCK * NOFL_GRANULE_SIZE }, 0)) ∨
    ∃ next granules, index ≤ next ∧ IsMaximalRun bytes mark next granules ∧
      (∀ place, index ≤ place → place < next → Survives bytes mark place) ∧
      IsBoundary bytes mark next ∧ IsBoundary bytes mark (next + granules) ∧
      StopsAt bytes mark (next + granules) ∧
      noflAllocatorNextHoleInBlock sweeper mark =
        .next (sweeper.withHole block next granules, granules) := by
  obtain rfl := stands.isBlock
  have inBlock := stands.inBlock
  have atSweep := stands.sweep
  have wholeBlock : NOFL_BLOCK_SIZE = NOFL_GRANULES_PER_BLOCK * NOFL_GRANULE_SIZE := by decide
  have granule : NOFL_GRANULE_SIZE = 16 := rfl
  rw [noflAllocatorNextHoleInBlock, Outcome.check_bind sweepable.proper,
    Outcome.check_bind finished, ← wholeBlock]
  by_cases atLimit : sweeper.sweep = sweeper.block + NOFL_BLOCK_SIZE
  · rw [if_pos atLimit]
    obtain rfl : index = NOFL_GRANULES_PER_BLOCK := by
      rw [atSweep, wholeBlock, granule] at atLimit
      omega
    refine .inl ⟨fun place notBefore before => by omega, stands.boundary, ?_⟩
    nth_rewrite 2 [← atLimit]
    rw [← finished.trans atLimit]
    rfl
  rw [if_neg atLimit]
  have inside : index < NOFL_GRANULES_PER_BLOCK := by
    rw [atSweep, wholeBlock, granule] at atLimit
    omega
  have aligned : sweeper.sweep % NOFL_GRANULE_SIZE = 0 := by
    rw [atSweep]
    apply Nat.mod_eq_zero_of_dvd
    exact Nat.dvd_add (Nat.dvd_trans (by decide) sweepable.aligned) (Nat.dvd_mul_left _ _)
  have limit : (sweeper.block + NOFL_BLOCK_SIZE - sweeper.sweep) / NOFL_GRANULE_SIZE =
      NOFL_GRANULES_PER_BLOCK - index := by
    rw [atSweep, wholeBlock, granule]
    omega
  obtain ⟨next, skipped, notBefore, notBeyond, boundary, survive, stops⟩ :=
    skipSurvivors_spec sweepable.wellFormed sweepable.notZero sweeper.block
      (NOFL_GRANULES_PER_BLOCK + 1)
      stands.boundary inBlock stands.unswept (by omega)
  rw [Outcome.check_bind aligned, limit, atSweep,
    noflMetadataByteForAddr_add sweepable.aligned inside, skipped, Outcome.bind_next]
  simp only []
  by_cases isLast : NOFL_GRANULES_PER_BLOCK - next = 0
  · obtain rfl : next = NOFL_GRANULES_PER_BLOCK := by omega
    left
    rw [if_pos isLast, ← wholeBlock, Outcome.check_bind rfl]
    exact ⟨survive, boundary, rfl⟩
  · right
    rw [if_neg isLast]
    have nextInside : next < NOFL_GRANULES_PER_BLOCK := by omega
    have begins : next = 0 ∨ Survives bytes mark (next - 1) := by
      by_cases skippedNone : next = index
      · rcases stopped with isZero | isEnd | isMarked
        · exact .inl (skippedNone.trans isZero)
        · omega
        · exact absurd (skippedNone ▸ isMarked) (stops nextInside)
      · exact .inr (survive _ (by omega) (by omega))
    obtain ⟨granules, taken, run, endsAt, stopsAfter⟩ :=
      takeHole_eq sweepable stands notBefore nextInside boundary begins (stops nextInside)
    exact ⟨next, granules, notBefore, run, survive, boundary, endsAt, stopsAfter, taken⟩

end Step

/-! ## What is swept -/

/-- A sweep that starts at the base of a block, with no hole in its summary. -/
structure Sweeper.Starts (start : Sweeper) : Prop where
  proper : start.block ≠ 0
  aligned : NOFL_BLOCK_SIZE ∣ start.block
  alloc : start.alloc = start.block
  sweep : start.sweep = start.block
  holeCount : start.summary.holeCount = 0
  holeGranules : start.summary.holeGranules = 0
  found : start.found = []
  wellFormed : WellFormed (blockBytes start.metadata start.block)

/-- What the words of a hole are: zero, apart from a link and a size if the hole is collected. -/
structure HoleWords (collectHoles : Bool) (words : Words) (hole : GranuleRange) : Prop where
  clear : ∀ addr, hole.Covers addr → 8 ∣ addr →
    (collectHoles = true → addr ≠ hole.addr ∧
      (NOFL_HOLESET_PACKED_GRANULES < hole.granules → addr ≠ granulesOf hole.addr)) →
    words addr = 0
  size : collectHoles = true → NOFL_HOLESET_PACKED_GRANULES < hole.granules →
    words (granulesOf hole.addr) = hole.granules

/-- What the words of a hole are depends on them alone. -/
theorem HoleWords.frame {collectHoles : Bool} {words other : Words} {hole : GranuleRange}
    (holeWords : HoleWords collectHoles words hole)
    (same : ∀ addr, hole.Covers addr → other addr = words addr) :
    HoleWords collectHoles other hole := by
  refine ⟨?_, ?_⟩
  · intro addr covered aligned notHeader
    exact (same addr covered).trans (holeWords.clear addr covered aligned notHeader)
  · intro isCollected large
    have several : 1 < hole.granules := by
      simp only [NOFL_HOLESET_PACKED_GRANULES] at large
      omega
    exact (same _ (covers_granulesOf several)).trans (holeWords.size isCollected large)

open Classical in
/-- The block is swept up to a granule; the words of the holes that are `done` are as they stay. -/
structure SweptTo (start : Sweeper) (mark : Byte) (collectHoles : Bool) (index : ℕ)
    (done : List GranuleRange) (sweeper : Sweeper) : Prop where
  block : sweeper.block = start.block
  sweep : sweeper.sweep = start.block + index * NOFL_GRANULE_SIZE
  inBlock : index ≤ NOFL_GRANULES_PER_BLOCK
  boundary : IsBoundary (blockBytes start.metadata start.block) mark index
  found : ∀ range, range ∈ sweeper.found ↔ ∃ first granules,
    IsMaximalRun (blockBytes start.metadata start.block) mark first granules ∧
      first + granules ≤ index ∧ range = ⟨start.block + first * NOFL_GRANULE_SIZE, granules⟩
  ordered : sweeper.found.Pairwise fun range later =>
    range.addr + range.granules * NOFL_GRANULE_SIZE < later.addr
  metadataCleared : ∀ place < index,
    ¬Survives (blockBytes start.metadata start.block) mark place →
      blockBytes sweeper.metadata start.block place = 0
  metadataKept : ∀ addr, (∀ place < index,
      ¬Survives (blockBytes start.metadata start.block) mark place →
        addr ≠ noflMetadataByteForAddr start.block + place) →
      sweeper.metadata addr = start.metadata addr
  wordsKept : ∀ addr, (∀ range ∈ sweeper.found, ¬range.Covers addr) →
    sweeper.words addr = start.words addr
  holeWords : ∀ range ∈ done, HoleWords collectHoles sweeper.words range
  holes : sweeper.holes = if collectHoles then done.foldl pushedHoles start.holes else start.holes
  holeCount : sweeper.summary.holeCount = sweeper.found.length
  holeGranules : sweeper.summary.holeGranules +
    Nat.count (Survives (blockBytes start.metadata start.block) mark) index = index

/-- The hole that was found last is not finished: it is between `alloc` and `sweep`. -/
structure Sweeper.Pending (sweeper : Sweeper) (done : List GranuleRange) (hole : GranuleRange) :
    Prop where
  found : sweeper.found = done ++ [hole]
  alloc : sweeper.alloc = hole.addr
  sweep : sweeper.sweep = hole.addr + hole.granules * NOFL_GRANULE_SIZE
  clear : IsClear sweeper.words hole

/-- All holes are finished. -/
structure Sweeper.Finished (sweeper : Sweeper) (done : List GranuleRange) : Prop where
  found : sweeper.found = done
  alloc : sweeper.alloc = sweeper.sweep

section Steps

variable {start sweeper : Sweeper} {mark : Byte} {collectHoles : Bool} {index : ℕ}
variable {done : List GranuleRange} {hole : GranuleRange}

theorem sweptTo_start (starts : start.Starts) :
    SweptTo start mark collectHoles 0 [] start ∧ start.Finished [] := by
  refine ⟨?_, starts.found, starts.alloc.trans starts.sweep.symm⟩
  refine
    { block := rfl
      sweep := by rw [starts.sweep, Nat.zero_mul, Nat.add_zero]
      inBlock := Nat.zero_le _
      boundary := isBoundary_zero
      found := ?_
      ordered := by rw [starts.found]; exact .nil
      metadataCleared := nofun
      metadataKept := fun _ _ => rfl
      wordsKept := fun _ _ => rfl
      holeWords := nofun
      holes := by cases collectHoles <;> rfl
      holeCount := by rw [starts.holeCount, starts.found]; rfl
      holeGranules := by rw [starts.holeGranules, Nat.count_zero] }
  intro range
  rw [starts.found]
  refine ⟨nofun, ?_⟩
  rintro ⟨first, granules, run, before, -⟩
  have positive := run.positive
  omega

/-- The holes that were found are regions of the block, apart from each other. -/
theorem SweptTo.isRegion (swept : SweptTo start mark collectHoles index done sweeper)
    (starts : start.Starts) {range : GranuleRange} (isFound : range ∈ sweeper.found) :
    range.IsRegion := by
  obtain ⟨first, granules, run, before, rfl⟩ := (swept.found range).mp isFound
  refine ⟨run.positive, ?_, ?_, ?_⟩
  · have inBlock := swept.inBlock
    exact (Nat.le_add_left _ _).trans (before.trans inBlock)
  · have proper := starts.proper
    intro isZero
    simp only [Nat.add_eq_zero_iff] at isZero
    exact proper isZero.1
  · apply Nat.dvd_add _ (Nat.dvd_mul_left _ _)
    exact Nat.dvd_trans (by decide) starts.aligned

/-- Finishing the hole that was found last writes into it only. -/
theorem finishHole_spec (starts : start.Starts)
    (swept : SweptTo start mark collectHoles index done sweeper)
    (pending : sweeper.Pending done hole) :
    ∃ after, noflAllocatorFinishHole sweeper collectHoles = .next after ∧
      SweptTo start mark collectHoles index (done ++ [hole]) after ∧
      after.Finished (done ++ [hole]) := by
  have isFound : hole ∈ sweeper.found := by
    rw [pending.found]
    exact List.mem_append_right _ List.mem_cons_self
  have region := swept.isRegion starts isFound
  have positive := region.positive
  have sized : (sweeper.sweep - sweeper.alloc) / NOFL_GRANULE_SIZE = hole.granules := by
    rw [pending.sweep, pending.alloc, Nat.add_sub_cancel_left]
    exact Nat.mul_div_cancel _ (by decide)
  have collected : collectHole sweeper collectHoles hole.granules = .next
      (if collectHoles then (pushedWords sweeper.words sweeper.holes hole,
        pushedHoles sweeper.holes hole) else (sweeper.words, sweeper.holes)) := by
    rw [collectHole, pending.alloc]
    cases collectHoles with
    | false => rfl
    | true =>
        simp only [if_true]
        rw [noflHolesetPushLocal_eq region pending.clear]
        rfl
  have apart (range : GranuleRange) (isDone : range ∈ done) : range.Apart hole := by
    have ordered := swept.ordered
    rw [pending.found, List.pairwise_append] at ordered
    exact .inl (Nat.le_of_lt (ordered.2.2 range isDone hole List.mem_cons_self))
  rw [noflAllocatorFinishHole, sized]
  simp only [ne_eq, Nat.ne_of_gt positive, not_false_eq_true, if_true]
  rw [collected, Outcome.bind_next]
  refine ⟨_, rfl, ?_, ?_⟩
  · refine
      { block := swept.block
        sweep := swept.sweep
        inBlock := swept.inBlock
        boundary := swept.boundary
        found := swept.found
        ordered := swept.ordered
        metadataCleared := swept.metadataCleared
        metadataKept := swept.metadataKept
        wordsKept := ?_
        holeWords := ?_
        holes := ?_
        holeCount := swept.holeCount
        holeGranules := swept.holeGranules }
    · intro addr outside
      cases collectHoles with
      | false => exact swept.wordsKept addr outside
      | true =>
          exact (pushedWords_apart region (outside hole isFound)).trans
            (swept.wordsKept addr outside)
    · intro range isDone
      rcases List.mem_append.mp isDone with before | isLast
      · have words := swept.holeWords range before
        cases collectHoles with
        | false => exact words
        | true =>
            apply words.frame
            intro addr covered
            exact pushedWords_apart region ((apart range before).symm.not_covers covered)
      · obtain rfl := List.mem_singleton.mp isLast
        cases collectHoles with
        | false => exact ⟨fun addr covered aligned _ => pending.clear addr covered aligned, nofun⟩
        | true =>
            have isHole :=
              @isHole_pushedWords sweeper.words sweeper.holes range region pending.clear
            refine ⟨?_, fun _ => isHole.size⟩
            intro addr covered aligned notHeader
            by_cases isChain : addr = nextChainOf range.addr
            · rw [isChain]
              exact pushedWords_nextChain region pending.clear
            · apply isHole.clear addr covered aligned _ (notHeader rfl).2
              have startAligned := region.aligned
              have notBefore := covered.1
              have notStart := (notHeader rfl).1
              simp only [NOFL_GRANULE_SIZE] at startAligned
              rw [nextChainOf] at isChain
              rw [granulesOf]
              omega
    · have before := swept.holes
      cases collectHoles with
      | false => exact before
      | true =>
          change pushedHoles sweeper.holes hole =
            List.foldl pushedHoles start.holes (done ++ [hole])
          rw [List.foldl_append, before]
          rfl
  · exact ⟨pending.found, rfl⟩

theorem finishHole_of_finished (finished : sweeper.Finished done) :
    noflAllocatorFinishHole sweeper collectHoles = .next sweeper := by
  have isZero : (sweeper.sweep - sweeper.alloc) / NOFL_GRANULE_SIZE = 0 := by
    rw [finished.alloc, Nat.sub_self, Nat.zero_div]
  rw [noflAllocatorFinishHole, isZero]
  rfl

/-- What a sweep gets to when it skips survivors only. -/
theorem SweptTo.skip (swept : SweptTo start mark collectHoles index done sweeper) {next : ℕ}
    (notBefore : index ≤ next) (inBlock : next ≤ NOFL_GRANULES_PER_BLOCK)
    (boundary : IsBoundary (blockBytes start.metadata start.block) mark next)
    (survive : ∀ place, index ≤ place → place < next →
      Survives (blockBytes start.metadata start.block) mark place)
    (alloc : ℕ) :
    SweptTo start mark collectHoles next done
      { sweeper with alloc := alloc, sweep := start.block + next * NOFL_GRANULE_SIZE } := by
  refine
    { block := swept.block
      sweep := rfl
      inBlock := inBlock
      boundary := boundary
      found := ?_
      ordered := swept.ordered
      metadataCleared := ?_
      metadataKept := ?_
      wordsKept := swept.wordsKept
      holeWords := swept.holeWords
      holes := swept.holes
      holeCount := swept.holeCount
      holeGranules := ?_ }
  · intro range
    rw [swept.found]
    constructor
    · rintro ⟨first, granules, run, before, isRange⟩
      exact ⟨first, granules, run, before.trans notBefore, isRange⟩
    · rintro ⟨first, granules, run, before, isRange⟩
      refine ⟨first, granules, run, ?_, isRange⟩
      by_contra beyond
      have positive := run.positive
      exact run.free (first + granules - 1) (by omega) (by omega)
        (survive _ (by omega) (by omega))
  · intro place before isFree
    by_cases swepped : place < index
    · exact swept.metadataCleared place swepped isFree
    · exact absurd (survive place (by omega) before) isFree
  · intro addr outside
    apply swept.metadataKept
    intro place before isFree
    exact outside place (by omega) isFree
  · classical
    obtain ⟨more, rfl⟩ := Nat.exists_eq_add_of_le notBefore
    have all : Nat.count (fun place => Survives (blockBytes start.metadata start.block) mark
        (index + place)) more = more := by
      rw [Nat.count_iff_forall]
      intro place before
      exact survive _ (by omega) (by omega)
    rw [Nat.count_add, all, ← Nat.add_assoc]
    rw [swept.holeGranules]

/-- What a sweep gets to with a hole that starts where it is. -/
theorem SweptTo.withHole (swept : SweptTo start mark collectHoles index done sweeper)
    (isDone : sweeper.found = done) {granules : ℕ}
    (run : IsMaximalRun (blockBytes start.metadata start.block) mark index granules)
    (boundary : IsBoundary (blockBytes start.metadata start.block) mark (index + granules)) :
    SweptTo start mark collectHoles (index + granules) done
      (sweeper.withHole start.block index granules) := by
  have positive := run.positive
  have before (range : GranuleRange) (isFound : range ∈ sweeper.found) :
      range.addr + range.granules * NOFL_GRANULE_SIZE <
        start.block + index * NOFL_GRANULE_SIZE := by
    obtain ⟨first, length, other, notBeyond, rfl⟩ := (swept.found range).mp isFound
    have notAdjacent : first + length ≠ index := by
      intro adjacent
      rcases other.ends with isLast | survives
      · have inBlock := run.inBlock
        omega
      · rw [adjacent] at survives
        exact run.free index (Nat.le_refl _) (by omega) survives
    simp only [NOFL_GRANULE_SIZE]
    omega
  refine
    { block := swept.block
      sweep := by rw [Nat.add_mul, ← Nat.add_assoc]; rfl
      inBlock := run.inBlock
      boundary := boundary
      found := ?_
      ordered := ?_
      metadataCleared := ?_
      metadataKept := ?_
      wordsKept := ?_
      holeWords := ?_
      holes := swept.holes
      holeCount := by
        rw [Sweeper.found_withHole, List.length_append, ← swept.holeCount]
        rfl
      holeGranules := ?_ }
  · intro range
    rw [Sweeper.found_withHole, List.mem_append, List.mem_singleton, swept.found]
    constructor
    · rintro (⟨first, length, other, notBeyond, isRange⟩ | isNew)
      · exact ⟨first, length, other, notBeyond.trans (Nat.le_add_right _ _), isRange⟩
      · exact ⟨index, granules, run, Nat.le_refl _, isNew⟩
    · rintro ⟨first, length, other, notBeyond, rfl⟩
      by_cases isOld : first + length ≤ index
      · exact .inl ⟨first, length, other, isOld, rfl⟩
      · have otherPositive := other.positive
        have common : index ≤ first + length - 1 ∧ first + length - 1 < index + granules := by
          omega
        obtain ⟨rfl, rfl⟩ := run.unique other common (by omega)
        exact .inr rfl
  · apply List.pairwise_append.mpr ⟨swept.ordered, List.pairwise_singleton _ _, _⟩
    intro range isFound later isNew
    rw [List.mem_singleton.mp isNew]
    exact before range isFound
  · intro place inSwept isFree
    change (if noflMetadataByteForAddr start.block + index ≤
        noflMetadataByteForAddr start.block + place ∧ noflMetadataByteForAddr start.block + place <
        noflMetadataByteForAddr start.block + index + granules then 0
      else blockBytes sweeper.metadata start.block place) = 0
    by_cases isOld : place < index
    · rw [if_neg (by omega)]
      exact swept.metadataCleared place isOld isFree
    · exact if_pos (by omega)
  · intro addr outside
    have notCleared : ¬(noflMetadataByteForAddr start.block + index ≤ addr ∧
        addr < noflMetadataByteForAddr start.block + index + granules) := by
      intro cleared
      apply outside (addr - noflMetadataByteForAddr start.block) (by omega) _ (by omega)
      exact run.free _ (by omega) (by omega)
    apply (if_neg notCleared).trans
    apply swept.metadataKept
    intro place isOld isFree
    exact outside place (by omega) isFree
  · intro addr outside
    have notCleared := outside _ (List.mem_append_right _ List.mem_cons_self)
    apply (if_neg notCleared).trans
    apply swept.wordsKept
    intro range isFound
    exact outside range (List.mem_append_left _ isFound)
  · intro range isOld
    apply (swept.holeWords range isOld).frame
    intro addr covered
    apply if_neg
    have ended := before range (by rwa [isDone])
    have inRange := covered.2
    omega
  · classical
    have none : Nat.count (fun place => Survives (blockBytes start.metadata start.block) mark
        (index + place)) granules = 0 := by
      rw [Nat.count_iff_forall_not]
      intro place inRun
      exact run.free _ (by omega) (by omega)
    have counted := swept.holeGranules
    rw [Nat.count_add, none]
    change sweeper.summary.holeGranules + granules + _ = _
    omega

/-- The sweep of a block stands where it is swept to. -/
theorem SweptTo.standsAt (swept : SweptTo start mark collectHoles index done sweeper) :
    sweeper.StandsAt (blockBytes start.metadata start.block) start.block mark index := by
  refine ⟨swept.block, swept.sweep, swept.inBlock, swept.boundary, ?_, ?_⟩
  · intro place notBefore _
    apply swept.metadataKept
    intro other before _
    omega
  · have counted := swept.holeGranules
    omega

theorem Sweeper.Starts.isSweepable (starts : start.Starts) (isMark : IsMark mark)
    (notZero : mark ≠ 0) :
    IsSweepable (blockBytes start.metadata start.block) start.block mark :=
  ⟨starts.proper, starts.aligned, starts.wellFormed, isMark, notZero⟩

/-- The next hole is found, or the block is swept to its end. -/
theorem nextHole_spec (starts : start.Starts) (isMark : IsMark mark) (notZero : mark ≠ 0)
    (swept : SweptTo start mark collectHoles index done sweeper)
    (stopped : StopsAt (blockBytes start.metadata start.block) mark index)
    (finished : sweeper.Finished done) :
    (∃ after, noflAllocatorNextHoleInBlock sweeper mark = .next (after, 0) ∧
      SweptTo start mark collectHoles NOFL_GRANULES_PER_BLOCK done after ∧ after.Finished done) ∨
    ∃ after granules next hole, noflAllocatorNextHoleInBlock sweeper mark =
        .next (after, granules) ∧ granules ≠ 0 ∧ index < next ∧
      SweptTo start mark collectHoles next done after ∧
      StopsAt (blockBytes start.metadata start.block) mark next ∧ after.Pending done hole := by
  rcases nextHole_eq (starts.isSweepable isMark notZero) swept.standsAt stopped finished.alloc with
    ⟨survive, boundary, ended⟩ |
    ⟨next, granules, notBefore, run, survive, boundary, endsAt, stopsAfter, taken⟩
  · exact .inl ⟨_, ended, swept.skip swept.inBlock (Nat.le_refl _) boundary survive _,
      finished.found, rfl⟩
  · right
    have positive := run.positive
    have inBlock := run.inBlock
    have skipped := swept.skip notBefore (by omega) boundary survive sweeper.alloc
    have after := skipped.withHole finished.found run endsAt
    refine ⟨_, granules, next + granules, ⟨start.block + next * NOFL_GRANULE_SIZE, granules⟩, taken,
      Nat.ne_of_gt positive, by omega, after, stopsAfter, ⟨?_, rfl, rfl, ?_⟩⟩
    · exact congrArg (· ++ _) finished.found
    · rintro addr ⟨notBefore, before⟩ -
      exact if_pos ⟨notBefore, before⟩

/-- Each round of the loop finishes a hole and finds the next one, until the block is swept. -/
theorem sweepHoles_spec (starts : start.Starts) (isMark : IsMark mark) (notZero : mark ≠ 0)
    (count : ℕ) (swept : SweptTo start mark collectHoles index done sweeper)
    (stopped : StopsAt (blockBytes start.metadata start.block) mark index)
    (ready : sweeper.Finished done ∨ ∃ hole, sweeper.Pending done hole)
    (enough : NOFL_GRANULES_PER_BLOCK - index < count) :
    ∃ after, sweepHoles mark collectHoles count sweeper = .next after ∧
      SweptTo start mark collectHoles NOFL_GRANULES_PER_BLOCK after.found after := by
  induction count generalizing index done sweeper with
  | zero => omega
  | succ count inductionHypothesis =>
      obtain ⟨middle, finishedHoles, ran, sweptMiddle, finished⟩ : ∃ middle finishedHoles,
          noflAllocatorFinishHole sweeper collectHoles = .next middle ∧
            SweptTo start mark collectHoles index finishedHoles middle ∧
            middle.Finished finishedHoles := by
        rcases ready with finished | ⟨hole, pending⟩
        · exact ⟨sweeper, done, finishHole_of_finished finished, swept, finished⟩
        · obtain ⟨after, ran, sweptAfter, finished⟩ := finishHole_spec starts swept pending
          exact ⟨after, _, ran, sweptAfter, finished⟩
      rw [sweepHoles, ran, Outcome.bind_next]
      rcases nextHole_spec starts isMark notZero sweptMiddle stopped finished with
        ⟨after, found, sweptAfter, finishedAfter⟩ |
        ⟨after, granules, next, hole, found, positive, progress, sweptAfter, stopsAfter, pending⟩
      · rw [found, Outcome.bind_next]
        refine ⟨after, rfl, ?_⟩
        rw [finishedAfter.found]
        exact sweptAfter
      · rw [found, Outcome.bind_next]
        simp only [if_neg positive]
        have notBeyond := sweptAfter.inBlock
        exact inductionHypothesis sweptAfter stopsAfter (.inr ⟨hole, pending⟩) (by omega)

theorem finishSweepingInBlock_swept (starts : start.Starts) (isMark : IsMark mark)
    (notZero : mark ≠ 0) :
    ∃ after, noflAllocatorFinishSweepingInBlock start mark collectHoles = .next after ∧
      SweptTo start mark collectHoles NOFL_GRANULES_PER_BLOCK after.found after := by
  obtain ⟨swept, finished⟩ := @sweptTo_start start mark collectHoles starts
  exact sweepHoles_spec starts isMark notZero _ swept (.inl rfl) (.inl finished) (by omega)

end Steps

open Classical in
/-- What the sweep of a block leaves. The words of a hole that is collected are zero but for a link
and a size. -/
structure BlockSwept (start : Sweeper) (mark : Byte) (collectHoles : Bool) (after : Sweeper) :
    Prop where
  found : ∀ range, range ∈ after.found ↔ ∃ first granules,
    IsMaximalRun (blockBytes start.metadata start.block) mark first granules ∧
      range = ⟨start.block + first * NOFL_GRANULE_SIZE, granules⟩
  ordered : after.found.Pairwise fun range later =>
    range.addr + range.granules * NOFL_GRANULE_SIZE < later.addr
  metadataCleared : ∀ index < NOFL_GRANULES_PER_BLOCK,
    ¬Survives (blockBytes start.metadata start.block) mark index →
      blockBytes after.metadata start.block index = 0
  wordsCleared : ∀ range ∈ after.found, HoleWords collectHoles after.words range
  metadataKept : ∀ index < NOFL_GRANULES_PER_BLOCK,
    Survives (blockBytes start.metadata start.block) mark index →
      blockBytes after.metadata start.block index = blockBytes start.metadata start.block index
  contentsKept : ∀ index < NOFL_GRANULES_PER_BLOCK,
    Survives (blockBytes start.metadata start.block) mark index →
      ∀ addr, start.block + index * NOFL_GRANULE_SIZE ≤ addr →
        addr < start.block + (index + 1) * NOFL_GRANULE_SIZE →
        after.words addr = start.words addr
  elsewhereKept : ∀ addr, addr < start.block ∨ start.block + NOFL_BLOCK_SIZE ≤ addr →
    after.words addr = start.words addr
  collected : after.holes =
    if collectHoles then after.found.foldl pushedHoles start.holes else start.holes
  holeCount : after.summary.holeCount = after.found.length
  holeGranules : after.summary.holeGranules +
    Nat.count (Survives (blockBytes start.metadata start.block) mark) NOFL_GRANULES_PER_BLOCK =
      NOFL_GRANULES_PER_BLOCK

section Swept

variable {start after : Sweeper} {mark : Byte} {collectHoles : Bool}

theorem SweptTo.blockSwept
    (swept : SweptTo start mark collectHoles NOFL_GRANULES_PER_BLOCK after.found after) :
    BlockSwept start mark collectHoles after := by
  have granule : NOFL_GRANULE_SIZE = 16 := rfl
  have covered_run {range : GranuleRange} {addr : ℕ} (isFound : range ∈ after.found)
      (covered : range.Covers addr) : start.block ≤ addr ∧
      addr < start.block + NOFL_BLOCK_SIZE ∧ ∀ index,
        start.block + index * NOFL_GRANULE_SIZE ≤ addr →
        addr < start.block + (index + 1) * NOFL_GRANULE_SIZE →
        ¬Survives (blockBytes start.metadata start.block) mark index := by
    obtain ⟨first, granules, run, -, rfl⟩ := (swept.found range).mp isFound
    have inBlock := run.inBlock
    have wholeBlock : NOFL_BLOCK_SIZE = NOFL_GRANULES_PER_BLOCK * NOFL_GRANULE_SIZE := by decide
    simp only [GranuleRange.Covers, granule] at covered
    refine ⟨by omega, by rw [wholeBlock, granule]; omega, ?_⟩
    intro index notBefore before
    rw [granule] at notBefore before
    exact run.free index (by omega) (by omega)
  refine
    { found := ?_
      ordered := swept.ordered
      metadataCleared := swept.metadataCleared
      wordsCleared := swept.holeWords
      metadataKept := ?_
      contentsKept := ?_
      elsewhereKept := ?_
      collected := swept.holes
      holeCount := swept.holeCount
      holeGranules := swept.holeGranules }
  · intro range
    rw [swept.found]
    constructor
    · rintro ⟨first, granules, run, -, isRange⟩
      exact ⟨first, granules, run, isRange⟩
    · rintro ⟨first, granules, run, isRange⟩
      exact ⟨first, granules, run, run.inBlock, isRange⟩
  · intro index inside survives
    apply swept.metadataKept
    intro place _ isFree same
    obtain rfl : index = place := Nat.add_left_cancel same
    exact isFree survives
  · intro index inside survives addr notBefore before
    apply swept.wordsKept
    intro range isFound covered
    exact (covered_run isFound covered).2.2 index notBefore before survives
  · intro addr outside
    apply swept.wordsKept
    intro range isFound covered
    have inBlock := covered_run isFound covered
    omega

/-- Sweeping a well-formed block finds the maximal runs of granules that no survivor has, in order,
clears them and keeps the rest. -/
theorem noflAllocatorFinishSweepingInBlock_spec (start : Sweeper) (starts : start.Starts)
    (mark : Byte) (isMark : IsMark mark) (notZero : mark ≠ 0) (collectHoles : Bool) :
    ∃ after, noflAllocatorFinishSweepingInBlock start mark collectHoles = .next after ∧
      BlockSwept start mark collectHoles after := by
  obtain ⟨after, ran, swept⟩ :=
    @finishSweepingInBlock_swept start mark collectHoles starts isMark notZero
  exact ⟨after, ran, swept.blockSwept⟩

/-- The first block of a slab that is not for metadata. -/
def firstPayloadBlock : ℕ := NOFL_META_BLOCKS_PER_SLAB * NOFL_BLOCK_SIZE

/-- An allocator with no holes yet, at the base of a block. -/
def freshSweeper (metadata : ℕ → Byte) : Sweeper where
  block := firstPayloadBlock
  alloc := firstPayloadBlock
  sweep := firstPayloadBlock
  summary := ⟨0, 0, 0, 0, false, false, false, false⟩
  holes := ⟨0, fun _ => 0⟩
  metadata := metadata
  words := fun _ => 0
  found := []

theorem freshSweeper_starts {metadata : ℕ → Byte}
    (wellFormed : WellFormed (blockBytes metadata firstPayloadBlock)) :
    (freshSweeper metadata).Starts :=
  ⟨show firstPayloadBlock ≠ 0 by decide, Nat.dvd_mul_left _ _, rfl, rfl, rfl, rfl, rfl, wellFormed⟩

/-- A block with an object of two granules at its sixth one. -/
def oneSurvivor : ℕ → Byte := fun addr =>
  if addr = 16389 then NOFL_METADATA_BYTE_MARK_0
  else if addr = 16390 then NOFL_METADATA_BYTE_END else 0

theorem oneSurvivor_wellFormed : WellFormed (blockBytes oneSurvivor firstPayloadBlock) := by
  have bytes (index : ℕ) : blockBytes oneSurvivor firstPayloadBlock index =
      if index = 5 then NOFL_METADATA_BYTE_MARK_0
      else if index = 6 then NOFL_METADATA_BYTE_END else 0 := by
    have base : noflMetadataByteForAddr firstPayloadBlock = 16384 := by decide
    rw [blockBytes, oneSurvivor, base]
    simp only [show (16384 + index = 16389) ↔ index = 5 by omega,
      show (16384 + index = 16390) ↔ index = 6 by omega]
  have object : IsObject (blockBytes oneSurvivor firstPayloadBlock) 5 2 := by
    refine ⟨by decide, by decide, ?_, ?_, ?_, ?_⟩
    · rw [bytes]
      decide
    · intro index after before
      obtain rfl : index = 6 := by omega
      rw [bytes]
      decide
    · rw [bytes]
      decide
    · intro index notBefore before
      obtain rfl : index = 5 := by omega
      rw [bytes]
      decide
  constructor
  · intro index _ isMarked
    by_cases isStart : index = 5
    · exact ⟨2, isStart ▸ object⟩
    · exfalso
      apply isMarked
      rw [bytes, if_neg isStart]
      split_ifs <;> decide
  · intro index _ isEnd
    by_cases isLast : index = 6
    · exact ⟨5, 2, object, by omega⟩
    · exfalso
      apply isEnd
      rw [bytes, if_neg isLast]
      split_ifs <;> decide

theorem noflAllocatorFinishSweepingInBlock_one_survivor :
    ∃ after, noflAllocatorFinishSweepingInBlock (freshSweeper oneSurvivor)
        NOFL_METADATA_BYTE_MARK_0 true = .next after ∧
      BlockSwept (freshSweeper oneSurvivor) NOFL_METADATA_BYTE_MARK_0 true after :=
  noflAllocatorFinishSweepingInBlock_spec _ (freshSweeper_starts oneSurvivor_wellFormed) _
    (by decide) (by decide) true

/-- In a block with no object, the hole that is collected has its size in its words. -/
theorem collected_hole_not_zero :
    ∃ start : Sweeper, start.Starts ∧ ∃ after,
      noflAllocatorFinishSweepingInBlock start NOFL_METADATA_BYTE_MARK_0 true = .next after ∧
      ∃ range ∈ after.found, ∃ addr, range.Covers addr ∧ 8 ∣ addr ∧ after.words addr ≠ 0 := by
  have noMark : markOf 0 = 0 := by decide
  have noEnd : (0 : Byte) &&& NOFL_METADATA_BYTE_END = 0 := by decide
  have wellFormed : WellFormed (blockBytes (fun _ => 0) firstPayloadBlock) :=
    ⟨fun _ _ isMarked => absurd noMark isMarked, fun _ _ isEnd => absurd noEnd isEnd⟩
  have starts := freshSweeper_starts wellFormed
  obtain ⟨after, ran, swept⟩ := @finishSweepingInBlock_swept _ NOFL_METADATA_BYTE_MARK_0 true starts
    (by decide) (by decide)
  have nothing (index : ℕ) : ¬Survives (blockBytes (fun _ => 0) firstPayloadBlock)
      NOFL_METADATA_BYTE_MARK_0 index := by
    rintro ⟨first, granules, object, -⟩
    exact object.marked noMark
  have run : IsMaximalRun (blockBytes (fun _ => 0) firstPayloadBlock) NOFL_METADATA_BYTE_MARK_0 0
      NOFL_GRANULES_PER_BLOCK :=
    ⟨by decide, Nat.le_of_eq (Nat.zero_add _), fun index _ _ => nothing index, .inl rfl,
      .inl (Nat.zero_add _)⟩
  have isFound := (swept.found _).mpr ⟨0, NOFL_GRANULES_PER_BLOCK, run, run.inBlock, rfl⟩
  refine ⟨_, starts, after, ran, _, isFound, _, covers_granulesOf (by decide), by decide, ?_⟩
  rw [(swept.holeWords _ isFound).size rfl (by decide)]
  decide

end Swept

end Whippet.Nofl
