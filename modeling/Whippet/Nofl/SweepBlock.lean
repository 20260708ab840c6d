import Mathlib.Data.Nat.Count
import Whippet.Nofl.Holes
import Whippet.Nofl.Objects

/-!
Sweeping a block (`nofl_allocator_finish_sweeping_in_block`).

A sweep goes over the granules of a block from its start. It skips the objects that have the
survivor mark, by their end bits, and looks for the next such mark; what is in between is a hole,
whose metadata and memory it clears.

Owns: finishing a hole, finding the next one, the sweep of a whole block, and that it finds the
maximal runs of granules that no survivor has. Does not own: which blocks are swept and when.
-/

namespace Whippet.Nofl

open Function GranuleRange

/-- What the assertions of the sweep exclude, and those of the scans and of the holeset. A sweep
that subtracts an object from a smaller limit, or that does not end, is excluded too. -/
inductive SweepFailure where
  | noBlock
  | holeNotFinished
  | misaligned
  | limitWraps
  | notAtLimit
  | emptyHole
  | holeTooLong
  | tooManyHoleGranules
  | loopNotDone
  | scan (assertion : Swar.SwarAssertion)
  | holeset (failure : HolesetFailure)
  deriving DecidableEq, Repr

/-- The allocator with its block, the metadata and the words that it sweeps. The program does not
keep the holes that were `found`. -/
structure Sweeper where
  block : ℕ
  alloc : ℕ
  sweep : ℕ
  summary : BlockSummary
  holes : Holeset
  metadata : ℕ → Byte
  words : Words
  found : List GranuleRange

/-- `nofl_holeset_push_local (&alloc->holes, ...)`, if holes are collected. -/
def collectHole (sweeper : Sweeper) (collectHoles : Bool) (granules : ℕ) :
    Outcome SweepFailure (Words × Holeset) :=
  if collectHoles then
    (noflHolesetPushLocal sweeper.words sweeper.holes sweeper.alloc granules).mapFailure .holeset
  else pure (sweeper.words, sweeper.holes)

def noflAllocatorFinishHole (sweeper : Sweeper) (collectHoles : Bool) :
    Outcome SweepFailure Sweeper :=
  let granules := (sweeper.sweep - sweeper.alloc) / NOFL_GRANULE_SIZE
  if granules ≠ 0 then do
    let (words, holes) ← collectHole sweeper collectHoles granules
    return { sweeper with
      words := words
      holes := holes
      summary := { sweeper.summary with
        holesWithFragmentation := sweeper.summary.holesWithFragmentation + 1
        fragmentationGranules := sweeper.summary.fragmentationGranules + granules }
      alloc := sweeper.sweep }
  else return sweeper

/-- The loop that skips survivors, over as many more of them as `objects` says; it ends with the
address, the limit and the metadata byte that come next. -/
def skipSurvivors (memory : ℕ → Byte) (survivorMark : Byte) :
    ℕ → ℕ → ℕ → ℕ → Outcome SweepFailure (ℕ × ℕ × ℕ)
  | 0, _, _, _ => .failed .loopNotDone
  | objects + 1, sweep, limitGranules, metadata =>
      if limitGranules ≠ 0 ∧ noflMetadataByteHasMark (memory metadata) survivorMark then do
        let last ← (Swar.scanForByteWithBits memory metadata SIZE_MAX
          NOFL_METADATA_BYTE_END).mapFailure SweepFailure.scan
        let objectGranules := last + 1
        Outcome.check (objectGranules ≤ limitGranules) .limitWraps
        skipSurvivors memory survivorMark objects (sweep + objectGranules * NOFL_GRANULE_SIZE)
          (limitGranules - objectGranules) (metadata + objectGranules)
      else return (sweep, limitGranules, metadata)

/-- Sets a number of bytes from an address on to zero. -/
def clearBytes (memory : ℕ → Byte) (start count : ℕ) : ℕ → Byte := fun addr =>
  if start ≤ addr ∧ addr < start + count then 0 else memory addr

/-- Sets the words of a number of bytes from an address on to zero. -/
def clearWords (words : Words) (start count : ℕ) : Words := fun addr =>
  if start ≤ addr ∧ addr < start + count then 0 else words addr

/-- `nofl_allocator_next_hole_in_block` from where the survivors are skipped. -/
def takeHole (sweeper : Sweeper) (survivorMark : Byte) (sweep limitGranules metadata : ℕ) :
    Outcome SweepFailure (Sweeper × ℕ) := do
  let holeGranules ← (Swar.scanForByteWithTag sweeper.metadata metadata limitGranules
    NOFL_METADATA_BYTE_MARK_MASK survivorMark).mapFailure SweepFailure.scan
  let freeBytes := holeGranules * NOFL_GRANULE_SIZE
  Outcome.check (holeGranules ≠ 0) .emptyHole
  Outcome.check (holeGranules ≤ limitGranules) .holeTooLong
  let summary := sweeper.summary
  Outcome.check (holeGranules ≤ NOFL_GRANULES_PER_BLOCK - summary.holeGranules)
    .tooManyHoleGranules
  return ({ sweeper with
    metadata := clearBytes sweeper.metadata metadata holeGranules
    words := clearWords sweeper.words sweep freeBytes
    summary := { summary with
      holeCount := summary.holeCount + 1
      holeGranules := summary.holeGranules + holeGranules }
    alloc := sweep
    sweep := sweep + freeBytes
    found := sweeper.found ++ [⟨sweep, holeGranules⟩] }, holeGranules)

def noflAllocatorNextHoleInBlock (sweeper : Sweeper) (survivorMark : Byte) :
    Outcome SweepFailure (Sweeper × ℕ) := do
  Outcome.check (sweeper.block ≠ 0) .noBlock
  Outcome.check (sweeper.alloc = sweeper.sweep) .holeNotFinished
  let limit := sweeper.block + NOFL_BLOCK_SIZE
  if sweeper.sweep = limit then return (sweeper, 0)
  else do
    Outcome.check (sweeper.sweep % NOFL_GRANULE_SIZE = 0) .misaligned
    let (sweep, limitGranules, metadata) ←
      skipSurvivors sweeper.metadata survivorMark (NOFL_GRANULES_PER_BLOCK + 1) sweeper.sweep
        ((limit - sweeper.sweep) / NOFL_GRANULE_SIZE) (noflMetadataByteForAddr sweeper.sweep)
    if limitGranules = 0 then do
      Outcome.check (sweep = limit) .notAtLimit
      return ({ sweeper with alloc := limit, sweep := limit }, 0)
    else takeHole sweeper survivorMark sweep limitGranules metadata

/-- The loop of `nofl_allocator_finish_sweeping_in_block`, for as many more holes as `count`
says. -/
def sweepHoles (survivorMark : Byte) (collectHoles : Bool) :
    ℕ → Sweeper → Outcome SweepFailure Sweeper
  | 0, _ => .failed .loopNotDone
  | count + 1, sweeper => do
      let sweeper ← noflAllocatorFinishHole sweeper collectHoles
      let (sweeper, granules) ← noflAllocatorNextHoleInBlock sweeper survivorMark
      if granules = 0 then return sweeper
      else sweepHoles survivorMark collectHoles count sweeper

def noflAllocatorFinishSweepingInBlock (sweeper : Sweeper) (survivorMark : Byte)
    (collectHoles : Bool) : Outcome SweepFailure Sweeper :=
  sweepHoles survivorMark collectHoles (NOFL_GRANULES_PER_BLOCK + 1) sweeper

/-! ## What survives -/

/-- An object with the survivor mark has the granule. -/
def Survives (bytes : ℕ → Byte) (survivorMark : Byte) (index : ℕ) : Prop :=
  ∃ start granules, IsObject bytes start granules ∧ markOf (bytes start) = survivorMark ∧
    start ≤ index ∧ index < start + granules

/-- A run of granules of the block that no survivor has, and that no longer such run contains. -/
structure IsMaximalRun (bytes : ℕ → Byte) (survivorMark : Byte) (start granules : ℕ) : Prop where
  positive : 0 < granules
  inBlock : start + granules ≤ NOFL_GRANULES_PER_BLOCK
  free : ∀ index, start ≤ index → index < start + granules → ¬Survives bytes survivorMark index
  starts : start = 0 ∨ Survives bytes survivorMark (start - 1)
  ends : start + granules = NOFL_GRANULES_PER_BLOCK ∨
    Survives bytes survivorMark (start + granules)

/-- No survivor has granules on both sides of the boundary before the granule. -/
def IsBoundary (bytes : ℕ → Byte) (survivorMark : Byte) (index : ℕ) : Prop :=
  ∀ start granules, IsObject bytes start granules → markOf (bytes start) = survivorMark →
    start + granules ≤ index ∨ index ≤ start

section Survivors

variable {bytes : ℕ → Byte} {mark : Byte} {start granules index : ℕ}

theorem isBoundary_zero : IsBoundary bytes mark 0 := fun _ _ _ _ => .inr (Nat.zero_le _)

/-- A survivor that is skipped starts and ends at boundaries. -/
theorem IsBoundary.skip (object : IsObject bytes start granules) :
    IsBoundary bytes mark (start + granules) := by
  intro other otherGranules isOther _
  by_contra crosses
  have positive := object.positive
  have otherPositive := isOther.positive
  have inObject : start ≤ start + granules - 1 ∧ start + granules - 1 < start + granules := by omega
  have same := object.unique isOther inObject (by omega)
  omega

/-- From a boundary to the next survivor no granule is one of a survivor. -/
theorem IsBoundary.not_survives (boundary : IsBoundary bytes mark start) {distance : ℕ}
    (none : ∀ offset < distance, markOf (bytes (start + offset)) ≠ mark)
    (notBefore : start ≤ index) (before : index < start + distance) :
    ¬Survives bytes mark index := by
  rintro ⟨other, otherGranules, isOther, isMarked, afterStart, beforeEnd⟩
  rcases boundary other otherGranules isOther isMarked with ended | later
  · omega
  · obtain ⟨offset, rfl⟩ := Nat.exists_eq_add_of_le later
    exact none offset (by omega) isMarked

theorem IsBoundary.of_not_survives (boundary : IsBoundary bytes mark start) {distance : ℕ}
    (none : ∀ offset < distance, markOf (bytes (start + offset)) ≠ mark) :
    IsBoundary bytes mark (start + distance) := by
  intro other otherGranules isOther isMarked
  rcases boundary other otherGranules isOther isMarked with ended | later
  · exact .inl (by omega)
  · right
    by_contra early
    obtain ⟨offset, rfl⟩ := Nat.exists_eq_add_of_le later
    exact none offset (by omega) isMarked

theorem survives_of_object (object : IsObject bytes start granules)
    (isMarked : markOf (bytes start) = mark) (notBefore : start ≤ index)
    (before : index < start + granules) : Survives bytes mark index :=
  ⟨start, granules, object, isMarked, notBefore, before⟩

/-- Maximal runs with a granule in common are the same. -/
theorem IsMaximalRun.unique {other otherGranules : ℕ} (run : IsMaximalRun bytes mark start granules)
    (otherRun : IsMaximalRun bytes mark other otherGranules)
    (inRun : start ≤ index ∧ index < start + granules)
    (inOther : other ≤ index ∧ index < other + otherGranules) :
    start = other ∧ granules = otherGranules := by
  have starts_le {first firstGranules second secondGranules : ℕ}
      (left : IsMaximalRun bytes mark first firstGranules)
      (right : IsMaximalRun bytes mark second secondGranules)
      (inLeft : index < first + firstGranules)
      (inRight : second ≤ index) : second ≤ first := by
    by_contra later
    rcases right.starts with isZero | survives
    · omega
    · exact left.free (second - 1) (by omega) (by omega) survives
  have ends_le {first firstGranules second secondGranules : ℕ}
      (left : IsMaximalRun bytes mark first firstGranules)
      (right : IsMaximalRun bytes mark second secondGranules)
      (inLeft : index < first + firstGranules)
      (inRight : second ≤ index) : second + secondGranules ≤ first + firstGranules := by
    by_contra later
    rcases left.ends with isLast | survives
    · have inBlock := right.inBlock
      omega
    · exact right.free (first + firstGranules) (by omega) (by omega) survives
  have sameStart := Nat.le_antisymm (starts_le otherRun run inOther.2 inRun.1)
    (starts_le run otherRun inRun.2 inOther.1)
  have sameEnd := Nat.le_antisymm (ends_le otherRun run inOther.2 inRun.1)
    (ends_le run otherRun inRun.2 inOther.1)
  omega

end Survivors

section Skip

variable {memory bytes : ℕ → Byte} {mark : Byte} {base index granules : ℕ}

/-- The end bit of an object is found by the scan over words. -/
theorem scan_object (object : IsObject bytes index granules)
    (same : ∀ place, index ≤ place → place < NOFL_GRANULES_PER_BLOCK →
      memory (base + place) = bytes place) :
    Swar.scanForByteWithBits memory (base + index) SIZE_MAX NOFL_METADATA_BYTE_END =
      .next (granules - 1) := by
  have positive := object.positive
  have inBlock := object.inBlock
  have bound : NOFL_GRANULES_PER_BLOCK < SIZE_MAX := by decide
  have read (offset : ℕ) (inObject : offset < granules) :
      memory (base + index + offset) = bytes (index + offset) := by
    rw [Nat.add_assoc]
    exact same _ (by omega) (by omega)
  have atEnd : memory (base + index + (granules - 1)) &&& NOFL_METADATA_BYTE_END ≠ 0 := by
    rw [read _ (by omega)]
    exact object.ends
  have ends : Swar.EndsAt memory (fun byte => byte &&& NOFL_METADATA_BYTE_END ≠ 0) (base + index)
      SIZE_MAX := .inr ⟨granules - 1, by omega, atEnd⟩
  obtain ⟨distance, scanned, isFirst⟩ :=
    Swar.scanForByte_spec (Swar.matches_bits NOFL_METADATA_BYTE_END) ends
  have notAfter : distance ≤ granules - 1 := by
    by_contra later
    exact isFirst.before (granules - 1) (by omega) atEnd
  have notBefore : granules - 1 ≤ distance := by
    by_contra earlier
    apply isFirst.here (by omega)
    rw [read _ (by omega)]
    exact object.goesOn _ (by omega) (by omega)
  rw [Swar.scanForByteWithBits, scanned, Nat.le_antisymm notAfter notBefore]

/-- Skipping goes over survivors only, up to a granule that starts none. -/
theorem skipSurvivors_spec (wellFormed : WellFormed bytes) (notZero : mark ≠ 0) (block : ℕ)
    (objects : ℕ) (boundary : IsBoundary bytes mark index)
    (inBlock : index ≤ NOFL_GRANULES_PER_BLOCK)
    (same : ∀ place, index ≤ place → place < NOFL_GRANULES_PER_BLOCK →
      memory (base + place) = bytes place)
    (enough : NOFL_GRANULES_PER_BLOCK - index < objects) :
    ∃ next, skipSurvivors memory mark objects (block + index * NOFL_GRANULE_SIZE)
        (NOFL_GRANULES_PER_BLOCK - index) (base + index) =
          .next (block + next * NOFL_GRANULE_SIZE, NOFL_GRANULES_PER_BLOCK - next, base + next) ∧
      index ≤ next ∧ next ≤ NOFL_GRANULES_PER_BLOCK ∧ IsBoundary bytes mark next ∧
      (∀ place, index ≤ place → place < next → Survives bytes mark place) ∧
      (next < NOFL_GRANULES_PER_BLOCK → markOf (bytes next) ≠ mark) := by
  induction objects generalizing index with
  | zero => omega
  | succ objects inductionHypothesis =>
      rw [skipSurvivors]
      by_cases goesOn : NOFL_GRANULES_PER_BLOCK - index ≠ 0 ∧
          noflMetadataByteHasMark (memory (base + index)) mark
      · rw [if_pos goesOn]
        have isMarked : markOf (bytes index) = mark := by
          rw [← same index (Nat.le_refl _) (by omega)]
          exact noflMetadataByteHasMark_iff.mp goesOn.2
        obtain ⟨granules, object⟩ := wellFormed.starts index (by omega) (by rwa [isMarked])
        have positive := object.positive
        have fits := object.inBlock
        rw [scan_object object same]
        simp only [Outcome.mapFailure, Outcome.bind_next, Nat.sub_add_cancel positive]
        rw [Outcome.check_bind (by omega)]
        obtain ⟨next, ran, after, notBeyond, atBoundary, survive, stops⟩ :=
          inductionHypothesis (IsBoundary.skip object) fits
            (fun place notBefore => same place (by omega)) (by omega)
        refine ⟨next, ?_, by omega, notBeyond, atBoundary, ?_, stops⟩
        · rw [← ran, Nat.add_mul, Nat.sub_add_eq, ← Nat.add_assoc, ← Nat.add_assoc]
        · intro place notBefore before
          by_cases inObject : place < index + granules
          · exact survives_of_object object isMarked notBefore inObject
          · exact survive place (by omega) before
      · rw [if_neg goesOn]
        refine ⟨index, rfl, Nat.le_refl _, inBlock, boundary, fun place _ _ => by omega, ?_⟩
        intro inside isMarked
        apply goesOn
        refine ⟨by omega, ?_⟩
        rw [noflMetadataByteHasMark_iff, same index (Nat.le_refl _) inside]
        exact isMarked

end Skip

end Whippet.Nofl
