import Whippet.Pcc.CopySpaceBudget

/-!
When the expansion of a copy space maps new slabs (`copy_space_expand`).

An expansion first pages blocks in again, whole blocks at a time, and maps slabs for what remains.
What remains may be less than a block, and the queue may have had enough blocks.

Owns: the slabs that an expansion asks the platform for, the law that they are needed, and the
exact condition for it, for single expansions and for sequences of them. Does not own: how the
size of the heap is chosen.
-/

namespace Whippet.Pcc

namespace CopySpace

variable {space : CopySpace} {bytes : ℕ}

/-! ## What an expansion asks for -/

/-- What the space has to get for the request: the request itself, and what the space may page in
already. -/
def owed (space : CopySpace) (bytes : ℕ) : ℤ := bytes - space.bytesToPageOut

/-- The slabs that `copy_space_expand` asks `copy_space_allocate_slabs` for. -/
def slabsToMap (space : CopySpace) (bytes : ℕ) : ℕ :=
  let reacquired := space.maybeReacquireMemory bytes
  if -reacquired.bytesToPageOut ≤ 0 then 0 else reacquired.newSlabs

theorem nslabs_addSlabs (space : CopySpace) (base count : ℕ) :
    (space.addSlabs base count).nslabs = space.nslabs + count := by
  have pushed : ∀ (blocks : List ℕ) (start : CopySpace),
      (blocks.foldl pushFreshBlock start).nslabs = start.nslabs := by
    intro blocks
    induction blocks with
    | nil => exact fun _ => rfl
    | cons block rest inductionHypothesis =>
        intro start
        rw [List.foldl_cons, inductionHypothesis]
        rfl
  exact pushed _ _

/-- An expansion adds the slabs that it asks for. -/
theorem nslabs_expand {base : ℕ} {expanded : CopySpace}
    (grown : space.expand bytes base = .next expanded) :
    expanded.nslabs = space.nslabs + space.slabsToMap bytes := by
  have adds := space.maybeReacquireMemory_adds bytes
  unfold expand at grown
  unfold slabsToMap
  dsimp only at grown ⊢
  generalize space.maybeReacquireMemory bytes = reacquired at adds grown ⊢
  split at grown
  next paid =>
    cases grown
    rw [if_pos paid, adds.nslabs_eq, Nat.add_zero]
  next short =>
    obtain ⟨-, rfl⟩ := reacquireMemory_eq_next.mp grown
    have again := (reacquired.addSlabs base reacquired.newSlabs).maybeReacquireMemory_adds 0
    rw [again.nslabs_eq, nslabs_addSlabs, if_neg short, adds.nslabs_eq]

/-- Slabs are asked for if and only if something remains to be got. -/
theorem slabsToMap_pos_iff :
    0 < space.slabsToMap bytes ↔ (space.maybeReacquireMemory bytes).bytesToPageOut < 0 := by
  unfold slabsToMap
  dsimp only
  generalize space.maybeReacquireMemory bytes = reacquired
  split
  next paid =>
    constructor
    · intro impossible
      omega
    · intro negative
      omega
  next short =>
    constructor
    · intro _
      omega
    · intro negative
      have atLeastOne : COPY_SPACE_SLAB_SIZE ≤
          (-reacquired.bytesToPageOut).toNat + COPY_SPACE_SLAB_SIZE - 1 := by omega
      have positive : 0 < COPY_SPACE_SLAB_SIZE := by decide
      rw [newSlabs, Nofl.alignUp, Nat.mul_div_cancel _ positive]
      exact Nat.div_pos atLeastOne positive

/-! ## What paging in leaves -/

/-- Paging in pays one block for each block that leaves the queue. -/
theorem maybeReacquireMemory_pays (space : CopySpace) (bytes : ℕ) :
    (space.maybeReacquireMemory bytes).bytesToPageOut +
        (space.maybeReacquireMemory bytes).pagedOutCount * COPY_SPACE_BLOCK_SIZE =
      space.pagedOutCount * COPY_SPACE_BLOCK_SIZE - space.owed bytes := by
  have adds := space.maybeReacquireMemory_adds bytes
  have value := adds.value_eq
  have count := adds.blockCount_eq
  generalize space.maybeReacquireMemory bytes = reacquired at value count ⊢
  simp only [CopySpace.value, blockCount] at value count
  simp only [owed, COPY_SPACE_BLOCK_SIZE, COPY_SPACE_REGION_SIZE] at value ⊢
  omega

/-- Paging in does not get more than was asked for. -/
theorem maybeReacquireMemory_le (asked : 0 ≤ space.owed bytes) :
    (space.maybeReacquireMemory bytes).bytesToPageOut ≤ 0 := by
  obtain ⟨-, -, -, atMost, -⟩ :=
    reacquireLoop_spec space.pagedOutCount (space.addToPageOut (-bytes)) le_rfl
  apply atMost
  show space.bytesToPageOut + -(bytes : ℤ) ≤ 0
  rw [owed] at asked
  omega

/-- If nothing is asked for, nothing happens. -/
theorem maybeReacquireMemory_of_owed_nonpos (paid : space.owed bytes ≤ 0) :
    (space.maybeReacquireMemory bytes).bytesToPageOut = -space.owed bytes := by
  have debt : (space.addToPageOut (-bytes)).bytesToPageOut = -space.owed bytes := by
    show space.bytesToPageOut + -(bytes : ℤ) = -((bytes : ℤ) - space.bytesToPageOut)
    omega
  rw [maybeReacquireMemory, ← debt]
  cases space.pagedOutCount with
  | zero => rfl
  | succ turns =>
      rw [reacquireLoop, if_neg]
      rw [debt]
      simp only [COPY_SPACE_BLOCK_SIZE, COPY_SPACE_REGION_SIZE]
      omega

/-! ## The law -/

/-- The blocks in the page-out queue, those already paged out among them, are enough for the
request to within one block. -/
def QueueSatisfies (space : CopySpace) (bytes : ℕ) : Prop :=
  space.owed bytes < ((space.pagedOutCount + 1) * COPY_SPACE_BLOCK_SIZE : ℕ)

/-- An expansion maps slabs only if the queue cannot satisfy it. -/
def MapsOnlyNeeded (space : CopySpace) (bytes : ℕ) : Prop :=
  0 < space.slabsToMap bytes → ¬space.QueueSatisfies bytes

/-- What the space has to get is nothing, a whole number of blocks, or more than the queue has. -/
def LeavesNoRemainder (space : CopySpace) (bytes : ℕ) : Prop :=
  space.owed bytes ≤ 0 ∨ (COPY_SPACE_BLOCK_SIZE : ℤ) ∣ space.owed bytes ∨
    ((space.pagedOutCount + 1) * COPY_SPACE_BLOCK_SIZE : ℕ) ≤ space.owed bytes

theorem mapsOnlyNeeded_iff : space.MapsOnlyNeeded bytes ↔ space.LeavesNoRemainder bytes := by
  have pays := space.maybeReacquireMemory_pays bytes
  rw [MapsOnlyNeeded, slabsToMap_pos_iff, QueueSatisfies, not_lt]
  constructor
  · intro needed
    by_cases paid : space.owed bytes ≤ 0
    · exact .inl paid
    · by_cases short : (space.maybeReacquireMemory bytes).bytesToPageOut < 0
      · exact .inr (.inr (needed short))
      · -- All that was asked for came in whole blocks.
        have atMost := maybeReacquireMemory_le (not_le.mp paid).le
        refine .inr (.inl ⟨space.pagedOutCount -
          (space.maybeReacquireMemory bytes).pagedOutCount, ?_⟩)
        simp only [COPY_SPACE_BLOCK_SIZE, COPY_SPACE_REGION_SIZE] at pays ⊢
        omega
  · rintro (paid | ⟨blocks, whole⟩ | more) short
    · have unchanged := maybeReacquireMemory_of_owed_nonpos paid
      omega
    · -- What remains is a whole number of blocks, so the queue has run out.
      rcases space.maybeReacquireMemory_done bytes with enough | emptied
      · simp only [COPY_SPACE_BLOCK_SIZE, COPY_SPACE_REGION_SIZE] at pays whole enough
        omega
      · rw [emptied] at pays
        simp only [COPY_SPACE_BLOCK_SIZE, COPY_SPACE_REGION_SIZE] at pays whole ⊢
        push_cast
        omega
    · exact more

/-! ## Sequences of expansions -/

/-- The law at every expansion of a sequence; each request comes with the memory for its slabs. -/
def Along (law : CopySpace → ℕ → Prop) : List (ℕ × ℕ) → CopySpace → Prop
  | [], _ => True
  | (bytes, base) :: requests, space =>
      law space bytes ∧
        ∀ expanded, space.expand bytes base = .next expanded → Along law requests expanded

theorem Along.congr {first second : CopySpace → ℕ → Prop}
    (same : ∀ space bytes, first space bytes ↔ second space bytes) (requests : List (ℕ × ℕ))
    (space : CopySpace) : Along first requests space ↔ Along second requests space := by
  induction requests generalizing space with
  | nil => exact Iff.rfl
  | cons request requests inductionHypothesis =>
      rw [Along, Along, same]
      apply and_congr_right
      intro _
      apply forall_congr'
      intro expanded
      apply imp_congr_right
      intro _
      exact inductionHypothesis expanded

/-- From every state, a sequence of expansions maps no unneeded slab if and only if none of them
leaves a remainder below a block that the queue cannot pay. -/
theorem expansions_map_only_needed_iff (space : CopySpace) (requests : List (ℕ × ℕ)) :
    Along MapsOnlyNeeded requests space ↔ Along LeavesNoRemainder requests space := by
  apply Along.congr
  intro space bytes
  exact mapsOnlyNeeded_iff

/-- A request for a page maps another slab, whatever the queue of a new space has. -/
theorem expansions_map_unneeded :
    ¬∀ (space : CopySpace) (requests : List (ℕ × ℕ)), Along MapsOnlyNeeded requests space := by
  intro law
  have needed := (law (init 1048576 (2 ^ 26) false false) [(4096, 2 ^ 27)]).1
  have debt := bytesToPageOut_init 1048576 (2 ^ 26) false false
  rw [mapsOnlyNeeded_iff] at needed
  simp only [LeavesNoRemainder, owed, debt, COPY_SPACE_BLOCK_SIZE, COPY_SPACE_REGION_SIZE] at needed
  omega


end CopySpace

end Whippet.Pcc
