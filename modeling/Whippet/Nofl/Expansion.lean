import Whippet.Nofl.Budget

/-!
What an expansion of the nofl space delivers (`nofl_space_expand`).

Of the 64 blocks of a slab, 60 hold objects. The code adds one sixteenth to the bytes that it has
to map, where one fifteenth would be needed, and rounds up to slabs.

Owns: what an expansion leaves pending, the promise that it is less than a block, and the exact
condition for it. Does not own: whether the platform supplies the memory.
-/

namespace Whippet.Nofl

namespace NoflSpace

variable {space : NoflSpace} {bytes base : ℕ}

/-! ## Reacquiring -/

theorem unavailableBlockCount_of_pop_eq_none (missing : space.noflPopUnavailableBlock = none) :
    space.unavailableBlockCount = 0 := by
  have bare : ∀ ages : List (Fin NOFL_PAGE_OUT_QUEUE_SIZE), space.popPagedOut ages = none →
      ∀ age ∈ ages, space.pagedOut age = [] := by
    intro ages
    induction ages with
    | nil => exact fun _ => nofun
    | cons age ages inductionHypothesis =>
        intro none
        rw [popPagedOut] at none
        split at none
        next stack =>
          intro other member
          rcases List.mem_cons.mp member with rfl | inRest
          · exact stack
          · exact inductionHypothesis none other inRest
        · cases none
  have none : space.popPagedOut [0, 1, 2, 3] = none := by
    unfold noflPopUnavailableBlock at missing
    split at missing
    next none => exact none
    · cases missing
  have empty := bare _ none
  simp [unavailableBlockCount, empty 0 (by simp), empty 1 (by simp), empty 2 (by simp),
    empty 3 (by simp)]

/-- Reacquiring pays one block for each block that becomes available. -/
theorem reacquireLoop_pays (rounds : ℕ) (space : NoflSpace) :
    (reacquireLoop rounds space).pendingUnavailableBytes +
        (reacquireLoop rounds space).unavailableBlockCount * NOFL_BLOCK_SIZE =
      space.pendingUnavailableBytes + space.unavailableBlockCount * NOFL_BLOCK_SIZE := by
  induction rounds generalizing space with
  | zero => rfl
  | succ rounds inductionHypothesis =>
      rw [reacquireLoop]
      split
      · split
        · rfl
        next block popped found =>
          obtain ⟨count, -, -, pending⟩ := space.noflPopUnavailableBlock_eq found
          obtain ⟨sameCount, -, -, samePending⟩ := popped.pushAvailableBlock_eq block
          rw [inductionHypothesis]
          show (popped.pushAvailableBlock block).pendingUnavailableBytes + NOFL_BLOCK_SIZE +
            ((popped.pushAvailableBlock block).unavailableBlockCount : ℤ) * NOFL_BLOCK_SIZE = _
          rw [sameCount, samePending, pending, ← count]
          push_cast
          ring
      · rfl

/-- Reacquiring leaves less than a block, or all blocks are available. -/
theorem noflSpaceMaybeReacquireMemory_spec (space : NoflSpace) (bytes : ℕ) :
    (space.noflSpaceMaybeReacquireMemory bytes).pendingUnavailableBytes +
        (space.noflSpaceMaybeReacquireMemory bytes).unavailableBlockCount * NOFL_BLOCK_SIZE =
      space.pendingUnavailableBytes - bytes + space.unavailableBlockCount * NOFL_BLOCK_SIZE ∧
    (0 < (space.noflSpaceMaybeReacquireMemory bytes).pendingUnavailableBytes + NOFL_BLOCK_SIZE ∨
      (space.noflSpaceMaybeReacquireMemory bytes).unavailableBlockCount = 0) := by
  refine ⟨reacquireLoop_pays _ _, ?_⟩
  rcases reacquireLoop_ends space.unavailableBlockCount (space.addPending (-bytes)) le_rfl
    with paid | none
  · exact .inl paid
  · exact .inr (unavailableBlockCount_of_pop_eq_none none)

/-! ## What is left pending -/

/-- What the request asks for beyond the blocks that are unavailable already. -/
def remaining (space : NoflSpace) (bytes : ℕ) : ℤ :=
  bytes - space.pendingUnavailableBytes - space.unavailableBlockCount * NOFL_BLOCK_SIZE

/-- The expansion satisfies the request to within a block. -/
def Delivers (space : NoflSpace) (bytes base : ℕ) : Prop :=
  -(NOFL_BLOCK_SIZE : ℤ) < (space.noflSpaceExpand bytes base).pendingUnavailableBytes

/-- What the blocks of new slabs pay, if no other block is unavailable. -/
theorem mapSlabs_spec (emptied : space.unavailableBlockCount = 0) (base nslabs : ℕ)
    {result : NoflSpace}
    (isResult : (((slabsAt base nslabs).flatMap slabBlocks).foldl pushFreshBlock
      { space with slabs := space.slabs ++ slabsAt base nslabs }).noflSpaceMaybeReacquireMemory 0 =
        result) :
    result.pendingUnavailableBytes + result.unavailableBlockCount * NOFL_BLOCK_SIZE =
        space.pendingUnavailableBytes +
          (nslabs * NOFL_NONMETA_BLOCKS_PER_SLAB : ℕ) * NOFL_BLOCK_SIZE ∧
      (0 < result.pendingUnavailableBytes + NOFL_BLOCK_SIZE ∨
        result.unavailableBlockCount = 0) := by
  obtain ⟨unavailable, -, -, pending⟩ := foldl_pushFreshBlock_eq
    ((slabsAt base nslabs).flatMap slabBlocks)
    { space with slabs := space.slabs ++ slabsAt base nslabs }
  rw [length_flatMap_slabBlocks, length_slabsAt] at unavailable
  have count : _ = space.unavailableBlockCount + nslabs * NOFL_NONMETA_BLOCKS_PER_SLAB :=
    unavailable
  have debt : _ = space.pendingUnavailableBytes := pending
  rw [emptied, Nat.zero_add] at count
  obtain ⟨pays, done⟩ := noflSpaceMaybeReacquireMemory_spec
    (((slabsAt base nslabs).flatMap slabBlocks).foldl pushFreshBlock
      { space with slabs := space.slabs ++ slabsAt base nslabs }) 0
  rw [isResult] at pays done
  refine ⟨?_, done⟩
  rw [pays, count, debt, Nat.cast_zero, sub_zero]

/-- The slabs that are mapped, if what is to be acquired is not less than a block. -/
theorem noflSpaceExpand_of_short {reacquired : NoflSpace}
    (isReacquired : space.noflSpaceMaybeReacquireMemory bytes = reacquired)
    (short : ¬-reacquired.pendingUnavailableBytes < NOFL_BLOCK_SIZE) {nslabs : ℕ}
    (count : slabsToAcquire (-reacquired.pendingUnavailableBytes).toNat = nslabs) :
    space.noflSpaceExpand bytes base =
      (((slabsAt base nslabs).flatMap slabBlocks).foldl pushFreshBlock
        { reacquired with slabs := reacquired.slabs ++ slabsAt base nslabs }
        ).noflSpaceMaybeReacquireMemory 0 := by
  subst isReacquired count
  exact if_neg short

/-- Less than a block remains, or the slabs that are mapped have the blocks for it. -/
theorem delivers_iff_slabs : space.Delivers bytes base ↔
    space.remaining bytes < NOFL_BLOCK_SIZE ∨
      space.remaining bytes < ((slabsToAcquire (space.remaining bytes).toNat *
        NOFL_NONMETA_BLOCKS_PER_SLAB : ℕ) + 1) * NOFL_BLOCK_SIZE := by
  obtain ⟨pays, done⟩ := space.noflSpaceMaybeReacquireMemory_spec bytes
  generalize isReacquired : space.noflSpaceMaybeReacquireMemory bytes = reacquired at pays done
  have remains : -space.remaining bytes = reacquired.pendingUnavailableBytes +
      reacquired.unavailableBlockCount * NOFL_BLOCK_SIZE := by
    rw [pays, remaining]
    ring
  have size : (NOFL_BLOCK_SIZE : ℤ) = 65536 := rfl
  rw [Delivers]
  by_cases enough : -reacquired.pendingUnavailableBytes < NOFL_BLOCK_SIZE
  · have same : space.noflSpaceExpand bytes base = reacquired := by
      subst isReacquired
      exact if_pos enough
    rw [same]
    generalize (slabsToAcquire (space.remaining bytes).toNat * NOFL_NONMETA_BLOCKS_PER_SLAB) =
      blocks
    rw [size] at remains enough ⊢
    omega
  · have emptied : reacquired.unavailableBlockCount = 0 := by
      rcases done with paid | emptied
      · omega
      · exact emptied
    have exact : -reacquired.pendingUnavailableBytes = space.remaining bytes := by
      rw [emptied] at remains
      omega
    rw [noflSpaceExpand_of_short isReacquired enough rfl, exact]
    generalize isResult : noflSpaceMaybeReacquireMemory _ 0 = result
    obtain ⟨paysAgain, doneAgain⟩ := mapSlabs_spec emptied base _ isResult
    rw [exact] at enough
    generalize slabsToAcquire (space.remaining bytes).toNat * NOFL_NONMETA_BLOCKS_PER_SLAB = blocks
      at paysAgain ⊢
    rw [size] at paysAgain doneAgain enough ⊢
    omega

/-! ## The slabs -/

/-- In doubles, the overhead is exact for all sizes that a heap can have. -/
theorem withOverhead_eq {toAcquire : ℕ} (small : toAcquire < 2 ^ 46) :
    withOverhead toAcquire = toAcquire + toAcquire / 16 := by
  have blocks : NOFL_BLOCKS_PER_SLAB = 64 := rfl
  have metadata : NOFL_META_BLOCKS_PER_SLAB = 4 := rfl
  rw [withOverhead, blocks, metadata, Rounding.toPrecision_of_lt (by omega : toAcquire < 2 ^ 53),
    Rounding.toPrecision_of_lt (by omega)]
  omega

theorem withOverhead_le (toAcquire : ℕ) :
    withOverhead toAcquire ≤ toAcquire + toAcquire / 16 + toAcquire / 2 ^ 40 + 1 := by
  have blocks : NOFL_BLOCKS_PER_SLAB = 64 := rfl
  have metadata : NOFL_META_BLOCKS_PER_SLAB = 4 := rfl
  have first := Rounding.two_pow_mul_toPrecision_le 53 toAcquire
  have second := Rounding.two_pow_mul_toPrecision_le 53 (68 * Rounding.toPrecision 53 toAcquire)
  rw [withOverhead, blocks, metadata]
  generalize Rounding.toPrecision 53 toAcquire = rounded at first second ⊢
  generalize Rounding.toPrecision 53 _ = product at second ⊢
  omega

/-- With a remainder of at least a block, the slabs suffice if and only if the overhead takes it
beyond those slabs that it would fill except for a block. -/
theorem slabs_suffice_iff {toAcquire : ℕ} (block : NOFL_BLOCK_SIZE ≤ toAcquire) :
    toAcquire < (slabsToAcquire toAcquire * NOFL_NONMETA_BLOCKS_PER_SLAB + 1) * NOFL_BLOCK_SIZE ↔
      (toAcquire - NOFL_BLOCK_SIZE) / (NOFL_NONMETA_BLOCKS_PER_SLAB * NOFL_BLOCK_SIZE) *
        NOFL_SLAB_SIZE < toAcquire + toAcquire / 16 := by
  have size : NOFL_BLOCK_SIZE = 65536 := rfl
  have payload : NOFL_NONMETA_BLOCKS_PER_SLAB = 60 := rfl
  have slab : NOFL_SLAB_SIZE = 4194304 := rfl
  have positive : 0 < NOFL_SLAB_SIZE := by decide
  rw [slabsToAcquire, alignUp, Nat.mul_div_cancel _ positive]
  rw [size, payload, slab]
  rw [size] at block
  by_cases small : toAcquire < 2 ^ 46
  · rw [withOverhead_eq small]
    generalize isFilled : (toAcquire - 65536) / (60 * 65536) = filled
    generalize isNeeded : toAcquire + toAcquire / 16 = needed
    generalize isMapped : (needed + 4194304 - 1) / 4194304 = mapped
    have beyond : toAcquire < (mapped * 60 + 1) * 65536 ↔ filled < mapped := by omega
    rw [beyond]
    omega
  · -- The shortfall grows with the remainder: neither side holds from about 1 GiB on.
    have above := withOverhead_le toAcquire
    generalize withOverhead toAcquire = needed at above ⊢
    have tooFew : ¬toAcquire < ((needed + 4194304 - 1) / 4194304 * 60 + 1) * 65536 := by omega
    have notBeyond : ¬(toAcquire - 65536) / (60 * 65536) * 4194304 <
        toAcquire + toAcquire / 16 := by
      omega
    exact iff_of_false tooFew notBeyond

/-- The slabs that would be filled except for a block are fewer than those that are mapped. -/
def SlabsSuffice (remaining : ℤ) : Prop :=
  remaining < NOFL_BLOCK_SIZE ∨
    (remaining - NOFL_BLOCK_SIZE) / (NOFL_NONMETA_BLOCKS_PER_SLAB * NOFL_BLOCK_SIZE : ℕ) *
      NOFL_SLAB_SIZE < remaining + remaining / 16

instance (remaining : ℤ) : Decidable (SlabsSuffice remaining) := inferInstanceAs (Decidable (_ ∨ _))

/-- From every state of the space and for every request, the expansion delivers what was asked for
if and only if the slabs with the overhead have the blocks for it. -/
theorem delivers_iff (space : NoflSpace) (bytes base : ℕ) :
    space.Delivers bytes base ↔ SlabsSuffice (space.remaining bytes) := by
  rw [delivers_iff_slabs, SlabsSuffice]
  apply or_congr_right'
  intro notLess
  have size : NOFL_BLOCK_SIZE = 65536 := rfl
  have payload : NOFL_NONMETA_BLOCKS_PER_SLAB = 60 := rfl
  have slab : NOFL_SLAB_SIZE = 4194304 := rfl
  have block : NOFL_BLOCK_SIZE ≤ (space.remaining bytes).toNat := by omega
  have natural := slabs_suffice_iff block
  rw [size, payload, slab] at natural
  rw [size] at notLess
  rw [size, payload, slab]
  push_cast
  generalize slabsToAcquire (space.remaining bytes).toNat = nslabs at natural ⊢
  omega

/-- Up to five slabs, the rounding makes good for the overhead. -/
theorem slabsSuffice_of_le {remaining : ℤ}
    (small : remaining < 301 * NOFL_BLOCK_SIZE) : SlabsSuffice remaining := by
  have size : (NOFL_BLOCK_SIZE : ℤ) = 65536 := rfl
  have payload : ((NOFL_NONMETA_BLOCKS_PER_SLAB * NOFL_BLOCK_SIZE : ℕ) : ℤ) = 3932160 := rfl
  have slab : (NOFL_SLAB_SIZE : ℤ) = 4194304 := rfl
  rw [SlabsSuffice, size, payload, slab]
  rw [size] at small
  omega

/-- Without excess blocks, nothing is unavailable and nothing pending. -/
theorem initLoop_no_excess (blocks : List ℕ) (space : NoflSpace) :
    (initLoop blocks 0 space).unavailableBlockCount = space.unavailableBlockCount ∧
      (initLoop blocks 0 space).pendingUnavailableBytes = space.pendingUnavailableBytes := by
  induction blocks generalizing space with
  | nil => exact ⟨rfl, rfl⟩
  | cons block blocks inductionHypothesis =>
      obtain ⟨unavailable, pending⟩ :=
        inductionHypothesis ((space.setPagedOut block).pushAvailableBlock block)
      obtain ⟨sameUnavailable, -, -, samePending⟩ :=
        (space.setPagedOut block).pushAvailableBlock_eq block
      exact ⟨unavailable.trans sameUnavailable, pending.trans samePending⟩

/-- For a request of 301 blocks, a full heap of one slab maps five slabs, which have 300. -/
theorem delivers_fails : ¬∀ (space : NoflSpace) (bytes base : ℕ), space.Delivers bytes base := by
  intro delivers
  have delivered := delivers (noflSpaceInit 4194304 (2 ^ 22) 0) 19726336 (2 ^ 23)
  rw [delivers_iff] at delivered
  obtain ⟨unavailable, pending⟩ : (noflSpaceInit 4194304 (2 ^ 22) 0).unavailableBlockCount = 0 ∧
      (noflSpaceInit 4194304 (2 ^ 22) 0).pendingUnavailableBytes = 0 := initLoop_no_excess _ _
  rw [remaining, unavailable, pending] at delivered
  revert delivered
  decide

end NoflSpace

end Whippet.Nofl
