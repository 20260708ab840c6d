import Whippet.Nofl.Holeset

/-!
Holes and their words.

Owns: regions, holes, what depends on which words of a hole, what `nofl_holeset_push_local` makes of
a free region, and bits that say which buckets have holes. Does not own: which holes there are.
-/

namespace Whippet.Nofl

open Function

/-- A number of granules from an address on. -/
structure GranuleRange where
  addr : ℕ
  granules : ℕ
  deriving DecidableEq, Repr

namespace GranuleRange

def Covers (hole : GranuleRange) (addr : ℕ) : Prop :=
  hole.addr ≤ addr ∧ addr < hole.addr + hole.granules * NOFL_GRANULE_SIZE

def Apart (hole other : GranuleRange) : Prop :=
  hole.addr + hole.granules * NOFL_GRANULE_SIZE ≤ other.addr ∨
    other.addr + other.granules * NOFL_GRANULE_SIZE ≤ hole.addr

instance (hole : GranuleRange) (addr : ℕ) : Decidable (hole.Covers addr) :=
  inferInstanceAs (Decidable (_ ∧ _))

instance (hole other : GranuleRange) : Decidable (hole.Apart other) :=
  inferInstanceAs (Decidable (_ ∨ _))

/-- What can be a hole: some granules of a block. -/
structure IsRegion (hole : GranuleRange) : Prop where
  positive : 0 < hole.granules
  inBlock : hole.granules ≤ NOFL_GRANULES_PER_BLOCK
  proper : hole.addr ≠ 0
  aligned : NOFL_GRANULE_SIZE ∣ hole.addr

instance (hole : GranuleRange) : Decidable hole.IsRegion :=
  decidable_of_iff (0 < hole.granules ∧ hole.granules ≤ NOFL_GRANULES_PER_BLOCK ∧ hole.addr ≠ 0 ∧
      NOFL_GRANULE_SIZE ∣ hole.addr)
    ⟨fun ⟨positive, inBlock, proper, aligned⟩ => ⟨positive, inBlock, proper, aligned⟩,
      fun region => ⟨region.positive, region.inBlock, region.proper, region.aligned⟩⟩

/-- All words of the region are zero. -/
def IsClear (words : Words) (hole : GranuleRange) : Prop :=
  ∀ addr, hole.Covers addr → 8 ∣ addr → words addr = 0

theorem isClear_iff (words : Words) (hole : GranuleRange) :
    IsClear words hole ↔ ∀ offset < hole.granules * NOFL_GRANULE_SIZE,
      8 ∣ hole.addr + offset → words (hole.addr + offset) = 0 := by
  constructor
  · intro isClear offset inRange
    exact isClear _ ⟨Nat.le_add_right _ _, Nat.add_lt_add_left inRange _⟩
  · rintro clear addr ⟨notBefore, before⟩
    obtain ⟨offset, rfl⟩ := Nat.exists_eq_add_of_le notBefore
    exact clear offset (by omega)

instance (words : Words) (hole : GranuleRange) : Decidable (IsClear words hole) :=
  decidable_of_iff _ (isClear_iff words hole).symm

/-- A region with its size in it, if that is needed, and zeros after its links otherwise. -/
structure IsHole (words : Words) (hole : GranuleRange) : Prop where
  region : hole.IsRegion
  size : NOFL_HOLESET_PACKED_GRANULES < hole.granules →
    words (granulesOf hole.addr) = hole.granules
  clear : ∀ addr, hole.Covers addr → 8 ∣ addr → granulesOf hole.addr ≤ addr →
    (NOFL_HOLESET_PACKED_GRANULES < hole.granules → addr ≠ granulesOf hole.addr) → words addr = 0

variable {words other : Words} {hole another : GranuleRange} {addr value : ℕ}

theorem Apart.symm (apart : hole.Apart another) : another.Apart hole := Or.symm apart

theorem Apart.not_covers (apart : hole.Apart another) (covered : another.Covers addr) :
    ¬hole.Covers addr := by
  simp only [Apart, Covers] at *
  omega

/-- Regions that share no address are apart. -/
theorem apart_of_disjoint (positive : 0 < hole.granules) (otherPositive : 0 < another.granules)
    (disjoint : ∀ addr, another.Covers addr → ¬hole.Covers addr) : hole.Apart another := by
  have atHole := disjoint hole.addr
  have atAnother := disjoint another.addr
  simp only [Apart, Covers, NOFL_GRANULE_SIZE] at *
  omega

theorem IsRegion.covers_addr (region : hole.IsRegion) : hole.Covers hole.addr := by
  have positive := region.positive
  simp only [Covers, NOFL_GRANULE_SIZE]
  omega

theorem IsRegion.covers_nextChain (region : hole.IsRegion) :
    hole.Covers (nextChainOf hole.addr) := by
  have positive := region.positive
  simp only [Covers, nextChainOf, NOFL_GRANULE_SIZE]
  omega

theorem covers_granulesOf (large : 1 < hole.granules) : hole.Covers (granulesOf hole.addr) := by
  simp only [Covers, granulesOf, NOFL_GRANULE_SIZE]
  omega

/-- Holes that are not the same start in different granules. -/
theorem IsRegion.addr_ne (region : hole.IsRegion) (other : another.IsRegion)
    (apart : hole.Apart another) : another.addr ≠ hole.addr := by
  have positive := region.positive
  have otherPositive := other.positive
  simp only [Apart, NOFL_GRANULE_SIZE] at apart
  omega

/-- A hole depends on its words after the links alone. -/
theorem IsHole.frame (isHole : IsHole words hole)
    (same : ∀ addr, hole.Covers addr → granulesOf hole.addr ≤ addr → other addr = words addr) :
    IsHole other hole := by
  refine ⟨isHole.region, ?_, ?_⟩
  · intro large
    have several : 1 < hole.granules := by
      simp only [NOFL_HOLESET_PACKED_GRANULES] at large
      omega
    rw [same _ (covers_granulesOf several) le_rfl]
    exact isHole.size large
  · intro addr covered aligned after isNotSize
    rw [same _ covered after]
    exact isHole.clear addr covered aligned after isNotSize

theorem IsHole.update_apart (isHole : IsHole words hole) (apart : ¬hole.Covers addr) :
    IsHole (update words addr value) hole := by
  apply isHole.frame
  intro place covered _
  apply update_of_ne
  rintro rfl
  exact apart covered

theorem IsHole.update_nextChain (isHole : IsHole words hole) :
    IsHole (update words (nextChainOf hole.addr) value) hole := by
  apply isHole.frame
  intro place _ after
  apply update_of_ne
  simp only [nextChainOf, granulesOf] at *
  omega

/-- The first granules of a region. -/
def front (hole : GranuleRange) (granules : ℕ) : GranuleRange := ⟨hole.addr, granules⟩

/-- What is left of a region behind its first granules. -/
def back (hole : GranuleRange) (granules : ℕ) : GranuleRange :=
  ⟨noflHoleTailAddress hole.addr granules, hole.granules - granules⟩

variable {granules : ℕ}

theorem front_apart_back : (hole.front granules).Apart (hole.back granules) := by
  simp only [Apart, front, back, noflHoleTailAddress]
  omega

theorem covers_iff_front_or_back (fits : granules ≤ hole.granules) :
    hole.Covers addr ↔ (hole.front granules).Covers addr ∨ (hole.back granules).Covers addr := by
  simp only [Covers, front, back, noflHoleTailAddress, NOFL_GRANULE_SIZE]
  omega

theorem Apart.front (apart : hole.Apart another) (fits : granules ≤ hole.granules) :
    (hole.front granules).Apart another := by
  simp only [Apart, GranuleRange.front, NOFL_GRANULE_SIZE] at *
  omega

theorem Apart.back (apart : hole.Apart another) (fits : granules ≤ hole.granules) :
    (hole.back granules).Apart another := by
  simp only [Apart, GranuleRange.back, noflHoleTailAddress, NOFL_GRANULE_SIZE] at *
  omega

theorem IsRegion.back (region : hole.IsRegion) (less : granules < hole.granules) :
    (hole.back granules).IsRegion := by
  refine ⟨Nat.sub_pos_of_lt less, (Nat.sub_le _ _).trans region.inBlock, ?_, ?_⟩
  · have proper := region.proper
    simp only [GranuleRange.back, noflHoleTailAddress]
    omega
  · exact Nat.dvd_add region.aligned (Nat.dvd_mul_left _ _)

theorem IsClear.front (isClear : IsClear words hole) (fits : granules ≤ hole.granules) :
    IsClear words (hole.front granules) := fun addr covered =>
  isClear addr ((covers_iff_front_or_back fits).mpr (.inl covered))

theorem IsClear.back (isClear : IsClear words hole) (fits : granules ≤ hole.granules) :
    IsClear words (hole.back granules) := fun addr covered =>
  isClear addr ((covers_iff_front_or_back fits).mpr (.inr covered))

end GranuleRange

open GranuleRange

section Push

/-- What `nofl_holeset_push_local` makes of the words. -/
def pushedWords (words : Words) (holes : Holeset) (hole : GranuleRange) : Words :=
  update
    (if hole.granules ≤ NOFL_HOLESET_PACKED_GRANULES then words
      else update words (granulesOf hole.addr) hole.granules)
    hole.addr (holes.buckets (insertBucket hole.granules))

/-- What `nofl_holeset_push_local` makes of the holeset. -/
def pushedHoles (holes : Holeset) (hole : GranuleRange) : Holeset :=
  ⟨holes.nonempty ||| bucketBit (insertBucket hole.granules),
    update holes.buckets (insertBucket hole.granules) hole.addr⟩

variable {words : Words} {holes : Holeset} {hole another : GranuleRange} {addr : ℕ}

theorem pushAt_eq {idx : ℕ} (noNext : words addr = 0) (noChain : words (nextChainOf addr) = 0) :
    pushAt words holes idx addr =
      .next (update words addr (holes.buckets idx),
        ⟨holes.nonempty ||| bucketBit idx, update holes.buckets idx addr⟩) := by
  have pushed : noflHolePush words (holes.buckets idx) addr =
      .next (update words addr (holes.buckets idx), addr) := by
    rw [noflHolePush, Outcome.check_bind_eq_next]
    refine ⟨noNext, ?_⟩
    rw [Outcome.check_bind_eq_next]
    exact ⟨noChain, rfl⟩
  rw [pushAt, pushed]
  rfl

theorem noflHolesetPushLocal_eq (region : hole.IsRegion) (isClear : IsClear words hole) :
    noflHolesetPushLocal words holes hole.addr hole.granules =
      .next (pushedWords words holes hole, pushedHoles holes hole) := by
  have positive := region.positive
  have aligned := region.aligned
  simp only [NOFL_GRANULE_SIZE] at aligned
  have noNext : words hole.addr = 0 := isClear _ region.covers_addr (by omega)
  have noChain : words (nextChainOf hole.addr) = 0 :=
    isClear _ region.covers_nextChain (by rw [nextChainOf]; omega)
  rw [noflHolesetPushLocal, pushedWords, pushedHoles, insertBucket]
  by_cases packed : hole.granules ≤ NOFL_HOLESET_PACKED_GRANULES
  · simp only [if_pos packed]
    rw [Outcome.check_bind_eq_next]
    exact ⟨positive, pushAt_eq noNext noChain⟩
  · simp only [if_neg packed]
    have several : 1 < hole.granules := by
      simp only [NOFL_HOLESET_PACKED_GRANULES] at packed
      omega
    rw [Outcome.check_bind_eq_next]
    refine ⟨isClear _ (covers_granulesOf several) (by rw [granulesOf]; omega), ?_⟩
    rw [noflHolesetSparseBucket_eq true packed, Outcome.bind_next]
    apply pushAt_eq
    · rw [update_of_ne (by rw [granulesOf]; omega)]
      exact noNext
    · rw [update_of_ne (by rw [granulesOf, nextChainOf]; omega)]
      exact noChain

/-- Pushing writes into the hole only. -/
theorem pushedWords_apart (region : hole.IsRegion) (apart : ¬hole.Covers addr) :
    pushedWords words holes hole addr = words addr := by
  have notStart : addr ≠ hole.addr := by
    rintro rfl
    exact apart region.covers_addr
  rw [pushedWords, update_of_ne notStart]
  split_ifs with packed
  · rfl
  · apply update_of_ne
    rintro rfl
    apply apart
    apply covers_granulesOf
    simp only [NOFL_HOLESET_PACKED_GRANULES] at packed
    omega

theorem pushedWords_addr :
    pushedWords words holes hole hole.addr = holes.buckets (insertBucket hole.granules) :=
  update_self _ _ _

theorem isHole_pushedWords (region : hole.IsRegion) (isClear : IsClear words hole) :
    IsHole (pushedWords words holes hole) hole := by
  refine ⟨region, ?_, ?_⟩
  · intro large
    rw [pushedWords, if_neg (by omega), update_of_ne (by rw [granulesOf]; omega), update_self]
  · intro addr covered aligned after isNotSize
    have notStart : addr ≠ hole.addr := by
      rw [granulesOf] at after
      omega
    rw [pushedWords, update_of_ne notStart]
    split_ifs with packed
    · exact isClear addr covered aligned
    · rw [update_of_ne (isNotSize (by omega))]
      exact isClear addr covered aligned

theorem pushedWords_nextChain (region : hole.IsRegion) (isClear : IsClear words hole) :
    pushedWords words holes hole (nextChainOf hole.addr) = 0 := by
  have aligned := region.aligned
  simp only [NOFL_GRANULE_SIZE] at aligned
  have wasZero : words (nextChainOf hole.addr) = 0 :=
    isClear _ region.covers_nextChain (by rw [nextChainOf]; omega)
  rw [pushedWords, update_of_ne (by rw [nextChainOf]; omega)]
  split_ifs
  · exact wasZero
  · rw [update_of_ne (by rw [nextChainOf, granulesOf]; omega)]
    exact wasZero

end Push

section Pop

/-- What `nofl_holeset_try_pop` makes of the words before it pushes what is left of the hole. -/
def poppedWords (words : Words) (hole : GranuleRange) : Words :=
  if hole.granules ≤ NOFL_HOLESET_PACKED_GRANULES then update words hole.addr 0
  else update (update words hole.addr 0) (granulesOf hole.addr) 0

variable {words : Words} {hole : GranuleRange} {addr : ℕ}

theorem noflHolePop_eq (proper : addr ≠ 0) (noChain : words (nextChainOf addr) = 0) :
    noflHolePop words addr = .next (update words addr 0, words addr) := by
  rw [noflHolePop, Outcome.check_bind_eq_next]
  refine ⟨proper, ?_⟩
  rw [Outcome.check_bind_eq_next]
  exact ⟨noChain, rfl⟩

/-- The size of a hole comes from its bucket or from its words. -/
theorem takeGranules_eq (isHole : IsHole words hole) :
    takeGranules (update words hole.addr 0) (insertBucket hole.granules) hole.addr =
      .next (poppedWords words hole, hole.granules) := by
  have positive := isHole.region.positive
  rw [takeGranules, poppedWords]
  by_cases packed : hole.granules ≤ NOFL_HOLESET_PACKED_GRANULES
  · rw [if_pos ((insertBucket_lt_iff positive).mpr packed), if_pos packed, insertBucket,
      if_pos packed, Nat.sub_add_cancel positive]
    rfl
  · have notStart : granulesOf hole.addr ≠ hole.addr := by
      rw [granulesOf]
      omega
    rw [if_neg (mt (insertBucket_lt_iff positive).mp packed), if_neg packed,
      Outcome.check_bind_eq_next, update_of_ne notStart, isHole.size (by omega)]
    exact ⟨by omega, rfl⟩

/-- Popping writes into the hole only. -/
theorem poppedWords_apart (region : hole.IsRegion) (apart : ¬hole.Covers addr) :
    poppedWords words hole addr = words addr := by
  have notStart : addr ≠ hole.addr := by
    rintro rfl
    exact apart region.covers_addr
  rw [poppedWords]
  split_ifs with packed
  · exact update_of_ne notStart _ _
  · have notSize : addr ≠ granulesOf hole.addr := by
      rintro rfl
      apply apart
      apply covers_granulesOf
      simp only [NOFL_HOLESET_PACKED_GRANULES] at packed
      omega
    rw [update_of_ne notSize, update_of_ne notStart]

/-- All words of a popped hole are zero. -/
theorem isClear_poppedWords (isHole : IsHole words hole)
    (noChain : words (nextChainOf hole.addr) = 0) : IsClear (poppedWords words hole) hole := by
  intro addr covered aligned
  have startAligned := isHole.region.aligned
  simp only [NOFL_GRANULE_SIZE] at startAligned
  have notBefore := covered.1
  by_cases isStart : addr = hole.addr
  · subst isStart
    rw [poppedWords]
    split_ifs
    · exact update_self _ _ _
    · rw [update_of_ne (by rw [granulesOf]; omega), update_self]
  have rest (notSize : NOFL_HOLESET_PACKED_GRANULES < hole.granules →
      addr ≠ granulesOf hole.addr) : words addr = 0 := by
    by_cases isChain : addr = nextChainOf hole.addr
    · rw [isChain]
      exact noChain
    · apply isHole.clear addr covered aligned _ notSize
      rw [granulesOf]
      rw [nextChainOf] at isChain
      omega
  rw [poppedWords]
  split_ifs with packed
  · rw [update_of_ne isStart]
    exact rest fun large => absurd large (by omega)
  · by_cases isSize : addr = granulesOf hole.addr
    · rw [isSize, update_self]
    · rw [update_of_ne isSize, update_of_ne isStart]
      exact rest fun _ => isSize

end Pop

section Bits

/-- The bit of a bucket is set exactly if the bucket has a hole. -/
def BitsExact (holes : Holeset) : Prop :=
  ∀ idx, holes.nonempty.getLsbD idx = true ↔ holes.buckets idx ≠ 0

variable {holes : Holeset} {idx value : ℕ}

theorem BitsExact.set (exact : BitsExact holes) (inRange : idx < 64) (proper : value ≠ 0) :
    BitsExact ⟨holes.nonempty ||| bucketBit idx, update holes.buckets idx value⟩ := by
  intro other
  simp only [BitVec.getLsbD_or, getLsbD_bucketBit, Bool.or_eq_true, exact other]
  by_cases same : other = idx
  · subst same
    simp [inRange, proper]
  · simp [same]

theorem getLsbD_xor_bucketBit {word : BitVec 64} (isSet : word.getLsbD idx = true) (other : ℕ) :
    (word ^^^ bucketBit idx).getLsbD other = true ↔ word.getLsbD other = true ∧ other ≠ idx := by
  have inRange : idx < 64 := BitVec.lt_of_getLsbD isSet
  rw [BitVec.getLsbD_xor, getLsbD_bucketBit]
  by_cases same : other = idx
  · subst same
    simp [isSet, inRange]
  · simp [same]

theorem BitsExact.advance (exact : BitsExact holes) (isSet : holes.nonempty.getLsbD idx = true) :
    BitsExact ⟨if value = 0 then holes.nonempty ^^^ bucketBit idx else holes.nonempty,
      update holes.buckets idx value⟩ := by
  intro other
  change (if value = 0 then holes.nonempty ^^^ bucketBit idx else holes.nonempty).getLsbD other =
    true ↔ update holes.buckets idx value other ≠ 0
  by_cases same : other = idx
  · subst same
    rw [update_self]
    by_cases isZero : value = 0
    · rw [if_pos isZero, getLsbD_xor_bucketBit isSet]
      simp [isZero]
    · rw [if_neg isZero]
      simp [isZero, isSet]
  · rw [update_of_ne same, ← exact other]
    by_cases isZero : value = 0
    · rw [if_pos isZero, getLsbD_xor_bucketBit isSet]
      simp [same]
    · rw [if_neg isZero]

end Bits

end Whippet.Nofl
