import Whippet.Nofl.HolesetInventory

/-!
What the operations of holesets do to an inventory.

Owns: inventories that track the memory with the bits of the buckets, and one theorem for each
operation of `nofl-holeset.h`: that it meets its assertions, and which holes it moves, takes and
leaves. Does not own: runs of operations, memory that is not in a holeset.
-/

namespace Whippet.Nofl

open Function GranuleRange

section Candidates

variable {holes : Holeset} {minIdx : ℕ}

/-- Whether a shifted set of bits is empty says whether a bucket from there on has a hole. -/
theorem BitsExact.none_of_shift (exact : BitsExact holes) (isZero : holes.nonempty >>> minIdx = 0)
    (idx : ℕ) (above : minIdx ≤ idx) : holes.buckets idx = 0 := by
  by_contra nonempty
  have isSet := (exact idx).mpr nonempty
  have shifted : (holes.nonempty >>> minIdx).getLsbD (idx - minIdx) = true := by
    rw [BitVec.getLsbD_ushiftRight, Nat.add_sub_cancel' above]
    exact isSet
  rw [isZero] at shifted
  simp at shifted

theorem found_of_shift (notZero : holes.nonempty >>> minIdx ≠ 0) :
    holes.nonempty.getLsbD (minIdx + (holes.nonempty >>> minIdx).ctz.toNat) = true := by
  have found := BitVec.getLsbD_true_ctz_of_ne_zero notZero
  rwa [BitVec.getLsbD_ushiftRight] at found

end Candidates

namespace Inventory

variable {Local : Type}

structure Tracks (inventory : Inventory Local) (memory : Holesets Local) : Prop where
  describes : inventory.Describes memory
  localBits : ∀ owner, BitsExact (memory.locals owner)
  sharedBits : BitsExact memory.shared

/-- Two inventories have the same holes, if maybe on other lists. -/
structure SameHoles (inventory other : Inventory Local) : Prop where
  granules : other.granules = inventory.granules
  listed : ∀ addr, other.listed addr = none ↔ inventory.listed addr = none

theorem SameHoles.refl (inventory : Inventory Local) : inventory.SameHoles inventory :=
  ⟨rfl, fun _ => .rfl⟩

theorem SameHoles.trans {inventory other third : Inventory Local}
    (first : inventory.SameHoles other) (second : other.SameHoles third) :
    inventory.SameHoles third :=
  ⟨second.granules.trans first.granules,
    fun addr => (second.listed addr).trans (first.listed addr)⟩

theorem SameHoles.hole {inventory other : Inventory Local} (same : inventory.SameHoles other)
    (addr : ℕ) : other.hole addr = inventory.hole addr := by
  rw [Inventory.hole, same.granules, Inventory.hole]

variable [DecidableEq Local]

/-- The first hole of a bucket is taken, and what is left of it behind some granules is put back. -/
def carve (inventory : Inventory Local) (owner : Local) (idx granules : ℕ) : Inventory Local :=
  let first := inventory.lists.head (.bucket owner idx)
  let popped := inventory.pop owner idx
  let tailGranules := inventory.granules first - granules
  if tailGranules = 0 then popped
  else popped.push owner ((inventory.hole first).back granules)

variable {inventory : Inventory Local} {memory : Holesets Local} {owner : Local}
variable {idx granules : ℕ} {hole : GranuleRange}

theorem sameHoles_give : inventory.SameHoles (inventory.give owner idx) := by
  refine ⟨rfl, ?_⟩
  intro addr
  change (if inventory.listed addr = some (.bucket owner idx) then _ else _) = none ↔ _
  split_ifs with inBucket
  · simp [inBucket]
  · rfl

theorem sameHoles_take : inventory.SameHoles (inventory.take owner idx) := by
  refine ⟨rfl, ?_⟩
  intro addr
  change (if inventory.listed addr = some (.chain (inventory.chains.head idx)) then _ else _) =
    none ↔ _
  split_ifs with inChain
  · simp [inChain]
  · rfl

namespace Tracks

theorem localBits_withLocal (tracks : inventory.Tracks memory) (words : Words) {holes : Holeset}
    (exact : BitsExact holes) (other : Local) :
    BitsExact ((memory.withLocal owner words holes).locals other) := by
  by_cases same : other = owner
  · subst same
    rw [Holesets.locals_withLocal_self]
    exact exact
  · rw [Holesets.locals_withLocal_of_ne _ _ _ _ same]
    exact tracks.localBits other

/-- `nofl_holeset_push_local` adds a free region. -/
theorem pushLocal (tracks : inventory.Tracks memory) (region : hole.IsRegion)
    (isClear : IsClear memory.words hole)
    (free : ∀ addr, inventory.listed addr ≠ none → hole.Apart (inventory.hole addr)) :
    noflHolesetPushLocal memory.words (memory.locals owner) hole.addr hole.granules =
        .next (pushedWords memory.words (memory.locals owner) hole,
          pushedHoles (memory.locals owner) hole) ∧
      (inventory.push owner hole).Tracks
        (memory.withLocal owner (pushedWords memory.words (memory.locals owner) hole)
          (pushedHoles (memory.locals owner) hole)) := by
  refine ⟨noflHolesetPushLocal_eq region isClear, ?_⟩
  exact
    { describes := tracks.describes.push region isClear free
      localBits := tracks.localBits_withLocal _
        ((tracks.localBits owner).set (insertBucket_lt _) region.proper)
      sharedBits := tracks.sharedBits }


omit [DecidableEq Local] in
/-- The hole that is first in a local bucket. -/
theorem first_spec (tracks : inventory.Tracks memory)
    (nonempty : (memory.locals owner).buckets idx ≠ 0) :
    inventory.listed ((memory.locals owner).buckets idx) = some (.bucket owner idx) ∧
      IsHole memory.words (inventory.hole ((memory.locals owner).buckets idx)) ∧
      insertBucket (inventory.granules ((memory.locals owner).buckets idx)) = idx ∧
      memory.words (nextChainOf ((memory.locals owner).buckets idx)) = 0 := by
  have onList := tracks.describes.listed_first nonempty
  refine ⟨onList, tracks.describes.isHole _ (by rw [onList]; simp), ?_,
    (tracks.describes.nextChain_eq_zero onList).1⟩
  exact (Option.some.inj (tracks.describes.sorted _ _ onList)).symm

/-- The holeset without its first hole of a bucket. -/
def poppedHoles (holes : Holeset) (idx next : ℕ) : Holeset :=
  ⟨if next = 0 then holes.nonempty ^^^ bucketBit idx else holes.nonempty,
    update holes.buckets idx next⟩

/-- Popping the first hole of a bucket, before what is left of it is put back. -/
theorem pop (tracks : inventory.Tracks memory)
    (nonempty : (memory.locals owner).buckets idx ≠ 0) :
    (inventory.pop owner idx).Tracks (memory.withLocal owner
      (poppedWords memory.words (inventory.hole ((memory.locals owner).buckets idx)))
      (poppedHoles (memory.locals owner) idx
        (memory.words ((memory.locals owner).buckets idx)))) := by
  obtain ⟨-, isHole, -, -⟩ := tracks.first_spec nonempty
  exact
    { describes := tracks.describes.pop nonempty fun addr apart =>
        poppedWords_apart isHole.region apart
      localBits := tracks.localBits_withLocal _
        ((tracks.localBits owner).advance ((tracks.localBits owner idx).mpr nonempty))
      sharedBits := tracks.sharedBits }

omit [DecidableEq Local] in
/-- What `nofl_holeset_try_pop` does once it has the hole of a bucket. -/
theorem tryPopFrom_eq (tracks : inventory.Tracks memory)
    (nonempty : (memory.locals owner).buckets idx ≠ 0)
    (fits : granules ≤ inventory.granules ((memory.locals owner).buckets idx)) :
    tryPopFrom memory.words (memory.locals owner) granules idx =
      (let first := (memory.locals owner).buckets idx
      let words := poppedWords memory.words (inventory.hole first)
      let holes := poppedHoles (memory.locals owner) idx (memory.words first)
      if inventory.granules first - granules = 0 then .next (words, holes, first)
      else do
        let (words, holes) ← noflHolesetPushLocal words holes
          (noflHoleTailAddress first granules) (inventory.granules first - granules)
        return (words, holes, first)) := by
  obtain ⟨-, isHole, inBucket, noChain⟩ := tracks.first_spec nonempty
  set first := (memory.locals owner).buckets idx with isFirst
  have taken : takeGranules (update memory.words first 0) idx first =
      .next (poppedWords memory.words (inventory.hole first), inventory.granules first) := by
    rw [← inBucket]
    exact takeGranules_eq isHole
  rw [tryPopFrom, ← isFirst, noflHolePop_eq nonempty noChain, Outcome.bind_next]
  simp only []
  rw [Outcome.check_bind ((tracks.localBits owner idx).mpr (isFirst ▸ nonempty)), taken,
    Outcome.bind_next]
  simp only []
  rw [Outcome.check_bind fits]
  rfl

/-- `nofl_holeset_try_pop` takes granules from the front of a hole, or finds no bucket with holes
that are large enough. -/
theorem tryPop (tracks : inventory.Tracks memory) (positive : 0 < granules)
    (inRange : granules ≤ NOFL_HOLESET_MAX_GRANULES) :
    (noflHolesetTryPop memory.words (memory.locals owner) granules =
        .next (memory.words, memory.locals owner, 0) ∧
      ∀ idx, lookupBucket granules ≤ idx → (memory.locals owner).buckets idx = 0) ∨
    ∃ idx words holes, (memory.locals owner).buckets idx ≠ 0 ∧
      noflHolesetTryPop memory.words (memory.locals owner) granules =
        .next (words, holes, (memory.locals owner).buckets idx) ∧
      granules ≤ inventory.granules ((memory.locals owner).buckets idx) ∧
      (inventory.carve owner idx granules).Tracks (memory.withLocal owner words holes) ∧
      IsClear words ((inventory.hole ((memory.locals owner).buckets idx)).front granules) := by
  have exact := tracks.localBits owner
  rw [noflHolesetTryPop, Outcome.check_bind inRange, noflHolesetBucketForLookup_eq positive,
    Outcome.bind_next, Outcome.check_bind (lookupBucket_lt granules)]
  by_cases isZero : (memory.locals owner).nonempty >>> lookupBucket granules = 0
  · refine .inl ⟨?_, exact.none_of_shift isZero⟩
    rw [if_pos isZero]
    rfl
  rw [if_neg isZero]
  have isSet := found_of_shift isZero
  have above : lookupBucket granules ≤ lookupBucket granules +
    ((memory.locals owner).nonempty >>> lookupBucket granules).ctz.toNat := Nat.le_add_right _ _
  generalize lookupBucket granules +
    ((memory.locals owner).nonempty >>> lookupBucket granules).ctz.toNat = idx at isSet above ⊢
  have nonempty := (exact idx).mp isSet
  obtain ⟨onList, isHole, inBucket, noChain⟩ := tracks.first_spec nonempty
  have popped := tracks.pop nonempty
  have headEq := tracks.describes.localHead owner idx
  have fits : granules ≤ inventory.granules ((memory.locals owner).buckets idx) := by
    apply le_of_lookupBucket_le isHole.region.positive inRange
    rw [← inBucket] at above
    exact above
  have isClear := isClear_poppedWords isHole noChain
  set first := (memory.locals owner).buckets idx with isFirst
  right
  refine ⟨idx, ?_⟩
  rw [tracks.tryPopFrom_eq (isFirst ▸ nonempty) (isFirst ▸ fits), ← isFirst]
  simp only []
  by_cases whole : inventory.granules first - granules = 0
  · refine ⟨_, _, nonempty, if_pos whole, fits, ?_, isClear.front fits⟩
    rw [carve, headEq, if_pos whole]
    exact popped
  · have less : granules < inventory.granules first := by omega
    have region := isHole.region.back less
    have free (addr : ℕ) (isListed : (inventory.pop owner idx).listed addr ≠ none) :
        ((inventory.hole first).back granules).Apart ((inventory.pop owner idx).hole addr) := by
      obtain ⟨name, isName⟩ := Option.ne_none_iff_exists'.mp isListed
      obtain ⟨different, before⟩ := listed_pop_cases isName
      rw [headEq] at different
      exact (tracks.describes.apart first addr (by rw [onList]; simp) (by rw [before]; simp)
        different.symm).back fits
    obtain ⟨pushed, after⟩ := @pushLocal _ _ _ _ owner _ popped region (isClear.back fits) free
    rw [Holesets.locals_withLocal_self, Holesets.words_withLocal] at pushed after
    rw [Holesets.withLocal_withLocal] at after
    refine ⟨_, _, nonempty,
      (if_neg whole).trans (Outcome.bind_eq_next.mpr ⟨_, pushed, rfl⟩), fits, ?_, ?_⟩
    · rw [carve, headEq, if_neg whole]
      exact after
    · intro addr covered aligned
      exact (pushedWords_apart region (front_apart_back.symm.not_covers covered)).trans
        (isClear.front fits addr covered aligned)

/-- `nofl_holeset_acquire` moves a chain into a local bucket that is free, or moves nothing. -/
theorem acquire (tracks : inventory.Tracks memory) (positive : 0 < granules)
    (free : ∀ idx, lookupBucket granules ≤ idx → (memory.locals owner).buckets idx = 0)
    (sloppyNonempty : BitVec 64) :
    ∃ words holes shared acquired after,
      noflHolesetAcquire memory.words (memory.locals owner) memory.shared granules
          sloppyNonempty = .next (words, holes, shared, acquired) ∧
        inventory.SameHoles after ∧
        after.Tracks ((memory.withLocal owner words holes).withShared shared) := by
  have unchanged : (memory.withLocal owner memory.words (memory.locals owner)).withShared
      memory.shared = memory := by
    rw [Holesets.withLocal, update_eq_self, Holesets.withShared]
  rw [noflHolesetAcquire, noflHolesetBucketForLookup_eq positive, Outcome.bind_next,
    Outcome.check_bind (lookupBucket_lt granules)]
  by_cases sloppyZero : sloppyNonempty >>> lookupBucket granules = 0
  · rw [if_pos sloppyZero]
    exact ⟨_, _, _, _, inventory, rfl, .refl _, unchanged.symm ▸ tracks⟩
  rw [if_neg sloppyZero]
  by_cases isZero : memory.shared.nonempty >>> lookupBucket granules = 0
  · rw [if_pos isZero]
    exact ⟨_, _, _, _, inventory, rfl, .refl _, unchanged.symm ▸ tracks⟩
  rw [if_neg isZero]
  have isSet := found_of_shift isZero
  have isFree := free (lookupBucket granules +
    (memory.shared.nonempty >>> lookupBucket granules).ctz.toNat) (Nat.le_add_right _ _)
  generalize lookupBucket granules +
    (memory.shared.nonempty >>> lookupBucket granules).ctz.toNat = idx at isSet isFree ⊢
  have nonempty := (tracks.sharedBits idx).mp isSet
  rw [acquireFrom, Outcome.check_bind isFree, Outcome.check_bind nonempty]
  refine ⟨_, _, _, _, inventory.take owner idx, rfl, sameHoles_take, ?_⟩
  have inRange : idx < 64 := BitVec.lt_of_getLsbD isSet
  exact
    { describes := tracks.describes.take nonempty isFree
      localBits := tracks.localBits_withLocal memory.words
        ((tracks.localBits owner).set inRange nonempty)
      sharedBits := tracks.sharedBits.advance isSet }

end Tracks

/-- The state of the loop of `nofl_holeset_release`: the bits that remain are those of the local
buckets, and the bits of the shared holeset are set ahead. -/
structure Releasing (inventory : Inventory Local) (memory : Holesets Local) (owner : Local)
    (remaining : BitVec 64) : Prop where
  describes : inventory.Describes memory
  localBits : ∀ other, other ≠ owner → BitsExact (memory.locals other)
  cleared : (memory.locals owner).nonempty = 0
  remains : ∀ idx, remaining.getLsbD idx = true ↔ (memory.locals owner).buckets idx ≠ 0
  sharedBits : ∀ idx, memory.shared.nonempty.getLsbD idx = true ↔
    memory.shared.buckets idx ≠ 0 ∨ remaining.getLsbD idx = true

namespace Releasing

variable {remaining : BitVec 64}

/-- What the loop does for one bit. -/
def released (memory : Holesets Local) (owner : Local) (idx : ℕ) : Holesets Local :=
  (memory.withLocal owner
    (update memory.words (nextChainOf ((memory.locals owner).buckets idx))
      (memory.shared.buckets idx))
    { memory.locals owner with buckets := update (memory.locals owner).buckets idx 0 }).withShared
    { memory.shared with
      buckets := update memory.shared.buckets idx ((memory.locals owner).buckets idx) }

theorem give (releasing : inventory.Releasing memory owner remaining)
    (isSet : remaining.getLsbD idx = true) :
    (inventory.give owner idx).Releasing (released memory owner idx) owner
      (remaining ^^^ bucketBit idx) := by
  have nonempty := (releasing.remains idx).mp isSet
  have flipped := getLsbD_xor_bucketBit isSet
  have localsOwner : (released memory owner idx).locals owner =
      ⟨(memory.locals owner).nonempty, update (memory.locals owner).buckets idx 0⟩ :=
    Holesets.locals_withLocal_self memory owner memory.words _
  refine
    { describes := releasing.describes.give nonempty
      localBits := ?_
      cleared := ?_
      remains := ?_
      sharedBits := ?_ }
  · intro other different
    have kept : (released memory owner idx).locals other = memory.locals other :=
      Holesets.locals_withLocal_of_ne memory owner memory.words _ different
    rw [kept]
    exact releasing.localBits other different
  · rw [localsOwner]
    exact releasing.cleared
  · intro other
    rw [localsOwner, flipped, releasing.remains]
    by_cases same : other = idx
    · simp [same]
    · simp [same]
  · intro other
    change memory.shared.nonempty.getLsbD other = true ↔
      update memory.shared.buckets idx ((memory.locals owner).buckets idx) other ≠ 0 ∨ _
    rw [flipped, releasing.sharedBits]
    by_cases same : other = idx
    · subst same
      simp [nonempty, isSet]
    · simp [same]

/-- When no bit remains, the bits are exact again. -/
theorem tracks (releasing : inventory.Releasing memory owner 0) : inventory.Tracks memory := by
  have noBit (idx : ℕ) : (0 : BitVec 64).getLsbD idx = false := BitVec.getLsbD_zero
  refine ⟨releasing.describes, ?_, ?_⟩
  · intro other
    by_cases same : other = owner
    · subst same
      intro idx
      rw [releasing.cleared, ← releasing.remains]
    · exact releasing.localBits other same
  · intro idx
    rw [releasing.sharedBits, noBit]
    simp

theorem releaseBuckets (releasing : inventory.Releasing memory owner remaining) (bits : ℕ)
    (notZero : remaining ≠ 0) (done : ∀ idx, idx + bits < 64 → remaining.getLsbD idx = false) :
    ∃ words holes shared after,
      Nofl.releaseBuckets bits remaining memory.words (memory.locals owner) memory.shared =
          .next (words, holes, shared) ∧
        inventory.SameHoles after ∧
        after.Tracks ((memory.withLocal owner words holes).withShared shared) := by
  induction bits generalizing inventory memory remaining with
  | zero =>
      exfalso
      apply notZero
      apply BitVec.eq_of_getLsbD_eq
      intro idx inWord
      rw [done idx inWord]
      simp
  | succ bits inductionHypothesis =>
      have isSet := BitVec.getLsbD_true_ctz_of_ne_zero notZero
      have below (idx : ℕ) (less : idx < remaining.ctz.toNat) : remaining.getLsbD idx = false :=
        BitVec.getLsbD_false_of_lt_ctz less
      rw [Nofl.releaseBuckets]
      generalize remaining.ctz.toNat = idx at isSet below ⊢
      have late : 64 ≤ idx + (bits + 1) := by
        by_contra early
        rw [done idx (by omega)] at isSet
        cases isSet
      have given := releasing.give isSet
      simp only []
      rw [Outcome.check_bind ((releasing.remains idx).mp isSet)]
      by_cases last : remaining ^^^ bucketBit idx = 0
      · rw [if_pos last]
        rw [last] at given
        exact ⟨_, _, _, inventory.give owner idx, rfl, sameHoles_give, given.tracks⟩
      · rw [if_neg last]
        obtain ⟨words, holes, shared, after, ran, same, tracks⟩ := inductionHypothesis given last
          (by
            intro other early
            rw [← Bool.not_eq_true, getLsbD_xor_bucketBit isSet]
            rintro ⟨isOther, different⟩
            rw [below other (by omega)] at isOther
            cases isOther)
        refine ⟨words, holes, shared, after, ?_, sameHoles_give.trans same, ?_⟩
        · rw [← ran]
          simp only [released, Holesets.locals_withShared, Holesets.locals_withLocal_self,
            Holesets.words_withShared, Holesets.words_withLocal, Holesets.shared_withShared]
        · rw [released, Holesets.withShared_withLocal_withShared] at tracks
          exact tracks

end Releasing

/-- `nofl_holeset_release` moves all holes of a local holeset to the shared one. -/
theorem Tracks.release (tracks : inventory.Tracks memory) (owner : Local) :
    ∃ words holes shared after,
      noflHolesetRelease memory.words (memory.locals owner) memory.shared =
          .next (words, holes, shared) ∧
        inventory.SameHoles after ∧
        after.Tracks ((memory.withLocal owner words holes).withShared shared) := by
  have unchanged : (memory.withLocal owner memory.words (memory.locals owner)).withShared
      memory.shared = memory := by
    rw [Holesets.withLocal, update_eq_self, Holesets.withShared]
  rw [noflHolesetRelease]
  by_cases isZero : (memory.locals owner).nonempty = 0
  · rw [if_pos isZero]
    exact ⟨_, _, _, inventory, rfl, .refl _, unchanged.symm ▸ tracks⟩
  rw [if_neg isZero]
  set started : Holesets Local :=
    (memory.withLocal owner memory.words { memory.locals owner with nonempty := 0 }).withShared
      { memory.shared with
        nonempty := memory.shared.nonempty ||| (memory.locals owner).nonempty } with isStarted
  have startedOwner : started.locals owner = { memory.locals owner with nonempty := 0 } :=
    Holesets.locals_withLocal_self memory owner memory.words _
  have startedOther (other : Local) (different : other ≠ owner) :
      started.locals other = memory.locals other :=
    Holesets.locals_withLocal_of_ne memory owner memory.words _ different
  have releasing : inventory.Releasing started owner (memory.locals owner).nonempty := by
    refine
      { describes := { tracks.describes with localHead := ?_ }
        localBits := ?_
        cleared := by rw [startedOwner]
        remains := ?_
        sharedBits := ?_ }
    · intro other idx
      rw [tracks.describes.localHead]
      by_cases same : other = owner
      · rw [same, startedOwner]
      · rw [startedOther other same]
    · intro other different
      rw [startedOther other different]
      exact tracks.localBits other
    · intro idx
      rw [startedOwner]
      exact tracks.localBits owner idx
    · intro idx
      change (memory.shared.nonempty ||| (memory.locals owner).nonempty).getLsbD idx = true ↔
        memory.shared.buckets idx ≠ 0 ∨ _
      rw [BitVec.getLsbD_or, Bool.or_eq_true, tracks.sharedBits]
  obtain ⟨words, holes, shared, after, ran, same, tracksAfter⟩ :=
    releasing.releaseBuckets 64 isZero (by omega)
  refine ⟨words, holes, shared, after, ?_, same, ?_⟩
  · rw [← ran, startedOwner]
    rfl
  · rw [isStarted, Holesets.withShared_withLocal_withShared] at tracksAfter
    exact tracksAfter

end Inventory


end Whippet.Nofl
