import Mathlib.Logic.Function.Basic
import Whippet.Library.Checked
import Whippet.Nofl.Metadata
import Whippet.Nofl.Space

/-!
Sets of holes (`nofl-holeset.h`).

A hole is free memory, and the links and the size of a hole are in its own first words. Small holes
are in buckets of one size each; larger ones are in buckets of a range of sizes and have their size
with them. The shared set has chains of whole buckets, linked through their first holes.

Owns: the operations of `nofl-holeset.h` on the words of memory, and that the holes from the lookup
bucket on are large enough. Does not own: what is in the buckets.
-/

namespace Whippet.Nofl

open Function

def NOFL_HOLESET_PACKED_GRANULES : ℕ := 50
def NOFL_HOLESET_SPARSE_COUNT : ℕ := 64 - NOFL_HOLESET_PACKED_GRANULES - 1
def NOFL_HOLESET_MAX_GRANULES : ℕ := 512

/-- What the assertions of `nofl-holeset.h` exclude, a shift by more than the width of a word, and
the use of a null hole. -/
inductive HolesetFailure where
  | nextNotNull
  | nextChainNotNull
  | nullHole
  | notSparse
  | notABucket
  | noGranules
  | sizeNotZero
  | tooManyGranules
  | shiftTooFar
  | bitNotSet
  | noSize
  | holeTooSmall
  | bucketInUse
  | loopNotDone
  deriving DecidableEq, Repr

/-- The words of memory, by the addresses they are at. -/
abbrev Words := ℕ → ℕ

/-- `&hole->next_chain`; the link `hole->next` is at the address of the hole. -/
def nextChainOf (hole : ℕ) : ℕ := hole + 8

/-- `&hole_with_size->granules`. -/
def granulesOf (hole : ℕ) : ℕ := hole + 16

/-- `struct nofl_holeset`: the first hole of each of the 64 buckets, zero if there is none. -/
structure Holeset where
  nonempty : BitVec 64
  buckets : ℕ → ℕ

/-- `((uint64_t)1) << idx`. -/
def bucketBit (idx : ℕ) : BitVec 64 := 1#64 <<< idx

/-- `nofl_hole_push`, with the link that `loc` has after it. -/
def noflHolePush (words : Words) (loc hole : ℕ) : Outcome HolesetFailure (Words × ℕ) := do
  Outcome.check (words hole = 0) .nextNotNull
  Outcome.check (words (nextChainOf hole) = 0) .nextChainNotNull
  return (update words hole loc, hole)

/-- `nofl_hole_pop`, with the link that `loc` has after it; the hole is the one `loc` had. -/
def noflHolePop (words : Words) (loc : ℕ) : Outcome HolesetFailure (Words × ℕ) := do
  Outcome.check (loc ≠ 0) .nullHole
  Outcome.check (words (nextChainOf loc) = 0) .nextChainNotNull
  return (update words loc 0, words loc)

/-- What is added to `idx` in `nofl_holeset_sparse_bucket`. A quotient that is no integer is at
least `1 / denom` from one, so its rounding to a double changes neither floor nor ceiling. -/
def sparseOffset (granules : ℕ) (forInsert : Bool) : ℕ :=
  let num := granules - NOFL_HOLESET_PACKED_GRANULES
  let denom := NOFL_HOLESET_MAX_GRANULES - NOFL_HOLESET_PACKED_GRANULES
  let floor := num * NOFL_HOLESET_SPARSE_COUNT / denom
  let ceil := (num * NOFL_HOLESET_SPARSE_COUNT + (denom - 1)) / denom
  min (if forInsert then floor else ceil) NOFL_HOLESET_SPARSE_COUNT

def noflHolesetSparseBucket (granules : ℕ) (forInsert : Bool) : Outcome HolesetFailure ℕ := do
  Outcome.check (NOFL_HOLESET_PACKED_GRANULES ≤ granules) .notSparse
  let idx := NOFL_HOLESET_PACKED_GRANULES + sparseOffset granules forInsert
  Outcome.check (idx < 64) .notABucket
  return idx

/-- `nofl_holeset_bucket_for_lookup`; for no granules the subtraction wraps around. -/
def noflHolesetBucketForLookup (granules : ℕ) : Outcome HolesetFailure ℕ :=
  if granules ≤ NOFL_HOLESET_PACKED_GRANULES then
    pure (if granules = 0 then SIZE_MAX else granules - 1)
  else noflHolesetSparseBucket granules false

/-- The end of `nofl_holeset_push_local`, from the call of `nofl_hole_push` on. -/
def pushAt (words : Words) (holes : Holeset) (idx hole : ℕ) :
    Outcome HolesetFailure (Words × Holeset) := do
  let (words, head) ← noflHolePush words (holes.buckets idx) hole
  return (words, ⟨holes.nonempty ||| bucketBit idx, update holes.buckets idx head⟩)

def noflHolesetPushLocal (words : Words) (holes : Holeset) (addr granules : ℕ) :
    Outcome HolesetFailure (Words × Holeset) :=
  if granules ≤ NOFL_HOLESET_PACKED_GRANULES then do
    Outcome.check (0 < granules) .noGranules
    pushAt words holes (granules - 1) addr
  else do
    Outcome.check (words (granulesOf addr) = 0) .sizeNotZero
    let idx ← noflHolesetSparseBucket granules true
    pushAt (update words (granulesOf addr) granules) holes idx addr

def noflHoleTailAddress (hole granules : ℕ) : ℕ := hole + granules * NOFL_GRANULE_SIZE

/-- The size of a hole of a bucket; a size that is in memory is erased there. -/
def takeGranules (words : Words) (idx hole : ℕ) : Outcome HolesetFailure (Words × ℕ) :=
  if idx < NOFL_HOLESET_PACKED_GRANULES then pure (words, idx + 1)
  else do
    Outcome.check (words (granulesOf hole) ≠ 0) .noSize
    return (update words (granulesOf hole) 0, words (granulesOf hole))

/-- `nofl_holeset_try_pop` from where the bucket is known. -/
def tryPopFrom (words : Words) (holes : Holeset) (granules idx : ℕ) :
    Outcome HolesetFailure (Words × Holeset × ℕ) := do
  let ret := holes.buckets idx
  let (words, head) ← noflHolePop words ret
  Outcome.check (holes.nonempty.getLsbD idx = true) .bitNotSet
  let holes : Holeset :=
    ⟨if head = 0 then holes.nonempty ^^^ bucketBit idx else holes.nonempty,
      update holes.buckets idx head⟩
  let (words, holeGranules) ← takeGranules words idx ret
  Outcome.check (granules ≤ holeGranules) .holeTooSmall
  let tailGranules := holeGranules - granules
  if tailGranules = 0 then return (words, holes, ret)
  else do
    let (words, holes) ←
      noflHolesetPushLocal words holes (noflHoleTailAddress ret granules) tailGranules
    return (words, holes, ret)

/-- `nofl_holeset_try_pop`; a null reference is zero. -/
def noflHolesetTryPop (words : Words) (holes : Holeset) (granules : ℕ) :
    Outcome HolesetFailure (Words × Holeset × ℕ) := do
  Outcome.check (granules ≤ NOFL_HOLESET_MAX_GRANULES) .tooManyGranules
  let minIdx ← noflHolesetBucketForLookup granules
  Outcome.check (minIdx < 64) .shiftTooFar
  let candidates := holes.nonempty >>> minIdx
  if candidates = 0 then return (words, holes, 0)
  else tryPopFrom words holes granules (minIdx + candidates.ctz.toNat)

/-- The loop of `nofl_holeset_release`, for as many more bits as `bits` says. -/
def releaseBuckets : ℕ → BitVec 64 → Words → Holeset → Holeset →
    Outcome HolesetFailure (Words × Holeset × Holeset)
  | 0, _, _, _, _ => .failed .loopNotDone
  | bits + 1, nonempty, words, holes, remote => do
      let idx := nonempty.ctz.toNat
      let hole := holes.buckets idx
      Outcome.check (hole ≠ 0) .nullHole
      let words := update words (nextChainOf hole) (remote.buckets idx)
      let holes := { holes with buckets := update holes.buckets idx 0 }
      let remote := { remote with buckets := update remote.buckets idx hole }
      let nonempty := nonempty ^^^ bucketBit idx
      if nonempty = 0 then return (words, holes, remote)
      else releaseBuckets bits nonempty words holes remote

def noflHolesetRelease (words : Words) (holes remote : Holeset) :
    Outcome HolesetFailure (Words × Holeset × Holeset) :=
  if holes.nonempty = 0 then return (words, holes, remote)
  else releaseBuckets 64 holes.nonempty words { holes with nonempty := 0 }
    { remote with nonempty := remote.nonempty ||| holes.nonempty }

/-- `nofl_holeset_acquire` from where the bucket is known. -/
def acquireFrom (words : Words) (holes remote : Holeset) (idx : ℕ) :
    Outcome HolesetFailure (Words × Holeset × Holeset × Bool) := do
  Outcome.check (holes.buckets idx = 0) .bucketInUse
  let chain := remote.buckets idx
  Outcome.check (chain ≠ 0) .nullHole
  let nextChain := words (nextChainOf chain)
  let remote : Holeset :=
    ⟨if nextChain = 0 then remote.nonempty ^^^ bucketBit idx else remote.nonempty,
      update remote.buckets idx nextChain⟩
  let holes : Holeset := ⟨holes.nonempty ||| bucketBit idx, update holes.buckets idx chain⟩
  return (update words (nextChainOf chain) 0, holes, remote, true)

/-- `nofl_holeset_acquire`. What the load without the lock finds may be out of date. -/
def noflHolesetAcquire (words : Words) (holes remote : Holeset) (granules : ℕ)
    (sloppyNonempty : BitVec 64) : Outcome HolesetFailure (Words × Holeset × Holeset × Bool) := do
  let minIdx ← noflHolesetBucketForLookup granules
  Outcome.check (minIdx < 64) .shiftTooFar
  if sloppyNonempty >>> minIdx = 0 then return (words, holes, remote, false)
  else
    let nonempty := remote.nonempty >>> minIdx
    if nonempty = 0 then return (words, holes, remote, false)
    else acquireFrom words holes remote (minIdx + nonempty.ctz.toNat)

section Buckets

variable {granules holeGranules idx : ℕ}

/-- The bucket that a hole is put into. -/
def insertBucket (granules : ℕ) : ℕ :=
  if granules ≤ NOFL_HOLESET_PACKED_GRANULES then granules - 1
  else NOFL_HOLESET_PACKED_GRANULES + sparseOffset granules true

/-- The first bucket that is looked into for a number of granules. -/
def lookupBucket (granules : ℕ) : ℕ :=
  if granules ≤ NOFL_HOLESET_PACKED_GRANULES then granules - 1
  else NOFL_HOLESET_PACKED_GRANULES + sparseOffset granules false

theorem sparseOffset_le (granules : ℕ) (forInsert : Bool) : sparseOffset granules forInsert ≤ 13 :=
  Nat.min_le_right _ _

theorem insertBucket_lt (granules : ℕ) : insertBucket granules < 64 := by
  have bound := sparseOffset_le granules true
  have packed : NOFL_HOLESET_PACKED_GRANULES = 50 := rfl
  rw [insertBucket]
  split_ifs <;> omega

theorem lookupBucket_lt (granules : ℕ) : lookupBucket granules < 64 := by
  have bound := sparseOffset_le granules false
  have packed : NOFL_HOLESET_PACKED_GRANULES = 50 := rfl
  rw [lookupBucket]
  split_ifs <;> omega

theorem insertBucket_lt_iff (positive : 0 < granules) :
    insertBucket granules < NOFL_HOLESET_PACKED_GRANULES ↔
      granules ≤ NOFL_HOLESET_PACKED_GRANULES := by
  rw [insertBucket]
  split_ifs <;> omega

/-- A hole in the lookup bucket or above it is large enough: the bucket of a hole is rounded down,
and that of a request up. -/
theorem le_of_lookupBucket_le (positive : 0 < holeGranules)
    (inRange : granules ≤ NOFL_HOLESET_MAX_GRANULES)
    (above : lookupBucket granules ≤ insertBucket holeGranules) : granules ≤ holeGranules := by
  have floor : sparseOffset holeGranules true = min ((holeGranules - 50) * 13 / 462) 13 := rfl
  have ceil : sparseOffset granules false = min (((granules - 50) * 13 + 461) / 462) 13 := rfl
  have packed : NOFL_HOLESET_PACKED_GRANULES = 50 := rfl
  rw [NOFL_HOLESET_MAX_GRANULES] at inRange
  rw [lookupBucket, insertBucket] at above
  split_ifs at above <;> omega

theorem noflHolesetSparseBucket_eq (forInsert : Bool)
    (sparse : ¬granules ≤ NOFL_HOLESET_PACKED_GRANULES) :
    noflHolesetSparseBucket granules forInsert =
      .next (NOFL_HOLESET_PACKED_GRANULES + sparseOffset granules forInsert) := by
  have bound := sparseOffset_le granules forInsert
  have inRange : NOFL_HOLESET_PACKED_GRANULES + sparseOffset granules forInsert < 64 := by
    simp only [NOFL_HOLESET_PACKED_GRANULES]
    omega
  rw [noflHolesetSparseBucket, Outcome.check_bind_eq_next]
  refine ⟨by omega, ?_⟩
  rw [Outcome.check_bind_eq_next]
  exact ⟨inRange, rfl⟩

theorem noflHolesetBucketForLookup_eq (positive : 0 < granules) :
    noflHolesetBucketForLookup granules = .next (lookupBucket granules) := by
  rw [noflHolesetBucketForLookup, lookupBucket]
  by_cases packed : granules ≤ NOFL_HOLESET_PACKED_GRANULES
  · rw [if_pos packed, if_pos packed, if_neg (by omega)]
    rfl
  · rw [if_neg packed, if_neg packed]
    exact noflHolesetSparseBucket_eq false packed

theorem getLsbD_bucketBit (idx other : ℕ) :
    (bucketBit idx).getLsbD other = (decide (other < 64) && decide (other = idx)) := by
  rw [bucketBit, BitVec.getLsbD_shiftLeft, BitVec.getLsbD_one]
  by_cases inWord : other < 64
  · by_cases same : other = idx
    · simp [same]
    · simp [inWord, same]
      omega
  · simp [inWord]

end Buckets

end Whippet.Nofl
