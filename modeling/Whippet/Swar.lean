import Whippet.Library.Bytes
import Whippet.Library.Checked
import Whippet.Tables.HashTable

/-!
Scanning eight bytes at a time (`swar.h`).

Memory is a byte for each address. A scan loads aligned words; where it starts within a word, it
shifts the bytes before its start out and zeros in.

Owns: loads, matching the bytes of a word against bits and against a tag, the scans in both
directions with their assertions, and that they find what a scan byte by byte finds. Does not own:
what the bytes mean.
-/

namespace Whippet.Swar

open Tables (Word)
open Bytes

abbrev Byte := BitVec 8

/-- The assertions of the scans, by function. -/
inductive SwarAssertion where
  /-- `load_eight_aligned_bytes`. -/
  | unalignedLoad
  /-- `match_bytes_against_tag`, on its tag. -/
  | tagOutsideMask
  /-- `match_bytes_against_tag`, on its mask. -/
  | maskNotLowBits
  /-- `scan_for_byte_with_tag`. -/
  | zeroTag
  /-- `scan_backwards_for_byte_with_bits`, before its loop. -/
  | unalignedBase
  /-- `scan_backwards_for_byte_with_bits`, in its loop. -/
  | belowBase
  deriving DecidableEq, Repr

/-! ## Words -/

def countZeroBytes (bytes : Word) : ℕ :=
  if bytes ≠ 0 then bytes.ctz.toNat / 8 else 8

/-- The word at an address, least significant byte first. -/
def wordAt (memory : ℕ → Byte) (ptr : ℕ) : Word :=
  memory (ptr + 7) ++ memory (ptr + 6) ++ memory (ptr + 5) ++ memory (ptr + 4) ++
    memory (ptr + 3) ++ memory (ptr + 2) ++ memory (ptr + 1) ++ memory ptr

def loadEightAlignedBytes (memory : ℕ → Byte) (ptr : ℕ) : Outcome SwarAssertion Word := do
  Outcome.check (ptr % 8 = 0) .unalignedLoad
  pure (wordAt memory ptr)

def matchBytesAgainstBits (bytes : Word) (mask : Byte) : Word := bytes &&& broadcastByte mask

def matchBytesAgainstTag (mask tag : Byte) (bytes : Word) : Outcome SwarAssertion Word := do
  Outcome.check (tag &&& mask = tag) .tagOutsideMask
  Outcome.check (mask &&& 0x7f = mask) .maskNotLowBits
  Outcome.check (mask ≠ 0) .maskNotLowBits
  Outcome.check (mask &&& (mask + 1) = 0) .maskNotLowBits
  let vmask := broadcastByte mask
  let vtest := broadcastByte (mask + 1)
  let vtag := broadcastByte tag
  let m := ((bytes &&& vmask) ^^^ vtag) + vmask
  pure ((m &&& vtest) ^^^ vtest)

/-! ## Scans -/

section Scans

variable (memory : ℕ → Byte) (matchBytes : Word → Outcome SwarAssertion Word) (ptr limit : ℕ)

/-- `for (; n < limit; n += 8)`. -/
def scanWords (n : ℕ) : Outcome SwarAssertion ℕ :=
  if n < limit then do
    let bytes ← loadEightAlignedBytes memory (ptr + n)
    let found ← matchBytes bytes
    if found ≠ 0 then pure (n + countZeroBytes found) else scanWords (n + 8)
  else pure limit
termination_by limit - n

/-- A scan for a byte that a word is matched for. -/
def scanForByte : Outcome SwarAssertion ℕ :=
  let unaligned := ptr % 8
  if unaligned ≠ 0 then do
    let bytes ← loadEightAlignedBytes memory (ptr - unaligned)
    let found ← matchBytes (bytes >>> (unaligned * 8))
    if found ≠ 0 then pure (countZeroBytes found)
    else scanWords memory matchBytes ptr limit (8 - unaligned)
  else scanWords memory matchBytes ptr limit 0

def scanForByteWithBits (mask : Byte) : Outcome SwarAssertion ℕ :=
  scanForByte memory (fun bytes => pure (matchBytesAgainstBits bytes mask)) ptr limit

def scanForByteWithTag (mask tag : Byte) : Outcome SwarAssertion ℕ := do
  Outcome.check (tag ≠ 0) .zeroTag
  scanForByte memory (matchBytesAgainstTag mask tag) ptr limit

/-- `for (; ptr > base; ptr -= 8)`. -/
def scanWordsBackwards (base : ℕ) (mask : Byte) (ptr : ℕ) : Outcome SwarAssertion (Option ℕ) :=
  if ptr > base then do
    Outcome.check (ptr ≥ base + 8) .belowBase
    let bytes ← loadEightAlignedBytes memory (ptr - 8)
    let found := matchBytesAgainstBits bytes mask
    if found ≠ 0 then pure (some (ptr - 1 - found.clz.toNat / 8))
    else scanWordsBackwards base mask (ptr - 8)
  else pure none
termination_by ptr

def scanBackwardsForByteWithBits (base : ℕ) (mask : Byte) : Outcome SwarAssertion (Option ℕ) := do
  Outcome.check (base % 8 = 0) .unalignedBase
  let unaligned := ptr % 8
  if unaligned ≠ 0 then do
    let bytes ← loadEightAlignedBytes memory (ptr - unaligned)
    let found := matchBytesAgainstBits (bytes <<< ((8 - unaligned) * 8)) mask
    if found ≠ 0 then pure (some (ptr - 1 - found.clz.toNat / 8))
    else scanWordsBackwards memory base mask (ptr - unaligned)
  else scanWordsBackwards memory base mask ptr

end Scans

/-! ## Matches -/

section Matches

variable {memory : ℕ → Byte} {ptr base index limit n : ℕ} {bytes : Word} {mask tag byte : Byte}

theorem byteAt_wordAt (inWord : index < 8) :
    byteAt (wordAt memory ptr) index = memory (ptr + index) := by
  have cases : index = 0 ∨ index = 1 ∨ index = 2 ∨ index = 3 ∨ index = 4 ∨ index = 5 ∨ index = 6 ∨
    index = 7 := by omega
  apply BitVec.eq_of_getLsbD_eq
  intro bit inByte
  rw [getLsbD_byteAt inByte, wordAt]
  simp only [BitVec.getLsbD_append]
  rcases cases with rfl | rfl | rfl | rfl | rfl | rfl | rfl | rfl <;>
    simp (disch := omega) only [if_neg, if_pos] <;>
    congr 1 <;> omega

theorem load_of_aligned (aligned : ptr % 8 = 0) :
    loadEightAlignedBytes memory ptr = .next (wordAt memory ptr) := by
  rw [loadEightAlignedBytes, Outcome.check, if_pos aligned]
  rfl

theorem countZeroBytes_of_ne_zero (notZero : bytes ≠ 0) :
    countZeroBytes bytes = bytes.ctz.toNat / 8 := if_pos notZero

/-- A match of words says of each byte whether it hits, and zero does not. -/
structure Matches (matchBytes : Word → Outcome SwarAssertion Word) (hits : Byte → Prop) : Prop where
  byte_ne_zero : ∀ bytes, ∃ found, matchBytes bytes = .next found ∧
    ∀ index < 8, byteAt found index ≠ 0 ↔ hits (byteAt bytes index)
  zero : ¬hits 0

theorem byteAt_matchBytesAgainstBits (inWord : index < 8) :
    byteAt (matchBytesAgainstBits bytes mask) index = byteAt bytes index &&& mask := by
  rw [matchBytesAgainstBits, byteAt_and, byteAt_broadcastByte inWord]

theorem matches_bits (mask : Byte) :
    Matches (fun bytes => pure (matchBytesAgainstBits bytes mask))
        (fun byte => byte &&& mask ≠ 0) := by
  constructor
  · intro bytes
    refine ⟨_, rfl, ?_⟩
    intro index inWord
    rw [byteAt_matchBytesAgainstBits inWord]
  · intro hitsZero
    exact hitsZero BitVec.zero_and

/-- What a tag and its mask are: the mask has the lowest bits, and not the highest one. -/
structure IsTag (mask tag : Byte) : Prop where
  inMask : tag &&& mask = tag
  below : mask &&& 0x7f = mask
  nonempty : mask ≠ 0
  low : mask &&& (mask + 1) = 0

namespace IsTag

theorem mask_cases (isTag : IsTag mask tag) :
    mask = 1 ∨ mask = 3 ∨ mask = 7 ∨ mask = 15 ∨ mask = 31 ∨ mask = 63 ∨ mask = 127 := by
  have all : ∀ mask : Byte, mask &&& 0x7f = mask → mask ≠ 0 → mask &&& (mask + 1) = 0 →
      mask = 1 ∨ mask = 3 ∨ mask = 7 ∨ mask = 15 ∨ mask = 31 ∨ mask = 63 ∨ mask = 127 := by
    decide +kernel
  exact all mask isTag.below isTag.nonempty isTag.low

theorem xor_and (isTag : IsTag mask tag) :
    ((byte &&& mask) ^^^ tag) &&& mask = (byte &&& mask) ^^^ tag := by
  ext index inByte
  have bits := congrArg (fun value : Byte => value[index]) isTag.inMask
  simp only [BitVec.getElem_and, BitVec.getElem_xor] at bits ⊢
  grind

/-- Adding the mask to bits within it carries into the bit above just if some bit is set. -/
theorem carries_iff (isTag : IsTag mask tag) {bits : Byte} (inMask : bits &&& mask = bits) :
    bits.toNat + mask.toNat < 256 ∧
      (((bits + mask) &&& (mask + 1)) ^^^ (mask + 1) ≠ 0 ↔ bits = 0) := by
  have all : ∀ mask ∈ [1, 3, 7, 15, 31, 63, (127 : Byte)], ∀ bits : Byte, bits &&& mask = bits →
      bits.toNat + mask.toNat < 256 ∧
        (((bits + mask) &&& (mask + 1)) ^^^ (mask + 1) ≠ 0 ↔ bits = 0) := by
    decide +kernel
  apply all mask _ bits inMask
  rcases isTag.mask_cases with rfl | rfl | rfl | rfl | rfl | rfl | rfl <;> simp

/-- The preconditions of the match hold. -/
theorem match_eq (isTag : IsTag mask tag) (bytes : Word) :
    matchBytesAgainstTag mask tag bytes =
      .next (((((bytes &&& broadcastByte mask) ^^^ broadcastByte tag) + broadcastByte mask) &&&
        broadcastByte (mask + 1)) ^^^ broadcastByte (mask + 1)) := by
  rw [matchBytesAgainstTag]
  simp only [Outcome.check_bind_eq_next, Outcome.pure_eq_next]
  exact ⟨isTag.inMask, isTag.below, isTag.nonempty, isTag.low, trivial⟩

/-- A match against a tag hits the bytes with that tag. -/
theorem isMatch (isTag : IsTag mask tag) (notZero : tag ≠ 0) :
    Matches (matchBytesAgainstTag mask tag) (fun byte => byte &&& mask = tag) := by
  constructor
  · intro bytes
    refine ⟨_, isTag.match_eq bytes, ?_⟩
    have within : ∀ index < 8,
        byteAt ((bytes &&& broadcastByte mask) ^^^ broadcastByte tag) index &&& mask =
          byteAt ((bytes &&& broadcastByte mask) ^^^ broadcastByte tag) index := by
      intro index inWord
      rw [byteAt_xor, byteAt_and, byteAt_broadcastByte inWord, byteAt_broadcastByte inWord]
      exact isTag.xor_and
    have noOverflow : ∀ index < 8,
        (byteAt ((bytes &&& broadcastByte mask) ^^^ broadcastByte tag) index).toNat +
          (byteAt (broadcastByte mask) index).toNat < 256 := by
      intro index inWord
      rw [byteAt_broadcastByte inWord]
      exact (isTag.carries_iff (within index inWord)).1
    intro index inWord
    rw [byteAt_xor, byteAt_and, byteAt_add noOverflow inWord, byteAt_broadcastByte inWord,
      byteAt_broadcastByte inWord, (isTag.carries_iff (within index inWord)).2, byteAt_xor,
      byteAt_and, byteAt_broadcastByte inWord, byteAt_broadcastByte inWord]
    exact BitVec.xor_eq_zero_iff
  · intro isZero
    exact notZero (isZero.symm.trans BitVec.zero_and)

end IsTag

end Matches

/-! ## What the scans find -/

section Found

variable {memory : ℕ → Byte} {matchBytes : Word → Outcome SwarAssertion Word} {hits : Byte → Prop}
variable {ptr base limit n distance : ℕ} {bytes found : Word} {mask tag : Byte}

/-- How far the first byte that hits is, or the limit. -/
structure IsFirst (memory : ℕ → Byte) (hits : Byte → Prop) (ptr limit distance : ℕ) : Prop where
  le_limit : distance ≤ limit
  before : ∀ offset < distance, ¬hits (memory (ptr + offset))
  here : distance < limit → hits (memory (ptr + distance))

/-- The scan does not look at bytes beyond its limit, or does not get that far. -/
def EndsAt (memory : ℕ → Byte) (hits : Byte → Prop) (ptr limit : ℕ) : Prop :=
  (ptr + limit) % 8 = 0 ∨ ∃ offset < limit, hits (memory (ptr + offset))

/-- The first byte found in a match that has the bytes from `n` on. -/
theorem isFirst_of_match (ends : EndsAt memory hits ptr limit) (notZero : found ≠ 0)
    (before : ∀ offset < n, ¬hits (memory (ptr + offset)))
    {loaded : ℕ} (aligned : (ptr + n + loaded) % 8 = 0) (fits : loaded ≤ 8) (inLimit : n < limit)
    (isMatch : ∀ index < loaded, byteAt found index ≠ 0 ↔ hits (memory (ptr + n + index)))
    (rest : ∀ index < 8, loaded ≤ index → byteAt found index = 0) :
    IsFirst memory hits ptr limit (n + countZeroBytes found) := by
  obtain ⟨inWord, notZeroHere, zeroBefore⟩ := ctz_spec notZero
  rw [← countZeroBytes_of_ne_zero notZero] at inWord notZeroHere zeroBefore
  have inLoaded : countZeroBytes found < loaded := by
    by_contra beyond
    exact notZeroHere (rest _ inWord (Nat.not_lt.mp beyond))
  have hitsHere := (isMatch _ inLoaded).mp notZeroHere
  have noneBefore : ∀ offset < n + countZeroBytes found, ¬hits (memory (ptr + offset)) := by
    intro offset below
    by_cases early : offset < n
    · exact before offset early
    · have same : ptr + offset = ptr + n + (offset - n) := by omega
      rw [same, ← isMatch _ (by omega), not_not]
      exact zeroBefore _ (by omega)
  have within : n + countZeroBytes found < limit := by
    rcases ends with alignedEnd | ⟨offset, below, hitsThere⟩
    · omega
    · by_contra beyond
      exact noneBefore offset (by omega) hitsThere
  refine ⟨within.le, noneBefore, ?_⟩
  intro _
  rw [← Nat.add_assoc]
  exact hitsHere

/-- Without a match, none of the bytes that were looked at hits. -/
theorem none_of_match (isZero : found = 0)
    (before : ∀ offset < n, ¬hits (memory (ptr + offset)))
    {loaded : ℕ}
    (isMatch : ∀ index < loaded, byteAt found index ≠ 0 ↔ hits (memory (ptr + n + index))) :
    ∀ offset < n + loaded, ¬hits (memory (ptr + offset)) := by
  intro offset below
  by_cases early : offset < n
  · exact before offset early
  · have same : ptr + offset = ptr + n + (offset - n) := by omega
    rw [same, ← isMatch _ (by omega), not_not, isZero, byteAt_zero]

theorem scanWords_spec (isMatch : Matches matchBytes hits) (ends : EndsAt memory hits ptr limit)
    (n : ℕ) (aligned : (ptr + n) % 8 = 0)
    (before : ∀ offset < n, offset < limit → ¬hits (memory (ptr + offset))) :
    ∃ distance, scanWords memory matchBytes ptr limit n = .next distance ∧
      IsFirst memory hits ptr limit distance := by
  fun_induction scanWords memory matchBytes ptr limit n with
  | case1 n inLimit inductionHypothesis =>
      have noneBefore : ∀ offset < n, ¬hits (memory (ptr + offset)) :=
        fun offset below => before offset below (by omega)
      obtain ⟨found, matched, byte_iff⟩ := isMatch.byte_ne_zero (wordAt memory (ptr + n))
      have isHit : ∀ index < 8, byteAt found index ≠ 0 ↔ hits (memory (ptr + n + index)) := by
        intro index inWord
        rw [byte_iff index inWord, byteAt_wordAt inWord]
      rw [load_of_aligned aligned, Outcome.bind_next, matched, Outcome.bind_next]
      by_cases notZero : found ≠ 0
      · rw [if_pos notZero]
        refine ⟨_, rfl, ?_⟩
        apply isFirst_of_match ends notZero noneBefore (by omega) (Nat.le_refl 8) inLimit isHit
        intro index inWord outside
        omega
      · rw [if_neg notZero]
        apply inductionHypothesis (by omega)
        intro offset below _
        exact none_of_match (not_not.mp notZero) noneBefore isHit offset below
  | case2 n outside =>
      refine ⟨limit, rfl, Nat.le_refl limit, ?_, fun below => absurd below (Nat.lt_irrefl limit)⟩
      intro offset below
      exact before offset (by omega) below

theorem scanForByte_spec (isMatch : Matches matchBytes hits)
    (ends : EndsAt memory hits ptr limit) :
    ∃ distance, scanForByte memory matchBytes ptr limit = .next distance ∧
      IsFirst memory hits ptr limit distance := by
  rw [scanForByte]
  by_cases unaligned : ptr % 8 ≠ 0
  · simp only [if_pos unaligned]
    have positive : 0 < limit := by
      rcases ends with alignedEnd | ⟨offset, below, -⟩
      · omega
      · omega
    obtain ⟨found, matched, byte_iff⟩ :=
      isMatch.byte_ne_zero (wordAt memory (ptr - ptr % 8) >>> (ptr % 8 * 8))
    have isHit : ∀ index < 8 - ptr % 8,
        byteAt found index ≠ 0 ↔ hits (memory (ptr + 0 + index)) := by
      intro index inWord
      rw [byte_iff index (by omega), byteAt_shiftRight, byteAt_wordAt (by omega)]
      have same : ptr - ptr % 8 + (index + ptr % 8) = ptr + 0 + index := by omega
      rw [same]
    have rest : ∀ index < 8, 8 - ptr % 8 ≤ index → byteAt found index = 0 := by
      intro index inWord outside
      by_contra notZero
      have hitsThere := (byte_iff index inWord).mp notZero
      rw [byteAt_shiftRight, byteAt_eq_zero_of_le (by omega)] at hitsThere
      exact isMatch.zero hitsThere
    have noneBefore : ∀ offset < 0, ¬hits (memory (ptr + offset)) := nofun
    rw [load_of_aligned (by omega), Outcome.bind_next, matched, Outcome.bind_next]
    by_cases notZero : found ≠ 0
    · rw [if_pos notZero]
      refine ⟨_, rfl, ?_⟩
      have isFirst := isFirst_of_match ends notZero noneBefore (by omega) (by omega) positive isHit
        rest
      rwa [Nat.zero_add] at isFirst
    · rw [if_neg notZero]
      apply scanWords_spec isMatch ends _ (by omega)
      intro offset below _
      apply none_of_match (not_not.mp notZero) noneBefore isHit offset
      omega
  · simp only [if_neg unaligned]
    exact scanWords_spec isMatch ends 0 (by omega) nofun

theorem scanForByteWithTag_spec (isTag : IsTag mask tag) (notZero : tag ≠ 0)
    (ends : EndsAt memory (fun byte => byte &&& mask = tag) ptr limit) :
    ∃ distance, scanForByteWithTag memory ptr limit mask tag = .next distance ∧
      IsFirst memory (fun byte => byte &&& mask = tag) ptr limit distance := by
  obtain ⟨distance, scanned, isFirst⟩ := scanForByte_spec (isTag.isMatch notZero) ends
  refine ⟨distance, ?_, isFirst⟩
  rw [scanForByteWithTag, Outcome.check_bind_eq_next]
  exact ⟨notZero, scanned⟩

/-- The last byte with some of the bits of a mask, before an address and not before a base. -/
structure IsLast (memory : ℕ → Byte) (mask : Byte) (base ptr loc : ℕ) : Prop where
  ge_base : base ≤ loc
  lt_ptr : loc < ptr
  here : memory loc &&& mask ≠ 0
  after : ∀ other, loc < other → other < ptr → memory other &&& mask = 0

/-- What a scan backwards finds. -/
def FindsLast (memory : ℕ → Byte) (mask : Byte) (base ptr : ℕ) : Option ℕ → Prop
  | some loc => IsLast memory mask base ptr loc
  | none => ∀ other, base ≤ other → other < ptr → memory other &&& mask = 0

/-- The last byte found in a match that has the bytes up to `ptr`. -/
theorem isLast_of_match {stop loaded : ℕ} (notZero : found ≠ 0) (fits : loaded ≤ 8)
    (inRange : base + loaded ≤ ptr)
    (isMatch : ∀ index < loaded,
      byteAt found (8 - loaded + index) = memory (ptr - loaded + index) &&& mask)
    (rest : ∀ index < 8 - loaded, byteAt found index = 0)
    (none : ∀ other, ptr ≤ other → other < stop → memory other &&& mask = 0)
    (inside : ptr ≤ stop) :
    IsLast memory mask base stop (ptr - 1 - found.clz.toNat / 8) := by
  obtain ⟨inWord, notZeroHere, zeroAfter⟩ := clz_spec notZero
  have inLoaded : found.clz.toNat / 8 < loaded := by
    by_contra beyond
    exact notZeroHere (rest _ (by omega))
  have atByte : ∀ index < loaded, memory (ptr - 1 - index) &&& mask = byteAt found (7 - index) := by
    intro index below
    have byte := isMatch (loaded - 1 - index) (by omega)
    rw [show ptr - loaded + (loaded - 1 - index) = ptr - 1 - index by omega,
      show 8 - loaded + (loaded - 1 - index) = 7 - index by omega] at byte
    exact byte.symm
  refine ⟨by omega, by omega, ?_, ?_⟩
  · rw [atByte _ inLoaded]
    exact notZeroHere
  · intro other later below
    by_cases beyond : ptr ≤ other
    · exact none other beyond below
    · have same : other = ptr - 1 - (ptr - 1 - other) := by omega
      rw [same, atByte _ (by omega)]
      exact zeroAfter _ (by omega) (by omega)

theorem none_of_match_before {stop loaded : ℕ} (isZero : found = 0)
    (isMatch : ∀ index < loaded,
      byteAt found (8 - loaded + index) = memory (ptr - loaded + index) &&& mask)
    (none : ∀ other, ptr ≤ other → other < stop → memory other &&& mask = 0) :
    ∀ other, ptr - loaded ≤ other → other < stop → memory other &&& mask = 0 := by
  intro other later below
  by_cases beyond : ptr ≤ other
  · exact none other beyond below
  · have byte := isMatch (other - (ptr - loaded)) (by omega)
    rw [show ptr - loaded + (other - (ptr - loaded)) = other by omega, isZero, byteAt_zero] at byte
    exact byte.symm

theorem scanWordsBackwards_spec {stop : ℕ} (alignedBase : base % 8 = 0) (aligned : ptr % 8 = 0)
    (inRange : base ≤ ptr) (inside : ptr ≤ stop)
    (none : ∀ other, ptr ≤ other → other < stop → memory other &&& mask = 0) :
    ∃ result, scanWordsBackwards memory base mask ptr = .next result ∧
      FindsLast memory mask base stop result := by
  induction ptr using Nat.strongRecOn with
  | ind ptr inductionHypothesis =>
      rw [scanWordsBackwards]
      by_cases above : ptr > base
      · have enough : ptr ≥ base + 8 := by omega
        have isMatch : ∀ index < 8,
            byteAt (matchBytesAgainstBits (wordAt memory (ptr - 8)) mask) (8 - 8 + index) =
              memory (ptr - 8 + index) &&& mask := by
          intro index inWord
          rw [Nat.sub_self, Nat.zero_add, byteAt_matchBytesAgainstBits inWord, byteAt_wordAt inWord]
        rw [if_pos above, Outcome.check, if_pos enough, Outcome.bind_next,
          load_of_aligned (by omega), Outcome.bind_next]
        by_cases notZero : matchBytesAgainstBits (wordAt memory (ptr - 8)) mask ≠ 0
        · simp only [if_pos notZero]
          refine ⟨_, rfl, ?_⟩
          apply isLast_of_match notZero (Nat.le_refl 8) (by omega) isMatch _ none inside
          intro index inWord
          omega
        · simp only [if_neg notZero]
          apply inductionHypothesis (ptr - 8) (by omega) (by omega) (by omega) (by omega)
          exact none_of_match_before (not_not.mp notZero) isMatch none
      · rw [if_neg above]
        refine ⟨_, rfl, ?_⟩
        intro other later below
        exact none other (by omega) below

theorem scanBackwardsForByteWithBits_spec (alignedBase : base % 8 = 0) (inRange : base ≤ ptr) :
    ∃ result, scanBackwardsForByteWithBits memory ptr base mask = .next result ∧
      FindsLast memory mask base ptr result := by
  have noneAfter : ∀ other, ptr ≤ other → other < ptr → memory other &&& mask = 0 := by
    intro other later below
    omega
  rw [scanBackwardsForByteWithBits, Outcome.check, if_pos alignedBase, Outcome.bind_next]
  by_cases unaligned : ptr % 8 ≠ 0
  · simp only [if_pos unaligned]
    rw [load_of_aligned (by omega), Outcome.bind_next]
    have isMatch : ∀ index < ptr % 8,
        byteAt (matchBytesAgainstBits
          (wordAt memory (ptr - ptr % 8) <<< ((8 - ptr % 8) * 8)) mask) (8 - ptr % 8 + index) =
          memory (ptr - ptr % 8 + index) &&& mask := by
      intro index inWord
      rw [byteAt_matchBytesAgainstBits (by omega), byteAt_shiftLeft_of_le (by omega) (by omega),
        byteAt_wordAt (by omega)]
      have same : 8 - ptr % 8 + index - (8 - ptr % 8) = index := by omega
      rw [same]
    by_cases notZero : matchBytesAgainstBits
        (wordAt memory (ptr - ptr % 8) <<< ((8 - ptr % 8) * 8)) mask ≠ 0
    · rw [if_pos notZero]
      refine ⟨_, rfl, ?_⟩
      apply isLast_of_match notZero (by omega) (by omega) isMatch _ noneAfter (Nat.le_refl ptr)
      intro index below
      rw [byteAt_matchBytesAgainstBits (by omega), byteAt_shiftLeft_of_lt below]
      exact BitVec.zero_and
    · rw [if_neg notZero]
      apply scanWordsBackwards_spec alignedBase (by omega) (by omega) (by omega)
      exact none_of_match_before (not_not.mp notZero) isMatch noneAfter
  · simp only [if_neg unaligned]
    exact scanWordsBackwards_spec alignedBase (by omega) inRange (Nat.le_refl ptr) noneAfter

end Found

end Whippet.Swar
