import Whippet.Swar

/-!
The scans of `swar.h` compared with scans that look at one byte after the other.

Owns: the match against two tags with its scan, the scans byte by byte, and that every scan gives
what the scan byte by byte gives. Does not own: the other scans.
-/

namespace Whippet.Swar

open Tables (Word)
open Bytes

def matchBytesAgainst2Tags (mask tag1 tag2 : Byte) (bytes : Word) : Outcome SwarAssertion Word := do
  Outcome.check (tag1 &&& mask = tag1) .tagOutsideMask
  Outcome.check (tag2 &&& mask = tag2) .tagOutsideMask
  Outcome.check (mask &&& 0x7f = mask) .maskNotLowBits
  Outcome.check (mask ≠ 0) .maskNotLowBits
  Outcome.check (mask &&& (mask + 1) = 0) .maskNotLowBits
  let vmask := broadcastByte mask
  let vtest := broadcastByte (mask + 1)
  let vtag1 := broadcastByte tag1
  let vtag2 := broadcastByte tag2
  let m1 := ((bytes &&& vmask) ^^^ vtag1) + vmask
  let m2 := ((bytes &&& vmask) ^^^ vtag2) + vmask
  pure (((m1 &&& m2) &&& vtest) ^^^ vtest)

def scanForByteWithTags (memory : ℕ → Byte) (ptr limit : ℕ) (mask tag1 tag2 : Byte) :
    Outcome SwarAssertion ℕ := do
  Outcome.check (tag1 ≠ 0 ∧ tag2 ≠ 0) .zeroTag
  scanForByte memory (matchBytesAgainst2Tags mask tag1 tag2) ptr limit

/-! ## Scans byte by byte -/

/-- The first of the bytes from `n` on that hits, or where they end. -/
def scanBytes (memory : ℕ → Byte) (hits : Byte → Bool) (ptr : ℕ) : ℕ → ℕ → ℕ
  | 0, n => n
  | remaining + 1, n =>
      if hits (memory (ptr + n)) then n else scanBytes memory hits ptr remaining (n + 1)

/-- The last of a number of bytes that hits. -/
def scanBytesBackwards (memory : ℕ → Byte) (hits : Byte → Bool) (base : ℕ) : ℕ → Option ℕ
  | 0 => none
  | count + 1 =>
      if hits (memory (base + count)) then some (base + count)
      else scanBytesBackwards memory hits base count

section Reference

variable {memory : ℕ → Byte} {hits : Byte → Prop} {test : Byte → Bool} {ptr limit distance base : ℕ}

theorem scanBytes_spec (remaining n : ℕ) :
    n ≤ scanBytes memory test ptr remaining n ∧
      scanBytes memory test ptr remaining n ≤ n + remaining ∧
      (∀ offset, n ≤ offset → offset < scanBytes memory test ptr remaining n →
        test (memory (ptr + offset)) = false) ∧
      (scanBytes memory test ptr remaining n < n + remaining →
        test (memory (ptr + scanBytes memory test ptr remaining n)) = true) := by
  induction remaining generalizing n with
  | zero =>
      rw [scanBytes]
      exact ⟨Nat.le_refl _, Nat.le_refl _, by omega, by omega⟩
  | succ remaining inductionHypothesis =>
      rw [scanBytes]
      by_cases isHit : test (memory (ptr + n)) = true
      · rw [if_pos isHit]
        exact ⟨Nat.le_refl _, by omega, by omega, fun _ => isHit⟩
      · rw [if_neg isHit]
        obtain ⟨atLeast, atMost, before, here⟩ := inductionHypothesis (n + 1)
        refine ⟨by omega, by omega, ?_, fun below => here (by omega)⟩
        intro offset fromStart below
        rcases Nat.lt_or_eq_of_le fromStart with later | rfl
        · exact before offset later below
        · exact Bool.eq_false_iff.mpr isHit

/-- There is one first byte. -/
theorem IsFirst.eq_scanBytes (same : ∀ byte, hits byte ↔ test byte = true)
    (isFirst : IsFirst memory hits ptr limit distance) :
    distance = scanBytes memory test ptr limit 0 := by
  obtain ⟨-, atMost, before, here⟩ := @scanBytes_spec memory test ptr limit 0
  obtain ⟨leLimit, noneBefore, isHit⟩ := isFirst
  rw [Nat.zero_add] at atMost here
  rcases Nat.lt_trichotomy distance (scanBytes memory test ptr limit 0) with less | equal | greater
  · have missed := before distance (Nat.zero_le _) less
    rw [(same _).mp (isHit (by omega))] at missed
    cases missed
  · exact equal
  · exact absurd ((same _).mpr (here (by omega))) (noneBefore _ greater)

/-- There is one last byte. -/
theorem FindsLast.eq_scanBytesBackwards {mask : Byte} {result : Option ℕ} {count : ℕ}
    (found : FindsLast memory mask base (base + count) result) :
    result = scanBytesBackwards memory (fun byte => decide (byte &&& mask ≠ 0)) base count := by
  induction count with
  | zero =>
      cases result with
      | none => rfl
      | some loc =>
          have atLeast := found.ge_base
          have below := found.lt_ptr
          omega
  | succ count inductionHypothesis =>
      rw [scanBytesBackwards]
      by_cases isHit : memory (base + count) &&& mask ≠ 0
      · rw [if_pos (decide_eq_true isHit)]
        cases result with
        | none => exact absurd (found (base + count) (by omega) (by omega)) isHit
        | some loc =>
            have below := found.lt_ptr
            rcases Nat.lt_or_eq_of_le
                (Nat.le_of_lt_succ (show loc < base + count + 1 by omega)) with
              earlier | rfl
            · exact absurd (found.after (base + count) earlier (by omega)) isHit
            · rfl
      · rw [if_neg (by simpa using isHit)]
        apply inductionHypothesis
        cases result with
        | none => exact fun other atLeast below => found other atLeast (by omega)
        | some loc =>
            have notLast : loc ≠ base + count := by
              rintro rfl
              exact isHit found.here
            have below := found.lt_ptr
            exact ⟨found.ge_base, by omega, found.here,
              fun other later before => found.after other later (by omega)⟩

end Reference

/-! ## Two tags -/

section TwoTags

variable {mask tag tag1 tag2 : Byte} {memory : ℕ → Byte} {ptr limit : ℕ}

/-- A bit that is set in both of two bytes. -/
theorem and_and_eq_iff (first second test : Byte) :
    (first &&& second) &&& test = test ↔ first &&& test = test ∧ second &&& test = test := by
  constructor
  · intro both
    constructor
    · rw [← both]
      ext index inByte
      simp only [BitVec.getElem_and]
      grind
    · rw [← both]
      ext index inByte
      simp only [BitVec.getElem_and]
      grind
  · rintro ⟨isFirst, isSecond⟩
    rw [BitVec.and_assoc, isSecond, isFirst]

theorem IsTag.match2_eq (isTag1 : IsTag mask tag1) (isTag2 : IsTag mask tag2) (bytes : Word) :
    matchBytesAgainst2Tags mask tag1 tag2 bytes =
      .next ((((((bytes &&& broadcastByte mask) ^^^ broadcastByte tag1) + broadcastByte mask) &&&
        (((bytes &&& broadcastByte mask) ^^^ broadcastByte tag2) + broadcastByte mask)) &&&
          broadcastByte (mask + 1)) ^^^ broadcastByte (mask + 1)) := by
  rw [matchBytesAgainst2Tags]
  simp only [Outcome.check_bind_eq_next, Outcome.pure_eq_next]
  exact ⟨isTag1.inMask, isTag2.inMask, isTag1.below, isTag1.nonempty, isTag1.low, trivial⟩

/-- A byte that is looked at with a mask and a tag stays within the mask, and takes the mask without
a carry to the next byte. -/
theorem IsTag.masked (isTag : IsTag mask tag) (bytes : Word) {index : ℕ} (inWord : index < 8) :
    byteAt ((bytes &&& broadcastByte mask) ^^^ broadcastByte tag) index =
        (byteAt bytes index &&& mask) ^^^ tag ∧
      byteAt (((bytes &&& broadcastByte mask) ^^^ broadcastByte tag) + broadcastByte mask) index =
        ((byteAt bytes index &&& mask) ^^^ tag) + mask := by
  have isMasked : ∀ other < 8, byteAt ((bytes &&& broadcastByte mask) ^^^ broadcastByte tag) other =
      (byteAt bytes other &&& mask) ^^^ tag := by
    intro other otherInWord
    rw [byteAt_xor, byteAt_and, byteAt_broadcastByte otherInWord, byteAt_broadcastByte otherInWord]
  refine ⟨isMasked index inWord, ?_⟩
  have noOverflow : ∀ other < 8,
      (byteAt ((bytes &&& broadcastByte mask) ^^^ broadcastByte tag) other).toNat +
        (byteAt (broadcastByte mask) other).toNat < 256 := by
    intro other otherInWord
    rw [isMasked other otherInWord, byteAt_broadcastByte otherInWord]
    exact (isTag.carries_iff isTag.xor_and).1
  rw [byteAt_add noOverflow inWord, isMasked index inWord, byteAt_broadcastByte inWord]

theorem xor_eq_zero_iff (left right : Byte) : left ^^^ right = 0 ↔ left = right :=
  BitVec.xor_eq_zero_iff

/-- The bit above the mask stays clear just for the tag. -/
theorem IsTag.carry_ne_iff (isTag : IsTag mask tag) (byte : Byte) :
    ((((byte &&& mask) ^^^ tag) + mask) &&& (mask + 1) = mask + 1) ↔ ¬byte &&& mask = tag := by
  have inMask : ((byte &&& mask) ^^^ tag) &&& mask = (byte &&& mask) ^^^ tag := isTag.xor_and
  have carries := (isTag.carries_iff inMask).2
  rw [ne_eq, xor_eq_zero_iff, xor_eq_zero_iff] at carries
  rw [← carries, not_not]

/-- A match against two tags hits the bytes with one of the tags. -/
theorem IsTag.isMatch2 (isTag1 : IsTag mask tag1) (isTag2 : IsTag mask tag2) (notZero1 : tag1 ≠ 0)
    (notZero2 : tag2 ≠ 0) :
    Matches (matchBytesAgainst2Tags mask tag1 tag2)
      (fun byte => byte &&& mask = tag1 ∨ byte &&& mask = tag2) := by
  constructor
  · intro bytes
    refine ⟨_, isTag1.match2_eq isTag2 bytes, ?_⟩
    intro index inWord
    rw [byteAt_xor, byteAt_and, byteAt_and, (isTag1.masked bytes inWord).2,
      (isTag2.masked bytes inWord).2, byteAt_broadcastByte inWord, ne_eq, xor_eq_zero_iff,
      and_and_eq_iff, isTag1.carry_ne_iff, isTag2.carry_ne_iff, not_and_or, not_not, not_not]
  · rintro (isZero | isZero)
    · exact notZero1 (isZero.symm.trans BitVec.zero_and)
    · exact notZero2 (isZero.symm.trans BitVec.zero_and)

theorem scanForByteWithTags_spec (isTag1 : IsTag mask tag1) (isTag2 : IsTag mask tag2)
    (notZero1 : tag1 ≠ 0) (notZero2 : tag2 ≠ 0)
    (ends : EndsAt memory (fun byte => byte &&& mask = tag1 ∨ byte &&& mask = tag2) ptr limit) :
    ∃ distance, scanForByteWithTags memory ptr limit mask tag1 tag2 = .next distance ∧
      IsFirst memory (fun byte => byte &&& mask = tag1 ∨ byte &&& mask = tag2) ptr limit
          distance := by
  obtain ⟨distance, scanned, isFirst⟩ :=
    scanForByte_spec (isTag1.isMatch2 isTag2 notZero1 notZero2) ends
  refine ⟨distance, ?_, isFirst⟩
  rw [scanForByteWithTags, Outcome.check_bind ⟨notZero1, notZero2⟩, scanned]

end TwoTags

/-! ## All scans -/

/-- The low bits of a byte but for the highest are a mask for the tags within them. -/
theorem isTag_of_lowBits {mask tag : Byte} {k : ℕ} (positive : 0 < k) (small : k < 8)
    (isMask : mask = BitVec.ofNat 8 (2 ^ k - 1)) (inMask : tag &&& mask = tag) : IsTag mask
      tag := by
  have isLow : ∀ k ∈ [1, 2, 3, 4, 5, 6, 7],
    BitVec.ofNat 8 (2 ^ k - 1) &&& 0x7f = BitVec.ofNat 8 (2 ^ k - 1) ∧
      BitVec.ofNat 8 (2 ^ k - 1) ≠ 0 ∧
        BitVec.ofNat 8 (2 ^ k - 1) &&& (BitVec.ofNat 8 (2 ^ k - 1) + 1) = 0 := by
    decide
  obtain ⟨below, nonempty, low⟩ := isLow k (by simp; omega)
  rw [← isMask] at below nonempty low
  exact ⟨inMask, below, nonempty, low⟩

/-- The buffer, the start and the limit of a scan: the end is aligned, or a byte hits before it. -/
def IsScanned (memory : ℕ → Byte) (test : Byte → Bool) (ptr limit : ℕ) : Prop :=
  (ptr + limit) % 8 = 0 ∨ ∃ offset < limit, test (memory (ptr + offset)) = true

theorem scan_eq_scanBytes {memory : ℕ → Byte} {hits : Byte → Prop} {test : Byte → Bool}
    {ptr limit : ℕ} {outcome : Outcome SwarAssertion ℕ}
    (same : ∀ byte, hits byte ↔ test byte = true)
    (isScanned : IsScanned memory test ptr limit)
    (spec : EndsAt memory hits ptr limit →
      ∃ distance, outcome = .next distance ∧ IsFirst memory hits ptr limit distance) :
    outcome = .next (scanBytes memory test ptr limit 0) := by
  obtain ⟨distance, scanned, isFirst⟩ := spec <| by
    apply isScanned.imp_right
    rintro ⟨offset, below, isHit⟩
    exact ⟨offset, below, (same _).mpr isHit⟩
  rw [scanned, isFirst.eq_scanBytes same]

/-- The scans of eight bytes at a time give what scans of one byte at a time give. -/
theorem scans_eq_scanBytes (memory : ℕ → Byte) :
    (∀ ptr limit mask, IsScanned memory (fun byte => byte &&& mask ≠ 0) ptr limit →
      scanForByteWithBits memory ptr limit mask =
        .next (scanBytes memory (fun byte => byte &&& mask ≠ 0) ptr limit 0)) ∧
    (∀ ptr limit mask tag k, 0 < k → k < 8 → mask = BitVec.ofNat 8 (2 ^ k - 1) →
      tag &&& mask = tag → tag ≠ 0 →
      IsScanned memory (fun byte => byte &&& mask = tag) ptr limit →
        scanForByteWithTag memory ptr limit mask tag =
          .next (scanBytes memory (fun byte => byte &&& mask = tag) ptr limit 0)) ∧
    (∀ ptr limit mask tag1 tag2 k, 0 < k → k < 8 → mask = BitVec.ofNat 8 (2 ^ k - 1) →
      tag1 &&& mask = tag1 → tag2 &&& mask = tag2 → tag1 ≠ 0 → tag2 ≠ 0 →
      IsScanned memory (fun byte => byte &&& mask = tag1 ∨ byte &&& mask = tag2) ptr limit →
        scanForByteWithTags memory ptr limit mask tag1 tag2 =
          .next (scanBytes memory (fun byte => byte &&& mask = tag1 ∨ byte &&& mask = tag2) ptr
            limit 0)) ∧
    ∀ base count mask, base % 8 = 0 →
      scanBackwardsForByteWithBits memory (base + count) base mask =
        .next (scanBytesBackwards memory (fun byte => byte &&& mask ≠ 0) base count) := by
  refine ⟨?_, ?_, ?_, ?_⟩
  · intro ptr limit mask isScanned
    exact scan_eq_scanBytes (fun byte => by rw [decide_eq_true_iff]) isScanned
      (scanForByte_spec (matches_bits mask))
  · intro ptr limit mask tag k positive small isMask inMask notZero isScanned
    exact scan_eq_scanBytes (fun byte => by rw [decide_eq_true_iff]) isScanned
      (scanForByteWithTag_spec (isTag_of_lowBits positive small isMask inMask) notZero)
  · intro ptr limit mask tag1 tag2 k positive small isMask inMask1 inMask2 notZero1 notZero2
      isScanned
    exact scan_eq_scanBytes (fun byte => by rw [decide_eq_true_iff]) isScanned
      (scanForByteWithTags_spec (isTag_of_lowBits positive small isMask inMask1)
        (isTag_of_lowBits positive small isMask inMask2) notZero1 notZero2)
  · intro base count mask aligned
    obtain ⟨result, scanned, found⟩ :=
      @scanBackwardsForByteWithBits_spec memory (base + count) base mask aligned
        (Nat.le_add_right base count)
    rw [scanned, found.eq_scanBytesBackwards]

/-- Bytes of which the one at 19 is 3, the one at 26 is 1 and the others are 0. -/
def sampleBytes (ptr : ℕ) : Byte := if ptr = 19 then 3 else if ptr = 26 then 1 else 0

theorem scans_eq_scanBytes_sample :
    scanForByteWithBits sampleBytes 17 15 2 = .next 2 ∧
      scanForByteWithTag sampleBytes 17 15 7 1 = .next 9 ∧
        scanForByteWithTags sampleBytes 20 4 7 1 3 = .next 4 ∧
          scanBackwardsForByteWithBits sampleBytes (16 + 10) 16 1 = .next (some 19) := by
  obtain ⟨bits, tag, tags, backwards⟩ := scans_eq_scanBytes sampleBytes
  refine ⟨(bits 17 15 2 (.inl (by decide))).trans (by decide), ?_, ?_, ?_⟩
  · exact (tag 17 15 7 1 3 (by decide) (by decide) rfl (by decide) (by decide)
      (.inl (by decide))).trans (by decide)
  · exact (tags 20 4 7 1 3 3 (by decide) (by decide) rfl (by decide) (by decide) (by decide)
      (by decide)
      (.inl (by decide))).trans (by decide)
  · exact (backwards 16 10 1 (by decide)).trans (by decide)

end Whippet.Swar
