import Mathlib.Algebra.Order.Ring.Nat
import Mathlib.Data.Nat.Notation
import Mathlib.Tactic.Ring

/-!
Words of eight bytes.

A word is looked at as its bytes, the least significant one first. Operations that act on each byte
alone are operations on the bytes; an addition is one when no byte overflows.

Owns: the bytes of a word, broadcast bytes, and the first and the last byte that is not zero. Does
not own: any memory the bytes come from.
-/

namespace Whippet.Bytes

variable {word other : BitVec 64} {byte mask : BitVec 8} {index count : ℕ}

def byteAt (word : BitVec 64) (index : ℕ) : BitVec 8 := word.extractLsb' (8 * index) 8

theorem getLsbD_zero {width bit : ℕ} : (0 : BitVec width).getLsbD bit = false :=
  BitVec.getLsbD_zero

theorem getLsbD_byteAt {bit : ℕ} (inByte : bit < 8) :
    (byteAt word index).getLsbD bit = word.getLsbD (8 * index + bit) := by
  rw [byteAt, BitVec.getLsbD_extractLsb', decide_eq_true inByte, Bool.true_and]

theorem toNat_byteAt : (byteAt word index).toNat = word.toNat / 256 ^ index % 256 := by
  rw [byteAt, BitVec.extractLsb'_toNat, Nat.shiftRight_eq_div_pow, Nat.pow_mul]

/-- A bit of a word is in one of its bytes. -/
theorem getLsbD_eq_byteAt (word : BitVec 64) (position : ℕ) :
    word.getLsbD position = (byteAt word (position / 8)).getLsbD (position % 8) := by
  rw [getLsbD_byteAt (Nat.mod_lt _ (by decide)), Nat.div_add_mod]

theorem byteAt_eq_zero_of_le (outside : 8 ≤ index) : byteAt word index = 0 := by
  apply BitVec.eq_of_getLsbD_eq
  intro bit inByte
  rw [getLsbD_byteAt inByte, BitVec.getLsbD_of_ge _ _ (by omega), getLsbD_zero]

@[simp] theorem byteAt_zero : byteAt 0 index = 0 := by
  apply BitVec.eq_of_getLsbD_eq
  intro bit inByte
  rw [getLsbD_byteAt inByte, getLsbD_zero, getLsbD_zero]

/-! ## Bytewise operations -/

@[simp] theorem byteAt_and :
    byteAt (word &&& other) index = byteAt word index &&& byteAt other index := by
  apply BitVec.eq_of_getLsbD_eq
  intro bit inByte
  rw [BitVec.getLsbD_and]
  simp only [getLsbD_byteAt inByte, BitVec.getLsbD_and]

@[simp] theorem byteAt_xor :
    byteAt (word ^^^ other) index = byteAt word index ^^^ byteAt other index := by
  apply BitVec.eq_of_getLsbD_eq
  intro bit inByte
  rw [BitVec.getLsbD_xor]
  simp only [getLsbD_byteAt inByte, BitVec.getLsbD_xor]

theorem byteAt_shiftRight : byteAt (word >>> (count * 8)) index = byteAt word (index + count) := by
  apply BitVec.eq_of_getLsbD_eq
  intro bit inByte
  rw [getLsbD_byteAt inByte, getLsbD_byteAt inByte, BitVec.getLsbD_ushiftRight]
  congr 1
  omega

theorem byteAt_shiftLeft_of_lt (below : index < count) :
    byteAt (word <<< (count * 8)) index = 0 := by
  apply BitVec.eq_of_getLsbD_eq
  intro bit inByte
  rw [getLsbD_byteAt inByte, BitVec.getLsbD_shiftLeft, getLsbD_zero,
    decide_eq_true (by omega : 8 * index + bit < count * 8)]
  simp

theorem byteAt_shiftLeft_of_le (inWord : index < 8) (above : count ≤ index) :
    byteAt (word <<< (count * 8)) index = byteAt word (index - count) := by
  apply BitVec.eq_of_getLsbD_eq
  intro bit inByte
  rw [getLsbD_byteAt inByte, getLsbD_byteAt inByte, BitVec.getLsbD_shiftLeft,
    decide_eq_true (by omega : 8 * index + bit < 64),
    decide_eq_false (by omega : ¬8 * index + bit < count * 8), Bool.not_false, Bool.true_and,
    Bool.true_and]
  congr 1
  omega

/-! ## Addition -/

theorem mod_pow_succ (value index : ℕ) :
    value % 256 ^ (index + 1) =
        value % 256 ^ index + 256 ^ index * (value / 256 ^ index % 256) := by
  rw [Nat.pow_succ, Nat.mod_mul]

/-- Without overflows in the bytes below, nothing is carried to a byte. -/
theorem mod_add_mod_lt
    (noOverflow : ∀ index < 8, (byteAt word index).toNat + (byteAt other index).toNat < 256) :
    ∀ index ≤ 8, word.toNat % 256 ^ index + other.toNat % 256 ^ index < 256 ^ index := by
  intro index
  induction index with
  | zero => simp [Nat.mod_one]
  | succ index inductionHypothesis =>
      intro inWord
      have below := inductionHypothesis (by omega)
      have here := noOverflow index (by omega)
      rw [toNat_byteAt, toNat_byteAt] at here
      rw [mod_pow_succ, mod_pow_succ, Nat.pow_succ]
      calc
        word.toNat % 256 ^ index + 256 ^ index * (word.toNat / 256 ^ index % 256) +
            (other.toNat % 256 ^ index + 256 ^ index * (other.toNat / 256 ^ index % 256))
          = (word.toNat % 256 ^ index + other.toNat % 256 ^ index) + 256 ^ index *
            (word.toNat / 256 ^ index % 256 + other.toNat / 256 ^ index % 256) := by ring
        _ < 256 ^ index + 256 ^ index *
            (word.toNat / 256 ^ index % 256 + other.toNat / 256 ^ index % 256) := by omega
        _ = 256 ^ index *
            (word.toNat / 256 ^ index % 256 + other.toNat / 256 ^ index % 256 + 1) := by ring
        _ ≤ 256 ^ index * 256 := Nat.mul_le_mul_left _ here

theorem byteAt_add
    (noOverflow : ∀ index < 8, (byteAt word index).toNat + (byteAt other index).toNat < 256)
    (inWord : index < 8) :
    byteAt (word + other) index = byteAt word index + byteAt other index := by
  have total : word.toNat + other.toNat < 2 ^ 64 := by
    have wordBound := word.isLt
    have otherBound := other.isLt
    have all := mod_add_mod_lt noOverflow 8 (by decide)
    rw [Nat.mod_eq_of_lt (by omega), Nat.mod_eq_of_lt (by omega)] at all
    omega
  have below := mod_add_mod_lt noOverflow index (by omega)
  have here := noOverflow index inWord
  have positive : 0 < 256 ^ index := Nat.pow_pos (by decide)
  apply BitVec.eq_of_toNat_eq
  rw [BitVec.toNat_add, Nat.mod_eq_of_lt here]
  rw [toNat_byteAt, toNat_byteAt] at here
  rw [toNat_byteAt, toNat_byteAt, toNat_byteAt, BitVec.toNat_add, Nat.mod_eq_of_lt total,
    Nat.add_div positive, if_neg (Nat.not_le.mpr below), Nat.add_zero, Nat.add_mod,
    Nat.mod_eq_of_lt here]

/-! ## Broadcast -/

/-- `broadcast_byte`. -/
def broadcastByte (byte : BitVec 8) : BitVec 64 := byte.zeroExtend 64 * 0x0101010101010101

theorem byteAt_broadcastByte (inWord : index < 8) : byteAt (broadcastByte byte) index = byte := by
  have all : ∀ byte : BitVec 8, ∀ index : Fin 8, byteAt (broadcastByte byte) index = byte := by
    decide +kernel
  exact all byte ⟨index, inWord⟩

/-! ## The first and the last byte that is not zero -/

theorem byteAt_ne_zero_of_bit {position : ℕ} (isSet : word.getLsbD position = true) :
    byteAt word (position / 8) ≠ 0 := by
  intro isZero
  rw [getLsbD_eq_byteAt, isZero, getLsbD_zero] at isSet
  cases isSet

theorem exists_bit_of_byteAt_ne_zero (notZero : byteAt word index ≠ 0) :
    ∃ bit < 8, word.getLsbD (8 * index + bit) = true := by
  by_contra! noBit
  apply notZero
  apply BitVec.eq_of_getLsbD_eq
  intro bit inByte
  rw [getLsbD_byteAt inByte, getLsbD_zero]
  exact Bool.eq_false_of_not_eq_true (noBit bit inByte)

theorem ctz_spec (notZero : word ≠ 0) :
    word.ctz.toNat / 8 < 8 ∧ byteAt word (word.ctz.toNat / 8) ≠ 0 ∧
      ∀ index < word.ctz.toNat / 8, byteAt word index = 0 := by
  refine ⟨?_, byteAt_ne_zero_of_bit (BitVec.getLsbD_true_ctz_of_ne_zero notZero), ?_⟩
  · have inWord := BitVec.ctz_lt_iff_ne_zero.mpr notZero
    rw [BitVec.lt_def] at inWord
    have bound : word.ctz.toNat < 64 := inWord
    omega
  · intro index before
    by_contra notZeroThere
    obtain ⟨bit, inByte, isSet⟩ := exists_bit_of_byteAt_ne_zero notZeroThere
    rw [BitVec.getLsbD_false_of_lt_ctz (by omega)] at isSet
    cases isSet

theorem clz_spec (notZero : word ≠ 0) :
    word.clz.toNat / 8 < 8 ∧ byteAt word (7 - word.clz.toNat / 8) ≠ 0 ∧
      ∀ index < 8, 7 - word.clz.toNat / 8 < index → byteAt word index = 0 := by
  have inWord := BitVec.clz_lt_iff_ne_zero.mpr notZero
  rw [BitVec.lt_def] at inWord
  have bound : word.clz.toNat < 64 := inWord
  refine ⟨by omega, ?_, ?_⟩
  · have found := byteAt_ne_zero_of_bit (BitVec.getLsbD_true_clz_of_ne_zero (by decide) notZero)
    rwa [show (64 - 1 - word.clz.toNat) / 8 = 7 - word.clz.toNat / 8 by omega] at found
  · intro index inside after
    by_contra notZeroThere
    obtain ⟨bit, inByte, isSet⟩ := exists_bit_of_byteAt_ne_zero notZeroThere
    have small := @BitVec.toNat_lt_two_pow_sub_clz 64 word
    have large : 2 ^ (8 * index + bit) ≤ word.toNat := Nat.ge_two_pow_of_testBit isSet
    have powers : 2 ^ (64 - word.clz.toNat) ≤ 2 ^ (8 * index + bit) :=
      Nat.pow_le_pow_right (by decide) (by omega)
    omega

end Whippet.Bytes
