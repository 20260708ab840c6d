import Mathlib.Logic.Equiv.Defs
import Mathlib.Data.Nat.Notation

/-!
Mixers of machine words.

A mixer folds a word onto itself by a shift and an exclusive or, and multiplies it by an odd number,
in turn. Both are bijections, and a mixer is undone by undoing its layers in reverse.

Owns: the two kinds of layers as equivalences of words of any width. Does not own: which layers a
mixer has.
-/

namespace Whippet.Mixers

variable {width : ℕ}

/-- `x ^ x >> shift`. -/
def xorShift (shift : ℕ) (x : BitVec width) : BitVec width := x ^^^ (x >>> shift)

/-- `x ^ x >> shift ^ .. ^ x >> terms * shift`. -/
def xorShifts (shift : ℕ) : ℕ → BitVec width → BitVec width
  | 0, x => x
  | terms + 1, x => x ^^^ (xorShifts shift terms x >>> shift)

theorem xorShifts_one (shift : ℕ) (x : BitVec width) :
    xorShifts shift 1 x = x ^^^ (x >>> shift) := rfl

theorem xorShifts_two (shift : ℕ) (x : BitVec width) :
    xorShifts shift 2 x = x ^^^ ((x >>> shift) ^^^ (x >>> (shift + shift))) := by
  rw [xorShifts, xorShifts_one, BitVec.ushiftRight_xor_distrib, BitVec.shiftRight_add]

/-- Of the shifts of the two folds only the last remains. -/
theorem xorShift_xorShifts (shift terms : ℕ) (x : BitVec width) :
    xorShift shift (xorShifts shift terms x) = x ^^^ (x >>> ((terms + 1) * shift)) := by
  induction terms with
  | zero => rw [xorShifts, xorShift, Nat.zero_add, Nat.one_mul]
  | succ terms inductionHypothesis =>
      have regroup (folded : BitVec width) :
          xorShift shift (x ^^^ (folded >>> shift)) =
            x ^^^ ((xorShift shift folded ^^^ x) >>> shift) := by
        simp only [xorShift, BitVec.ushiftRight_xor_distrib]
        ac_rfl
      have others : x ^^^ (x >>> ((terms + 1) * shift)) ^^^ x = x >>> ((terms + 1) * shift) := by
        rw [BitVec.xor_comm, ← BitVec.xor_assoc, BitVec.xor_self, BitVec.zero_xor]
      rw [xorShifts, regroup, inductionHypothesis, others, ← BitVec.shiftRight_add,
        ← Nat.succ_mul]

theorem xorShifts_xorShift (shift terms : ℕ) (x : BitVec width) :
    xorShifts shift terms (xorShift shift x) = x ^^^ (x >>> ((terms + 1) * shift)) := by
  induction terms with
  | zero => rw [xorShifts, xorShift, Nat.zero_add, Nat.one_mul]
  | succ terms inductionHypothesis =>
      rw [xorShifts, inductionHypothesis, xorShift, BitVec.ushiftRight_xor_distrib,
        ← BitVec.shiftRight_add, ← Nat.succ_mul, BitVec.xor_assoc,
        ← BitVec.xor_assoc (x >>> shift), BitVec.xor_self, BitVec.zero_xor]

/-- A shift by all bits leaves nothing to fold. -/
theorem xor_shift_wide (x : BitVec width) {shift : ℕ} (wide : width ≤ shift) :
    x ^^^ (x >>> shift) = x := by
  rw [BitVec.ushiftRight_eq_zero wide, BitVec.xor_zero]

/-- The fold by a shift, undone by as many shifts as it takes to shift all bits out. -/
def xorShiftEquiv (shift terms : ℕ) (wide : width ≤ (terms + 1) * shift) :
    BitVec width ≃ BitVec width where
  toFun := xorShift shift
  invFun := xorShifts shift terms
  left_inv x := by rw [xorShifts_xorShift, xor_shift_wide x wide]
  right_inv x := by rw [xorShift_xorShifts, xor_shift_wide x wide]

theorem mul_cancel (x : BitVec width) {factor inverse : BitVec width}
    (inverts : factor * inverse = 1) : x * factor * inverse = x := by
  rw [BitVec.mul_assoc, inverts]
  exact BitVec.mul_one x

/-- The product by a factor, undone by the product by its inverse. -/
def mulEquiv (factor inverse : BitVec width) (inverts : factor * inverse = 1) :
    BitVec width ≃ BitVec width where
  toFun x := x * factor
  invFun x := x * inverse
  left_inv x := mul_cancel x inverts
  right_inv x := mul_cancel x ((BitVec.mul_comm inverse factor).trans inverts)

end Whippet.Mixers
