import Mathlib.Algebra.Order.Ring.Nat
import Mathlib.Data.Nat.Log
import Mathlib.Tactic.Ring

/-!
Rounding natural numbers to a number of binary digits, to nearest and ties to even.

A floating-point operation on values that are integers up to a power of two rounds the exact result
this way, as long as it is in range; the power of two does not matter.

Owns: the rounding, where it is exact, how far above the number it can be, that it keeps the order
and does not depend on the exponent, and the product of two rounded numbers of which one is just
below one. Does not own: exponent ranges, infinities, or what is computed.
-/

namespace Whippet.Rounding

/-- The quotient by a power of two, to nearest and ties to even. -/
def divTwoPow (number shift : ℕ) : ℕ :=
  let quotient := number / 2 ^ shift
  let remainder := number % 2 ^ shift
  if 2 ^ shift < 2 * remainder ∨ (2 * remainder = 2 ^ shift ∧ quotient % 2 = 1) then quotient + 1
  else quotient

/-- The nearest number with at most `precision` binary digits before its zeros. -/
def toPrecision (precision number : ℕ) : ℕ :=
  let shift := Nat.log2 number + 1 - precision
  divTwoPow number shift * 2 ^ shift

variable {precision number small large : ℕ}

theorem divTwoPow_zero (number : ℕ) : divTwoPow number 0 = number := by
  simp [divTwoPow, Nat.mod_one]

/-- Rounding adds half a unit at most. -/
theorem two_mul_divTwoPow_le (number shift : ℕ) :
    2 * (divTwoPow number shift * 2 ^ shift) ≤ 2 * number + 2 ^ shift := by
  have split := Nat.div_add_mod' number (2 ^ shift)
  unfold divTwoPow
  dsimp only
  split
  next up =>
    rw [Nat.add_mul, Nat.one_mul]
    omega
  next => omega

@[simp] theorem toPrecision_zero (precision : ℕ) : toPrecision precision 0 = 0 := by
  simp [toPrecision, divTwoPow]

/-- A number that has no more digits is kept. -/
theorem toPrecision_of_lt (fits : number < 2 ^ precision) :
    toPrecision precision number = number := by
  rcases Nat.eq_zero_or_pos number with rfl | positive
  · exact toPrecision_zero precision
  · have digits : Nat.log2 number < precision := (Nat.log2_lt positive.ne').mpr fits
    have noShift : Nat.log2 number + 1 - precision = 0 := by omega
    simp only [toPrecision, noShift, divTwoPow_zero, pow_zero, Nat.mul_one]

/-- The relative error upwards is one unit in the last digit at most. -/
theorem two_pow_mul_toPrecision_le (precision number : ℕ) :
    2 ^ precision * toPrecision precision number ≤ (2 ^ precision + 1) * number := by
  rcases Nat.eq_zero_or_pos number with rfl | positive
  · rw [toPrecision_zero]
    exact Nat.zero_le _
  · rw [toPrecision]
    generalize isShift : Nat.log2 number + 1 - precision = shift
    cases shift with
    | zero =>
        rw [divTwoPow_zero, pow_zero, Nat.mul_one, Nat.add_mul]
        omega
    | succ shift =>
        have halfUnit := two_mul_divTwoPow_le number (shift + 1)
        have digits : 2 ^ precision * 2 ^ shift ≤ number := by
          rw [← pow_add]
          have exponent : precision + shift = Nat.log2 number := by omega
          rw [exponent]
          exact Nat.log2_self_le positive.ne'
        generalize divTwoPow number (shift + 1) * 2 ^ (shift + 1) = rounded at halfUnit ⊢
        rw [pow_succ] at halfUnit
        have above : rounded ≤ number + 2 ^ shift := by omega
        calc 2 ^ precision * rounded ≤ 2 ^ precision * (number + 2 ^ shift) :=
              Nat.mul_le_mul_left _ above
          _ = 2 ^ precision * number + 2 ^ precision * 2 ^ shift := Nat.mul_add _ _ _
          _ ≤ 2 ^ precision * number + number := Nat.add_le_add_left digits _
          _ = (2 ^ precision + 1) * number := by ring

/-- Rounding takes off half a unit at most. -/
theorem two_mul_le_divTwoPow (number shift : ℕ) :
    2 * number ≤ 2 * (divTwoPow number shift * 2 ^ shift) + 2 ^ shift := by
  have split := Nat.div_add_mod' number (2 ^ shift)
  have remainder := Nat.mod_lt number (Nat.two_pow_pos shift)
  unfold divTwoPow
  dsimp only
  split
  next => rw [Nat.add_mul, Nat.one_mul]; omega
  next down => omega

/-- The relative error downwards is one unit in the last digit at most. -/
theorem pred_mul_le_toPrecision (precision number : ℕ) :
    (2 ^ precision - 1) * number ≤ 2 ^ precision * toPrecision precision number := by
  rcases Nat.eq_zero_or_pos number with rfl | positive
  · exact Nat.zero_le _
  · rw [toPrecision]
    generalize isShift : Nat.log2 number + 1 - precision = shift
    cases shift with
    | zero =>
        rw [divTwoPow_zero, pow_zero, Nat.mul_one]
        exact Nat.mul_le_mul_right _ (Nat.sub_le _ _)
    | succ shift =>
        have halfUnit := two_mul_le_divTwoPow number (shift + 1)
        have digits : 2 ^ precision * 2 ^ shift ≤ number := by
          rw [← pow_add]
          have exponent : precision + shift = Nat.log2 number := by omega
          rw [exponent]
          exact Nat.log2_self_le positive.ne'
        generalize divTwoPow number (shift + 1) * 2 ^ (shift + 1) = rounded at halfUnit ⊢
        rw [pow_succ] at halfUnit
        have below : number ≤ rounded + 2 ^ shift := by omega
        have scaled : 2 ^ precision * number ≤ 2 ^ precision * rounded + number :=
          calc 2 ^ precision * number ≤ 2 ^ precision * (rounded + 2 ^ shift) :=
                Nat.mul_le_mul_left _ below
            _ = 2 ^ precision * rounded + 2 ^ precision * 2 ^ shift := Nat.mul_add _ _ _
            _ ≤ 2 ^ precision * rounded + number := Nat.add_le_add_left digits _
        rw [Nat.sub_mul, Nat.one_mul]
        omega

/-! ## Order and scale -/

theorem divTwoPow_mono (shift : ℕ) (ordered : small ≤ large) :
    divTwoPow small shift ≤ divTwoPow large shift := by
  have smallSplit := Nat.div_add_mod' small (2 ^ shift)
  have largeSplit := Nat.div_add_mod' large (2 ^ shift)
  have quotients : small / 2 ^ shift ≤ large / 2 ^ shift := Nat.div_le_div_right ordered
  unfold divTwoPow
  dsimp only
  rcases Nat.eq_or_lt_of_le quotients with same | less
  · rw [same] at smallSplit ⊢
    have remainders : small % 2 ^ shift ≤ large % 2 ^ shift := by omega
    split_ifs <;> omega
  · split_ifs <;> omega

/-- Where the number is a multiple of the power, the quotient is exact. -/
theorem divTwoPow_mul_two_pow (number shift : ℕ) :
    divTwoPow (number * 2 ^ shift) shift = number := by
  have positive : 0 < 2 ^ shift := Nat.two_pow_pos shift
  unfold divTwoPow
  rw [Nat.mul_div_cancel _ positive, Nat.mul_mod_left]
  dsimp only
  rw [if_neg]
  omega

/-- A common power of two cancels. -/
theorem divTwoPow_mul (number shift common : ℕ) :
    divTwoPow (number * 2 ^ common) (shift + common) = divTwoPow number shift := by
  have positive : 0 < 2 ^ common := Nat.two_pow_pos common
  have above : ∀ first second, first * 2 ^ common < 2 * (second * 2 ^ common) ↔
      first < 2 * second := by
    intro first second
    rw [← Nat.mul_assoc, Nat.mul_lt_mul_right positive]
  have tie : ∀ first second, 2 * (first * 2 ^ common) = second * 2 ^ common ↔
      2 * first = second := by
    intro first second
    rw [← Nat.mul_assoc, Nat.mul_left_inj positive.ne']
  unfold divTwoPow
  rw [pow_add, Nat.mul_div_mul_right _ _ positive, Nat.mul_mod_mul_right]
  simp only [above, tie]

/-- Rounding does not depend on the exponent. -/
theorem toPrecision_mul_two_pow (precision number shift : ℕ) :
    toPrecision precision (number * 2 ^ shift) = toPrecision precision number * 2 ^ shift := by
  rcases Nat.eq_zero_or_pos number with rfl | positive
  · rw [Nat.zero_mul, toPrecision_zero, Nat.zero_mul]
  · have digits : Nat.log2 (number * 2 ^ shift) = Nat.log2 number + shift := by
      have nonzero : number * 2 ^ shift ≠ 0 :=
        Nat.mul_ne_zero positive.ne' (Nat.two_pow_pos shift).ne'
      rw [Nat.log2_eq_iff nonzero, pow_add, pow_add, pow_add]
      have lower := Nat.log2_self_le positive.ne'
      have upper : number < 2 ^ (Nat.log2 number + 1) := Nat.lt_log2_self
      rw [pow_add] at upper
      constructor
      · exact Nat.mul_le_mul_right _ lower
      · rw [Nat.mul_right_comm]
        exact Nat.mul_lt_mul_of_pos_right upper (Nat.two_pow_pos _)
    rw [toPrecision, toPrecision, digits]
    rcases Nat.le_total precision (Nat.log2 number + 1) with long | short
    · have split : Nat.log2 number + shift + 1 - precision =
          Nat.log2 number + 1 - precision + shift := by omega
      rw [split, divTwoPow_mul, pow_add, Nat.mul_assoc]
    · have noShift : Nat.log2 number + 1 - precision = 0 := by omega
      obtain ⟨rest, isRest⟩ : ∃ rest, shift = rest + (Nat.log2 number + shift + 1 - precision) :=
        ⟨shift - (Nat.log2 number + shift + 1 - precision), by omega⟩
      generalize Nat.log2 number + shift + 1 - precision = common at isRest
      rw [noShift, divTwoPow_zero, pow_zero, Nat.mul_one, isRest, pow_add, ← Nat.mul_assoc,
        divTwoPow_mul_two_pow]

/-- A number is not rounded below its first digit. -/
theorem two_pow_log2_le_toPrecision (positive : 0 < precision) (nonzero : number ≠ 0) :
    2 ^ Nat.log2 number ≤ toPrecision precision number := by
  have lower := Nat.log2_self_le nonzero
  rw [toPrecision]
  obtain ⟨rest, isRest⟩ : ∃ rest, Nat.log2 number = rest + (Nat.log2 number + 1 - precision) :=
    ⟨Nat.log2 number - (Nat.log2 number + 1 - precision), by omega⟩
  generalize Nat.log2 number + 1 - precision = shift at isRest
  rw [isRest, pow_add] at lower ⊢
  apply Nat.mul_le_mul_right
  calc 2 ^ rest = divTwoPow (2 ^ rest * 2 ^ shift) shift := (divTwoPow_mul_two_pow _ _).symm
    _ ≤ divTwoPow number shift := divTwoPow_mono shift lower

/-- Nor above the next power of two. -/
theorem toPrecision_le_two_pow (positive : 0 < precision) (number : ℕ) :
    toPrecision precision number ≤ 2 ^ (Nat.log2 number + 1) := by
  have upper : number < 2 ^ (Nat.log2 number + 1) := Nat.lt_log2_self
  rw [toPrecision]
  obtain ⟨rest, isRest⟩ : ∃ rest, Nat.log2 number + 1 = rest + (Nat.log2 number + 1 - precision) :=
    ⟨Nat.log2 number + 1 - (Nat.log2 number + 1 - precision), by omega⟩
  generalize Nat.log2 number + 1 - precision = shift at isRest
  rw [isRest, pow_add] at upper ⊢
  apply Nat.mul_le_mul_right
  calc divTwoPow number shift ≤ divTwoPow (2 ^ rest * 2 ^ shift) shift :=
        divTwoPow_mono shift upper.le
    _ = 2 ^ rest := divTwoPow_mul_two_pow _ _

theorem toPrecision_mono (positive : 0 < precision) (ordered : small ≤ large) :
    toPrecision precision small ≤ toPrecision precision large := by
  rcases Nat.eq_zero_or_pos small with rfl | smallPositive
  · rw [toPrecision_zero]
    exact Nat.zero_le _
  · have nonzero : large ≠ 0 := by omega
    have digits : Nat.log2 small ≤ Nat.log2 large :=
      (Nat.le_log2 nonzero).mpr ((Nat.log2_self_le smallPositive.ne').trans ordered)
    rcases Nat.eq_or_lt_of_le digits with same | fewer
    · rw [toPrecision, toPrecision, same]
      exact Nat.mul_le_mul_right _ (divTwoPow_mono _ ordered)
    · calc toPrecision precision small ≤ 2 ^ (Nat.log2 small + 1) :=
            toPrecision_le_two_pow positive small
        _ ≤ 2 ^ Nat.log2 large := Nat.pow_le_pow_right two_pos fewer
        _ ≤ toPrecision precision large := two_pow_log2_le_toPrecision positive nonzero

/-- What is rounded is kept. -/
theorem toPrecision_toPrecision (positive : 0 < precision) (number : ℕ) :
    toPrecision precision (toPrecision precision number) = toPrecision precision number := by
  have upper := toPrecision_le_two_pow positive number
  have isRounded : toPrecision precision number =
      divTwoPow number (Nat.log2 number + 1 - precision) *
        2 ^ (Nat.log2 number + 1 - precision) := rfl
  have kept : ∀ digits ≤ 2 ^ precision, toPrecision precision digits = digits := by
    intro digits atMost
    rcases Nat.eq_or_lt_of_le atMost with rfl | fits
    · have power := toPrecision_mul_two_pow precision 1 precision
      rwa [Nat.one_mul, toPrecision_of_lt (Nat.one_lt_two_pow positive.ne'), Nat.one_mul] at power
    · exact toPrecision_of_lt fits
  rw [isRounded] at upper ⊢
  rw [toPrecision_mul_two_pow, kept]
  apply Nat.le_of_mul_le_mul_right _ (Nat.two_pow_pos (Nat.log2 number + 1 - precision))
  rw [← pow_add]
  exact upper.trans (Nat.pow_le_pow_right two_pos (by omega))

/-- The largest quotient below a whole power, rounded. -/
theorem toPrecision_pred_mul_of_lt {digits : ℕ} (lower : 2 ^ (precision - 1) < digits)
    (upper : digits ≤ 2 ^ precision) (positive : 0 < precision) :
    toPrecision precision ((2 ^ precision - 1) * digits) = (digits - 1) * 2 ^ precision := by
  obtain ⟨rest, rfl⟩ : ∃ rest, precision = rest + 1 := ⟨precision - 1, by omega⟩
  have half : 2 ^ (rest + 1) = 2 * 2 ^ rest := by rw [pow_succ, Nat.mul_comm]
  rw [Nat.add_sub_cancel] at lower
  have split : (2 ^ (rest + 1) - 1) * digits =
      (digits - 1) * 2 ^ (rest + 1) + (2 ^ (rest + 1) - digits) := by
    obtain ⟨below, rfl⟩ : ∃ below, digits = below + 1 := ⟨digits - 1, by omega⟩
    obtain ⟨room, isRoom⟩ : ∃ room, 2 ^ (rest + 1) = below + 1 + room :=
      ⟨2 ^ (rest + 1) - (below + 1), by omega⟩
    rw [isRoom, Nat.add_sub_cancel, Nat.add_sub_cancel_left]
    have drop : below + 1 + room - 1 = below + room := by omega
    rw [drop]
    ring
  have isLog : Nat.log2 ((2 ^ (rest + 1) - 1) * digits) = 2 * rest + 1 := by
    have square : 2 ^ (2 * rest + 1) = 2 ^ (rest + 1) * 2 ^ rest := by
      rw [← pow_add]
      congr 1
      omega
    have twice : 2 ^ (2 * rest + 1 + 1) = 2 ^ (rest + 1) * 2 ^ (rest + 1) := by
      rw [← pow_add]
      congr 1
      omega
    have atLeast : 2 ^ (rest + 1) * 2 ^ rest ≤ (digits - 1) * 2 ^ (rest + 1) := by
      rw [Nat.mul_comm]
      exact Nat.mul_le_mul_right _ (by omega)
    have atMost : (digits - 1) * 2 ^ (rest + 1) + 2 ^ (rest + 1) = digits * 2 ^ (rest + 1) := by
      rw [← Nat.succ_mul]
      congr 1
      omega
    have wholeLe : digits * 2 ^ (rest + 1) ≤ 2 ^ (rest + 1) * 2 ^ (rest + 1) :=
      Nat.mul_le_mul_right _ upper
    rw [Nat.log2_eq_iff (by rw [split]; omega), split, square, twice]
    omega
  have isShift : 2 * rest + 1 + 1 - (rest + 1) = rest + 1 := by omega
  have remainderLt : 2 ^ (rest + 1) - digits < 2 ^ (rest + 1) := by omega
  have isQuotient : ((digits - 1) * 2 ^ (rest + 1) + (2 ^ (rest + 1) - digits)) / 2 ^ (rest + 1) =
      digits - 1 := by
    rw [Nat.add_comm, Nat.add_mul_div_right _ _ (Nat.two_pow_pos _),
      Nat.div_eq_of_lt remainderLt, Nat.zero_add]
  have isRemainder : ((digits - 1) * 2 ^ (rest + 1) + (2 ^ (rest + 1) - digits)) %
      2 ^ (rest + 1) = 2 ^ (rest + 1) - digits := by
    rw [Nat.add_comm, Nat.add_mul_mod_self_right, Nat.mod_eq_of_lt remainderLt]
  rw [toPrecision, isLog, isShift, divTwoPow, split, isQuotient, isRemainder, if_neg (by omega)]

/-- The largest rounded number below one, times a rounded number, is rounded to something less than
the number that it was rounded from. -/
theorem toPrecision_pred_mul_lt (positive : 0 < precision) (nonzero : 0 < number) :
    toPrecision precision ((2 ^ precision - 1) * toPrecision precision number) <
      2 ^ precision * number := by
  have longCase : ∀ long, 0 < long → precision ≤ Nat.log2 long + 1 →
      toPrecision precision ((2 ^ precision - 1) * toPrecision precision long) <
        2 ^ precision * long := by
    intro long longPositive enough
    have lower := Nat.log2_self_le longPositive.ne'
    have atLeast := two_pow_log2_le_toPrecision positive longPositive.ne'
    have atMost := toPrecision_le_two_pow positive long
    have nearly := two_mul_divTwoPow_le long (Nat.log2 long + 1 - precision)
    obtain ⟨shift, isShift⟩ : ∃ shift, Nat.log2 long = precision - 1 + shift :=
      ⟨Nat.log2 long + 1 - precision, by omega⟩
    have isDrop : Nat.log2 long + 1 - precision = shift := by omega
    have isLog : Nat.log2 long + 1 = precision + shift := by omega
    have isRounded : toPrecision precision long = divTwoPow long shift * 2 ^ shift := by
      rw [toPrecision, isDrop]
    rw [isDrop, ← isRounded] at nearly
    rw [isShift, pow_add] at lower
    rw [isRounded, isShift, pow_add] at atLeast
    rw [isRounded, isLog, pow_add] at atMost
    have shiftPositive := Nat.two_pow_pos shift
    have digitsLower := Nat.le_of_mul_le_mul_right atLeast shiftPositive
    have digitsUpper := Nat.le_of_mul_le_mul_right atMost shiftPositive
    rw [isRounded] at nearly ⊢
    rw [← Nat.mul_assoc, toPrecision_mul_two_pow]
    generalize divTwoPow long shift = digits at *
    rcases Nat.eq_or_lt_of_le digitsLower with isHalf | aboveHalf
    · -- The rounded number is a power of two, so it was not rounded up.
      rw [← isHalf, toPrecision_mul_two_pow,
        toPrecision_of_lt (Nat.sub_lt (Nat.two_pow_pos _) one_pos)]
      calc (2 ^ precision - 1) * 2 ^ (precision - 1) * 2 ^ shift
          = (2 ^ precision - 1) * (2 ^ (precision - 1) * 2 ^ shift) := Nat.mul_assoc _ _ _
        _ ≤ (2 ^ precision - 1) * long := Nat.mul_le_mul_left _ lower
        _ < 2 ^ precision * long :=
            Nat.mul_lt_mul_of_pos_right (Nat.sub_lt (Nat.two_pow_pos _) one_pos) longPositive
    · rw [toPrecision_pred_mul_of_lt aboveHalf digitsUpper positive, Nat.mul_right_comm,
        Nat.mul_comm (2 ^ precision)]
      apply Nat.mul_lt_mul_of_pos_right _ (Nat.two_pow_pos _)
      have oneLess : (digits - 1) * 2 ^ shift + 2 ^ shift = digits * 2 ^ shift := by
        rw [← Nat.succ_mul]
        congr 1
        exact Nat.succ_pred_eq_of_pos (Nat.zero_lt_of_lt aboveHalf)
      omega
  have scaled := longCase (number * 2 ^ precision) (Nat.mul_pos nonzero (Nat.two_pow_pos _)) (by
    have enough : 2 ^ precision ≤ number * 2 ^ precision := Nat.le_mul_of_pos_left _ nonzero
    have nonzeroScaled : number * 2 ^ precision ≠ 0 :=
      Nat.mul_ne_zero nonzero.ne' (Nat.two_pow_pos _).ne'
    exact Nat.le_succ_of_le ((Nat.le_log2 nonzeroScaled).mpr enough))
  rw [toPrecision_mul_two_pow, ← Nat.mul_assoc, toPrecision_mul_two_pow, ← Nat.mul_assoc] at scaled
  exact Nat.lt_of_mul_lt_mul_right scaled

example : (List.range 20).map (toPrecision 3) =
    [0, 1, 2, 3, 4, 5, 6, 7, 8, 8, 10, 12, 12, 12, 14, 16, 16, 16, 16, 20] := by decide

end Whippet.Rounding
