import Mathlib.Data.ENat.Basic
import Mathlib.Data.Nat.Sqrt
import Whippet.Library.Rounding

/-!
Double-precision numbers that are not negative.

A finite number is a multiple of `2 ^ -1074`, its units, with 53 binary digits at most. Every
operation rounds the exact result once, to nearest and ties to even; where the exact result is no
natural number of units, what is rounded is twice the integer part of its double, with a last digit
that says whether something was cut off.

Owns: sums, differences, products, quotients, roots, comparisons, conversions from and to 64-bit
integers, and that they keep the order in which numbers that are not a number are the least. Does
not own: negative numbers, and other ways of rounding.
-/

namespace Whippet

open Rounding

/-! ## Rounding to units -/

/-- The nearest of the numbers with 53 digits before their zeros, where the last `fraction` digits
of `number` are behind the point. -/
def roundUnits (fraction number : ℕ) : ℕ :=
  let shift := max fraction (Nat.log2 number + 1 - 53)
  divTwoPow number shift * 2 ^ (shift - fraction)

/-- `2 * (dividend / divisor)`, and one more if there is a remainder. -/
def stickyQuotient (dividend divisor : ℕ) : ℕ :=
  2 * (dividend / divisor) + if dividend % divisor = 0 then 0 else 1

/-- `2 * sqrt square`, and one more if there is a remainder. -/
def stickyRoot (square : ℕ) : ℕ :=
  2 * Nat.sqrt square + if Nat.sqrt square * Nat.sqrt square = square then 0 else 1

section Units

variable {fraction number small large : ℕ}

theorem roundUnits_of_short (short : Nat.log2 number + 1 - 53 ≤ fraction) :
    roundUnits fraction number = divTwoPow number fraction := by
  unfold roundUnits
  dsimp only
  rw [max_eq_left short, Nat.sub_self, pow_zero, Nat.mul_one]

theorem roundUnits_mul_of_long (long : fraction ≤ Nat.log2 number + 1 - 53) :
    roundUnits fraction number * 2 ^ fraction = toPrecision 53 number := by
  rw [roundUnits, max_eq_right long, toPrecision, Nat.mul_assoc, ← pow_add]
  congr 2
  omega

theorem divTwoPow_le_of_short (short : Nat.log2 number + 1 - 53 ≤ fraction) :
    divTwoPow number fraction ≤ 2 ^ 53 := by
  have upper : number < 2 ^ (Nat.log2 number + 1) := Nat.lt_log2_self
  have atMost : number ≤ 2 ^ 53 * 2 ^ fraction := by
    rw [← pow_add]
    exact upper.le.trans (Nat.pow_le_pow_right two_pos (by omega))
  calc divTwoPow number fraction ≤ divTwoPow (2 ^ 53 * 2 ^ fraction) fraction :=
        divTwoPow_mono fraction atMost
    _ = 2 ^ 53 := divTwoPow_mul_two_pow _ _

theorem roundUnits_mono (fraction : ℕ) (ordered : small ≤ large) :
    roundUnits fraction small ≤ roundUnits fraction large := by
  rcases Nat.eq_zero_or_pos small with rfl | positive
  · simp [roundUnits, divTwoPow]
  have digits : Nat.log2 small ≤ Nat.log2 large :=
    (Nat.le_log2 (by omega)).mpr ((Nat.log2_self_le positive.ne').trans ordered)
  rcases Nat.le_total (Nat.log2 large + 1 - 53) fraction with short | long
  · rw [roundUnits_of_short short, roundUnits_of_short (by omega)]
    exact divTwoPow_mono _ ordered
  · apply Nat.le_of_mul_le_mul_right _ (Nat.two_pow_pos fraction)
    rw [roundUnits_mul_of_long long]
    rcases Nat.le_total fraction (Nat.log2 small + 1 - 53) with smallLong | smallShort
    · rw [roundUnits_mul_of_long smallLong]
      exact toPrecision_mono (by decide) ordered
    · rcases Nat.eq_or_lt_of_le long with same | longer
      · have short : Nat.log2 large + 1 - 53 ≤ fraction := same.ge
        rw [← roundUnits_mul_of_long long, roundUnits_of_short short,
          roundUnits_of_short smallShort]
        exact Nat.mul_le_mul_right _ (divTwoPow_mono _ ordered)
      · rw [roundUnits_of_short smallShort]
        calc divTwoPow small fraction * 2 ^ fraction ≤ 2 ^ 53 * 2 ^ fraction :=
              Nat.mul_le_mul_right _ (divTwoPow_le_of_short smallShort)
          _ ≤ 2 ^ Nat.log2 large := by
              rw [← pow_add]
              exact Nat.pow_le_pow_right two_pos (by omega)
          _ ≤ toPrecision 53 large := two_pow_log2_le_toPrecision (by decide) (by omega)

theorem toPrecision_roundUnits (fraction number : ℕ) :
    toPrecision 53 (roundUnits fraction number) = roundUnits fraction number := by
  rcases Nat.le_total (Nat.log2 number + 1 - 53) fraction with short | long
  · rw [roundUnits_of_short short]
    rcases Nat.eq_or_lt_of_le (divTwoPow_le_of_short short) with same | below
    · rw [same]
      decide +kernel
    · exact toPrecision_of_lt below
  · apply Nat.eq_of_mul_eq_mul_right (Nat.two_pow_pos fraction)
    rw [← toPrecision_mul_two_pow, roundUnits_mul_of_long long, toPrecision_toPrecision (by decide)]

/-- With no digits but zeros behind the point, only the number is rounded. -/
theorem roundUnits_mul_two_pow (fraction number : ℕ) :
    roundUnits fraction (number * 2 ^ fraction) = toPrecision 53 number := by
  rcases Nat.le_total (Nat.log2 (number * 2 ^ fraction) + 1 - 53) fraction with short | long
  · rw [roundUnits_of_short short, divTwoPow_mul_two_pow]
    have upper : number * 2 ^ fraction < 2 ^ 53 * 2 ^ fraction := by
      rw [← pow_add]
      exact Nat.lt_log2_self.trans_le (Nat.pow_le_pow_right two_pos (by omega))
    exact (toPrecision_of_lt (Nat.lt_of_mul_lt_mul_right upper)).symm
  · apply Nat.eq_of_mul_eq_mul_right (Nat.two_pow_pos fraction)
    rw [roundUnits_mul_of_long long, toPrecision_mul_two_pow]

theorem roundUnits_zero_eq (number : ℕ) : roundUnits 0 number = toPrecision 53 number := by
  have noFraction := roundUnits_mul_two_pow 0 number
  rwa [pow_zero, Nat.mul_one] at noFraction

/-- Rounding a number of more than 53 digits takes off one unit in the last digit at most. -/
theorem pred_mul_le_roundUnits (enough : 2 ^ 53 * 2 ^ fraction ≤ number) :
    (2 ^ 53 - 1) * number ≤ 2 ^ 53 * (roundUnits fraction number * 2 ^ fraction) := by
  have digits : 53 + fraction ≤ Nat.log2 number := by
    rw [← pow_add] at enough
    exact (Nat.le_log2 (by have := Nat.two_pow_pos (53 + fraction); omega)).mpr enough
  rw [roundUnits_mul_of_long (by omega)]
  exact pred_mul_le_toPrecision 53 number

theorem stickyQuotient_mono {dividend divisor otherDividend otherDivisor : ℕ}
    (positive : 0 < divisor) (otherPositive : 0 < otherDivisor)
    (ordered : dividend * otherDivisor ≤ otherDividend * divisor) :
    stickyQuotient dividend divisor ≤ stickyQuotient otherDividend otherDivisor := by
  have split := Nat.div_add_mod' dividend divisor
  have quotients : dividend / divisor ≤ otherDividend / otherDivisor := by
    rw [Nat.le_div_iff_mul_le otherPositive]
    apply Nat.le_of_mul_le_mul_right _ positive
    calc dividend / divisor * otherDivisor * divisor
        = dividend / divisor * divisor * otherDivisor := Nat.mul_right_comm _ _ _
      _ ≤ dividend * otherDivisor := Nat.mul_le_mul_right _ (by omega)
      _ ≤ otherDividend * divisor := ordered
  unfold stickyQuotient
  rcases Nat.eq_or_lt_of_le quotients with same | less
  · rw [same] at split ⊢
    by_cases exact : otherDividend % otherDivisor = 0
    · have remainder : dividend % divisor = 0 := by
        have otherSplit := Nat.div_add_mod' otherDividend otherDivisor
        rw [exact, Nat.add_zero] at otherSplit
        generalize otherDividend / otherDivisor = quotient at split otherSplit
        generalize dividend % divisor = rest at split ⊢
        subst split otherSplit
        have none : rest * otherDivisor = 0 := by
          rw [Nat.add_mul, Nat.mul_right_comm] at ordered
          omega
        exact (Nat.mul_eq_zero.mp none).resolve_right otherPositive.ne'
      rw [if_pos exact, if_pos remainder]
    · rw [if_neg exact]
      split <;> omega
  · split <;> split <;> omega

theorem stickyRoot_mono (ordered : small ≤ large) : stickyRoot small ≤ stickyRoot large := by
  have roots := Nat.sqrt_le_sqrt ordered
  have atMost := Nat.sqrt_le small
  unfold stickyRoot
  rcases Nat.eq_or_lt_of_le roots with same | less
  · rw [same] at atMost ⊢
    by_cases exact : Nat.sqrt large * Nat.sqrt large = large
    · rw [if_pos exact, if_pos (by omega)]
    · rw [if_neg exact]
      split <;> omega
  · split <;> split <;> omega

end Units

/-! ## Numbers -/

def fractionDigits : ℕ := 1074
def exponentLimit : ℕ := 1024

/-- The units of 1. -/
def unitsOfOne : ℕ := 2 ^ fractionDigits

/-- The units of `2 ^ 1024`, which no finite number reaches. -/
def unitsOutOfRange : ℕ := 2 ^ (fractionDigits + exponentLimit)

theorem unitsOfOne_pos : 0 < unitsOfOne := Nat.two_pow_pos fractionDigits

theorem unitsOutOfRange_pos : 0 < unitsOutOfRange :=
  Nat.two_pow_pos (fractionDigits + exponentLimit)

theorem two_pow_mul_unitsOfOne_lt {exponent : ℕ} (inRange : exponent < exponentLimit) :
    2 ^ exponent * unitsOfOne < unitsOutOfRange := by
  rw [unitsOfOne, unitsOutOfRange, ← pow_add]
  exact Nat.pow_lt_pow_right one_lt_two (by omega)

/-- At most 53 digits before the zeros, and in range. -/
def Representable (units : ℕ) : Prop := toPrecision 53 units = units ∧ units < unitsOutOfRange

inductive Binary64 where
  | finite (units : ℕ) (isRepresentable : Representable units)
  | infinite
  | nan
  deriving DecidableEq

namespace Binary64

/-- Where the last `fraction` digits of the number of units are behind the point. -/
def round (fraction number : ℕ) : Binary64 :=
  if inRange : roundUnits fraction number < unitsOutOfRange then
    .finite (roundUnits fraction number) ⟨toPrecision_roundUnits fraction number, inRange⟩
  else .infinite

def ofUInt64 (value : UInt64) : Binary64 := round 0 (value.toNat * unitsOfOne)

/-- The integer part. What is out of range is undefined in C, and is saturated here. -/
def toUInt64 : Binary64 → UInt64
  | .finite units _ => .ofNat (min (units / unitsOfOne) (2 ^ 64 - 1))
  | .infinite => .ofNat (2 ^ 64 - 1)
  | .nan => 0

def isNan (value : Binary64) : Bool := decide (value = .nan)

def lt : Binary64 → Binary64 → Bool
  | .nan, _ | _, .nan => false
  | .infinite, _ => false
  | .finite _ _, .infinite => true
  | .finite units _, .finite otherUnits _ => decide (units < otherUnits)

def add : Binary64 → Binary64 → Binary64
  | .nan, _ | _, .nan => .nan
  | .infinite, _ | _, .infinite => .infinite
  | .finite units _, .finite otherUnits _ => round 0 (units + otherUnits)

/-- Of a finite number that is at most the first. -/
def sub : Binary64 → Binary64 → Binary64
  | .nan, _ | _, .nan | _, .infinite => .nan
  | .infinite, _ => .infinite
  | .finite units _, .finite otherUnits _ => round 0 (units - otherUnits)

def mul : Binary64 → Binary64 → Binary64
  | .nan, _ | _, .nan => .nan
  | .infinite, .infinite => .infinite
  | .infinite, .finite units _ | .finite units _, .infinite =>
      if units = 0 then .nan else .infinite
  | .finite units _, .finite otherUnits _ => round fractionDigits (units * otherUnits)

def div : Binary64 → Binary64 → Binary64
  | .nan, _ | _, .nan | .infinite, .infinite => .nan
  | .infinite, .finite _ _ => .infinite
  | .finite _ _, .infinite => round 0 0
  | .finite units _, .finite divisor _ =>
      if divisor = 0 then
        if units = 0 then .nan else .infinite
      else round 2 (stickyQuotient (units * (2 * unitsOfOne)) divisor)

def sqrt : Binary64 → Binary64
  | .finite units _ => round 2 (stickyRoot (units * (4 * unitsOfOne)))
  | .infinite => .infinite
  | .nan => .nan

/-! ## Order -/

/-- The units, with what is not a number as the least. -/
def height : Binary64 → ℕ∞
  | .finite units _ => units
  | .infinite => ⊤
  | .nan => 0

/-- The units, with what is not a number as the greatest. -/
def depth : Binary64 → ℕ∞
  | .finite units _ => units
  | .infinite | .nan => ⊤

section Order

variable {first second other result : Binary64} {fraction small large : ℕ}

theorem height_round (fraction number : ℕ) :
    (round fraction number).height =
      if roundUnits fraction number < unitsOutOfRange then (roundUnits fraction number : ℕ∞)
      else ⊤ := by
  unfold round
  split <;> rfl

theorem depth_round (fraction number : ℕ) :
    (round fraction number).depth = (round fraction number).height := by
  unfold round
  split <;> rfl

theorem height_round_mono (fraction : ℕ) (ordered : small ≤ large) :
    (round fraction small).height ≤ (round fraction large).height := by
  have rounded := roundUnits_mono fraction ordered
  rw [height_round, height_round]
  split_ifs
  · exact_mod_cast rounded
  · exact le_top
  · omega
  · exact le_top

@[simp] theorem height_round_zero (fraction : ℕ) : (round fraction 0).height = 0 := by
  have none : roundUnits fraction 0 = 0 := by simp [roundUnits, divTwoPow]
  rw [height_round, none, if_pos unitsOutOfRange_pos]
  rfl

theorem height_eq_zero (value : Binary64) :
    value.height = 0 ↔ value = .nan ∨ ∃ isRepresentable, value = .finite 0 isRepresentable := by
  cases value with
  | finite units isRepresentable =>
      simp only [height, Nat.cast_eq_zero, reduceCtorEq, finite.injEq, false_or]
      exact ⟨fun isZero => ⟨isZero ▸ isRepresentable, isZero⟩, fun ⟨_, isZero⟩ => isZero⟩
  | infinite => simp [height]
  | nan => simp [height]

theorem height_ofUInt64_mono {value larger : UInt64} (ordered : value ≤ larger) :
    (ofUInt64 value).height ≤ (ofUInt64 larger).height :=
  height_round_mono 0 (Nat.mul_le_mul_right _ (UInt64.le_iff_toNat_le.mp ordered))

theorem toUInt64_mono (ordered : first.height ≤ second.height) :
    first.toUInt64 ≤ second.toUInt64 := by
  rw [UInt64.le_iff_toNat_le]
  have saturated : ∀ units : ℕ, (UInt64.ofNat (min (units / unitsOfOne) (2 ^ 64 - 1))).toNat =
      min (units / unitsOfOne) (2 ^ 64 - 1) := by
    intro units
    apply UInt64.toNat_ofNat_of_lt
    have size : UInt64.size = 2 ^ 64 := rfl
    omega
  cases first with
  | nan => exact Nat.zero_le _
  | infinite =>
      cases second with
      | infinite => exact le_rfl
      | finite units _ => exact absurd ordered (by simp [height])
      | nan => exact absurd ordered (by simp [height])
  | finite units _ =>
      rw [toUInt64, saturated]
      cases second with
      | infinite => exact Nat.min_le_right _ _
      | finite largerUnits _ =>
          have ordered : units ≤ largerUnits := by simpa [height] using ordered
          rw [toUInt64, saturated]
          have quotients : units / unitsOfOne ≤ largerUnits / unitsOfOne :=
            Nat.div_le_div_right ordered
          omega
      | nan =>
          have isZero : units = 0 := by simpa [height] using ordered
          rw [isZero, Nat.zero_div]
          exact Nat.zero_le _

theorem height_add_mono (isSecond : second ≠ .nan) (isResult : result ≠ .nan)
    (left : first.height ≤ second.height) (right : other.height ≤ result.height) :
    (first.add other).height ≤ (second.add result).height := by
  cases second with
  | nan => exact absurd rfl isSecond
  | infinite =>
      cases result with
      | nan => exact absurd rfl isResult
      | infinite | finite => exact le_top
  | finite secondUnits _ =>
      cases result with
      | nan => exact absurd rfl isResult
      | infinite => exact le_top
      | finite resultUnits _ =>
          cases first with
          | nan => exact zero_le
          | infinite => exact absurd left (by simp [height])
          | finite firstUnits _ =>
              cases other with
              | nan => exact zero_le
              | infinite => exact absurd right (by simp [height])
              | finite otherUnits _ =>
                  have left : firstUnits ≤ secondUnits := by simpa [height] using left
                  have right : otherUnits ≤ resultUnits := by simpa [height] using right
                  exact height_round_mono 0 (Nat.add_le_add left right)

/-- A product with zero, or with what is not a number, is the least. -/
theorem height_mul_of_height_eq_zero (isZero : first.height = 0 ∨ other.height = 0) :
    (first.mul other).height = 0 := by
  cases first with
  | nan => rfl
  | infinite =>
      cases other with
      | nan => rfl
      | infinite => simp [height] at isZero
      | finite units _ =>
          have isZero : units = 0 := by simpa [height] using isZero
          simp [mul, isZero, height]
  | finite units _ =>
      cases other with
      | nan => rfl
      | infinite =>
          have isZero : units = 0 := by simpa [height] using isZero
          simp [mul, isZero, height]
      | finite otherUnits _ =>
          have none : units * otherUnits = 0 := by simpa [height] using isZero
          rw [mul, none]
          exact height_round_zero _

theorem height_mul_mono (left : first.height ≤ second.height)
    (right : other.height ≤ result.height) :
    (first.mul other).height ≤ (second.mul result).height := by
  by_cases least : first.height = 0 ∨ other.height = 0
  · rw [height_mul_of_height_eq_zero least]
    exact zero_le
  obtain ⟨firstPositive, otherPositive⟩ := not_or.mp least
  have secondPositive : second.height ≠ 0 :=
    fun isZero => firstPositive (by simpa [isZero] using left)
  have resultPositive : result.height ≠ 0 :=
    fun isZero => otherPositive (by simpa [isZero] using right)
  cases second with
  | nan => exact absurd rfl secondPositive
  | infinite =>
      cases result with
      | nan => exact absurd rfl resultPositive
      | infinite => exact le_top
      | finite units _ =>
          have positive : units ≠ 0 := by simpa [height] using resultPositive
          simp [mul, positive, height]
  | finite secondUnits _ =>
      cases result with
      | nan => exact absurd rfl resultPositive
      | infinite =>
          have positive : secondUnits ≠ 0 := by simpa [height] using secondPositive
          simp [mul, positive, height]
      | finite resultUnits _ =>
          cases first with
          | nan => exact absurd rfl firstPositive
          | infinite => exact absurd left (by simp [height])
          | finite firstUnits _ =>
              cases other with
              | nan => exact absurd rfl otherPositive
              | infinite => exact absurd right (by simp [height])
              | finite otherUnits _ =>
                  have left : firstUnits ≤ secondUnits := by simpa [height] using left
                  have right : otherUnits ≤ resultUnits := by simpa [height] using right
                  exact height_round_mono fractionDigits (Nat.mul_le_mul left right)

theorem height_sqrt_mono (ordered : first.height ≤ second.height) :
    first.sqrt.height ≤ second.sqrt.height := by
  cases first with
  | nan => exact zero_le
  | infinite =>
      cases second with
      | infinite => exact le_rfl
      | finite | nan => exact absurd ordered (by simp [height])
  | finite units _ =>
      cases second with
      | infinite => exact le_top
      | finite secondUnits _ =>
          have ordered : units ≤ secondUnits := by simpa [height] using ordered
          exact height_round_mono 2 (stickyRoot_mono (Nat.mul_le_mul_right _ ordered))
      | nan =>
          have isZero : units = 0 := by simpa [height] using ordered
          have none : stickyRoot 0 = 0 := by simp [stickyRoot]
          rw [sqrt, isZero, Nat.zero_mul, none, height_round_zero]
          exact zero_le

theorem stickyQuotient_zero (divisor : ℕ) : stickyQuotient 0 divisor = 0 := by
  simp [stickyQuotient]

/-- A quotient grows with the dividend, and as the divisor falls. -/
theorem height_div_mono (dividends : first.height ≤ second.height)
    (divisors : result.depth ≤ other.depth) :
    (first.div other).height ≤ (second.div result).height := by
  by_cases least : first.height = 0
  · have quotient : (first.div other).height = 0 := by
      rcases (height_eq_zero first).mp least with rfl | ⟨_, rfl⟩
      · rfl
      · cases other with
        | nan => rfl
        | infinite => exact height_round_zero 0
        | finite units _ =>
            rw [div]
            split
            · rfl
            · rw [Nat.zero_mul, stickyQuotient_zero]
              exact height_round_zero 2
    rw [quotient]
    exact zero_le
  cases other with
  | nan => cases first <;> exact zero_le
  | infinite =>
      cases first with
      | nan | infinite => exact zero_le
      | finite units _ =>
          rw [div, height_round_zero]
          exact zero_le
  | finite units _ =>
      cases result with
      | nan | infinite => exact absurd divisors (by simp [depth])
      | finite resultUnits _ =>
          have divisors : resultUnits ≤ units := by simpa [depth] using divisors
          cases second with
          | nan => exact absurd (by simpa [height] using dividends) least
          | infinite => exact le_top
          | finite secondUnits _ =>
              cases first with
              | nan => exact absurd rfl least
              | infinite => exact absurd dividends (by simp [height])
              | finite firstUnits _ =>
                  have dividends : firstUnits ≤ secondUnits := by simpa [height] using dividends
                  have positive : firstUnits ≠ 0 := by simpa [height] using least
                  by_cases none : resultUnits = 0
                  · rw [div.eq_def (.finite secondUnits _)]
                    dsimp only
                    rw [if_pos none, if_neg (by omega)]
                    exact le_top
                  · rw [div, div, if_neg none, if_neg (by omega)]
                    apply height_round_mono 2
                    apply stickyQuotient_mono (by omega) (by omega)
                    exact Nat.mul_le_mul (Nat.mul_le_mul_right _ dividends) divisors

/-- The same where the quotient is a divisor in turn. -/
theorem depth_div_anti (divisors : other.height ≤ result.height) :
    (first.div result).depth ≤ (first.div other).depth := by
  cases first with
  | nan => cases other <;> exact le_top
  | infinite => cases other <;> exact le_top
  | finite units _ =>
      cases other with
      | nan => exact le_top
      | infinite =>
          cases result with
          | infinite => exact le_rfl
          | finite | nan => exact absurd divisors (by simp [height])
      | finite otherUnits _ =>
          by_cases none : otherUnits = 0
          · rw [div.eq_def (.finite units _) (.finite otherUnits _)]
            dsimp only
            rw [if_pos none]
            split <;> exact le_top
          · cases result with
            | nan => exact absurd (by simpa [height] using divisors) none
            | infinite =>
                rw [div, depth_round, height_round_zero]
                exact zero_le
            | finite resultUnits _ =>
                have divisors : otherUnits ≤ resultUnits := by simpa [height] using divisors
                rw [div, div, if_neg (by omega), if_neg none, depth_round, depth_round]
                apply height_round_mono 2
                apply stickyQuotient_mono (by omega) (by omega)
                exact Nat.mul_le_mul_left _ divisors

theorem lt_iff (isFirst : first ≠ .nan) (isSecond : second ≠ .nan) :
    first.lt second = true ↔ first.height < second.height := by
  cases first with
  | nan => exact absurd rfl isFirst
  | infinite => cases second <;> simp [lt, height]
  | finite units _ =>
      cases second with
      | nan => exact absurd rfl isSecond
      | infinite => simp [lt, height]
      | finite secondUnits _ => simp [lt, height]

theorem ne_nan_of_height_ne_zero (positive : first.height ≠ 0) : first ≠ .nan := by
  rintro rfl
  exact positive rfl

theorem round_ne_nan (fraction number : ℕ) : round fraction number ≠ .nan := by
  unfold round
  split <;> simp

/-- A number between two finite ones is finite. -/
theorem finite_of_height (positive : first.height ≠ 0) (atMost : first.height ≤ small) :
    ∃ units isRepresentable, first = .finite units isRepresentable ∧ units ≤ small := by
  cases first with
  | finite units isRepresentable =>
      exact ⟨units, isRepresentable, rfl, by simpa [height] using atMost⟩
  | infinite => exact absurd atMost (by simp [height])
  | nan => exact absurd rfl positive

end Order

/-! ## Integers -/

section Integers

variable {value : UInt64} {units : ℕ} {isRepresentable : Representable units}

theorem toPrecision_mul_unitsOfOne (number : ℕ) :
    toPrecision 53 (number * unitsOfOne) = toPrecision 53 number * unitsOfOne :=
  toPrecision_mul_two_pow 53 number fractionDigits

theorem toPrecision_toNat_le (value : UInt64) : toPrecision 53 value.toNat ≤ 2 ^ 64 :=
  calc toPrecision 53 value.toNat ≤ toPrecision 53 (2 ^ 64) :=
        toPrecision_mono (by decide) value.toNat_lt.le
    _ = 2 ^ 64 := by decide +kernel

theorem finite_ofUInt64 (value : UInt64) : ∃ isRepresentable,
    ofUInt64 value = .finite (toPrecision 53 value.toNat * unitsOfOne) isRepresentable := by
  have isRounded : roundUnits 0 (value.toNat * unitsOfOne) =
      toPrecision 53 value.toNat * unitsOfOne := by
    rw [roundUnits_zero_eq, toPrecision_mul_unitsOfOne]
  have atMost := toPrecision_toNat_le value
  have inRange : toPrecision 53 value.toNat * unitsOfOne < unitsOutOfRange :=
    (Nat.mul_le_mul_right _ atMost).trans_lt (two_pow_mul_unitsOfOne_lt (by decide))
  have isRepresentable : Representable (toPrecision 53 value.toNat * unitsOfOne) :=
    ⟨isRounded ▸ toPrecision_roundUnits 0 _, inRange⟩
  refine ⟨isRepresentable, ?_⟩
  simp only [ofUInt64, round, isRounded, inRange, ↓reduceDIte]

theorem toNat_toUInt64_finite :
    (Binary64.finite units isRepresentable).toUInt64.toNat =
      min (units / unitsOfOne) (2 ^ 64 - 1) := by
  apply UInt64.toNat_ofNat_of_lt
  have size : UInt64.size = 2 ^ 64 := rfl
  omega

theorem toNat_toUInt64_round (fraction number : ℕ) :
    (round fraction number).toUInt64.toNat =
      min (roundUnits fraction number / unitsOfOne) (2 ^ 64 - 1) := by
  unfold round
  split
  · exact toNat_toUInt64_finite
  next outOfRange =>
    have large : 2 ^ 64 ≤ roundUnits fraction number / unitsOfOne := by
      rw [Nat.le_div_iff_mul_le unitsOfOne_pos]
      exact (two_pow_mul_unitsOfOne_lt (by decide)).le.trans (not_lt.mp outOfRange)
    rw [Nat.min_eq_right (by omega)]
    rfl

/-- The root of an integer is at most `2 ^ 32`. -/
theorem finite_sqrt_ofUInt64 (value : UInt64) :
    ∃ units isRepresentable, (ofUInt64 value).sqrt = .finite units isRepresentable := by
  obtain ⟨_, isValue⟩ := finite_ofUInt64 value
  have atMost := toPrecision_toNat_le value
  have square : toPrecision 53 value.toNat * unitsOfOne * (4 * unitsOfOne) ≤
      2 ^ 33 * unitsOfOne * (2 ^ 33 * unitsOfOne) :=
    calc toPrecision 53 value.toNat * unitsOfOne * (4 * unitsOfOne)
        ≤ 2 ^ 64 * unitsOfOne * (4 * unitsOfOne) :=
          Nat.mul_le_mul_right _ (Nat.mul_le_mul_right _ atMost)
      _ = 2 ^ 33 * unitsOfOne * (2 ^ 33 * unitsOfOne) := by ring
  have root : stickyRoot (2 ^ 33 * unitsOfOne * (2 ^ 33 * unitsOfOne)) =
      2 ^ 32 * unitsOfOne * 2 ^ 2 := by
    rw [stickyRoot, Nat.sqrt_eq, if_pos rfl]
    ring
  have roots := roundUnits_mono 2 (stickyRoot_mono square)
  have power : toPrecision 53 (2 ^ 32 * unitsOfOne) = 2 ^ 32 * unitsOfOne := by
    rw [toPrecision_mul_unitsOfOne, toPrecision_of_lt (by decide)]
  rw [root, roundUnits_mul_two_pow, power] at roots
  have inRange := roots.trans_lt (@two_pow_mul_unitsOfOne_lt 32 (by decide))
  rw [isValue, sqrt, round, dif_pos inRange]
  exact ⟨_, _, rfl⟩

/-- A product with one keeps what is rounded. -/
theorem roundUnits_mul_unitsOfOne (number : ℕ) :
    roundUnits fractionDigits (number * unitsOfOne) = toPrecision 53 number :=
  roundUnits_mul_two_pow fractionDigits number

theorem pred_mul_le_product {number : ℕ} (enough : 2 ^ 53 * unitsOfOne ≤ number) :
    (2 ^ 53 - 1) * number ≤ 2 ^ 53 * (roundUnits fractionDigits number * unitsOfOne) := by
  rw [unitsOfOne] at enough ⊢
  exact pred_mul_le_roundUnits enough

theorem toNat_toUInt64_add (value other : UInt64) :
    ((ofUInt64 value).add (ofUInt64 other)).toUInt64.toNat =
      min (toPrecision 53 (toPrecision 53 value.toNat + toPrecision 53 other.toNat))
        (2 ^ 64 - 1) := by
  obtain ⟨_, isValue⟩ := finite_ofUInt64 value
  obtain ⟨_, isOther⟩ := finite_ofUInt64 other
  rw [isValue, isOther, add, toNat_toUInt64_round, ← Nat.add_mul, roundUnits_zero_eq,
    toPrecision_mul_unitsOfOne, Nat.mul_div_cancel _ unitsOfOne_pos]

theorem toNat_toUInt64_mul (value : UInt64) :
    ((ofUInt64 value).mul (.finite units isRepresentable)).toUInt64.toNat =
      min (roundUnits fractionDigits (toPrecision 53 value.toNat * unitsOfOne * units) /
        unitsOfOne) (2 ^ 64 - 1) := by
  obtain ⟨_, isValue⟩ := finite_ofUInt64 value
  rw [isValue, mul, toNat_toUInt64_round]

/-- Comparing with an integer that is not rounded. -/
theorem lt_ofUInt64_iff {other : UInt64} (exact : other.toNat < 2 ^ 53) :
    (ofUInt64 value).lt (ofUInt64 other) = true ↔ value.toNat < other.toNat := by
  obtain ⟨_, isValue⟩ := finite_ofUInt64 value
  obtain ⟨_, isOther⟩ := finite_ofUInt64 other
  rw [isValue, isOther, lt, decide_eq_true_eq, Nat.mul_lt_mul_right unitsOfOne_pos,
    toPrecision_of_lt exact]
  constructor
  · intro below
    by_contra notBelow
    have rounded := @toPrecision_mono 53 _ _ (by decide) (not_lt.mp notBelow)
    rw [toPrecision_of_lt exact] at rounded
    omega
  · intro below
    rwa [toPrecision_of_lt (below.trans exact)]

end Integers

end Binary64

end Whippet
