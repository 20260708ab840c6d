import Mathlib.Algebra.Order.Ring.Nat
import Mathlib.Data.Nat.Log
import Mathlib.Tactic.Ring

/-!
Linear-log buckets of natural numbers.

A number of at most `precision` binary digits is its own bucket. A longer one is cut to its first
`precision + 1` digits, of which the first is known; the bucket is the number of digits cut off with
those digits. Each power of two above `2 ^ precision` starts as many buckets as lie below it.

Owns: the bucket and the least number of a bucket, that they agree, and that buckets keep the order.
Does not own: words, and a last bucket for all that is too large.
-/

namespace Whippet.LinearLog

variable {precision small large : ℕ}

/-- The number of binary digits that are cut off. -/
def cut (precision number : ℕ) : ℕ := Nat.log2 number - precision

def bucket (precision number : ℕ) : ℕ :=
  cut precision number * 2 ^ precision + number / 2 ^ cut precision number

/-- The least number of a bucket. -/
def bucketMin (precision index : ℕ) : ℕ :=
  if index / 2 ^ precision = 0 then index
  else (2 ^ precision + index % 2 ^ precision) * 2 ^ (index / 2 ^ precision - 1)

theorem cut_of_lt (short : small < 2 ^ precision) : cut precision small = 0 := by
  rcases Nat.eq_zero_or_pos small with rfl | positive
  · rw [cut, Nat.log2_zero, Nat.zero_sub]
  · have digits : Nat.log2 small < precision := (Nat.log2_lt positive.ne').mpr short
    exact Nat.sub_eq_zero_of_le digits.le

theorem bucket_of_lt (short : small < 2 ^ precision) : bucket precision small = small := by
  rw [bucket, cut_of_lt short, pow_zero, Nat.div_one, Nat.zero_mul, Nat.zero_add]

/-- The digits that are kept. -/
theorem kept_lt (precision number : ℕ) :
    number / 2 ^ cut precision number < 2 ^ (precision + 1) := by
  apply (Nat.div_lt_iff_lt_mul (Nat.two_pow_pos _)).mpr
  rw [← pow_add]
  apply Nat.lt_log2_self.trans_le
  apply Nat.pow_le_pow_right Nat.two_pos
  rw [cut]
  omega

/-- Where digits are cut off, a leading one is kept. -/
theorem le_kept {number : ℕ} (long : cut precision number ≠ 0) :
    2 ^ precision ≤ number / 2 ^ cut precision number := by
  have digits : precision + cut precision number = Nat.log2 number := by
    rw [cut] at long ⊢
    omega
  apply (Nat.le_div_iff_mul_le (Nat.two_pow_pos _)).mpr
  rw [← pow_add, digits]
  apply Nat.log2_self_le
  rintro rfl
  exact long (cut_of_lt (Nat.two_pow_pos _))

/-- A bucket of digits and the number cut off starts where all digits that are cut off are zero. One
more than the greatest digits is the next power of two. -/
theorem bucketMin_eq {dropped kept : ℕ} (leading : dropped = 0 ∨ 2 ^ precision ≤ kept)
    (fits : kept ≤ 2 ^ (precision + 1)) :
    bucketMin precision (dropped * 2 ^ precision + kept) = kept * 2 ^ dropped := by
  have room : 0 < 2 ^ precision := Nat.two_pow_pos precision
  rw [pow_succ] at fits
  rcases Nat.lt_or_ge kept (2 ^ precision) with linear | long
  · have none : dropped = 0 := leading.resolve_right (Nat.not_le.mpr linear)
    subst none
    rw [bucketMin, Nat.zero_mul, Nat.zero_add, if_pos (Nat.div_eq_of_lt linear), pow_zero,
      Nat.mul_one]
  · obtain ⟨rest, rfl⟩ := Nat.exists_eq_add_of_le long
    have regroup : dropped * 2 ^ precision + (2 ^ precision + rest) =
        rest + 2 ^ precision * (dropped + 1) := by ring
    rw [regroup]
    rcases Nat.lt_or_ge rest (2 ^ precision) with below | above
    · rw [bucketMin, Nat.add_mul_div_left _ _ room, Nat.add_mul_mod_self_left,
        Nat.div_eq_of_lt below, Nat.mod_eq_of_lt below, if_neg (by omega)]
      rw [Nat.zero_add, Nat.add_sub_cancel]
    · have full : rest = 2 ^ precision := by omega
      have next : rest + 2 ^ precision * (dropped + 1) = 2 ^ precision * (dropped + 2) := by
        rw [full]
        ring
      rw [next, bucketMin, Nat.mul_div_cancel_left _ room, Nat.mul_mod_right, if_neg (by omega),
        full]
      have exponent : dropped + 2 - 1 = dropped + 1 := by omega
      rw [exponent, pow_succ]
      ring

theorem bucketMin_bucket (precision number : ℕ) :
    bucketMin precision (bucket precision number) =
      number / 2 ^ cut precision number * 2 ^ cut precision number := by
  rw [bucket]
  apply bucketMin_eq _ (kept_lt precision number).le
  rcases Nat.eq_zero_or_pos (cut precision number) with none | some
  · exact .inl none
  · exact .inr (le_kept some.ne')

theorem bucketMin_bucket_succ (precision number : ℕ) :
    bucketMin precision (bucket precision number + 1) =
      (number / 2 ^ cut precision number + 1) * 2 ^ cut precision number := by
  rw [bucket, Nat.add_assoc]
  apply bucketMin_eq _ (kept_lt precision number)
  rcases Nat.eq_zero_or_pos (cut precision number) with none | some
  · exact .inl none
  · exact .inr (Nat.le_succ_of_le (le_kept some.ne'))

/-- A number is not less than the least of its bucket, and less than the least of the next one. -/
theorem bucketMin_bucket_le (precision number : ℕ) :
    bucketMin precision (bucket precision number) ≤ number := by
  rw [bucketMin_bucket]
  exact Nat.div_mul_le_self number _

theorem lt_bucketMin_bucket_succ (precision number : ℕ) :
    number < bucketMin precision (bucket precision number + 1) := by
  rw [bucketMin_bucket_succ]
  exact Nat.lt_mul_of_div_lt (Nat.lt_succ_self _) (Nat.two_pow_pos _)

theorem bucket_mono (precision : ℕ) (ordered : small ≤ large) :
    bucket precision small ≤ bucket precision large := by
  have cuts : cut precision small ≤ cut precision large := by
    rw [cut, cut, Nat.log2_eq_log_two, Nat.log2_eq_log_two]
    exact Nat.sub_le_sub_right (Nat.log_mono_right ordered) precision
  rcases cuts.eq_or_lt with same | shorter
  · rw [bucket, bucket, same]
    exact Nat.add_le_add_left (Nat.div_le_div_right ordered) _
  · have leading : 2 ^ precision ≤ large / 2 ^ cut precision large := le_kept (by omega)
    have kept := kept_lt precision small
    rw [pow_succ] at kept
    calc bucket precision small
        ≤ cut precision small * 2 ^ precision + 2 ^ precision * 2 := by
          rw [bucket]
          omega
      _ = (cut precision small + 1) * 2 ^ precision + 2 ^ precision := by ring
      _ ≤ cut precision large * 2 ^ precision + large / 2 ^ cut precision large :=
          Nat.add_le_add (Nat.mul_le_mul_right _ shorter) leading

/-- The quotient by as many buckets as a power of two has. -/
theorem bucket_div (precision number : ℕ) :
    bucket precision number / 2 ^ precision =
      if number < 2 ^ precision then 0 else cut precision number + 1 := by
  have room : 0 < 2 ^ precision := Nat.two_pow_pos precision
  split
  next short => rw [bucket_of_lt short, Nat.div_eq_of_lt short]
  next long =>
    have kept := kept_lt precision number
    have leading : 2 ^ precision ≤ number / 2 ^ cut precision number := by
      rcases Nat.eq_zero_or_pos (cut precision number) with none | some
      · rw [none, pow_zero, Nat.div_one]
        exact Nat.le_of_not_lt long
      · exact le_kept some.ne'
    rw [pow_succ] at kept
    rw [bucket, Nat.add_comm, Nat.add_mul_div_right _ _ room, Nat.add_comm]
    congr 1
    apply Nat.div_eq_of_lt_le
    · rw [Nat.one_mul]
      exact leading
    · rw [Nat.mul_comm]
      exact kept

/-- The remainder by as many buckets as a power of two has: the digits after the leading one. -/
theorem bucket_mod (precision number : ℕ) :
    bucket precision number % 2 ^ precision =
      number / 2 ^ cut precision number % 2 ^ precision := by
  rw [bucket, Nat.mul_comm, Nat.mul_add_mod]

/-- Each further power of two doubles the numbers that the buckets start with. -/
theorem bucketMin_le_two_pow {index bits : ℕ}
    (notAbove : index ≤ bits * 2 ^ precision) :
    bucketMin precision index ≤ 2 ^ (precision + (bits - 1)) := by
  have room : 0 < 2 ^ precision := Nat.two_pow_pos precision
  have split := Nat.div_add_mod' index (2 ^ precision)
  have below := Nat.mod_lt index room
  rw [bucketMin, pow_add]
  split
  next linear =>
    have short : index ≤ 2 ^ precision := ((Nat.div_eq_zero_iff_lt room).mp linear).le
    exact short.trans (Nat.le_mul_of_pos_right _ (Nat.two_pow_pos _))
  next long =>
    have atMost : index / 2 ^ precision ≤ bits :=
      (Nat.div_le_div_right notAbove).trans_eq (Nat.mul_div_cancel _ room)
    rcases atMost.eq_or_lt with last | earlier
    · rw [last] at split ⊢
      have noDigits : index % 2 ^ precision = 0 := by omega
      rw [noDigits, Nat.add_zero]
    · calc (2 ^ precision + index % 2 ^ precision) * 2 ^ (index / 2 ^ precision - 1)
          ≤ (2 ^ precision * 2) * 2 ^ (index / 2 ^ precision - 1) := by
            apply Nat.mul_le_mul_right
            omega
        _ = 2 ^ precision * 2 ^ (index / 2 ^ precision - 1 + 1) := by
            rw [pow_succ]
            ring
        _ ≤ 2 ^ precision * 2 ^ (bits - 1) := by
            apply Nat.mul_le_mul_left
            apply Nat.pow_le_pow_right Nat.two_pos
            rw [Nat.sub_add_cancel (Nat.pos_of_ne_zero long)]
            exact Nat.le_sub_one_of_lt earlier

end Whippet.LinearLog
