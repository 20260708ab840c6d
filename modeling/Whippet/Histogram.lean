import Whippet.Library.Checked
import Whippet.Library.LinearLog
import Whippet.Lospace.Space

/-!
The buckets of histograms and of segregated free lists (`gc-histogram.h`, `freelist.h`).

Bucket numbers are computed with words of 64 bits. A shift by as many bits as its operand has, a
count of the leading zeros of zero, and an `int` that overflows are undefined, and are failures
here.

Owns: the two functions on words, and that they are linear-log buckets of numbers with one last
bucket for all that is too large. Does not own: what is counted in the buckets, or what is listed.
-/

namespace Whippet.Histogram

open Tables (Word)
open LinearLog

/-- The operations without a defined result. -/
inductive HistogramFailure where
  | shiftOutOfRange
  | intOverflow
  | leadingZerosOfZero
  deriving DecidableEq, Repr

def shiftLeft (x count : Word) : Outcome HistogramFailure Word := do
  Outcome.check (count < 64) .shiftOutOfRange
  pure (x <<< count)

def shiftRight (x count : Word) : Outcome HistogramFailure Word := do
  Outcome.check (count < 64) .shiftOutOfRange
  pure (x >>> count)

/-- `1 << count`, which is an `int`, as an operand beside a `uint64_t`. -/
def intBit (count : Word) : Outcome HistogramFailure Word := do
  Outcome.check (count < 32) .shiftOutOfRange
  Outcome.check (count < 31) .intOverflow
  pure ((1 : Word) <<< count)

/-- `__builtin_clzll`. -/
def builtinClzll (x : Word) : Outcome HistogramFailure Word := do
  Outcome.check (x ≠ 0) .leadingZerosOfZero
  pure x.clz

def gcHistogramBucket (maxValueBits precision val : Word) : Outcome HistogramFailure Word := do
  let limit ← shiftLeft 1 precision
  let major ←
    if val < limit then pure 0
    else do
      let zeros ← builtinClzll val
      pure (64 - zeros - precision)
  let limit ← intBit precision
  let minor ←
    if val < limit then pure val
    else do
      let high ← shiftRight val (major - 1)
      let one ← shiftLeft 1 precision
      pure (high &&& (one - 1))
  let bits ← shiftLeft major precision
  let idx := bits ||| minor
  let last ← shiftLeft maxValueBits precision
  if last ≤ idx then pure last else pure idx

def gcHistogramBucketMinVal (precision idx : Word) : Outcome HistogramFailure Word := do
  let major ← shiftRight idx precision
  let one ← shiftLeft 1 precision
  let minor := idx &&& (one - 1)
  if major ≠ 0 then
    let one ← shiftLeft 1 precision
    shiftLeft (one ||| minor) (major - 1)
  else pure minor

/-! ## The operations on words -/

variable {x y count precision maxValueBits val : Word}

theorem shiftLeft_eq (inRange : count.toNat < 64) :
    shiftLeft x count = .next (BitVec.ofNat 64 (x.toNat * 2 ^ count.toNat)) := by
  rw [shiftLeft, Outcome.check_bind (BitVec.lt_def.mpr inRange), Outcome.pure_eq_next]
  congr 1
  apply BitVec.eq_of_toNat_eq
  rw [BitVec.shiftLeft_eq', BitVec.toNat_shiftLeft, Nat.shiftLeft_eq, BitVec.toNat_ofNat]

theorem shiftRight_eq (inRange : count.toNat < 64) :
    shiftRight x count = .next (BitVec.ofNat 64 (x.toNat / 2 ^ count.toNat)) := by
  rw [shiftRight, Outcome.check_bind (BitVec.lt_def.mpr inRange), Outcome.pure_eq_next]
  congr 1
  apply BitVec.eq_of_toNat_eq
  have fits : x.toNat / 2 ^ count.toNat < 2 ^ 64 := (Nat.div_le_self _ _).trans_lt x.isLt
  rw [BitVec.ushiftRight_eq', BitVec.toNat_ushiftRight, Nat.shiftRight_eq_div_pow,
    BitVec.toNat_ofNat, Nat.mod_eq_of_lt fits]

theorem intBit_eq (small : precision.toNat ≤ 30) :
    intBit precision = .next (BitVec.ofNat 64 (2 ^ precision.toNat)) := by
  have fits : precision.toNat < 31 := by omega
  have inRange : precision.toNat < 32 := by omega
  rw [intBit, Outcome.check_bind (BitVec.lt_def.mpr inRange),
    Outcome.check_bind (BitVec.lt_def.mpr fits), Outcome.pure_eq_next]
  congr 1
  apply BitVec.eq_of_toNat_eq
  have one : (1 : Word).toNat = 1 := rfl
  rw [BitVec.shiftLeft_eq', BitVec.toNat_shiftLeft, Nat.shiftLeft_eq, one, Nat.one_mul,
    BitVec.toNat_ofNat]

/-- The leading zeros and the digits make up the word. -/
theorem toNat_clz (nonzero : x ≠ 0) : x.clz.toNat + (Nat.log2 x.toNat + 1) = 64 := by
  have positive : x.toNat ≠ 0 := by
    intro isZero
    exact nonzero (BitVec.eq_of_toNat_eq isZero)
  have short : x.clz.toNat < 64 := BitVec.lt_def.mp (BitVec.clz_lt_iff_ne_zero.mpr nonzero)
  have least := BitVec.two_pow_sub_clz_le_toNat_of_ne_zero (by decide) nonzero
  have above := BitVec.toNat_lt_two_pow_sub_clz (x := x)
  have atLeast := (Nat.le_log2 positive).mpr least
  have atMost := (Nat.log2_lt positive).mpr above
  omega

/-- The bits below a power of two. -/
theorem and_pred_eq (power : x = BitVec.ofNat 64 (2 ^ count.toNat)) (small : count.toNat < 64) :
    y &&& (x - 1) = BitVec.ofNat 64 (y.toNat % 2 ^ count.toNat) := by
  apply BitVec.eq_of_toNat_eq
  have below : 2 ^ count.toNat < 2 ^ 64 := Nat.pow_lt_pow_right (by decide) small
  have positive : 0 < 2 ^ count.toNat := Nat.two_pow_pos _
  have value : x.toNat = 2 ^ count.toNat := by
    rw [power, BitVec.toNat_ofNat, Nat.mod_eq_of_lt below]
  have pred : (x - 1).toNat = 2 ^ count.toNat - 1 := by
    rw [BitVec.toNat_sub_of_le (BitVec.le_def.mpr (by rw [value]; exact positive)), value]
    rfl
  have fits : y.toNat % 2 ^ count.toNat < 2 ^ 64 := (Nat.mod_lt _ positive).trans below
  rw [BitVec.toNat_and, pred, Nat.and_two_pow_sub_one_eq_mod, BitVec.toNat_ofNat,
    Nat.mod_eq_of_lt fits]

theorem toNat_ofNat_of_lt {number : ℕ} (fits : number < 2 ^ 64) :
    (BitVec.ofNat 64 number).toNat = number := by
  rw [BitVec.toNat_ofNat, Nat.mod_eq_of_lt fits]

/-! ## The functions on words -/

/-- Parameters for which bucket numbers are words and `1 << precision` is an `int`. -/
structure Suitable (maxValueBits precision : Word) : Prop where
  precision_le : precision.toNat ≤ 30
  bits_le : maxValueBits.toNat ≤ 64

namespace Suitable

variable (suitable : Suitable maxValueBits precision)
include suitable

theorem inRange : precision.toNat < 64 := by
  have small := suitable.precision_le
  omega

theorem two_pow_le : 2 ^ precision.toNat ≤ 2 ^ 30 :=
  Nat.pow_le_pow_right Nat.two_pos suitable.precision_le

/-- Products of a number of bits by the number of buckets of a power of two. -/
theorem mul_two_pow_lt {bits : ℕ} (small : bits ≤ 64) : bits * 2 ^ precision.toNat < 2 ^ 64 := by
  have bound := Nat.mul_le_mul small suitable.two_pow_le
  omega

/-- `1ULL << precision`. -/
theorem shiftLeft_one : shiftLeft 1 precision = .next (BitVec.ofNat 64 (2 ^ precision.toNat)) := by
  have one : (1 : Word).toNat = 1 := rfl
  rw [shiftLeft_eq suitable.inRange, one, Nat.one_mul]

theorem toNat_limit : (BitVec.ofNat 64 (2 ^ precision.toNat)).toNat = 2 ^ precision.toNat := by
  have bound := suitable.two_pow_le
  apply toNat_ofNat_of_lt
  omega

theorem lt_limit_iff : val < BitVec.ofNat 64 (2 ^ precision.toNat) ↔
    val.toNat < 2 ^ precision.toNat := by
  rw [BitVec.lt_def, suitable.toNat_limit]

end Suitable

/-- `major`, which counts the digits that are cut off, and one more where a digit is known. -/
theorem major_eq (long : 2 ^ precision.toNat ≤ val.toNat) :
    64 - val.clz - precision = BitVec.ofNat 64 (cut precision.toNat val.toNat + 1) := by
  have positive : val.toNat ≠ 0 := ((Nat.two_pow_pos _).trans_le long).ne'
  have nonzero : val ≠ 0 := by
    rintro rfl
    exact positive rfl
  have digits := toNat_clz nonzero
  have atLeast : precision.toNat ≤ Nat.log2 val.toNat := (Nat.le_log2 positive).mpr long
  have whole : (64 : Word).toNat = 64 := rfl
  have first : (64 - val.clz).toNat = Nat.log2 val.toNat + 1 := by
    rw [BitVec.toNat_sub_of_le (BitVec.le_def.mpr (by omega)), whole]
    omega
  apply BitVec.eq_of_toNat_eq
  rw [BitVec.toNat_sub_of_le (BitVec.le_def.mpr (by omega)), first, toNat_ofNat_of_lt, cut]
  · omega
  · rw [cut]
    omega

/-- Both parts of a bucket number, put together. -/
theorem or_eq {major minor : ℕ} (suitable : Suitable maxValueBits precision) (small : major ≤ 64)
    (below : minor < 2 ^ precision.toNat) :
    BitVec.ofNat 64 (major * 2 ^ precision.toNat) ||| BitVec.ofNat 64 minor =
      BitVec.ofNat 64 (major * 2 ^ precision.toNat + minor) := by
  have bound := suitable.two_pow_le
  have fits := Nat.mul_le_mul small bound
  apply BitVec.eq_of_toNat_eq
  rw [BitVec.toNat_or, toNat_ofNat_of_lt (by omega), toNat_ofNat_of_lt (by omega),
    toNat_ofNat_of_lt (by omega), Nat.mul_comm, Nat.two_pow_add_eq_or_of_lt below]

/-- The end of the function: the number of the bucket is put together and cut to the last one. -/
theorem idx_eq {major number : ℕ} (suitable : Suitable maxValueBits precision) (small : major ≤ 64)
    (isMajor : number / 2 ^ precision.toNat = major) :
    (do
      let bits ← shiftLeft (BitVec.ofNat 64 major) precision
      let idx := bits ||| BitVec.ofNat 64 (number % 2 ^ precision.toNat)
      let last ← shiftLeft maxValueBits precision
      if last ≤ idx then pure last else pure idx : Outcome HistogramFailure Word) =
      .next (BitVec.ofNat 64 (min number (maxValueBits.toNat * 2 ^ precision.toNat))) := by
  have below : number % 2 ^ precision.toNat < 2 ^ precision.toNat :=
    Nat.mod_lt _ (Nat.two_pow_pos _)
  have whole : major * 2 ^ precision.toNat + number % 2 ^ precision.toNat = number := by
    rw [← isMajor, Nat.mul_comm]
    exact Nat.div_add_mod _ _
  have bound := suitable.two_pow_le
  have product := Nat.mul_le_mul small bound
  have numberFits : number < 2 ^ 64 := by omega
  have lastFits := suitable.mul_two_pow_lt suitable.bits_le
  rw [shiftLeft_eq suitable.inRange, shiftLeft_eq suitable.inRange,
    toNat_ofNat_of_lt (small.trans_lt (by decide))]
  simp only [Outcome.bind_next, Outcome.pure_eq_next]
  rw [or_eq suitable small below, whole]
  simp only [BitVec.le_def, toNat_ofNat_of_lt lastFits, toNat_ofNat_of_lt numberFits]
  split
  next above => rw [Nat.min_eq_right above]
  next under => rw [Nat.min_eq_left (Nat.le_of_not_le under)]

/-- The function computes the linear-log bucket, or the last one. -/
theorem gcHistogramBucket_eq (suitable : Suitable maxValueBits precision) (val : Word) :
    gcHistogramBucket maxValueBits precision val = .next (BitVec.ofNat 64
      (min (bucket precision.toNat val.toNat) (maxValueBits.toNat * 2 ^ precision.toNat))) := by
  rw [gcHistogramBucket, suitable.shiftLeft_one, intBit_eq suitable.precision_le]
  simp only [Outcome.bind_next, Outcome.pure_eq_next, suitable.lt_limit_iff]
  by_cases short : val.toNat < 2 ^ precision.toNat
  · rw [if_pos short, if_pos short]
    have minor : val =
        BitVec.ofNat 64 (bucket precision.toNat val.toNat % 2 ^ precision.toNat) := by
      rw [bucket_of_lt short, Nat.mod_eq_of_lt short, BitVec.ofNat_toNat, BitVec.setWidth_eq]
    have major : bucket precision.toNat val.toNat / 2 ^ precision.toNat = 0 := by
      rw [bucket_div, if_pos short]
    rw [← idx_eq suitable (Nat.zero_le 64) major, ← minor]
    rfl
  · rw [if_neg short]
    have long := Nat.le_of_not_lt short
    have nonzero : val ≠ 0 := by
      rintro rfl
      exact short (Nat.two_pow_pos _)
    have cutBelow : cut precision.toNat val.toNat < 64 := by
      have digits := toNat_clz nonzero
      rw [cut]
      omega
    have major : bucket precision.toNat val.toNat / 2 ^ precision.toNat =
        cut precision.toNat val.toNat + 1 := by
      rw [bucket_div, if_neg short]
    have pred : BitVec.ofNat 64 (cut precision.toNat val.toNat + 1) - 1 =
        BitVec.ofNat 64 (cut precision.toNat val.toNat) := by
      rw [BitVec.ofNat_add]
      exact BitVec.add_sub_cancel _ _
    rw [builtinClzll, Outcome.check_bind nonzero]
    simp only [Outcome.bind_next, Outcome.pure_eq_next]
    rw [if_neg short, major_eq long, pred, shiftRight_eq (by rwa [toNat_ofNat_of_lt (by omega)]),
      toNat_ofNat_of_lt (by omega)]
    simp only [Outcome.bind_next]
    rw [and_pred_eq rfl suitable.inRange, ← idx_eq suitable (Nat.succ_le_of_lt cutBelow) major,
      bucket_mod, toNat_ofNat_of_lt ((Nat.div_le_self _ _).trans_lt val.isLt)]
    rfl

/-- Up to the last bucket the least numbers are words. -/
theorem bucketMin_lt (positive : 0 < maxValueBits.toNat)
    (fits : maxValueBits.toNat + precision.toNat ≤ 64) {index : ℕ}
    (notPastLast : index ≤ maxValueBits.toNat * 2 ^ precision.toNat) :
    bucketMin precision.toNat index < 2 ^ 64 := by
  apply (bucketMin_le_two_pow notPastLast).trans_lt
  apply Nat.pow_lt_pow_right (by decide)
  omega

/-- The other function computes the least number of a bucket. -/
theorem gcHistogramBucketMinVal_eq (suitable : Suitable maxValueBits precision) {idx : Word}
    (notPastLast : idx.toNat ≤ maxValueBits.toNat * 2 ^ precision.toNat) :
    gcHistogramBucketMinVal precision idx =
      .next (BitVec.ofNat 64 (bucketMin precision.toNat idx.toNat)) := by
  have room : 0 < 2 ^ precision.toNat := Nat.two_pow_pos _
  have below : idx.toNat % 2 ^ precision.toNat < 2 ^ precision.toNat := Nat.mod_lt _ room
  have atMost : idx.toNat / 2 ^ precision.toNat ≤ maxValueBits.toNat :=
    (Nat.div_le_div_right notPastLast).trans_eq (Nat.mul_div_cancel _ room)
  have bits := suitable.bits_le
  rw [gcHistogramBucketMinVal, shiftRight_eq suitable.inRange, suitable.shiftLeft_one]
  simp only [Outcome.bind_next, Outcome.pure_eq_next]
  rw [and_pred_eq rfl suitable.inRange, bucketMin]
  rcases Nat.eq_zero_or_pos (idx.toNat / 2 ^ precision.toNat) with none | some
  · have short : idx.toNat < 2 ^ precision.toNat :=
      (Nat.div_eq_zero_iff_lt room).mp none
    rw [none, if_neg (not_not_intro rfl : ¬(0#64 ≠ 0)), if_pos rfl, Nat.mod_eq_of_lt short]
  · have nonzero : BitVec.ofNat 64 (idx.toNat / 2 ^ precision.toNat) ≠ 0 := by
      intro isZero
      have value := congrArg BitVec.toNat isZero
      rw [toNat_ofNat_of_lt (by omega)] at value
      exact some.ne' value
    have pred : (BitVec.ofNat 64 (idx.toNat / 2 ^ precision.toNat) - 1 : Word).toNat =
        idx.toNat / 2 ^ precision.toNat - 1 := by
      have one : (1 : Word).toNat = 1 := rfl
      rw [BitVec.toNat_sub_of_le, toNat_ofNat_of_lt (by omega), one]
      rw [BitVec.le_def, toNat_ofNat_of_lt (by omega), one]
      exact some
    have leading : BitVec.ofNat 64 (2 ^ precision.toNat) |||
        BitVec.ofNat 64 (idx.toNat % 2 ^ precision.toNat) =
          BitVec.ofNat 64 (2 ^ precision.toNat + idx.toNat % 2 ^ precision.toNat) := by
      have both := or_eq suitable (by decide : 1 ≤ 64) below
      rwa [Nat.one_mul] at both
    have bound := suitable.two_pow_le
    rw [if_pos nonzero, if_neg some.ne', leading, shiftLeft_eq (by omega), pred,
      toNat_ofNat_of_lt (by omega)]

/-- The buckets of all values below `2 ^ 63`, for every pair of parameters: no operation is
undefined, buckets keep the order of the values and none is above the last one, and a value in an
earlier bucket lies between the least values of its bucket and of the next. -/
theorem histogram_buckets (maxValueBits precision : Word) (one_le : 1 ≤ precision.toNat)
    (le_thirty : precision.toNat ≤ 30) (positive : 0 < maxValueBits.toNat)
    (fits : maxValueBits.toNat + precision.toNat ≤ 64) :
    ∀ val : Word, val.toNat < 2 ^ 63 → ∃ idx : Word,
      gcHistogramBucket maxValueBits precision val = .next idx ∧
      idx.toNat ≤ maxValueBits.toNat <<< precision.toNat ∧
      (∀ larger : Word, val.toNat ≤ larger.toNat → larger.toNat < 2 ^ 63 → ∃ other : Word,
        gcHistogramBucket maxValueBits precision larger = .next other ∧ idx.toNat ≤ other.toNat) ∧
      (idx.toNat < maxValueBits.toNat <<< precision.toNat → ∃ low high : Word,
        gcHistogramBucketMinVal precision idx = .next low ∧
        gcHistogramBucketMinVal precision (idx + 1) = .next high ∧
        low.toNat ≤ val.toNat ∧ val.toNat < high.toNat) := by
  have suitable : Suitable maxValueBits precision := ⟨le_thirty, by omega⟩
  have lastFits := suitable.mul_two_pow_lt suitable.bits_le
  intro val _
  have idxFits : min (bucket precision.toNat val.toNat)
      (maxValueBits.toNat * 2 ^ precision.toNat) < 2 ^ 64 :=
      (Nat.min_le_right _ _).trans_lt lastFits
  rw [Nat.shiftLeft_eq]
  refine ⟨_, gcHistogramBucket_eq suitable val, ?_, ?_, ?_⟩
  · rw [toNat_ofNat_of_lt idxFits]
    exact Nat.min_le_right _ _
  · intro larger ordered _
    refine ⟨_, gcHistogramBucket_eq suitable larger, ?_⟩
    rw [toNat_ofNat_of_lt idxFits,
      toNat_ofNat_of_lt ((Nat.min_le_right _ _).trans_lt lastFits)]
    exact min_le_min_right _ (bucket_mono _ ordered)
  · intro earlier
    rw [toNat_ofNat_of_lt idxFits] at earlier
    have uncut : bucket precision.toNat val.toNat < maxValueBits.toNat * 2 ^ precision.toNat :=
      (min_lt_iff.mp earlier).resolve_right (lt_irrefl _)
    rw [Nat.min_eq_left uncut.le] at idxFits ⊢
    have next : BitVec.ofNat 64 (bucket precision.toNat val.toNat) + 1 =
        BitVec.ofNat 64 (bucket precision.toNat val.toNat + 1) := (BitVec.ofNat_add _ _).symm
    have nextFits : bucket precision.toNat val.toNat + 1 < 2 ^ 64 :=
      (Nat.succ_le_of_lt uncut).trans_lt lastFits
    have lowComputed := gcHistogramBucketMinVal_eq suitable
      ((toNat_ofNat_of_lt idxFits).trans_le uncut.le)
    have highComputed := gcHistogramBucketMinVal_eq suitable
      ((toNat_ofNat_of_lt nextFits).trans_le (Nat.succ_le_of_lt uncut))
    rw [toNat_ofNat_of_lt idxFits] at lowComputed
    rw [toNat_ofNat_of_lt nextFits] at highComputed
    rw [next]
    refine ⟨_, _, lowComputed, highComputed, ?_, ?_⟩
    · rw [toNat_ofNat_of_lt (bucketMin_lt positive fits uncut.le)]
      exact bucketMin_bucket_le _ _
    · rw [toNat_ofNat_of_lt (bucketMin_lt positive fits uncut)]
      exact lt_bucketMin_bucket_succ _ _

theorem histogram_buckets_thousand :
    ∃ low high : Word, gcHistogramBucketMinVal 2 35 = .next low ∧
      gcHistogramBucketMinVal 2 36 = .next high ∧ low.toNat ≤ 1000 ∧ 1000 < high.toNat := by
  obtain ⟨idx, computed, -, -, between⟩ :=
    histogram_buckets 62 2 (by decide) (by decide) (by decide) (by decide) 1000 (by decide)
  have isBucket : gcHistogramBucket 62 2 1000 = .next 35 := by decide
  have same : idx = 35 := by
    rw [isBucket] at computed
    exact (Outcome.next.inj computed).symm
  subst same
  exact between (by decide)

/-! ## Size classes of large objects -/

theorem gcHistogramBucket_eq_min (maxValueBits precision : ℕ) {val : ℕ} (fits : val < 2 ^ 64) :
    Lospace.gcHistogramBucket maxValueBits precision val =
      min (bucket precision val) (maxValueBits * 2 ^ precision) := by
  have room : 0 < 2 ^ precision := Nat.two_pow_pos precision
  have digits : Nat.log2 val < 64 := by
    rcases Nat.eq_zero_or_pos val with rfl | positive
    · decide
    · exact (Nat.log2_lt positive.ne').mpr fits
  have parts : bucket precision val =
      2 ^ precision * (bucket precision val / 2 ^ precision) ||| bucket precision val % 2 ^
          precision := by
    rw [← Nat.two_pow_add_eq_or_of_lt (Nat.mod_lt _ room), Nat.div_add_mod]
  have idx : ((if val < 2 ^ precision then 0 else 64 - (63 - val.log2) - precision) <<< precision
    |||
      if val < 2 ^ precision then val
      else (val >>> ((if val < 2 ^ precision then 0 else 64 - (63 - val.log2) - precision) - 1)) &&&
        (2 ^ precision - 1)) = bucket precision val := by
    rw [parts, bucket_div, bucket_mod, Nat.shiftLeft_eq, Nat.mul_comm]
    split
    next short =>
      rw [cut_of_lt short, pow_zero, Nat.div_one, Nat.mod_eq_of_lt short]
    next long =>
      have nonzero : val ≠ 0 := by
        rintro rfl
        exact long room
      have atLeast : precision ≤ val.log2 := (Nat.le_log2 nonzero).mpr (Nat.le_of_not_lt long)
      have major : 64 - (63 - val.log2) - precision = cut precision val + 1 := by
        rw [cut]
        omega
      rw [major, Nat.add_sub_cancel, Nat.shiftRight_eq_div_pow, Nat.and_two_pow_sub_one_eq_mod]
  rw [Lospace.gcHistogramBucket, idx, Nat.shiftLeft_eq]
  split
  next above => rw [Nat.min_eq_right above]
  next under => rw [Nat.min_eq_left (Nat.le_of_not_le under)]

/-- The size class of a large object, which the space computes without a bound on the words, is the
one that the words give. -/
theorem largeObjectFreelistSizeClass_eq (size : Word) :
    gcHistogramBucket 63 2 size =
      .next (BitVec.ofNat 64 (Lospace.largeObjectFreelistSizeClass size.toNat)) := by
  have suitable : Suitable 63 2 := ⟨by decide, by decide⟩
  rw [gcHistogramBucket_eq suitable, Lospace.largeObjectFreelistSizeClass,
    gcHistogramBucket_eq_min 63 2 size.isLt]
  rfl

end Whippet.Histogram
