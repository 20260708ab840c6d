import Mathlib.Data.ENat.Lattice
import Whippet.Library.Binary64

/-!
The sizes that the heap sizers ask for (`heap-sizer.h`, `growable-heap-sizer.h`,
`adaptive-heap-sizer.h`).

A sizer computes in doubles from the live bytes, and the adaptive one also from smoothed rates of
allocation and collection. The smoothing factors, the limits of the multiplier and the free space
are fields of the adaptive sizer that nothing assigns after its creation, and constants here.

Owns: the sizers with their arithmetic, and that the size they ask for grows with the live bytes.
Does not own: when they are asked, and what becomes of the answer.
-/

namespace Whippet.Mmc.Sizing

open Binary64

structure GrowableHeapSizer where
  sqrtMultiplier : Binary64
  isFinite : ∃ units isRepresentable, sqrtMultiplier = .finite units isRepresentable

structure AdaptiveHeapSizer where
  smoothedPauseTime : UInt64
  smoothedLiveBytes : UInt64
  liveBytes : UInt64
  smoothedAllocationRate : Binary64
  expansiveness : Binary64
  lastBytesAllocated : UInt64
  lastHeartbeat : UInt64

/-- `struct gc_heap_sizer`: the policy, and the sizer for it. -/
inductive HeapSizer where
  | fixed
  | growable (sizer : GrowableHeapSizer)
  | adaptive (sizer : AdaptiveHeapSizer)

def collectionSmoothingFactor : Binary64 := (ofUInt64 1).div (ofUInt64 2)
def allocationSmoothingFactor : Binary64 := (ofUInt64 95).div (ofUInt64 100)
def minimumMultiplier : Binary64 := (ofUInt64 11).div (ofUInt64 10)
def maximumMultiplier : Binary64 := ofUInt64 5
def minimumFreeSpace : UInt64 := 4 * 1024 * 1024

/-! ## Growable heaps -/

namespace GrowableHeapSizer

/-- `gc_make_growable_heap_sizer`. -/
def make (threshold : UInt64) : GrowableHeapSizer :=
  { sqrtMultiplier := (ofUInt64 (threshold / 2)).sqrt
    isFinite := finite_sqrt_ofUInt64 (threshold / 2) }

/-- `gc_growable_heap_sizer_target_size`. -/
def targetSize (sizer : GrowableHeapSizer) (liveBytes : UInt64) : UInt64 :=
  if liveBytes ≠ 0 then
    ((ofUInt64 liveBytes).add ((ofUInt64 liveBytes).sqrt.mul sizer.sqrtMultiplier)).toUInt64
  else liveBytes

end GrowableHeapSizer

/-! ## Adaptive heaps -/

/-- `*= 1.0 - factor`, then `+= factor * sample`, where the field is an integer. -/
def smoothInteger (factor : Binary64) (smoothed sample : UInt64) : UInt64 :=
  ((ofUInt64 ((ofUInt64 smoothed).mul ((ofUInt64 1).sub factor)).toUInt64).add
    (factor.mul (ofUInt64 sample))).toUInt64

/-- The same where the field is a double. -/
def smoothRate (factor smoothed sample : Binary64) : Binary64 :=
  (smoothed.mul ((ofUInt64 1).sub factor)).add (sample.mul factor)

def clampMultiplier (multiplier : Binary64) : Binary64 :=
  if multiplier.isNan || multiplier.lt minimumMultiplier then minimumMultiplier
  else if maximumMultiplier.lt multiplier then maximumMultiplier
  else multiplier

/-- `live_bytes * multiplier`, but with the minimum of free space at least. -/
def sizeFor (liveBytes : UInt64) (multiplier : Binary64) : UInt64 :=
  let size := ((ofUInt64 liveBytes).mul multiplier).toUInt64
  if (ofUInt64 (size - liveBytes)).lt (ofUInt64 minimumFreeSpace) then
    ((ofUInt64 liveBytes).add (ofUInt64 minimumFreeSpace)).toUInt64
  else size

namespace AdaptiveHeapSizer

variable (sizer : AdaptiveHeapSizer)

/-- `gc_make_adaptive_heap_sizer`; nothing is allocated yet. -/
def make (expansiveness : Binary64) (heartbeat : UInt64) : AdaptiveHeapSizer :=
  { smoothedPauseTime := 2 * 1000 * 1000
    smoothedLiveBytes := 20 * 1024 * 1024
    liveBytes := 0
    smoothedAllocationRate := ofUInt64 5
    expansiveness := expansiveness
    lastBytesAllocated := 0
    lastHeartbeat := heartbeat }

def collectionRate : Binary64 :=
  (ofUInt64 sizer.smoothedPauseTime).div (ofUInt64 sizer.smoothedLiveBytes)

def radicand : Binary64 :=
  ((ofUInt64 sizer.liveBytes).mul sizer.smoothedAllocationRate).div sizer.collectionRate

/-- `gc_adaptive_heap_sizer_calculate_size`. -/
def calculateSize : UInt64 :=
  sizeFor sizer.liveBytes
    (clampMultiplier ((ofUInt64 1).add (sizer.expansiveness.mul sizer.radicand.sqrt)))

/-- `gc_adaptive_heap_sizer_on_gc`, up to its call of `set_heap_size`. -/
def onGc (liveBytes pauseNs : UInt64) : AdaptiveHeapSizer :=
  { sizer with
    liveBytes := liveBytes
    smoothedLiveBytes :=
      smoothInteger collectionSmoothingFactor sizer.smoothedLiveBytes liveBytes
    smoothedPauseTime :=
      smoothInteger collectionSmoothingFactor sizer.smoothedPauseTime pauseNs }

/-- `gc_adaptive_heap_sizer_background_task` with a nonzero counter, up to its call of
`set_heap_size`. -/
def onHeartbeat (bytesAllocated heartbeat : UInt64) : AdaptiveHeapSizer :=
  let rate := (ofUInt64 (bytesAllocated - sizer.lastBytesAllocated)).div
    (ofUInt64 (heartbeat - sizer.lastHeartbeat))
  { sizer with
    smoothedAllocationRate :=
      smoothRate allocationSmoothingFactor sizer.smoothedAllocationRate rate
    lastHeartbeat := heartbeat
    lastBytesAllocated := bytesAllocated }

/-- What `gc_adaptive_heap_sizer_target_size` stores. -/
def withLiveBytes (liveBytes : UInt64) : AdaptiveHeapSizer := { sizer with liveBytes := liveBytes }

end AdaptiveHeapSizer

/-! ## The sizer of a heap -/

namespace HeapSizer

/-- `gc_heap_sizer_target_size`; the adaptive sizer stores the live bytes it is given. -/
def targetSize (sizer : HeapSizer) (heapSize : ℕ) (liveBytes : UInt64) : HeapSizer × ℕ :=
  match sizer with
  | .fixed => (sizer, heapSize)
  | .growable growableSizer => (sizer, (growableSizer.targetSize liveBytes).toNat)
  | .adaptive adaptiveSizer =>
      let stored := adaptiveSizer.withLiveBytes liveBytes
      (.adaptive stored, stored.calculateSize.toNat)

end HeapSizer

/-! ## The multiplier -/

section Multiplier

variable {first second : Binary64}

theorem height_minimumMultiplier :
    minimumMultiplier.height = (4953959590107546 * (unitsOfOne / 2 ^ 52) : ℕ) := by
  decide +kernel

theorem height_maximumMultiplier : maximumMultiplier.height = (5 * unitsOfOne : ℕ) := by
  decide +kernel

theorem height_multipliers_le : minimumMultiplier.height ≤ maximumMultiplier.height := by
  rw [height_minimumMultiplier, height_maximumMultiplier]
  exact_mod_cast (by decide +kernel : 4953959590107546 * (unitsOfOne / 2 ^ 52) ≤ 5 * unitsOfOne)

theorem height_clampMultiplier (multiplier : Binary64) :
    (clampMultiplier multiplier).height =
      max minimumMultiplier.height (min multiplier.height maximumMultiplier.height) := by
  have limits := height_multipliers_le
  have minimumNumber : minimumMultiplier ≠ .nan := by
    apply ne_nan_of_height_ne_zero
    rw [height_minimumMultiplier]
    exact_mod_cast (by decide +kernel : 4953959590107546 * (unitsOfOne / 2 ^ 52) ≠ 0)
  have maximumNumber : maximumMultiplier ≠ .nan := by
    apply ne_nan_of_height_ne_zero
    rw [height_maximumMultiplier]
    exact_mod_cast (by decide +kernel : 5 * unitsOfOne ≠ 0)
  unfold clampMultiplier
  by_cases isNan : multiplier = .nan
  · have least : multiplier.height = 0 := by
      rw [isNan]
      rfl
    rw [if_pos (by simp [Binary64.isNan, isNan]), least, min_eq_left zero_le, max_eq_left zero_le]
  · have noNan : multiplier.isNan = false := by simp [Binary64.isNan, isNan]
    simp only [noNan, Bool.false_or, lt_iff isNan minimumNumber, lt_iff maximumNumber isNan]
    split
    next below => rw [min_eq_left (below.le.trans limits), max_eq_left below.le]
    next notBelow =>
      split
      next above => rw [min_eq_right above.le, max_eq_right limits]
      next notAbove =>
        rw [min_eq_left (not_lt.mp notAbove), max_eq_right (not_lt.mp notBelow)]

/-- What is added to one is not a number only where the multiplier is the minimum anyway. -/
theorem height_clampMultiplier_mono (ordered : first.height ≤ second.height) :
    (clampMultiplier ((ofUInt64 1).add first)).height ≤
      (clampMultiplier ((ofUInt64 1).add second)).height := by
  obtain ⟨isRepresentable, isOne⟩ := finite_ofUInt64 1
  by_cases isNan : second = .nan
  · have least : first.height = 0 := by
      rw [isNan] at ordered
      exact nonpos_iff_eq_zero.mp ordered
    have atMost : ((ofUInt64 1).add first).height ≤ minimumMultiplier.height := by
      rcases (height_eq_zero first).mp least with rfl | ⟨_, rfl⟩
      · rw [isOne]
        exact zero_le
      · rw [isOne, Binary64.add]
        decide +kernel
    rw [height_clampMultiplier, max_eq_left ((min_le_left _ _).trans atMost),
      height_clampMultiplier]
    exact le_max_left _ _
  · have added : ((ofUInt64 1).add first).height ≤ ((ofUInt64 1).add second).height :=
      height_add_mono (by simp [isOne]) isNan le_rfl ordered
    rw [height_clampMultiplier, height_clampMultiplier]
    exact max_le_max le_rfl (min_le_min added le_rfl)

end Multiplier

/-! ## The size for a multiplier -/

section FreeSpace

open Rounding

variable {live rounded units : ℕ}

/-- A product with the multiplier is at least a thirty-second more than the live bytes, although
both are rounded. -/
theorem add_le_of_product {product : ℕ} (least : 17 * unitsOfOne ≤ 16 * units)
    (roundedLive : (2 ^ 53 - 1) * live ≤ 2 ^ 53 * rounded)
    (roundedProduct : (2 ^ 53 - 1) * (rounded * units) ≤ 2 ^ 53 * product) :
    live + live / 32 ≤ product / unitsOfOne := by
  rw [Nat.le_div_iff_mul_le unitsOfOne_pos]
  generalize unitsOfOne = one at least ⊢
  have scaled : (2 ^ 53 - 1) * (2 ^ 53 - 1) * 17 * (live * one) ≤ 2 ^ 106 * 16 * product :=
    calc (2 ^ 53 - 1) * (2 ^ 53 - 1) * 17 * (live * one)
        = (2 ^ 53 - 1) * ((2 ^ 53 - 1) * live) * (17 * one) := by ring
      _ ≤ (2 ^ 53 - 1) * (2 ^ 53 * rounded) * (16 * units) :=
          Nat.mul_le_mul (Nat.mul_le_mul_left _ roundedLive) least
      _ = 2 ^ 53 * 16 * ((2 ^ 53 - 1) * (rounded * units)) := by ring
      _ ≤ 2 ^ 53 * 16 * (2 ^ 53 * product) := Nat.mul_le_mul_left _ roundedProduct
      _ = 2 ^ 106 * 16 * product := by ring
  have bytes : (live + live / 32) * one * 32 ≤ 33 * (live * one) :=
    calc (live + live / 32) * one * 32 = (32 * live + live / 32 * 32) * one := by ring
      _ ≤ 33 * live * one := Nat.mul_le_mul_right _ (by omega)
      _ = 33 * (live * one) := Nat.mul_assoc _ _ _
  generalize live * one = wanted at scaled bytes
  omega

/-- From `2 ^ 52` live bytes on the multiplier alone leaves more than the minimum of free space. -/
theorem add_le_of_large (least : 17 * unitsOfOne ≤ 16 * units) (large : 2 ^ 52 ≤ live) :
    live + live / 32 ≤
      roundUnits fractionDigits (toPrecision 53 live * unitsOfOne * units) / unitsOfOne := by
  have kept : 2 ^ 52 ≤ toPrecision 53 live :=
    calc 2 ^ 52 = toPrecision 53 (2 ^ 52) := (toPrecision_of_lt (by decide)).symm
      _ ≤ toPrecision 53 live := toPrecision_mono (by decide) large
  have enough : 2 ^ 53 * unitsOfOne ≤ toPrecision 53 live * unitsOfOne * units := by
    have two : 2 ≤ unitsOfOne := by decide +kernel
    calc 2 ^ 53 * unitsOfOne = 2 ^ 52 * unitsOfOne * 2 := by ring
      _ ≤ toPrecision 53 live * unitsOfOne * units :=
          Nat.mul_le_mul (Nat.mul_le_mul_right _ kept) (by omega)
  have taken := pred_mul_le_product enough
  refine add_le_of_product least (pred_mul_le_toPrecision 53 live) ?_
  apply Nat.le_of_mul_le_mul_right _ unitsOfOne_pos
  generalize roundUnits fractionDigits (toPrecision 53 live * unitsOfOne * units) = product
    at taken ⊢
  calc (2 ^ 53 - 1) * (toPrecision 53 live * units) * unitsOfOne
      = (2 ^ 53 - 1) * (toPrecision 53 live * unitsOfOne * units) := by ring
    _ ≤ 2 ^ 53 * (product * unitsOfOne) := taken
    _ = 2 ^ 53 * product * unitsOfOne := (Nat.mul_assoc _ _ _).symm

/-- The product is at least what its exact value is above. -/
theorem toPrecision_le_product {exact : ℕ} (below : exact * unitsOfOne ≤ rounded * units) :
    toPrecision 53 exact ≤
      roundUnits fractionDigits (rounded * unitsOfOne * units) / unitsOfOne := by
  rw [Nat.le_div_iff_mul_le unitsOfOne_pos, ← toPrecision_mul_unitsOfOne,
    ← roundUnits_mul_unitsOfOne]
  apply roundUnits_mono
  rw [Nat.mul_right_comm rounded]
  exact Nat.mul_le_mul_right _ below

/-- Up to `2 ^ 53` live bytes are not rounded, and the multiplier is at least one. -/
theorem le_product_of_small (least : 17 * unitsOfOne ≤ 16 * units) (small : live < 2 ^ 53) :
    live ≤ roundUnits fractionDigits (toPrecision 53 live * unitsOfOne * units) / unitsOfOne := by
  have kept := toPrecision_of_lt small
  have one : unitsOfOne ≤ units := by omega
  rw [kept]
  calc live = toPrecision 53 live := kept.symm
    _ ≤ roundUnits fractionDigits (live * unitsOfOne * units) / unitsOfOne :=
        toPrecision_le_product (Nat.mul_le_mul_left live one)

/-- From `2 ^ 52` live bytes on the product is at least the sum, also when both are rounded. -/
theorem sum_le_product_of_large (least : 17 * unitsOfOne ≤ 16 * units) (large : 2 ^ 52 ≤ live) :
    toPrecision 53 (toPrecision 53 live + 2 ^ 22) ≤
      roundUnits fractionDigits (toPrecision 53 live * unitsOfOne * units) / unitsOfOne := by
  have kept : 2 ^ 52 ≤ toPrecision 53 live :=
    calc 2 ^ 52 = toPrecision 53 (2 ^ 52) := (toPrecision_of_lt (by decide)).symm
      _ ≤ toPrecision 53 live := toPrecision_mono (by decide) large
  apply toPrecision_le_product
  generalize toPrecision 53 live = rounded at kept ⊢
  generalize unitsOfOne = one at least ⊢
  have scaled : rounded * (17 * one) ≤ rounded * (16 * units) := Nat.mul_le_mul_left _ least
  have free : 16 * 2 ^ 22 * one ≤ rounded * one := Nat.mul_le_mul_right _ (by omega)
  have split : rounded * (17 * one) = 16 * (rounded * one) + rounded * one := by ring
  have times : rounded * (16 * units) = 16 * (rounded * units) := by ring
  rw [Nat.add_mul]
  omega

/-- Near the end of the integers both saturate. -/
theorem two_pow_le_sum (nearEnd : 2 ^ 64 - 2 ^ 22 ≤ live) :
    2 ^ 64 ≤ toPrecision 53 (toPrecision 53 live + 2 ^ 22) := by
  have end_ : toPrecision 53 (2 ^ 64 - 2 ^ 22) = 2 ^ 64 - 2 ^ 22 := by decide +kernel
  have kept : 2 ^ 64 - 2 ^ 22 ≤ toPrecision 53 live :=
    end_.ge.trans (toPrecision_mono (by decide) nearEnd)
  have power : toPrecision 53 (2 ^ 64) = 2 ^ 64 := by decide +kernel
  exact power.ge.trans (toPrecision_mono (by decide) (by omega))

/-- The size is the greater of the product and of the live bytes with the minimum of free space. -/
theorem toNat_sizeFor (liveBytes : UInt64) {isRepresentable : Representable units}
    (least : 17 * unitsOfOne ≤ 16 * units) :
    (sizeFor liveBytes (.finite units isRepresentable)).toNat =
      max ((ofUInt64 liveBytes).mul (.finite units isRepresentable)).toUInt64.toNat
        ((ofUInt64 liveBytes).add (ofUInt64 minimumFreeSpace)).toUInt64.toNat := by
  have isFree : minimumFreeSpace.toNat = 2 ^ 22 := by decide
  have freeKept : toPrecision 53 (2 ^ 22) = 2 ^ 22 := toPrecision_of_lt (by decide)
  have product := @toNat_toUInt64_mul units isRepresentable liveBytes
  have sum := toNat_toUInt64_add liveBytes minimumFreeSpace
  rw [isFree, freeKept] at sum
  have wordLt := liveBytes.toNat_lt
  have ofSmall : liveBytes.toNat < 2 ^ 52 → liveBytes.toNat ≤
      roundUnits fractionDigits (toPrecision 53 liveBytes.toNat * unitsOfOne * units) /
        unitsOfOne := fun small => le_product_of_small least (by omega)
  have ofLarge : 2 ^ 52 ≤ liveBytes.toNat → liveBytes.toNat + liveBytes.toNat / 32 ≤
      roundUnits fractionDigits (toPrecision 53 liveBytes.toNat * unitsOfOne * units) /
        unitsOfOne := add_le_of_large least
  have sumLe : 2 ^ 52 ≤ liveBytes.toNat →
      toPrecision 53 (toPrecision 53 liveBytes.toNat + 2 ^ 22) ≤
        roundUnits fractionDigits (toPrecision 53 liveBytes.toNat * unitsOfOne * units) /
          unitsOfOne := sum_le_product_of_large least
  have exact : liveBytes.toNat < 2 ^ 52 →
      toPrecision 53 (toPrecision 53 liveBytes.toNat + 2 ^ 22) = liveBytes.toNat + 2 ^ 22 := by
    intro small
    rw [@toPrecision_of_lt 53 liveBytes.toNat (by omega), toPrecision_of_lt (by omega)]
  have saturates : 2 ^ 64 - 2 ^ 22 ≤ liveBytes.toNat →
      2 ^ 64 ≤ toPrecision 53 (toPrecision 53 liveBytes.toNat + 2 ^ 22) := two_pow_le_sum
  generalize roundUnits fractionDigits (toPrecision 53 liveBytes.toNat * unitsOfOne * units) /
    unitsOfOne = scaled at product ofSmall ofLarge sumLe
  generalize toPrecision 53 (toPrecision 53 liveBytes.toNat + 2 ^ 22) = added
    at sum exact saturates sumLe
  have atLeast : liveBytes ≤
      ((ofUInt64 liveBytes).mul (.finite units isRepresentable)).toUInt64 := by
    rw [UInt64.le_iff_toNat_le, product]
    omega
  generalize isSize : ((ofUInt64 liveBytes).mul (.finite units isRepresentable)).toUInt64 = size
    at product atLeast
  have free : (ofUInt64 (size - liveBytes)).lt (ofUInt64 minimumFreeSpace) = true ↔
      size.toNat - liveBytes.toNat < 2 ^ 22 := by
    rw [lt_ofUInt64_iff (by rw [isFree]; decide), UInt64.toNat_sub_of_le _ _ atLeast, isFree]
  rw [sizeFor, isSize]
  by_cases short : size.toNat - liveBytes.toNat < 2 ^ 22
  · rw [if_pos (free.mpr short)]
    omega
  · rw [if_neg (fun isShort => short (free.mp isShort))]
    omega

end FreeSpace

/-! ## Order -/

section Order

variable {first second : Binary64} {live larger : UInt64}

/-- A multiplier within its limits is finite, and more than one by a sixteenth at least. -/
theorem finite_clampMultiplier (multiplier : Binary64) : ∃ units isRepresentable,
    clampMultiplier multiplier = .finite units isRepresentable ∧
      17 * unitsOfOne ≤ 16 * units := by
  have least : minimumMultiplier.height ≤ (clampMultiplier multiplier).height := by
    rw [height_clampMultiplier]
    exact le_max_left _ _
  have most : (clampMultiplier multiplier).height ≤ (5 * unitsOfOne : ℕ) := by
    rw [← height_maximumMultiplier, height_clampMultiplier]
    exact max_le height_multipliers_le (min_le_right _ _)
  rw [height_minimumMultiplier] at least
  have numbers : 17 * unitsOfOne ≤ 16 * (4953959590107546 * (unitsOfOne / 2 ^ 52)) := by
    decide +kernel
  have positive : (clampMultiplier multiplier).height ≠ 0 := by
    intro isZero
    rw [isZero] at least
    have none := Nat.cast_eq_zero.mp (nonpos_iff_eq_zero.mp least)
    have one := unitsOfOne_pos
    omega
  obtain ⟨units, isRepresentable, isFinite, -⟩ := finite_of_height positive most
  refine ⟨units, isRepresentable, isFinite, ?_⟩
  rw [isFinite, height, Nat.cast_le] at least
  omega

theorem sizeFor_mono (ordered : live ≤ larger)
    (multipliers : (clampMultiplier first).height ≤ (clampMultiplier second).height) :
    sizeFor live (clampMultiplier first) ≤ sizeFor larger (clampMultiplier second) := by
  have products := UInt64.le_iff_toNat_le.mp (toUInt64_mono
    (height_mul_mono (height_ofUInt64_mono ordered) multipliers))
  obtain ⟨_, isLarger⟩ := finite_ofUInt64 larger
  obtain ⟨_, isFree⟩ := finite_ofUInt64 minimumFreeSpace
  have sums : ((ofUInt64 live).add (ofUInt64 minimumFreeSpace)).height ≤
      ((ofUInt64 larger).add (ofUInt64 minimumFreeSpace)).height :=
    height_add_mono (by simp [isLarger]) (by simp [isFree]) (height_ofUInt64_mono ordered) le_rfl
  have sums := UInt64.le_iff_toNat_le.mp (toUInt64_mono sums)
  obtain ⟨units, _, isFirst, least⟩ := finite_clampMultiplier first
  obtain ⟨moreUnits, _, isSecond, moreLeast⟩ := finite_clampMultiplier second
  rw [isFirst, isSecond] at products ⊢
  rw [UInt64.le_iff_toNat_le, toNat_sizeFor live least, toNat_sizeFor larger moreLeast]
  exact max_le_max products sums

theorem finite_collectionSmoothingFactor : ∃ units isRepresentable,
    collectionSmoothingFactor = .finite units isRepresentable := by
  have half : collectionSmoothingFactor.height = (unitsOfOne / 2 : ℕ) := by decide +kernel
  have positive : collectionSmoothingFactor.height ≠ 0 := by
    rw [half, Nat.cast_ne_zero]
    decide +kernel
  obtain ⟨units, isRepresentable, isFinite, -⟩ := finite_of_height positive half.le
  exact ⟨units, isRepresentable, isFinite⟩

theorem smoothInteger_mono (factor : Binary64) (smoothed : UInt64)
    (number : factor.mul (ofUInt64 larger) ≠ .nan) (ordered : live ≤ larger) :
    smoothInteger factor smoothed live ≤ smoothInteger factor smoothed larger := by
  obtain ⟨_, isKept⟩ := finite_ofUInt64
    ((ofUInt64 smoothed).mul ((ofUInt64 1).sub factor)).toUInt64
  have sums := height_add_mono (by simp [isKept]) number (le_refl (ofUInt64
    ((ofUInt64 smoothed).mul ((ofUInt64 1).sub factor)).toUInt64).height)
    (height_mul_mono (le_refl factor.height) (height_ofUInt64_mono ordered))
  rw [smoothInteger, smoothInteger]
  exact toUInt64_mono sums

theorem GrowableHeapSizer.targetSize_mono (sizer : GrowableHeapSizer) (ordered : live ≤ larger) :
    sizer.targetSize live ≤ sizer.targetSize larger := by
  obtain ⟨units, _, isMultiplier⟩ := sizer.isFinite
  obtain ⟨_, isLarger⟩ := finite_ofUInt64 larger
  obtain ⟨_, _, isRoot⟩ := finite_sqrt_ofUInt64 larger
  have number : (ofUInt64 larger).sqrt.mul sizer.sqrtMultiplier ≠ .nan := by
    rw [isRoot, isMultiplier, mul]
    exact round_ne_nan _ _
  have sums := height_add_mono (by simp [isLarger]) number (height_ofUInt64_mono ordered)
    (height_mul_mono (height_sqrt_mono (height_ofUInt64_mono ordered))
      (le_refl sizer.sqrtMultiplier.height))
  rw [targetSize, targetSize]
  by_cases none : live = 0
  · rw [if_neg (not_not.mpr none), none, UInt64.le_iff_toNat_le]
    exact Nat.zero_le _
  · have some : larger ≠ 0 := by
      rintro rfl
      rw [UInt64.le_iff_toNat_le] at ordered
      exact none (UInt64.toNat_inj.mp (Nat.le_zero.mp ordered))
    rw [if_pos none, if_pos some]
    exact toUInt64_mono sums

namespace AdaptiveHeapSizer

variable {sizer other : AdaptiveHeapSizer}

/-- The size grows with the live bytes and with their smoothed number. -/
theorem calculateSize_mono (liveBytes : sizer.liveBytes ≤ other.liveBytes)
    (smoothedLiveBytes : sizer.smoothedLiveBytes ≤ other.smoothedLiveBytes)
    (pauseTime : other.smoothedPauseTime = sizer.smoothedPauseTime)
    (allocationRate : other.smoothedAllocationRate = sizer.smoothedAllocationRate)
    (expansiveness : other.expansiveness = sizer.expansiveness) :
    sizer.calculateSize ≤ other.calculateSize := by
  have collection : other.collectionRate.depth ≤ sizer.collectionRate.depth := by
    rw [collectionRate, collectionRate, pauseTime]
    exact depth_div_anti (height_ofUInt64_mono smoothedLiveBytes)
  have radicands : sizer.radicand.height ≤ other.radicand.height := by
    rw [radicand, radicand, allocationRate]
    exact height_div_mono (height_mul_mono (height_ofUInt64_mono liveBytes) le_rfl) collection
  rw [calculateSize, calculateSize, expansiveness]
  exact sizeFor_mono liveBytes
    (height_clampMultiplier_mono (height_mul_mono le_rfl (height_sqrt_mono radicands)))

theorem calculateSize_withLiveBytes_mono (sizer : AdaptiveHeapSizer) (ordered : live ≤ larger) :
    (sizer.withLiveBytes live).calculateSize ≤ (sizer.withLiveBytes larger).calculateSize :=
  calculateSize_mono ordered (UInt64.le_refl _) rfl rfl rfl

theorem calculateSize_onGc_mono (sizer : AdaptiveHeapSizer) (pauseNs : UInt64)
    (ordered : live ≤ larger) :
    (sizer.onGc live pauseNs).calculateSize ≤ (sizer.onGc larger pauseNs).calculateSize := by
  have number : collectionSmoothingFactor.mul (ofUInt64 larger) ≠ .nan := by
    obtain ⟨_, isLarger⟩ := finite_ofUInt64 larger
    obtain ⟨_, _, isFactor⟩ := finite_collectionSmoothingFactor
    rw [isLarger, isFactor, mul]
    exact round_ne_nan _ _
  have smoothed : (sizer.onGc live pauseNs).smoothedLiveBytes ≤
      (sizer.onGc larger pauseNs).smoothedLiveBytes := by
    simp only [onGc]
    exact smoothInteger_mono collectionSmoothingFactor sizer.smoothedLiveBytes number ordered
  have lives : (sizer.onGc live pauseNs).liveBytes ≤ (sizer.onGc larger pauseNs).liveBytes :=
    ordered
  exact calculateSize_mono lives smoothed rfl rfl rfl

end AdaptiveHeapSizer

/-! ## Limits -/

/-- The least number of live bytes for which a sizer asks for more than `maximum`. From `2 ^ 64` on
there are no live bytes. -/
noncomputable def leastExceeding (target : UInt64 → UInt64) (maximum : ℕ) : ℕ :=
  sInf {live | live < 2 ^ 64 → maximum < (target (.ofNat live)).toNat}

theorem lt_leastExceeding_iff {target : UInt64 → UInt64} {maximum : ℕ}
    (mono : ∀ {live larger}, live ≤ larger → target live ≤ target larger) :
    live.toNat < leastExceeding target maximum ↔ (target live).toNat ≤ maximum := by
  constructor
  · intro below
    have fits := Nat.notMem_of_lt_sInf below
    simp only [Set.mem_ofPred_eq, Classical.not_imp, not_lt, UInt64.ofNat_toNat] at fits
    exact fits.2
  · intro fits
    by_contra notBelow
    have exceeds : leastExceeding target maximum ∈
        {live | live < 2 ^ 64 → maximum < (target (.ofNat live)).toNat} :=
      Nat.sInf_mem ⟨2 ^ 64, fun inRange => absurd inRange (lt_irrefl _)⟩
    have wordLt := live.toNat_lt
    have exceeds := exceeds (by omega)
    have ordered : UInt64.ofNat (leastExceeding target maximum) ≤ live := by
      rw [UInt64.le_iff_toNat_le, UInt64.toNat_ofNat', Nat.mod_eq_of_lt (by omega)]
      omega
    have targets := UInt64.le_iff_toNat_le.mp (mono ordered)
    omega

end Order

end Whippet.Mmc.Sizing
