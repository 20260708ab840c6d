import Whippet.Library.Checked
import Whippet.Library.Rounding
import Whippet.Tables.HashTable

/-!
The buckets of the pending ephemerons (`gc-ephemeron.c`).

The hash of a key is scaled to the number of buckets in floating point. A `double` is an integer of
53 binary digits times a power of two, and no exponent here is out of range.

Owns: the size of the table, the index of a key with its assertion, and when the index is in range.
Does not own: the lists in the buckets.
-/

namespace Whippet.Ephemerons

open Rounding
open Tables (Word hashAddress)

def MIN_PENDING_EPHEMERONS_SIZE : ℕ := 32

/-- An integer as a `double`. -/
def toDouble (number : ℕ) : ℕ := toPrecision 53 number

/-- `struct gc_pending_ephemerons`. The scale is in units of `2 ^ -64`. -/
structure PendingEphemerons where
  nbuckets : ℕ
  scale : ℕ
  deriving DecidableEq, Repr

/-- `gc_make_pending_ephemerons`, where `malloc` succeeds. -/
def makePendingEphemerons (byteSize : Word) : PendingEphemerons :=
  let nbuckets := byteSize.toNat / 8
  let nbuckets :=
    if nbuckets < MIN_PENDING_EPHEMERONS_SIZE then MIN_PENDING_EPHEMERONS_SIZE else nbuckets
  { nbuckets := nbuckets, scale := toDouble nbuckets }

inductive PendingAssertion where
  | bucketInRange
  deriving DecidableEq, Repr

namespace PendingEphemerons

variable (state : PendingEphemerons)

/-- `size_t idx = hash * state->scale`. -/
def bucketIndex (hash : Word) : ℕ := toPrecision 53 (toDouble hash.toNat * state.scale) / 2 ^ 64

/-- `pending_ephemeron_bucket`, for the index of the bucket. -/
def pendingEphemeronBucket (ref : Word) : Outcome PendingAssertion ℕ := do
  let idx := state.bucketIndex (hashAddress ref)
  Outcome.check (idx < state.nbuckets) .bucketInRange
  pure idx

end PendingEphemerons

/-- The hash is not rounded up to `2 ^ 64`, or the number of buckets is not a `double` and is
rounded down to one. -/
def HashesBelow (nbuckets : ℕ) (hash : Word) : Prop :=
  hash.toNat < 2 ^ 64 - 2 ^ 10 ∨ toDouble nbuckets < nbuckets

/-! ## Hashes as doubles -/

variable {hash : ℕ}

theorem toDouble_of_le (inRange : hash < 2 ^ 64) (high : 2 ^ 64 - 2 ^ 10 ≤ hash) :
    toDouble hash = 2 ^ 64 := by
  have lower : toDouble (2 ^ 64 - 2 ^ 10) = 2 ^ 64 := by decide +kernel
  have upper : toDouble (2 ^ 64 - 1) = 2 ^ 64 := by decide +kernel
  apply Nat.le_antisymm
  · rw [← upper]
    exact toPrecision_mono (by decide) (by omega)
  · rw [← lower]
    exact toPrecision_mono (by decide) high

theorem toDouble_le (low : hash < 2 ^ 64 - 2 ^ 10) :
    toDouble hash ≤ (2 ^ 53 - 1) * 2 ^ 11 := by
  have bound : toDouble (2 ^ 64 - 2 ^ 10 - 1) = (2 ^ 53 - 1) * 2 ^ 11 := by decide +kernel
  rw [← bound]
  exact toPrecision_mono (by decide) (by omega)

/-! ## The index -/

/-- The number of buckets is 32 at least. -/
theorem nbuckets_pos (byteSize : Word) : 0 < (makePendingEphemerons byteSize).nbuckets := by
  rw [makePendingEphemerons]
  dsimp only
  split
  · decide
  · rw [MIN_PENDING_EPHEMERONS_SIZE] at *
    omega

/-- The index is in range if and only if the hash is not rounded up to `2 ^ 64`, unless the number
of buckets itself is rounded down. -/
theorem bucketIndex_lt_iff (byteSize hash : Word) :
    (makePendingEphemerons byteSize).bucketIndex hash < (makePendingEphemerons byteSize).nbuckets ↔
      HashesBelow (makePendingEphemerons byteSize).nbuckets hash := by
  have positive := nbuckets_pos byteSize
  have isScale : (makePendingEphemerons byteSize).scale =
      toPrecision 53 (makePendingEphemerons byteSize).nbuckets := rfl
  rw [PendingEphemerons.bucketIndex, HashesBelow, isScale]
  generalize (makePendingEphemerons byteSize).nbuckets = nbuckets at positive ⊢
  by_cases low : hash.toNat < 2 ^ 64 - 2 ^ 10
  · apply iff_of_true _ (.inl low)
    rw [Nat.div_lt_iff_lt_mul (Nat.two_pow_pos _)]
    calc toPrecision 53 (toDouble hash.toNat * toPrecision 53 nbuckets)
        ≤ toPrecision 53 ((2 ^ 53 - 1) * 2 ^ 11 * toPrecision 53 nbuckets) :=
          toPrecision_mono (by decide) (Nat.mul_le_mul_right _ (toDouble_le low))
      _ = toPrecision 53 ((2 ^ 53 - 1) * toPrecision 53 nbuckets) * 2 ^ 11 := by
          rw [Nat.mul_right_comm, toPrecision_mul_two_pow]
      _ < 2 ^ 53 * nbuckets * 2 ^ 11 :=
          Nat.mul_lt_mul_of_pos_right (toPrecision_pred_mul_lt (by decide) positive) (by decide)
      _ = nbuckets * 2 ^ 64 := by ring
  · have isTop := toDouble_of_le hash.isLt (Nat.not_lt.mp low)
    rw [isTop, Nat.mul_comm, toPrecision_mul_two_pow, toPrecision_toPrecision (by decide),
      Nat.mul_div_cancel _ (Nat.two_pow_pos _), toDouble]
    exact (or_iff_right low).symm

/-- For every number of buckets that the size can have and every hash the index is in range, and the
assertion holds of the key that has the hash, if and only if the hash is below `2 ^ 64 - 2 ^ 10` or
the number of buckets is rounded down. -/
theorem pending_bucket_in_range_iff (byteSize : Word) :
    (∀ hash, (makePendingEphemerons byteSize).bucketIndex hash <
      (makePendingEphemerons byteSize).nbuckets ↔
        HashesBelow (makePendingEphemerons byteSize).nbuckets hash) ∧
      ∀ ref, (makePendingEphemerons byteSize).pendingEphemeronBucket ref =
        .failed .bucketInRange ↔
          ¬HashesBelow (makePendingEphemerons byteSize).nbuckets (hashAddress ref) := by
  refine ⟨fun hash => bucketIndex_lt_iff byteSize hash, ?_⟩
  intro ref
  rw [← bucketIndex_lt_iff, PendingEphemerons.pendingEphemeronBucket]
  simp

/-- With 32 buckets the index of the key with the largest hash is 32. -/
theorem pending_bucket_in_range_fails :
    ¬∀ byteSize hash : Word, (makePendingEphemerons byteSize).bucketIndex hash <
      (makePendingEphemerons byteSize).nbuckets := by
  intro inRange
  have index : (makePendingEphemerons 256).bucketIndex 0xffffffffffffffff = 32 := by
    decide +kernel
  have bounded := inRange 256 0xffffffffffffffff
  rw [index] at bounded
  exact absurd bounded (by decide)

end Whippet.Ephemerons
