import Mathlib.Data.Rat.Defs
import Mathlib.Algebra.Order.Ring.Rat
import Whippet.Library.Checked
import Whippet.Nofl.Space
import Whippet.Types

/-!
How the mostly marking collector chooses what kind of collection to do (`mmc.c`).

Owns: the fields of the heap that the choice reads and writes, the thresholds that `heap_init`
sets, and `determine_collection_kind` with its assertions. The ratios that C computes in `double`
are rationals here. Does not own: how the statistics come about.
-/

namespace Whippet.Mmc

open Nofl (NOFL_BLOCK_SIZE)

/-- The assertions of the stop-the-world protocol and of the choice of kind, by function and
condition. -/
inductive Assertion where
  /-- `request_mutators_to_stop`: `!mutators_are_stopping(heap)`. -/
  | requestNotStopping
  /-- `allow_mutators_to_continue`: `mutators_are_stopping(heap)`. -/
  | allowStopping
  /-- `allow_mutators_to_continue`: `all_mutators_stopped(heap)`. -/
  | allowAllStopped
  /-- `allow_mutators_to_continue`: `!mutators_are_stopping(heap)`, after the store. -/
  | allowNotStopping
  /-- `pause_mutator_for_collection`: `mutators_are_stopping(heap)`. -/
  | pauseStopping
  /-- `pause_mutator_for_collection`: `!all_mutators_stopped(heap)`. -/
  | pauseNotAllStopped
  /-- `gc_deactivate`, `deactivate_mutator`: `mut->active`. -/
  | deactivateActive
  /-- `gc_reactivate`: `!mut->active`. -/
  | reactivateInactive
  /-- `determine_collection_kind`: `previous_gc_kind == GC_COLLECTION_MAJOR`. -/
  | previousMajor
  /-- `determine_collection_kind`: `previous_gc_kind == GC_COLLECTION_MINOR`. -/
  | previousMinor
  deriving DecidableEq, Repr

/-- The fields of `struct gc_heap` that the protocol and the choice of kind read and write. -/
structure Heap where
  collecting : Bool
  gcKind : CollectionKind
  size : ℕ
  count : ℕ
  countAtLastGrowth : ℕ
  mutatorCount : ℕ
  pausedMutatorCount : ℕ
  inactiveMutatorCount : ℕ
  majorGcYieldThreshold : ℚ
  deriving DecidableEq, Repr

/-! ## The thresholds of `heap_init` -/

def fragmentationLowThreshold : ℚ := 5 / 100
def fragmentationHighThreshold : ℚ := 10 / 100
def minorGcYieldThreshold : ℚ := 30 / 100
def minimumMajorGcYieldThreshold : ℚ := 5 / 100

def clampMajorGcYieldThreshold (heap : Heap) (threshold : ℚ) : ℚ :=
  let threshold :=
    if threshold < minimumMajorGcYieldThreshold then minimumMajorGcYieldThreshold else threshold
  let oneBlock : ℚ := NOFL_BLOCK_SIZE / heap.size
  if threshold < oneBlock then oneBlock else threshold

/-- What `determine_collection_kind` asks the spaces. -/
structure Statistics where
  /-- `heap_last_gc_yield`. -/
  yield : ℚ
  /-- `heap_fragmentation`. -/
  fragmentation : ℚ
  /-- `pending_unavailable_bytes`. -/
  pending : ℤ
  /-- `nofl_space_heap_has_ambiguous_edges`. -/
  hasAmbiguousEdges : Bool
  deriving DecidableEq, Repr

/-- The chain of cases of `determine_collection_kind`. -/
def chooseCollectionKind (generational : Bool) (statistics : Statistics) (heap : Heap)
    (requested : CollectionKind) : Outcome Assertion CollectionKind :=
  if heap.count = 0 then pure .major
  else if requested ≠ .any then pure requested
  else if statistics.pending > 0 then pure .compacting
  else if heap.gcKind = .compacting ∧ statistics.fragmentation ≥ fragmentationLowThreshold then
    pure .compacting
  else if statistics.fragmentation > fragmentationHighThreshold then pure .compacting
  else if heap.gcKind = .compacting then pure (if generational then .minor else .major)
  else if generational = false then do
    Outcome.check (heap.gcKind = .major) .previousMajor
    pure .major
  else if heap.gcKind ≠ .minor then pure .minor
  else if statistics.yield < heap.majorGcYieldThreshold then pure .major
  else do
    Outcome.check (heap.gcKind = .minor) .previousMinor
    pure .minor

/-- Returns the heap with the kind stored, and the first of a series of minor collections resets
the threshold for the next major one. -/
def determineCollectionKind (generational : Bool) (statistics : Statistics) (heap : Heap)
    (requested : CollectionKind) : Outcome Assertion (Heap × CollectionKind) := do
  let chosen ← chooseCollectionKind generational statistics heap requested
  let gcKind :=
    if statistics.hasAmbiguousEdges = true ∧ chosen = .compacting then .major else chosen
  let threshold :=
    if gcKind = .minor ∧ heap.gcKind ≠ .minor then
      clampMajorGcYieldThreshold heap (statistics.yield * minorGcYieldThreshold)
    else heap.majorGcYieldThreshold
  pure ({ heap with gcKind := gcKind, majorGcYieldThreshold := threshold }, gcKind)

/-- The choice writes the kind and the threshold and nothing else. -/
theorem determineCollectionKind_eq_next {generational : Bool} {statistics : Statistics}
    {heap result : Heap} {requested kind : CollectionKind}
    (determined : determineCollectionKind generational statistics heap requested =
      .next (result, kind)) :
    result = { heap with gcKind := kind
                         majorGcYieldThreshold := result.majorGcYieldThreshold } := by
  simp only [determineCollectionKind, Outcome.bind_eq_next, Outcome.pure_eq_next,
    Outcome.next.injEq, Prod.mk.injEq] at determined
  obtain ⟨chosen, -, resultEq, rfl⟩ := determined
  rw [← resultEq]

end Whippet.Mmc
