import Whippet.Library.Checked
import Whippet.Tables.HashTable

/-!
Sorted arrays of address ranges (`extents.h`).

Owns: the array with allocation, clearing and appending, and the search for the range that has an
address. Does not own: what the ranges are.
-/

namespace Whippet

open Tables (Word)

structure ExtentRange where
  loAddr : Word
  hiAddr : Word
  deriving DecidableEq, Repr

/-- `struct extents`, with the ranges in use; their number is the `size`. -/
structure Extents where
  capacity : ℕ
  ranges : List ExtentRange
  deriving DecidableEq, Repr

inductive ExtentsFailure where
  /-- `extents_allocate` traps. -/
  | outOfMemory
  /-- `extents_append`: `extents->size <= extents->capacity`. -/
  | full
  /-- `extents_append`: the last range ends before the new one. -/
  | unordered
  deriving DecidableEq, Repr

namespace Extents

/-! ## Operations -/

/-- The loop of `extents_contain_addr`, between `lo` and `hi`. -/
def search (ranges : List ExtentRange) (addr : Word) (lo hi : ℕ) (ordered : lo ≤ hi)
    (inRanges : hi ≤ ranges.length) : Word :=
  if same : lo = hi then 0
  else
    let mid := (lo + hi) / 2
    have below : mid < hi := by omega
    let range := ranges.get ⟨mid, by omega⟩
    if addr < range.loAddr then search ranges addr lo mid (by omega) (by omega)
    else if addr < range.hiAddr then range.loAddr
    else search ranges addr (mid + 1) hi (by omega) inRanges
termination_by hi - lo

variable (extents : Extents)

/-- `extents_contain_addr`: where the range that has the address starts. -/
def containAddr (addr : Word) : Word :=
  search extents.ranges addr 0 extents.ranges.length (Nat.zero_le _) (Nat.le_refl _)

/-- `memory` says whether the `malloc` of a number of bytes succeeds. -/
def allocate (memory : ℕ → Bool) (capacity : ℕ) : Outcome ExtentsFailure Extents := do
  Outcome.check (memory (16 + 16 * capacity) = true) .outOfMemory
  pure { capacity := capacity, ranges := [] }

def clear : Extents := { extents with ranges := [] }

def prepare (memory : ℕ → Bool) (size : ℕ) : Outcome ExtentsFailure Extents :=
  if size ≤ extents.ranges.length then pure extents.clear
  else
    let capacity := extents.ranges.length * 2
    allocate memory (if capacity < size then size else capacity)

def append (loAddr size : Word) : Outcome ExtentsFailure Extents := do
  Outcome.check (extents.ranges.length + 1 ≤ extents.capacity) .full
  let range : ExtentRange := { loAddr := loAddr, hiAddr := loAddr + size }
  Outcome.check (∀ last ∈ extents.ranges.getLast?, last.hiAddr ≤ range.loAddr) .unordered
  pure { extents with ranges := extents.ranges ++ [range] }

/-- The array that is prepared is empty and has room, unless there is no memory for it. -/
theorem prepare_cases {extents : Extents} (bounded : extents.ranges.length ≤ extents.capacity)
    (memory : ℕ → Bool) (size : ℕ) :
    extents.prepare memory size = .failed .outOfMemory ∨
      ∃ prepared, extents.prepare memory size = .next prepared ∧ prepared.ranges = [] ∧
        size ≤ prepared.capacity := by
  rw [prepare]
  by_cases fits : size ≤ extents.ranges.length
  · rw [if_pos fits]
    exact .inr ⟨_, rfl, rfl, Nat.le_trans fits bounded⟩
  · simp only [if_neg fits, allocate]
    generalize isCapacity : (if extents.ranges.length * 2 < size then size
      else extents.ranges.length * 2) = capacity
    by_cases enough : memory (16 + 16 * capacity) = true
    · rw [Outcome.check, if_pos enough]
      refine .inr ⟨{ capacity := capacity, ranges := [] }, rfl, rfl, ?_⟩
      rw [← isCapacity]
      dsimp only
      split <;> omega
    · rw [Outcome.check, if_neg enough]
      exact .inl rfl

end Extents

/-! ## Search -/

namespace ExtentRange

def Contains (range : ExtentRange) (addr : Word) : Prop :=
  range.loAddr ≤ addr ∧ addr < range.hiAddr

end ExtentRange

/-- The ranges are in order. -/
structure SortedRanges (ranges : List ExtentRange) : Prop where
  apart : ranges.Pairwise fun first second => first.hiAddr ≤ second.loAddr
  proper : ∀ range ∈ ranges, range.loAddr ≤ range.hiAddr

namespace SortedRanges

variable {ranges : List ExtentRange} {addr : Word} {lo hi : ℕ}

theorem get_hi_le_lo (sorted : SortedRanges ranges) {first second : ℕ}
    (before : first < second) (inRanges : second < ranges.length) :
    (ranges.get ⟨first, by omega⟩).hiAddr ≤ (ranges.get ⟨second, inRanges⟩).loAddr :=
  List.pairwise_iff_getElem.mp sorted.apart first second (by omega) inRanges before

/-- What a search between `lo` and `hi` finds, if the address is after the ranges below `lo` and
before those from `hi` on. -/
theorem search_spec (sorted : SortedRanges ranges) (ordered : lo ≤ hi)
    (inRanges : hi ≤ ranges.length)
    (isAfter : ∀ index, index < lo → ∀ isIndex : index < ranges.length,
      (ranges.get ⟨index, isIndex⟩).hiAddr ≤ addr)
    (isBefore : ∀ index, hi ≤ index → ∀ isIndex : index < ranges.length,
      addr < (ranges.get ⟨index, isIndex⟩).loAddr) :
    (∃ range ∈ ranges, range.Contains addr ∧
      Extents.search ranges addr lo hi ordered inRanges = range.loAddr) ∨
    ((∀ range ∈ ranges, ¬range.Contains addr) ∧
      Extents.search ranges addr lo hi ordered inRanges = 0) := by
  fun_induction Extents.search ranges addr lo hi ordered inRanges with
  | case1 lo ordered inRanges =>
      refine .inr ⟨?_, rfl⟩
      rintro range member ⟨notBefore, notAfter⟩
      obtain ⟨⟨index, isIndex⟩, rfl⟩ := List.mem_iff_get.mp member
      by_cases below : index < lo
      · exact absurd notAfter (BitVec.not_lt.mpr (isAfter index below isIndex))
      · exact absurd (isBefore index (Nat.not_lt.mp below) isIndex) (BitVec.not_lt.mpr notBefore)
  | case2 lo hi ordered inRanges notSame mid below range early inductionHypothesis =>
      apply inductionHypothesis isAfter
      intro index fromMid isIndex
      rcases Nat.eq_or_lt_of_le fromMid with rfl | later
      · exact early
      · have proper := sorted.proper range (List.get_mem _ _)
        have next : range.hiAddr ≤ (ranges.get ⟨index, isIndex⟩).loAddr :=
          sorted.get_hi_le_lo later isIndex
        rw [BitVec.lt_def] at early ⊢
        rw [BitVec.le_def] at proper next
        omega
  | case3 lo hi ordered inRanges notSame mid below range notEarly inside =>
      exact .inl ⟨range, List.get_mem _ _, ⟨BitVec.not_lt.mp notEarly, inside⟩, rfl⟩
  | case4 lo hi ordered inRanges notSame mid below range notEarly notInside inductionHypothesis =>
      apply inductionHypothesis _ isBefore
      intro index upToMid isIndex
      rcases Nat.eq_or_lt_of_le (Nat.lt_succ_iff.mp upToMid) with rfl | earlier
      · exact BitVec.not_lt.mp notInside
      · have next := sorted.get_hi_le_lo earlier (by omega : mid < ranges.length)
        exact BitVec.le_trans next (BitVec.not_lt.mp notEarly)

/-- The search finds the range that has the address. -/
theorem containAddr_spec {extents : Extents} (sorted : SortedRanges extents.ranges) (addr : Word) :
    (∃ range ∈ extents.ranges, range.Contains addr ∧ extents.containAddr addr = range.loAddr) ∨
    ((∀ range ∈ extents.ranges, ¬range.Contains addr) ∧ extents.containAddr addr = 0) := by
  apply sorted.search_spec
  · intro index below
    exact absurd below (Nat.not_lt_zero index)
  · intro index beyond isIndex
    exact absurd isIndex (Nat.not_lt.mpr beyond)

end SortedRanges

end Whippet
