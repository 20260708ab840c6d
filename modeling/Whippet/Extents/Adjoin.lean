import Mathlib
import Whippet.Extents

/-!
Adjoining address ranges to a sorted array (`extents_adjoin`).

Owns: the insertion with the growth of the array, the loop that extends a neighbour or finds where
to insert, and that any sequence of disjoint ranges gives a sorted array of just their addresses.
Does not own: who adjoins what.
-/

namespace Whippet

open Tables (Word)

/-- A range of addresses with an end that is an address too. -/
structure AddressRange where
  loAddr : Word
  size : Word
  notNull : loAddr ≠ 0
  nonempty : size ≠ 0
  ends : loAddr.toNat + size.toNat < 2 ^ 64

namespace Extents

/-! ## Operations -/

/-- What goes wrong in `extents_adjoin`. -/
inductive AdjoinFailure where
  /-- `extents_allocate` traps. -/
  | outOfMemory
  /-- `GC_ASSERT(lo_addr)`. -/
  | null
  deriving DecidableEq, Repr

/-- `extents_insert`: in place, or in a copy that has more room. -/
def insert (memory : ℕ → Bool) (old : Extents) (idx : ℕ) (range : ExtentRange) :
    Outcome AdjoinFailure Extents :=
  let ranges := old.ranges.take idx ++ range :: old.ranges.drop idx
  if old.ranges.length < old.capacity then pure { old with ranges := ranges }
  else do
    let capacity := old.capacity * 2 + 1
    Outcome.check (memory (16 + 16 * capacity) = true) .outOfMemory
    pure { capacity := capacity, ranges := ranges }

/-- What the loop of `extents_adjoin` finds. -/
inductive AdjoinStep where
  /-- A neighbour becomes larger. -/
  | store (i : ℕ) (range : ExtentRange)
  | insertAt (i : ℕ)
  deriving DecidableEq, Repr

/-- The loop of `extents_adjoin`, over the ranges from `i` on. -/
def adjoinLoop (range : ExtentRange) : List ExtentRange → ℕ → AdjoinStep
  | [], i => .insertAt i
  | other :: rest, i =>
      if range.hiAddr < other.loAddr then .insertAt i
      else if range.hiAddr = other.loAddr then .store i { other with loAddr := range.loAddr }
      else if range.loAddr = other.hiAddr then .store i { other with hiAddr := range.hiAddr }
      else adjoinLoop range rest (i + 1)

def adjoin (memory : ℕ → Bool) (extents : Extents) (loAddr size : Word) :
    Outcome AdjoinFailure Extents := do
  Outcome.check (loAddr ≠ 0) .null
  let range : ExtentRange := { loAddr := loAddr, hiAddr := loAddr + size }
  match adjoinLoop range extents.ranges 0 with
  | .store i changed => pure { extents with ranges := extents.ranges.set i changed }
  | .insertAt i => insert memory extents i range

/-- The ranges are adjoined one after the other. -/
def adjoinAll (memory : ℕ → Bool) (extents : Extents) :
    List AddressRange → Outcome AdjoinFailure Extents
  | [] => pure extents
  | range :: rest => do
      let widened ← adjoin memory extents range.loAddr range.size
      adjoinAll memory widened rest

/-- Inserting has room, or makes it if there is memory. -/
theorem insert_cases {old : Extents} (memory : ℕ → Bool) (idx : ℕ) (range : ExtentRange)
    (bounded : old.ranges.length ≤ old.capacity) :
    (∃ after, insert memory old idx range = .next after ∧
      after.ranges = old.ranges.take idx ++ range :: old.ranges.drop idx ∧
      after.ranges.length ≤ after.capacity) ∨
    (∃ bytes, memory bytes = false) ∧ insert memory old idx range = .failed .outOfMemory := by
  have length : (old.ranges.take idx ++ range :: old.ranges.drop idx).length =
      old.ranges.length + 1 := by
    rw [List.length_append, List.length_cons, List.length_take, List.length_drop]
    omega
  rw [insert]
  by_cases room : old.ranges.length < old.capacity
  · rw [if_pos room]
    refine .inl ⟨_, rfl, rfl, ?_⟩
    rw [length]
    exact room
  · rw [if_neg room]
    cases enough : memory (16 + 16 * (old.capacity * 2 + 1)) with
    | false =>
        refine .inr ⟨⟨_, enough⟩, ?_⟩
        simp only [Outcome.check, enough]
        rfl
    | true =>
        refine .inl ⟨_, Outcome.check_bind enough, rfl, ?_⟩
        rw [length]
        dsimp only
        omega

end Extents

/-! ## Ranges that can be adjoined -/

namespace AddressRange

def Contains (range : AddressRange) (addr : Word) : Prop :=
  range.loAddr.toNat ≤ addr.toNat ∧ addr.toNat < range.loAddr.toNat + range.size.toNat

def Apart (first second : AddressRange) : Prop :=
  ∀ addr, ¬(first.Contains addr ∧ second.Contains addr)

/-- The range as it is stored. -/
def stored (range : AddressRange) : ExtentRange :=
  { loAddr := range.loAddr, hiAddr := range.loAddr + range.size }

variable (range : AddressRange)

theorem toNat_hiAddr :
    range.stored.hiAddr.toNat = range.loAddr.toNat + range.size.toNat := by
  rw [stored, BitVec.toNat_add, Nat.mod_eq_of_lt range.ends]

theorem size_pos : 0 < range.size.toNat := by
  rw [Nat.pos_iff_ne_zero]
  intro isZero
  exact range.nonempty (BitVec.eq_of_toNat_eq isZero)

@[simp] theorem stored_contains (addr : Word) :
    range.stored.Contains addr ↔ range.Contains addr := by
  rw [ExtentRange.Contains, BitVec.le_def, BitVec.lt_def, toNat_hiAddr, Contains]
  rfl

end AddressRange

namespace ExtentRange

def Nonempty (range : ExtentRange) : Prop := range.loAddr < range.hiAddr

theorem contains_loAddr {range : ExtentRange} (nonempty : range.Nonempty) :
    range.Contains range.loAddr :=
  ⟨BitVec.le_refl _, nonempty⟩

/-- Of two ranges without a common address, one is before the other. -/
theorem before_or_after {first second : ExtentRange} (firstNonempty : first.Nonempty)
    (secondNonempty : second.Nonempty)
    (apart : ∀ addr, ¬(first.Contains addr ∧ second.Contains addr)) :
    first.hiAddr ≤ second.loAddr ∨ second.hiAddr ≤ first.loAddr := by
  have atFirst : ¬second.Contains first.loAddr := fun contains =>
    apart first.loAddr ⟨contains_loAddr firstNonempty, contains⟩
  have atSecond : ¬first.Contains second.loAddr := fun contains =>
    apart second.loAddr ⟨contains, contains_loAddr secondNonempty⟩
  simp only [Contains, Nonempty, BitVec.le_def, BitVec.lt_def] at *
  omega

end ExtentRange

theorem AddressRange.stored_nonempty (range : AddressRange) : range.stored.Nonempty := by
  rw [ExtentRange.Nonempty, BitVec.lt_def, range.toNat_hiAddr]
  exact Nat.lt_add_of_pos_right range.size_pos

/-! ## One range -/

/-- The array `after` is `ranges` with one more range, in a place of its own or merged with a
neighbour `old`. -/
structure Widened (ranges : List ExtentRange) (range : ExtentRange) (low old : List ExtentRange)
    (new : ExtentRange) (high : List ExtentRange) : Prop where
  split : ranges = low ++ old ++ high
  below : ∀ other ∈ low, other.hiAddr ≤ new.loAddr
  above : ∀ other ∈ high, new.hiAddr ≤ other.loAddr
  nonempty : new.Nonempty
  contains : ∀ addr, new.Contains addr ↔ range.Contains addr ∨ ∃ other ∈ old, other.Contains addr

namespace Widened

variable {ranges low old high : List ExtentRange} {range new : ExtentRange}

theorem sorted (widened : Widened ranges range low old new high) (sorted : SortedRanges ranges) :
    SortedRanges (low ++ new :: high) := by
  obtain ⟨apart, proper⟩ := sorted
  rw [widened.split, List.append_assoc, List.pairwise_append] at apart
  obtain ⟨lowApart, restApart, across⟩ := apart
  rw [List.pairwise_append] at restApart
  constructor
  · rw [List.pairwise_append, List.pairwise_cons]
    refine ⟨lowApart, ⟨widened.above, restApart.2.1⟩, ?_⟩
    intro first isLow second isHigh
    rcases List.mem_cons.mp isHigh with rfl | isHigh
    · exact widened.below first isLow
    · exact across first isLow second (List.mem_append_right old isHigh)
  · intro other member
    rcases List.mem_append.mp member with isLow | isHigh
    · apply proper
      simp [widened.split, isLow]
    · rcases List.mem_cons.mp isHigh with rfl | isHigh
      · exact BitVec.le_of_lt widened.nonempty
      · apply proper
        simp [widened.split, isHigh]

theorem nonempties (widened : Widened ranges range low old new high)
    (nonempties : ∀ other ∈ ranges, other.Nonempty) :
    ∀ other ∈ low ++ new :: high, other.Nonempty := by
  intro other member
  rcases List.mem_append.mp member with isLow | isHigh
  · apply nonempties
    simp [widened.split, isLow]
  · rcases List.mem_cons.mp isHigh with rfl | isHigh
    · exact widened.nonempty
    · apply nonempties
      simp [widened.split, isHigh]

theorem union (widened : Widened ranges range low old new high) (addr : Word) :
    (∃ other ∈ low ++ new :: high, other.Contains addr) ↔
      (∃ other ∈ ranges, other.Contains addr) ∨ range.Contains addr := by
  simp only [widened.split, List.mem_append, List.mem_cons, or_and_right, exists_or,
    exists_eq_left, widened.contains]
  grind

end Widened

/-! ## The loop -/

/-- The array that a step of the loop leads to. -/
def Extents.AdjoinStep.result (ranges : List ExtentRange) (range : ExtentRange) :
    Extents.AdjoinStep → List ExtentRange
  | .store i changed => ranges.set i changed
  | .insertAt i => ranges.take i ++ range :: ranges.drop i

section Loop

variable {range : ExtentRange} {low : List ExtentRange}

/-- Merging with a neighbour above. -/
theorem contains_extendDown {other : ExtentRange} (nonempty : range.Nonempty)
    (otherNonempty : other.Nonempty) (meets : range.hiAddr = other.loAddr) (addr : Word) :
    ({ other with loAddr := range.loAddr } : ExtentRange).Contains addr ↔
      range.Contains addr ∨ ∃ old ∈ [other], old.Contains addr := by
  simp only [List.mem_singleton, exists_eq_left, ExtentRange.Contains, ExtentRange.Nonempty,
    BitVec.le_def, BitVec.lt_def] at *
  rw [meets] at nonempty ⊢
  omega

/-- Merging with a neighbour below. -/
theorem contains_extendUp {other : ExtentRange} (nonempty : range.Nonempty)
    (otherNonempty : other.Nonempty) (meets : range.loAddr = other.hiAddr) (addr : Word) :
    ({ other with hiAddr := range.hiAddr } : ExtentRange).Contains addr ↔
      range.Contains addr ∨ ∃ old ∈ [other], old.Contains addr := by
  simp only [List.mem_singleton, exists_eq_left, ExtentRange.Contains, ExtentRange.Nonempty,
    BitVec.le_def, BitVec.lt_def] at *
  rw [meets] at nonempty ⊢
  omega

/-- The loop has passed the ranges of `low`, which are below the new one; what it does then widens
the array. -/
theorem adjoinLoop_spec (nonempty : range.Nonempty) (rest : List ExtentRange)
    (sorted : SortedRanges (low ++ rest)) (nonempties : ∀ other ∈ low ++ rest, other.Nonempty)
    (apart : ∀ other ∈ rest, ∀ addr, ¬(range.Contains addr ∧ other.Contains addr))
    (passed : ∀ other ∈ low, other.hiAddr ≤ range.loAddr) :
    ∃ lower old new high, Widened (low ++ rest) range lower old new high ∧
      (Extents.adjoinLoop range rest low.length).result (low ++ rest) range =
        lower ++ new :: high := by
  induction rest generalizing low with
  | nil =>
      refine ⟨low, [], range, [], ⟨by simp, passed, nofun, nonempty, by simp⟩, ?_⟩
      simp [Extents.adjoinLoop, Extents.AdjoinStep.result]
  | cons other rest inductionHypothesis =>
      have otherNonempty : other.Nonempty := nonempties other (by simp)
      have lowBefore : ∀ first ∈ low, first.hiAddr ≤ other.loAddr := by
        intro first isLow
        exact (List.pairwise_append.mp sorted.apart).2.2 first isLow other (by simp)
      have restAfter : ∀ later ∈ rest, other.hiAddr ≤ later.loAddr :=
        (List.pairwise_cons.mp (List.pairwise_append.mp sorted.apart).2.1).1
      have order := ExtentRange.before_or_after nonempty otherNonempty (apart other (by simp))
      rw [Extents.adjoinLoop]
      by_cases isBelow : range.hiAddr < other.loAddr
      · rw [if_pos isBelow]
        refine ⟨low, [], range, other :: rest, ⟨by simp, passed, ?_, nonempty, by simp⟩, ?_⟩
        · intro later isLater
          rcases List.mem_cons.mp isLater with rfl | isLater
          · exact BitVec.le_of_lt isBelow
          · exact BitVec.le_trans (BitVec.le_of_lt isBelow)
              (BitVec.le_trans (BitVec.le_of_lt otherNonempty) (restAfter later isLater))
        · simp [Extents.AdjoinStep.result]
      rw [if_neg isBelow]
      by_cases meetsBelow : range.hiAddr = other.loAddr
      · rw [if_pos meetsBelow]
        refine ⟨low, [other], { other with loAddr := range.loAddr }, rest,
          ⟨by simp, passed, restAfter, ?_, contains_extendDown nonempty otherNonempty meetsBelow⟩,
          ?_⟩
        · exact BitVec.lt_trans (meetsBelow ▸ nonempty) otherNonempty
        · simp [Extents.AdjoinStep.result]
      rw [if_neg meetsBelow]
      have isAbove : other.hiAddr ≤ range.loAddr := by
        rcases order with before | after
        · exact absurd (BitVec.le_antisymm before (BitVec.not_lt.mp isBelow)) meetsBelow
        · exact after
      by_cases meetsAbove : range.loAddr = other.hiAddr
      · rw [if_pos meetsAbove]
        refine ⟨low, [other], { other with hiAddr := range.hiAddr }, rest,
          ⟨by simp, lowBefore, ?_, ?_, contains_extendUp nonempty otherNonempty meetsAbove⟩, ?_⟩
        · intro later isLater
          have laterNonempty : later.Nonempty := nonempties later (by simp [isLater])
          rcases ExtentRange.before_or_after nonempty laterNonempty
            (apart later (by simp [isLater])) with before | after
          · exact before
          · have contradiction := restAfter later isLater
            simp only [ExtentRange.Nonempty, BitVec.le_def, BitVec.lt_def] at *
            rw [meetsAbove] at after
            omega
        · exact BitVec.lt_trans otherNonempty (meetsAbove ▸ nonempty)
        · simp [Extents.AdjoinStep.result]
      rw [if_neg meetsAbove]
      have split : low ++ other :: rest = (low ++ [other]) ++ rest := by simp
      have length : low.length + 1 = (low ++ [other]).length := by simp
      rw [split] at sorted nonempties ⊢
      rw [length]
      apply inductionHypothesis sorted nonempties
      · intro later isLater
        exact apart later (List.mem_cons_of_mem _ isLater)
      · intro earlier isEarlier
        rcases List.mem_append.mp isEarlier with isLow | isOther
        · exact passed earlier isLow
        · rw [List.mem_singleton.mp isOther]
          exact isAbove

end Loop

/-! ## Any number of ranges -/

/-- What holds of an array after `added` has been adjoined. -/
structure Adjoined (extents : Extents) (added : List AddressRange) : Prop where
  sorted : SortedRanges extents.ranges
  nonempties : ∀ range ∈ extents.ranges, range.Nonempty
  union : ∀ addr, (∃ range ∈ extents.ranges, range.Contains addr) ↔
    ∃ range ∈ added, range.Contains addr
  bounded : extents.ranges.length ≤ extents.capacity

namespace Adjoined

variable {extents : Extents} {added : List AddressRange}

theorem empty (capacity : ℕ) : Adjoined { capacity := capacity, ranges := [] } [] :=
  ⟨⟨List.Pairwise.nil, nofun⟩, nofun, by simp, Nat.zero_le _⟩

/-- Adjoining one more range, if there is memory for a larger array. -/
theorem adjoin (adjoined : Adjoined extents added) (memory : ℕ → Bool) (range : AddressRange)
    (apart : ∀ other ∈ added, other.Apart range) :
    (∃ after, extents.adjoin memory range.loAddr range.size = .next after ∧
      Adjoined after (added ++ [range])) ∨
    (∃ bytes, memory bytes = false) ∧
      extents.adjoin memory range.loAddr range.size = .failed .outOfMemory := by
  obtain ⟨sorted, nonempties, union, bounded⟩ := adjoined
  have apartStored : ∀ other ∈ extents.ranges, ∀ addr,
      ¬(range.stored.Contains addr ∧ other.Contains addr) := by
    rintro other member addr ⟨isNew, isOther⟩
    obtain ⟨earlier, isAdded, isEarlier⟩ := (union addr).mp ⟨other, member, isOther⟩
    exact apart earlier isAdded addr ⟨isEarlier, (range.stored_contains addr).mp isNew⟩
  obtain ⟨low, old, new, high, widened, result⟩ := @adjoinLoop_spec range.stored []
    range.stored_nonempty extents.ranges sorted nonempties apartStored
      (fun _ member => nomatch member)
  have reached : ∀ after : Extents,
      after.ranges = (Extents.adjoinLoop range.stored extents.ranges 0).result extents.ranges
        range.stored →
      after.ranges.length ≤ after.capacity → Adjoined after (added ++ [range]) := by
    intro after same bounded
    have ranges : after.ranges = low ++ new :: high := same.trans result
    rw [← ranges] at result
    refine ⟨ranges ▸ widened.sorted sorted, ranges ▸ widened.nonempties nonempties, ?_, bounded⟩
    intro addr
    rw [ranges, widened.union addr, List.nil_append, union addr]
    simp [or_and_right, exists_or]
  have unfolded : extents.adjoin memory range.loAddr range.size =
      (match Extents.adjoinLoop range.stored extents.ranges 0 with
      | .store i changed => pure { extents with ranges := extents.ranges.set i changed }
      | .insertAt i => extents.insert memory i range.stored) :=
    Outcome.check_bind range.notNull
  rw [unfolded]
  generalize Extents.adjoinLoop range.stored extents.ranges 0 = step at reached ⊢
  cases step with
  | store i changed =>
      refine .inl ⟨_, rfl, reached _ rfl ?_⟩
      rw [List.length_set]
      exact bounded
  | insertAt i =>
      rcases Extents.insert_cases memory i range.stored bounded with
        ⟨after, inserted, ranges, afterBounded⟩ | failed
      · exact .inl ⟨after, inserted, reached after ranges afterBounded⟩
      · exact .inr failed

/-- Adjoining any number of ranges. -/
theorem adjoinAll (adjoined : Adjoined extents added) (memory : ℕ → Bool)
    (ranges : List AddressRange) (apart : (added ++ ranges).Pairwise AddressRange.Apart) :
    (∃ after, extents.adjoinAll memory ranges = .next after ∧
      Adjoined after (added ++ ranges)) ∨
    (∃ bytes, memory bytes = false) ∧
      extents.adjoinAll memory ranges = .failed .outOfMemory := by
  induction ranges generalizing extents added with
  | nil =>
      refine .inl ⟨extents, rfl, ?_⟩
      rwa [List.append_nil]
  | cons range rest inductionHypothesis =>
      have apartOne : ∀ other ∈ added, other.Apart range := by
        intro other member
        exact (List.pairwise_append.mp apart).2.2 other member range List.mem_cons_self
      have split : added ++ range :: rest = (added ++ [range]) ++ rest := by simp
      rw [split] at apart ⊢
      rw [Extents.adjoinAll]
      rcases adjoined.adjoin memory range apartOne with ⟨widened, adjoinedOne, holds⟩ | failed
      · rw [adjoinedOne, Outcome.bind_next]
        exact inductionHypothesis holds apart
      · rw [failed.2]
        exact .inr ⟨failed.1, rfl⟩

end Adjoined

/-- What a lookup is to find: the start of a stored range that has the address and that has
addresses of added ranges only, and nothing where no added range has the address. -/
structure FindsAdded (extents : Extents) (added : List AddressRange) (addr : Word) : Prop where
  found : extents.containAddr addr ≠ 0 ↔ ∃ range ∈ added, range.Contains addr
  start : extents.containAddr addr ≠ 0 → ∃ stored ∈ extents.ranges,
    stored.Contains addr ∧ extents.containAddr addr = stored.loAddr ∧
      ∀ other, stored.Contains other → ∃ range ∈ added, range.Contains other

theorem Adjoined.findsAdded {extents : Extents} {added : List AddressRange}
    (adjoined : Adjoined extents added) (addr : Word) : FindsAdded extents added addr := by
  have proper : ∀ stored ∈ extents.ranges, stored.loAddr ≠ 0 := by
    intro stored member isNull
    obtain ⟨range, isAdded, contains⟩ := (adjoined.union stored.loAddr).mp
      ⟨stored, member, ExtentRange.contains_loAddr (adjoined.nonempties stored member)⟩
    apply range.notNull
    apply BitVec.eq_of_toNat_eq
    have below := contains.1
    rw [isNull] at below
    exact Nat.le_zero.mp below
  rcases adjoined.sorted.containAddr_spec addr with
    ⟨stored, member, contains, isStart⟩ | ⟨none, isZero⟩
  · have isFound : extents.containAddr addr ≠ 0 := by
      rw [isStart]
      exact proper stored member
    constructor
    · exact iff_of_true isFound ((adjoined.union addr).mp ⟨stored, member, contains⟩)
    · intro _
      refine ⟨stored, member, contains, isStart, ?_⟩
      intro other inStored
      exact (adjoined.union other).mp ⟨stored, member, inStored⟩
  · constructor
    · refine iff_of_false (fun isFound => isFound isZero) ?_
      intro inAdded
      obtain ⟨stored, member, contains⟩ := (adjoined.union addr).mpr inAdded
      exact none stored member contains
    · intro isFound
      exact absurd isZero isFound

/-- Disjoint ranges in any order: the array stays sorted, holds just the addresses of the ranges,
and every lookup finds what was added. -/
theorem adjoinAll_spec (memory : ℕ → Bool) (capacity : ℕ) {added : List AddressRange}
    (apart : added.Pairwise AddressRange.Apart) :
    (∃ extents : Extents,
      Extents.adjoinAll memory { capacity := capacity, ranges := [] } added = .next extents ∧
      Adjoined extents added ∧ ∀ addr, FindsAdded extents added addr) ∨
    (∃ bytes, memory bytes = false) ∧
      Extents.adjoinAll memory { capacity := capacity, ranges := [] } added =
        .failed .outOfMemory := by
  rcases (Adjoined.empty capacity).adjoinAll memory added apart with
    ⟨extents, adjoinedAll, adjoined⟩ | failed
  · exact .inl ⟨extents, adjoinedAll, adjoined, adjoined.findsAdded⟩
  · exact .inr failed

/-- A page, the page below it, and one that touches neither. -/
def threePages : List AddressRange :=
  [⟨0x2000, 0x1000, by decide, by decide, by decide⟩,
    ⟨0x1000, 0x1000, by decide, by decide, by decide⟩,
    ⟨0x5000, 0x1000, by decide, by decide, by decide⟩]

theorem adjoinAll_threePages :
    ∃ extents : Extents,
      Extents.adjoinAll (fun _ => true) { capacity := 1, ranges := [] } threePages = .next extents ∧
      Adjoined extents threePages ∧ ∀ addr, FindsAdded extents threePages addr := by
  have apart : threePages.Pairwise AddressRange.Apart := by
    simp only [threePages, List.pairwise_cons, List.mem_cons, List.not_mem_nil, or_false,
      forall_eq_or_imp, forall_eq, AddressRange.Apart, AddressRange.Contains]
    have size : (0x1000 : Word).toNat = 4096 := rfl
    have second : (0x2000 : Word).toNat = 8192 := rfl
    have fifth : (0x5000 : Word).toNat = 20480 := rfl
    rw [size, second, fifth]
    refine ⟨⟨?_, ?_⟩, ?_, nofun, List.Pairwise.nil⟩ <;> intro addr <;> omega
  rcases adjoinAll_spec (fun _ => true) 1 apart with found | ⟨⟨_, none⟩, _⟩
  · exact found
  · exact absurd none nofun

/-- The last page of the address space, whose end is no address, is not found; and the first page
fails the assertion. -/
theorem adjoin_fails_at_ends :
    (∃ extents : Extents,
      Extents.adjoin (fun _ => true) { capacity := 10, ranges := [] } 0xfffffffffffff000 0x1000 =
        .next extents ∧
      extents.containAddr 0xfffffffffffff000 = 0) ∧
    Extents.adjoin (fun _ => true) { capacity := 10, ranges := [] } 0 0x1000 = .failed .null := by
  refine ⟨⟨{ capacity := 10, ranges := [{ loAddr := 0xfffffffffffff000, hiAddr := 0 }] }, rfl, ?_⟩,
    rfl⟩
  simp [Extents.containAddr, Extents.search]

end Whippet
