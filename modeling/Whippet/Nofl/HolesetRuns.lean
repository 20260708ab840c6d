import Whippet.Nofl.HolesetOperations

/-!
Runs of any number of local holesets and a shared one.

Between the operations, what is not in a holeset may be written to. A hole is where the links of the
memory have it: in a bucket of a local holeset, or in a chain of the shared one.

Owns: the system of the operations, what is promised of their operands, and what holds in every run
whose steps keep the promises. Does not own: who calls the operations.
-/

namespace Whippet.Nofl

open Function GranuleRange

variable {Local : Type}

/-- The holesets, and all that was pushed and popped. -/
structure HolesetState (Local : Type) where
  memory : Holesets Local
  pushed : List GranuleRange
  popped : List GranuleRange

inductive HolesetAction (Local : Type) where
  | pushLocal (owner : Local) (hole : GranuleRange)
  | tryPop (owner : Local) (granules : ℕ)
  | release (owner : Local)
  | acquire (owner : Local) (granules : ℕ) (sloppyNonempty : BitVec 64)
  | write (addr value : ℕ)

section Steps

variable [DecidableEq Local]

def stepHolesets (state : HolesetState Local) :
    HolesetAction Local → Outcome HolesetFailure (HolesetState Local)
  | .pushLocal owner hole => do
      let memory := state.memory
      let (words, holes) ←
        noflHolesetPushLocal memory.words (memory.locals owner) hole.addr hole.granules
      return { state with
        memory := memory.withLocal owner words holes
        pushed := hole :: state.pushed }
  | .tryPop owner granules => do
      let memory := state.memory
      let (words, holes, ret) ← noflHolesetTryPop memory.words (memory.locals owner) granules
      return { state with
        memory := memory.withLocal owner words holes
        popped := if ret = 0 then state.popped else ⟨ret, granules⟩ :: state.popped }
  | .release owner => do
      let memory := state.memory
      let (words, holes, shared) ←
        noflHolesetRelease memory.words (memory.locals owner) memory.shared
      return { state with memory := (memory.withLocal owner words holes).withShared shared }
  | .acquire owner granules sloppyNonempty => do
      let memory := state.memory
      let (words, holes, shared, _) ← noflHolesetAcquire memory.words (memory.locals owner)
        memory.shared granules sloppyNonempty
      return { state with memory := (memory.withLocal owner words holes).withShared shared }
  | .write addr value =>
      return { state with
        memory := { state.memory with words := update state.memory.words addr value } }

/-- The holesets start out cleared. -/
def holesets (Local : Type) [DecidableEq Local] :
    System (HolesetState Local) (HolesetAction Local) HolesetFailure where
  initial state := (∀ owner, state.memory.locals owner = ⟨0, fun _ => 0⟩) ∧
    state.memory.shared = ⟨0, fun _ => 0⟩ ∧ state.pushed = [] ∧ state.popped = []
  step := stepHolesets

end Steps

/-- What is promised of the operands: a region is pushed that is clear and was never pushed before,
granules are asked for, and no hole is written to. -/
def HolesetAction.Proper (state : HolesetState Local) : HolesetAction Local → Prop
  | .pushLocal _ hole =>
      hole.IsRegion ∧ IsClear state.memory.words hole ∧ ∀ range ∈ state.pushed, hole.Apart range
  | .tryPop _ granules => 0 < granules ∧ granules ≤ NOFL_HOLESET_MAX_GRANULES
  | .release _ => True
  | .acquire _ granules _ => 0 < granules
  | .write addr _ => (∃ range ∈ state.popped, range.Covers addr) ∨
      ∀ range ∈ state.pushed, ¬range.Covers addr

/-- A chain is acquired only when no local bucket has a hole from the lookup bucket on. -/
def HolesetAction.Disciplined (state : HolesetState Local) (action : HolesetAction Local) : Prop :=
  action.Proper state ∧
    match action with
    | .acquire owner granules _ =>
        (state.memory.locals owner).nonempty >>> lookupBucket granules = 0
    | _ => True

instance (state : HolesetState Local) (action : HolesetAction Local) :
    Decidable (action.Proper state) :=
  match action with
  | .pushLocal _ _ => inferInstanceAs (Decidable (_ ∧ _ ∧ ∀ range ∈ state.pushed, _))
  | .tryPop _ _ => inferInstanceAs (Decidable (_ ∧ _))
  | .release _ => .isTrue trivial
  | .acquire _ _ _ => inferInstanceAs (Decidable (_ < _))
  | .write _ _ => inferInstanceAs
      (Decidable ((∃ range ∈ state.popped, _) ∨ ∀ range ∈ state.pushed, _))

instance (state : HolesetState Local) (action : HolesetAction Local) :
    Decidable (action.Disciplined state) :=
  match action with
  | .acquire _ _ _ => inferInstanceAs (Decidable (_ ∧ _ = _))
  | .pushLocal _ _ => inferInstanceAs (Decidable (_ ∧ True))
  | .tryPop _ _ => inferInstanceAs (Decidable (_ ∧ True))
  | .release _ => inferInstanceAs (Decidable (_ ∧ True))
  | .write _ _ => inferInstanceAs (Decidable (_ ∧ True))

/-- Where a hole is. A chain of the shared holeset is named by its first hole. -/
inductive HolePlace (Local : Type) where
  | inLocal (owner : Local) (idx : ℕ)
  | inShared (idx first : ℕ)
  deriving DecidableEq

namespace HolePlace

def idx : HolePlace Local → ℕ
  | inLocal _ idx => idx
  | inShared idx _ => idx

/-- The links lead to the hole. -/
def Has (memory : Holesets Local) : HolePlace Local → ℕ → Prop
  | inLocal owner idx, addr => ∃ nodes,
      Chained memory.words 0 ((memory.locals owner).buckets idx) nodes ∧ addr ∈ nodes
  | inShared idx first, addr =>
      (∃ chains, Chained (fun chain => memory.words (nextChainOf chain)) 0
        (memory.shared.buckets idx) chains ∧ first ∈ chains) ∧
      ∃ nodes, Chained memory.words 0 first nodes ∧ addr ∈ nodes

end HolePlace

/-- A hole of a holeset, with the size that its bucket or its words give it. -/
structure HeldAt (memory : Holesets Local) (place : HolePlace Local) (hole : GranuleRange) :
    Prop where
  has : place.Has memory hole.addr
  granules : hole.granules = if place.idx < NOFL_HOLESET_PACKED_GRANULES then place.idx + 1
    else memory.words (granulesOf hole.addr)

section Held

variable {inventory : Inventory Local} {memory : Holesets Local}
variable {place : HolePlace Local} {hole other : GranuleRange}

/-- The list of an inventory that a place is. -/
def HolePlace.list : HolePlace Local → HoleList Local
  | inLocal owner idx => .bucket owner idx
  | inShared _ first => .chain first

/-- The place is one of the inventory. -/
def HolePlace.Known (inventory : Inventory Local) : HolePlace Local → Prop
  | inLocal _ _ => True
  | inShared idx first => inventory.chained first = some idx

namespace Inventory

theorem Describes.chained_words (describes : inventory.Describes memory)
    (name : HoleList Local) :
    ∃ nodes, Chained memory.words 0 (inventory.lists.head name) nodes ∧
      ∀ addr, addr ∈ nodes ↔ inventory.listed addr = some name := by
  obtain ⟨nodes, chain, -, -, members⟩ := describes.lists.chain name
  refine ⟨nodes, chain.frame ?_, members⟩
  intro addr member
  exact (describes.next addr (by rw [(members addr).mp member]; simp)).symm

theorem Describes.chained_nextChain (describes : inventory.Describes memory) (idx : ℕ) :
    ∃ chains, Chained (fun chain => memory.words (nextChainOf chain)) 0
        (memory.shared.buckets idx) chains ∧
      ∀ first, first ∈ chains ↔ inventory.chained first = some idx := by
  obtain ⟨chains, chain, -, -, members⟩ := describes.chains.chain idx
  rw [describes.sharedHead] at chain
  refine ⟨chains, chain.frame ?_, members⟩
  intro first member
  have onList := describes.listed_of_chained ((members first).mp member)
  exact (describes.nextChain first (by rw [onList]; simp)).symm

/-- The links lead to the holes that the inventory has. -/
theorem Describes.has_iff (describes : inventory.Describes memory) (addr : ℕ) :
    place.Has memory addr ↔ place.Known inventory ∧ inventory.listed addr = some place.list := by
  obtain ⟨nodes, chain, members⟩ := describes.chained_words place.list
  cases place with
  | inLocal owner idx =>
      change Chained _ _ (inventory.lists.head (.bucket owner idx)) _ at chain
      rw [describes.localHead] at chain
      constructor
      · rintro ⟨found, foundChain, member⟩
        rw [foundChain.unique chain] at member
        exact ⟨trivial, (members addr).mp member⟩
      · rintro ⟨-, isListed⟩
        exact ⟨nodes, chain, (members addr).mpr isListed⟩
  | inShared idx first =>
      obtain ⟨chains, chainOfChains, firsts⟩ := describes.chained_nextChain idx
      constructor
      · rintro ⟨⟨found, foundChain, isFirst⟩, foundNodes, foundNodesChain, member⟩
        rw [foundChain.unique chainOfChains, firsts] at isFirst
        refine ⟨isFirst, (members addr).mp ?_⟩
        rw [HolePlace.list, describes.chainHead first idx isFirst] at chain
        rwa [← foundNodesChain.unique chain]
      · rintro ⟨isFirst, isListed⟩
        rw [HolePlace.list, describes.chainHead first idx isFirst] at chain
        exact ⟨⟨chains, chainOfChains, (firsts first).mpr isFirst⟩, nodes, chain,
          (members addr).mpr isListed⟩

/-- The inventory has the hole on the list. -/
def Lists (inventory : Inventory Local) (name : HoleList Local) (hole : GranuleRange) : Prop :=
  inventory.listed hole.addr = some name ∧ inventory.hole hole.addr = hole

/-- The inventory has the hole. -/
def HasHole (inventory : Inventory Local) (hole : GranuleRange) : Prop :=
  inventory.listed hole.addr ≠ none ∧ inventory.hole hole.addr = hole

theorem hasHole_iff : inventory.HasHole hole ↔ ∃ name, inventory.Lists name hole := by
  rw [HasHole, Option.ne_none_iff_exists']
  simp only [Lists, exists_and_right]

theorem Describes.apart_of_ne (describes : inventory.Describes memory)
    (has : inventory.HasHole hole) (hasOther : inventory.HasHole other) (different : hole ≠ other) :
    hole.Apart other := by
  have differentAddr : hole.addr ≠ other.addr := by
    intro same
    apply different
    rw [← has.2, same, hasOther.2]
  have apart := describes.apart _ _ has.1 hasOther.1 differentAddr
  rwa [has.2, hasOther.2] at apart

theorem Describes.isHole_of_hasHole (describes : inventory.Describes memory)
    (has : inventory.HasHole hole) : IsHole memory.words hole := by
  rw [← has.2]
  exact describes.isHole _ has.1

/-- A hole is in the bucket of its size. -/
theorem Describes.idx_eq (describes : inventory.Describes memory)
    (known : place.Known inventory) (lists : inventory.Lists place.list hole) :
    place.idx = insertBucket hole.granules := by
  have isSorted := describes.sorted _ _ lists.1
  rw [show inventory.granules hole.addr = hole.granules from
    congrArg GranuleRange.granules lists.2] at isSorted
  cases place with
  | inLocal owner idx => exact Option.some.inj isSorted
  | inShared idx first => exact Option.some.inj (known.symm.trans isSorted)

/-- What the memory holds is what the inventory has, in the bucket of its size. -/
theorem Describes.heldAt_iff (describes : inventory.Describes memory) :
    HeldAt memory place hole ↔ place.Known inventory ∧ inventory.Lists place.list hole := by
  have sized (known : place.Known inventory)
      (isListed : inventory.listed hole.addr = some place.list) :
      (if place.idx < NOFL_HOLESET_PACKED_GRANULES then place.idx + 1
        else memory.words (granulesOf hole.addr)) = inventory.granules hole.addr := by
    have isHole := describes.isHole hole.addr (by rw [isListed]; simp)
    have positive : 0 < inventory.granules hole.addr := isHole.region.positive
    rw [@Describes.idx_eq _ _ _ place (inventory.hole hole.addr) describes known ⟨isListed, rfl⟩]
    change (if insertBucket (inventory.granules hole.addr) < NOFL_HOLESET_PACKED_GRANULES then
      insertBucket (inventory.granules hole.addr) + 1 else _) = _
    by_cases packed : inventory.granules hole.addr ≤ NOFL_HOLESET_PACKED_GRANULES
    · rw [if_pos ((insertBucket_lt_iff positive).mpr packed), insertBucket, if_pos packed]
      omega
    · rw [if_neg (mt (insertBucket_lt_iff positive).mp packed)]
      exact isHole.size (Nat.lt_of_not_le packed)
  constructor
  · rintro ⟨has, granules⟩
    obtain ⟨known, isListed⟩ := (describes.has_iff hole.addr).mp has
    rw [sized known isListed] at granules
    refine ⟨known, isListed, ?_⟩
    rw [Inventory.hole, ← granules]
  · rintro ⟨known, isListed, same⟩
    refine ⟨(describes.has_iff hole.addr).mpr ⟨known, isListed⟩, ?_⟩
    rw [sized known isListed]
    exact congrArg GranuleRange.granules same.symm

theorem Describes.exists_heldAt_iff (describes : inventory.Describes memory) :
    (∃ place, HeldAt memory place hole) ↔ inventory.HasHole hole := by
  constructor
  · rintro ⟨place, held⟩
    obtain ⟨-, isListed, same⟩ := describes.heldAt_iff.mp held
    exact ⟨by rw [isListed]; simp, same⟩
  · rintro ⟨isListed, same⟩
    obtain ⟨name, isName⟩ := Option.ne_none_iff_exists'.mp isListed
    have isSorted := describes.sorted _ _ isName
    cases name with
    | bucket owner idx =>
        exact ⟨.inLocal owner idx, describes.heldAt_iff.mpr ⟨trivial, isName, same⟩⟩
    | chain first =>
        exact ⟨.inShared _ first, describes.heldAt_iff.mpr ⟨isSorted, isName, same⟩⟩

/-- The holes and the popped regions are a partition of what was pushed. -/
structure Partitions (inventory : Inventory Local) (pushed popped : List GranuleRange) : Prop where
  positive : ∀ range ∈ popped, 0 < range.granules
  poppedApart : popped.Pairwise Apart
  heldApart : ∀ range ∈ popped, ∀ hole, inventory.HasHole hole → hole.Apart range
  covers : ∀ addr, (∃ range ∈ pushed, range.Covers addr) ↔
    (∃ hole, inventory.HasHole hole ∧ hole.Covers addr) ∨ ∃ range ∈ popped, range.Covers addr

theorem SameHoles.hasHole_iff {after : Inventory Local} (same : inventory.SameHoles after) :
    after.HasHole hole ↔ inventory.HasHole hole := by
  rw [HasHole, HasHole, same.hole, ne_eq, same.listed]

variable [DecidableEq Local] {owner : Local} {idx granules : ℕ} {name : HoleList Local}

theorem lists_push (fresh : ∀ kept, inventory.HasHole kept → kept.addr ≠ hole.addr) :
    (inventory.push owner hole).Lists name other ↔
      (name = .bucket owner (insertBucket hole.granules) ∧ other = hole) ∨
        inventory.Lists name other := by
  constructor
  · rintro ⟨isName, same⟩
    rcases listed_push_cases isName with ⟨isNew, isBucket⟩ | ⟨different, before⟩
    · left
      rw [← same, isNew, hole_push_self]
      exact ⟨isBucket, rfl⟩
    · right
      rw [hole_push_of_ne different] at same
      exact ⟨before, same⟩
  · rintro (⟨rfl, rfl⟩ | lists)
    · refine ⟨?_, hole_push_self⟩
      rw [listed_push, update_self]
    · have different := fresh other (hasHole_iff.mpr ⟨name, lists⟩)
      refine ⟨?_, by rw [hole_push_of_ne different]; exact lists.2⟩
      rw [listed_push, update_of_ne different]
      exact lists.1

theorem lists_pop : (inventory.pop owner idx).Lists name other ↔
    inventory.Lists name other ∧ other.addr ≠ inventory.lists.head (.bucket owner idx) := by
  constructor
  · rintro ⟨isName, same⟩
    obtain ⟨different, before⟩ := listed_pop_cases isName
    exact ⟨⟨before, same⟩, different⟩
  · rintro ⟨lists, different⟩
    refine ⟨?_, lists.2⟩
    rw [listed_pop, update_of_ne different]
    exact lists.1

/-- What is left when granules are carved from the front of a hole. -/
theorem lists_carve (describes : inventory.Describes memory)
    (isFirst : inventory.lists.head (.bucket owner idx) = hole.addr)
    (has : inventory.HasHole hole) (fits : granules ≤ hole.granules) :
    (inventory.carve owner idx granules).Lists name other ↔
      (inventory.Lists name other ∧ other ≠ hole) ∨
        (granules < hole.granules ∧
          name = .bucket owner (insertBucket (hole.granules - granules)) ∧
          other = hole.back granules) := by
  have sameGranules : inventory.granules hole.addr = hole.granules :=
    congrArg GranuleRange.granules has.2
  have ne_iff (kept : GranuleRange) (hasKept : inventory.hole kept.addr = kept) :
      kept.addr ≠ hole.addr ↔ kept ≠ hole := by
    refine ⟨fun different same => different (by rw [same]), fun different same => different ?_⟩
    rw [← hasKept, same, has.2]
  rw [carve, isFirst, sameGranules, has.2]
  split_ifs with whole
  · rw [lists_pop, isFirst]
    constructor
    · rintro ⟨lists, different⟩
      exact .inl ⟨lists, (ne_iff other lists.2).mp different⟩
    · rintro (⟨lists, different⟩ | ⟨less, -⟩)
      · exact ⟨lists, (ne_iff other lists.2).mpr different⟩
      · omega
  · have less : granules < hole.granules := by omega
    rw [lists_push, lists_pop, isFirst]
    · constructor
      · rintro (isBack | ⟨lists, different⟩)
        · exact .inr ⟨less, isBack⟩
        · exact .inl ⟨lists, (ne_iff other lists.2).mp different⟩
      · rintro (⟨lists, different⟩ | ⟨-, isBack⟩)
        · exact .inr ⟨lists, (ne_iff other lists.2).mpr different⟩
        · exact .inl isBack
    · intro kept hasKept
      obtain ⟨name, lists⟩ := hasHole_iff.mp hasKept
      rw [lists_pop, isFirst] at lists
      have hasBefore := hasHole_iff.mpr ⟨name, lists.1⟩
      have region := (describes.isHole_of_hasHole has).region
      apply (region.back less).addr_ne (describes.isHole_of_hasHole hasBefore).region
      apply Apart.back _ fits
      apply describes.apart_of_ne has hasBefore
      rintro rfl
      exact lists.2 rfl

theorem hasHole_push (fresh : ∀ kept, inventory.HasHole kept → kept.addr ≠ hole.addr) :
    (inventory.push owner hole).HasHole other ↔ other = hole ∨ inventory.HasHole other := by
  simp only [hasHole_iff, lists_push fresh, exists_or, exists_and_right, exists_eq, true_and]

theorem hasHole_carve (describes : inventory.Describes memory)
    (isFirst : inventory.lists.head (.bucket owner idx) = hole.addr)
    (has : inventory.HasHole hole) (fits : granules ≤ hole.granules) :
    (inventory.carve owner idx granules).HasHole other ↔
      (inventory.HasHole other ∧ other ≠ hole) ∨
        (granules < hole.granules ∧ other = hole.back granules) := by
  simp only [hasHole_iff, lists_carve describes isFirst has fits, exists_or, exists_and_right,
    exists_and_left, exists_eq, true_and]

namespace Partitions

variable {pushed popped : List GranuleRange}

omit [DecidableEq Local] in
/-- A new region is apart from all holes and from all that was popped. -/
theorem apart_of_new (partitions : inventory.Partitions pushed popped)
    (describes : inventory.Describes memory) (region : hole.IsRegion)
    (new : ∀ range ∈ pushed, hole.Apart range) :
    (∀ kept, inventory.HasHole kept → hole.Apart kept) ∧ ∀ range ∈ popped, hole.Apart range := by
  constructor
  · intro kept has
    apply apart_of_disjoint region.positive (describes.isHole_of_hasHole has).region.positive
    intro addr covered
    obtain ⟨range, wasPushed, inRange⟩ := (partitions.covers addr).mpr (.inl ⟨kept, has, covered⟩)
    exact (new range wasPushed).not_covers inRange
  · intro kept wasPopped
    apply apart_of_disjoint region.positive (partitions.positive kept wasPopped)
    intro addr covered
    obtain ⟨range, wasPushed, inRange⟩ :=
      (partitions.covers addr).mpr (.inr ⟨kept, wasPopped, covered⟩)
    exact (new range wasPushed).not_covers inRange

theorem push (partitions : inventory.Partitions pushed popped)
    (describes : inventory.Describes memory) (region : hole.IsRegion)
    (new : ∀ range ∈ pushed, hole.Apart range) :
    (inventory.push owner hole).Partitions (hole :: pushed) popped := by
  obtain ⟨apartHeld, apartPopped⟩ := partitions.apart_of_new describes region new
  have hasHole (other : GranuleRange) : (inventory.push owner hole).HasHole other ↔
      other = hole ∨ inventory.HasHole other := by
    apply hasHole_push
    intro kept has
    exact region.addr_ne (describes.isHole_of_hasHole has).region (apartHeld kept has)
  refine ⟨partitions.positive, partitions.poppedApart, ?_, ?_⟩
  · intro range wasPopped other has
    rcases (hasHole other).mp has with rfl | before
    · exact apartPopped range wasPopped
    · exact partitions.heldApart range wasPopped other before
  · intro addr
    simp only [List.mem_cons, hasHole, or_and_right, exists_or, exists_eq_left,
      partitions.covers, or_assoc]

theorem carve (partitions : inventory.Partitions pushed popped)
    (describes : inventory.Describes memory)
    (isFirst : inventory.lists.head (.bucket owner idx) = hole.addr)
    (has : inventory.HasHole hole) (positive : 0 < granules) (fits : granules ≤ hole.granules) :
    (inventory.carve owner idx granules).Partitions pushed (hole.front granules :: popped) := by
  have hasHole (other : GranuleRange) := @hasHole_carve _ _ _ hole other _ _ _ _ describes isFirst
    has fits
  refine ⟨?_, ?_, ?_, ?_⟩
  · intro range isPopped
    rcases List.mem_cons.mp isPopped with rfl | before
    · exact positive
    · exact partitions.positive range before
  · apply List.pairwise_cons.mpr ⟨_, partitions.poppedApart⟩
    intro range before
    exact (partitions.heldApart range before hole has).front fits
  · intro range isPopped other hasOther
    rcases (hasHole other).mp hasOther with ⟨before, different⟩ | ⟨less, rfl⟩ <;>
      rcases List.mem_cons.mp isPopped with rfl | wasPopped
    · exact ((describes.apart_of_ne has before different.symm).front fits).symm
    · exact partitions.heldApart range wasPopped other before
    · exact front_apart_back.symm
    · exact (partitions.heldApart range wasPopped hole has).back fits
  · intro addr
    have split := @covers_iff_front_or_back hole addr granules fits
    rw [partitions.covers]
    constructor
    · rintro (⟨other, before, covered⟩ | ⟨range, wasPopped, covered⟩)
      · by_cases same : other = hole
        · subst same
          rcases split.mp covered with inFront | inBack
          · exact .inr ⟨_, List.mem_cons_self, inFront⟩
          · refine .inl ⟨_, (hasHole _).mpr (.inr ⟨?_, rfl⟩), inBack⟩
            simp only [GranuleRange.Covers, back, noflHoleTailAddress, NOFL_GRANULE_SIZE] at inBack
            omega
        · exact .inl ⟨other, (hasHole other).mpr (.inl ⟨before, same⟩), covered⟩
      · exact .inr ⟨range, List.mem_cons_of_mem _ wasPopped, covered⟩
    · rintro (⟨other, hasOther, covered⟩ | ⟨range, isPopped, covered⟩)
      · rcases (hasHole other).mp hasOther with ⟨before, -⟩ | ⟨-, rfl⟩
        · exact .inl ⟨other, before, covered⟩
        · exact .inl ⟨hole, has, split.mpr (.inr covered)⟩
      · rcases List.mem_cons.mp isPopped with rfl | wasPopped
        · exact .inl ⟨hole, has, split.mpr (.inl covered)⟩
        · exact .inr ⟨range, wasPopped, covered⟩

omit [DecidableEq Local] in
theorem sameHoles (partitions : inventory.Partitions pushed popped) {after : Inventory Local}
    (same : inventory.SameHoles after) : after.Partitions pushed popped := by
  refine ⟨partitions.positive, partitions.poppedApart, ?_, ?_⟩
  · intro range wasPopped other has
    exact partitions.heldApart range wasPopped other (same.hasHole_iff.mp has)
  · intro addr
    simp only [same.hasHole_iff, partitions.covers]

end Partitions

omit [DecidableEq Local] in
/-- Writing outside the holes changes none of them. -/
theorem Describes.write (describes : inventory.Describes memory) {addr value : ℕ}
    (outside : ∀ hole, inventory.HasHole hole → ¬hole.Covers addr) :
    inventory.Describes { memory with words := update memory.words addr value } := by
  have kept (other place : ℕ) (isListed : inventory.listed other ≠ none)
      (covered : (inventory.hole other).Covers place) :
      update memory.words addr value place = memory.words place := by
    apply update_of_ne
    rintro rfl
    exact outside _ ⟨isListed, rfl⟩ covered
  refine { describes with next := ?_, nextChain := ?_, isHole := ?_ }
  · intro other isListed
    have region := (describes.isHole other isListed).region
    exact (describes.next other isListed).trans (kept other _ isListed region.covers_addr).symm
  · intro other isListed
    have region := (describes.isHole other isListed).region
    exact (describes.nextChain other isListed).trans
      (kept other _ isListed region.covers_nextChain).symm
  · intro other isListed
    apply (describes.isHole other isListed).frame
    intro place covered _
    exact kept other place isListed covered

end Inventory

end Held

/-- What `nofl_holeset_try_pop` returns and leaves: nothing if no local bucket from the lookup
bucket on has a hole, and else clear granules from the front of a hole, whose rest is put back. -/
def Pops [DecidableEq Local] (memory : Holesets Local) (owner : Local) (granules : ℕ)
    (words : Words) (holes : Holeset) (ret : ℕ) : Prop :=
  (ret = 0 ∧ words = memory.words ∧ holes = memory.locals owner ∧
    ∀ idx hole, lookupBucket granules ≤ idx → ¬HeldAt memory (.inLocal owner idx) hole) ∨
  ∃ idx hole, HeldAt memory (.inLocal owner idx) hole ∧ ret = hole.addr ∧
    granules ≤ hole.granules ∧ IsClear words (hole.front granules) ∧
    ∀ place other, HeldAt (memory.withLocal owner words holes) place other ↔
      (HeldAt memory place other ∧ other ≠ hole) ∨
        (granules < hole.granules ∧
          place = .inLocal owner (insertBucket (hole.granules - granules)) ∧
          other = hole.back granules)

/-- What holds of the holesets in a state. -/
structure HolesetsSound [DecidableEq Local] (state : HolesetState Local) : Prop where
  apart : ∀ place hole otherPlace other, HeldAt state.memory place hole →
    HeldAt state.memory otherPlace other → (place = otherPlace ∧ hole = other) ∨ hole.Apart other
  poppedApart : state.popped.Pairwise Apart
  heldApart : ∀ place hole, HeldAt state.memory place hole → ∀ range ∈ state.popped,
    hole.Apart range
  covers : ∀ addr, (∃ range ∈ state.pushed, range.Covers addr) ↔
    (∃ place hole, HeldAt state.memory place hole ∧ hole.Covers addr) ∨
      ∃ range ∈ state.popped, range.Covers addr
  localBits : ∀ owner idx, (state.memory.locals owner).nonempty.getLsbD idx = true ↔
    ∃ hole, HeldAt state.memory (.inLocal owner idx) hole
  sharedBits : ∀ idx, state.memory.shared.nonempty.getLsbD idx = true ↔
    ∃ first hole, HeldAt state.memory (.inShared idx first) hole
  enough : ∀ granules idx, 0 < granules → granules ≤ NOFL_HOLESET_MAX_GRANULES →
    noflHolesetBucketForLookup granules = .next idx →
    ∀ place hole, HeldAt state.memory place hole → idx ≤ place.idx → granules ≤ hole.granules
  pops : ∀ owner granules, 0 < granules → granules ≤ NOFL_HOLESET_MAX_GRANULES →
    ∃ words holes ret, noflHolesetTryPop state.memory.words (state.memory.locals owner) granules =
        .next (words, holes, ret) ∧
      Pops state.memory owner granules words holes ret
  assertions : ∀ action : HolesetAction Local, action.Disciplined state →
    ∀ failure, stepHolesets state action ≠ .failed failure

section Runs

variable [DecidableEq Local] {state after : HolesetState Local} {action : HolesetAction Local}
variable {inventory : Inventory Local}

/-- The memory is as an inventory has it that has what was pushed and not popped. -/
def HolesetState.Accounted (state : HolesetState Local) (inventory : Inventory Local) : Prop :=
  inventory.Tracks state.memory ∧ inventory.Partitions state.pushed state.popped

/-- The empty inventory. -/
def Inventory.none : Inventory Local where
  lists := ⟨fun _ => 0, fun _ => 0, fun _ => 0⟩
  listed := fun _ => Option.none
  chains := ⟨fun _ => 0, fun _ => 0, fun _ => 0⟩
  chained := fun _ => Option.none
  granules := fun _ => 0

theorem accounted_initial (starts : (holesets Local).initial state) :
    state.Accounted Inventory.none := by
  obtain ⟨locals, shared, pushed, popped⟩ := starts
  have exact : BitsExact ⟨0, fun _ => 0⟩ := by
    intro idx
    simp
  refine ⟨⟨?_, ?_, ?_⟩, ?_⟩
  · refine
      { lists := ⟨fun _ => ⟨[], .nil, .nil, rfl, by simp [Inventory.none]⟩, fun _ _ => rfl⟩
        chains := ⟨fun _ => ⟨[], .nil, .nil, rfl, by simp [Inventory.none]⟩, fun _ _ => rfl⟩
        localHead := ?_
        sharedHead := ?_
        chainHead := nofun
        noChain := fun _ _ => rfl
        next := fun _ isListed => absurd rfl isListed
        nextChain := fun _ isListed => absurd rfl isListed
        sorted := nofun
        isHole := fun _ isListed => absurd rfl isListed
        apart := fun _ _ isListed => absurd rfl isListed }
    · intro owner idx
      rw [locals]
      rfl
    · intro idx
      rw [shared]
      rfl
  · intro owner
    rw [locals]
    exact exact
  · rw [shared]
    exact exact
  · rw [pushed, popped]
    refine ⟨nofun, .nil, nofun, ?_⟩
    intro addr
    simp [Inventory.HasHole, Inventory.none]

omit [DecidableEq Local] in
theorem first_hasHole (tracks : inventory.Tracks state.memory) {owner : Local} {idx : ℕ}
    (nonempty : (state.memory.locals owner).buckets idx ≠ 0) :
    inventory.Lists (.bucket owner idx)
      (inventory.hole ((state.memory.locals owner).buckets idx)) :=
  ⟨(tracks.first_spec nonempty).1, rfl⟩

/-- A step whose operands are as promised succeeds, and what was pushed and not popped is still
in the holesets. -/
theorem step_accounted (accounted : state.Accounted inventory)
    (disciplined : action.Disciplined state) :
    ∃ after inventoryAfter, stepHolesets state action = .next after ∧
      after.Accounted inventoryAfter := by
  obtain ⟨tracks, partitions⟩ := accounted
  obtain ⟨proper, unused⟩ := disciplined
  cases action with
  | pushLocal owner hole =>
      obtain ⟨region, isClear, new⟩ := proper
      obtain ⟨pushed, tracksAfter⟩ := @Inventory.Tracks.pushLocal _ _ _ _ owner _ tracks region
        isClear (fun addr isListed =>
          (partitions.apart_of_new tracks.describes region new).1 _ ⟨isListed, rfl⟩)
      refine ⟨_, _, Outcome.bind_eq_next.mpr ⟨_, pushed, rfl⟩, tracksAfter, ?_⟩
      exact partitions.push tracks.describes region new
  | tryPop owner granules =>
      obtain ⟨positive, inRange⟩ := proper
      rcases @Inventory.Tracks.tryPop _ _ _ _ owner _ tracks positive inRange with
        ⟨popped, -⟩ | ⟨idx, words, holes, nonempty, popped, fits, tracksAfter, -⟩
      · refine ⟨_, inventory, Outcome.bind_eq_next.mpr ⟨_, popped, rfl⟩, ?_, partitions⟩
        rw [Holesets.withLocal, update_eq_self]
        exact tracks
      · refine ⟨_, _, Outcome.bind_eq_next.mpr ⟨_, popped, rfl⟩, tracksAfter, ?_⟩
        rw [if_neg nonempty]
        exact partitions.carve tracks.describes (tracks.describes.localHead owner idx)
          (Inventory.hasHole_iff.mpr ⟨_, first_hasHole tracks nonempty⟩) positive fits
  | release owner =>
      obtain ⟨words, holes, shared, inventoryAfter, released, same, tracksAfter⟩ :=
        tracks.release owner
      exact ⟨_, _, Outcome.bind_eq_next.mpr ⟨_, released, rfl⟩, tracksAfter,
        partitions.sameHoles same⟩
  | acquire owner granules sloppyNonempty =>
      obtain ⟨words, holes, shared, acquired, inventoryAfter, ran, same, tracksAfter⟩ :=
        @Inventory.Tracks.acquire _ _ _ _ owner _ tracks proper
          ((tracks.localBits owner).none_of_shift unused) sloppyNonempty
      exact ⟨_, _, Outcome.bind_eq_next.mpr ⟨_, ran, rfl⟩, tracksAfter,
        partitions.sameHoles same⟩
  | write addr value =>
      have outside (hole : GranuleRange) (has : inventory.HasHole hole) : ¬hole.Covers addr := by
        intro covered
        rcases proper with ⟨range, wasPopped, inRange⟩ | never
        · exact (partitions.heldApart range wasPopped hole has).not_covers inRange covered
        · obtain ⟨range, wasPushed, inRange⟩ :=
            (partitions.covers addr).mpr (.inl ⟨hole, has, covered⟩)
          exact never range wasPushed inRange
      exact ⟨_, inventory, rfl,
        ⟨tracks.describes.write outside, tracks.localBits, tracks.sharedBits⟩, partitions⟩

theorem accounted_of_reached
    (reached : (holesets Local).ReachableBy (fun state action => action.Disciplined state) state) :
    ∃ inventory, state.Accounted inventory := by
  induction reached with
  | initial starts => exact ⟨_, accounted_initial starts⟩
  | step _ disciplined stepped inductionHypothesis =>
      obtain ⟨inventory, accounted⟩ := inductionHypothesis
      obtain ⟨after, inventoryAfter, ran, kept⟩ := step_accounted accounted disciplined
      cases (Eq.symm ran).trans stepped
      exact ⟨inventoryAfter, kept⟩

omit [DecidableEq Local] in
theorem localBits_iff (tracks : inventory.Tracks state.memory) (owner : Local) (idx : ℕ) :
    (state.memory.locals owner).nonempty.getLsbD idx = true ↔
      ∃ hole, HeldAt state.memory (.inLocal owner idx) hole := by
  rw [tracks.localBits owner idx]
  constructor
  · intro nonempty
    exact ⟨_, tracks.describes.heldAt_iff.mpr ⟨trivial, first_hasHole tracks nonempty⟩⟩
  · rintro ⟨hole, held⟩
    have lists := (tracks.describes.heldAt_iff.mp held).2
    rw [← tracks.describes.localHead]
    intro isNull
    exact tracks.describes.lists.head_eq_null_iff.mp isNull _ lists.1

omit [DecidableEq Local] in
theorem sharedBits_iff (tracks : inventory.Tracks state.memory) (idx : ℕ) :
    state.memory.shared.nonempty.getLsbD idx = true ↔
      ∃ first hole, HeldAt state.memory (.inShared idx first) hole := by
  rw [tracks.sharedBits idx, ← tracks.describes.sharedHead]
  constructor
  · intro nonempty
    have isChained := tracks.describes.chains.listed_head nonempty
    exact ⟨_, inventory.hole (inventory.chains.head idx), tracks.describes.heldAt_iff.mpr
      ⟨isChained, tracks.describes.listed_of_chained isChained, rfl⟩⟩
  · rintro ⟨first, hole, held⟩ isNull
    have known := (tracks.describes.heldAt_iff.mp held).1
    exact tracks.describes.chains.head_eq_null_iff.mp isNull _ known

theorem pops_of_tracks (tracks : inventory.Tracks state.memory) {owner : Local} {granules : ℕ}
    (positive : 0 < granules) (inRange : granules ≤ NOFL_HOLESET_MAX_GRANULES) :
    ∃ words holes ret, noflHolesetTryPop state.memory.words (state.memory.locals owner) granules =
        .next (words, holes, ret) ∧
      Pops state.memory owner granules words holes ret := by
  have describes := tracks.describes
  rcases @Inventory.Tracks.tryPop _ _ _ _ owner _ tracks positive inRange with
    ⟨popped, noHole⟩ | ⟨idx, words, holes, nonempty, popped, fits, tracksAfter, isClear⟩
  · refine ⟨_, _, _, popped, .inl ⟨rfl, rfl, rfl, ?_⟩⟩
    intro idx hole above held
    have isSet := (localBits_iff tracks owner idx).mpr ⟨hole, held⟩
    exact (tracks.localBits owner idx).mp isSet (noHole idx above)
  · have lists := first_hasHole tracks nonempty
    refine ⟨_, _, _, popped, .inr ⟨idx, _, describes.heldAt_iff.mpr ⟨trivial, lists⟩, rfl, fits,
      isClear, ?_⟩⟩
    intro place other
    have sameKnown : place.Known (inventory.carve owner idx granules) ↔ place.Known inventory := by
      rw [Inventory.carve]
      split_ifs <;> cases place <;> rfl
    have atPlace (bucket : ℕ) :
        place.list = .bucket owner bucket ↔ place = .inLocal owner bucket := by
      cases place <;> simp [HolePlace.list]
    rw [tracksAfter.describes.heldAt_iff, describes.heldAt_iff, sameKnown,
      Inventory.lists_carve describes (describes.localHead owner idx)
        (Inventory.hasHole_iff.mpr ⟨_, lists⟩) fits, atPlace]
    constructor
    · rintro ⟨known, ⟨before, different⟩ | new⟩
      · exact .inl ⟨⟨known, before⟩, different⟩
      · exact .inr new
    · rintro (⟨⟨known, before⟩, different⟩ | ⟨less, rfl, isBack⟩)
      · exact ⟨known, .inl ⟨before, different⟩⟩
      · exact ⟨trivial, .inr ⟨less, rfl, isBack⟩⟩

theorem holesetsSound_of_accounted (accounted : state.Accounted inventory) :
    HolesetsSound state := by
  obtain ⟨tracks, partitions⟩ := accounted
  have describes := tracks.describes
  have hasHole {place : HolePlace Local} {hole : GranuleRange}
      (held : HeldAt state.memory place hole) : inventory.HasHole hole :=
    describes.exists_heldAt_iff.mp ⟨place, held⟩
  refine
    { apart := ?_
      poppedApart := partitions.poppedApart
      heldApart := fun place hole held range wasPopped =>
        partitions.heldApart range wasPopped hole (hasHole held)
      covers := ?_
      localBits := localBits_iff tracks
      sharedBits := sharedBits_iff tracks
      enough := ?_
      pops := fun owner granules positive inRange => pops_of_tracks tracks positive inRange
      assertions := ?_ }
  · intro place hole otherPlace other held otherHeld
    by_cases same : hole = other
    · subst same
      obtain ⟨known, lists⟩ := describes.heldAt_iff.mp held
      obtain ⟨otherKnown, otherLists⟩ := describes.heldAt_iff.mp otherHeld
      have sameList := Option.some.inj (lists.1.symm.trans otherLists.1)
      refine .inl ⟨?_, rfl⟩
      cases place with
      | inLocal owner idx =>
          cases otherPlace with
          | inLocal other otherIdx =>
              cases sameList
              rfl
          | inShared otherIdx first => cases sameList
      | inShared idx first =>
          cases otherPlace with
          | inLocal other otherIdx => cases sameList
          | inShared otherIdx otherFirst =>
              cases sameList
              cases known.symm.trans otherKnown
              rfl
    · exact .inr (describes.apart_of_ne (hasHole held) (hasHole otherHeld) same)
  · intro addr
    rw [partitions.covers]
    simp only [← describes.exists_heldAt_iff]
    constructor
    · rintro (⟨hole, ⟨place, held⟩, covered⟩ | popped)
      · exact .inl ⟨place, hole, held, covered⟩
      · exact .inr popped
    · rintro (⟨place, hole, held, covered⟩ | popped)
      · exact .inl ⟨hole, ⟨place, held⟩, covered⟩
      · exact .inr popped
  · intro granules idx positive inRange isLookup place hole held above
    obtain ⟨known, lists⟩ := describes.heldAt_iff.mp held
    rw [noflHolesetBucketForLookup_eq positive] at isLookup
    cases isLookup
    rw [describes.idx_eq known lists] at above
    have isHole := describes.isHole_of_hasHole (hasHole held)
    exact le_of_lookupBucket_le isHole.region.positive inRange above
  · intro action disciplined failure fails
    obtain ⟨after, inventoryAfter, ran, -⟩ := step_accounted ⟨tracks, partitions⟩ disciplined
    cases (Eq.symm ran).trans fails

/-- In every run whose operands are as promised and that acquires chains for free buckets only,
the holesets are sound. -/
theorem holesets_sound
    (reached : (holesets Local).ReachableBy (fun state action => action.Disciplined state) state) :
    HolesetsSound state := by
  obtain ⟨inventory, accounted⟩ := accounted_of_reached reached
  exact holesetsSound_of_accounted accounted

/-- After `nofl_holeset_try_pop` found nothing, as in `nofl_allocate_second_chance`, a chain may be
acquired for the same number of granules. -/
theorem acquire_disciplined
    (reached : (holesets Local).ReachableBy (fun state action => action.Disciplined state) state)
    {owner : Local} {granules : ℕ} (positive : 0 < granules)
    (inRange : granules ≤ NOFL_HOLESET_MAX_GRANULES) {words : Words} {holes : Holeset}
    (foundNothing : noflHolesetTryPop state.memory.words (state.memory.locals owner) granules =
      .next (words, holes, 0)) (sloppyNonempty : BitVec 64) :
    (HolesetAction.acquire owner granules sloppyNonempty).Disciplined
      { state with memory := state.memory.withLocal owner words holes } := by
  obtain ⟨inventory, tracks, -⟩ := accounted_of_reached reached
  rcases @Inventory.Tracks.tryPop _ _ _ _ owner _ tracks positive inRange with
    ⟨popped, noHole⟩ | ⟨idx, _, _, nonempty, popped, -⟩
  · cases popped.symm.trans foundNothing
    refine ⟨positive, ?_⟩
    change ((state.memory.withLocal owner _ _).locals owner).nonempty >>> _ = 0
    rw [Holesets.locals_withLocal_self]
    by_contra notZero
    have isSet := found_of_shift notZero
    exact (tracks.localBits owner _).mp isSet (noHole _ (Nat.le_add_right _ _))
  · rw [foundNothing] at popped
    simp only [Outcome.next.injEq, Prod.mk.injEq] at popped
    exact absurd popped.2.2.symm nonempty

/-- Cleared holesets in clear memory. -/
def clearedHolesets (Local : Type) : HolesetState Local :=
  ⟨⟨fun _ => 0, fun _ => ⟨0, fun _ => 0⟩, ⟨0, fun _ => 0⟩⟩, [], []⟩

theorem holesets_sound_after_splits :
    ∃ state : HolesetState Bool, state.popped = [⟨65536 + 16 * 60, 3⟩, ⟨65536, 60⟩] ∧
      HolesetsSound state := by
  have leads : (System.runBy (holesets Bool).step
      (fun state action => action.Disciplined state) (clearedHolesets Bool)
      [.pushLocal false ⟨65536, 100⟩, .release false, .acquire true 60 (-1), .tryPop true 60,
        .write 65536 7, .release true, .acquire false 3 (-1), .tryPop false 3]).leadsTo
      (fun state => state.popped = [⟨65536 + 16 * 60, 3⟩, ⟨65536, 60⟩]) = true := by
    decide +kernel
  obtain ⟨state, ran, popped⟩ := Outcome.exists_next_of_leadsTo leads
  refine ⟨state, of_decide_eq_true popped, holesets_sound ?_⟩
  exact System.ReachableBy.of_runBy _ _ (fun _ _ disciplined => disciplined)
    (.initial ⟨fun _ => rfl, rfl, rfl, rfl⟩) _ ran

/-- A chain that is acquired for a bucket in use fails an assertion. -/
theorem acquire_fails_when_in_use :
    ∃ state : HolesetState Bool,
      (holesets Bool).ReachableBy (fun state action => action.Proper state) state ∧
      (HolesetAction.acquire false 6 (-1)).Proper state ∧
      stepHolesets state (.acquire false 6 (-1)) = .failed .bucketInUse := by
  have leads : (System.runBy (holesets Bool).step
      (fun state action => action.Proper state) (clearedHolesets Bool)
      [.pushLocal true ⟨65536, 6⟩, .release true, .pushLocal false ⟨131072, 6⟩]).leadsTo
      (fun state => (stepHolesets state (.acquire false 6 (-1))).failsWith .bucketInUse) =
        true := by
    decide +kernel
  obtain ⟨state, ran, fails⟩ := Outcome.exists_next_of_leadsTo leads
  refine ⟨state, ?_, Nat.succ_pos 5, Outcome.eq_failed_of_failsWith fails⟩
  exact System.ReachableBy.of_runBy _ _ (fun _ _ proper => proper)
    (.initial ⟨fun _ => rfl, rfl, rfl, rfl⟩) _ ran

end Runs

end Whippet.Nofl
