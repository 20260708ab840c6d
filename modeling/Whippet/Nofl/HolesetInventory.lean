import Whippet.Library.Links
import Whippet.Nofl.Holes

/-!
Which holes are where.

An inventory has the holes of all holesets, by the lists that they are on: the bucket of a local
holeset, or a chain of the shared one. It describes the memory if the links, the sizes and the heads
of the buckets are as it has them.

Owns: inventories, what it is for one to describe the memory, and that pushing and popping a hole
and handing a chain over keep it so. Does not own: the bits of the buckets, runs of operations.
-/

namespace Whippet.Nofl

open Function GranuleRange

/-- The memory of holes, the local holesets and the shared one. -/
structure Holesets (Local : Type) where
  words : Words
  locals : Local → Holeset
  shared : Holeset

namespace Holesets

variable {Local : Type} (memory : Holesets Local) (owner : Local)
variable (words : Words) (holes shared : Holeset)

def withShared : Holesets Local := { memory with shared := shared }

@[simp] theorem words_withShared : (memory.withShared shared).words = memory.words := rfl

@[simp] theorem locals_withShared : (memory.withShared shared).locals = memory.locals := rfl

@[simp] theorem shared_withShared : (memory.withShared shared).shared = shared := rfl

variable [DecidableEq Local]

/-- What a change of the words and of one local holeset leads to. -/
def withLocal : Holesets Local :=
  { memory with
    words := words
    locals := update memory.locals owner holes }

@[simp] theorem words_withLocal : (memory.withLocal owner words holes).words = words := rfl

@[simp] theorem shared_withLocal :
    (memory.withLocal owner words holes).shared = memory.shared := rfl

@[simp] theorem locals_withLocal_self :
    (memory.withLocal owner words holes).locals owner = holes := update_self _ _ _

@[simp] theorem withLocal_withLocal (later : Words) (laterHoles : Holeset) :
    (memory.withLocal owner words holes).withLocal owner later laterHoles =
      memory.withLocal owner later laterHoles := by
  simp only [withLocal, update_idem]

@[simp] theorem withShared_withLocal_withShared (later : Words) (laterHoles laterShared : Holeset) :
    (((memory.withLocal owner words holes).withShared shared).withLocal owner later
      laterHoles).withShared laterShared =
      (memory.withLocal owner later laterHoles).withShared laterShared := by
  simp only [withLocal, withShared, update_idem]

theorem locals_withLocal_of_ne {other : Local} (different : other ≠ owner) :
    (memory.withLocal owner words holes).locals other = memory.locals other :=
  update_of_ne different _ _

end Holesets

/-- The lists of holes. A chain of the shared holeset is named by its first hole. -/
inductive HoleList (Local : Type) where
  | bucket (owner : Local) (idx : ℕ)
  | chain (first : ℕ)
  deriving DecidableEq

structure Inventory (Local : Type) where
  lists : LinkedLists (HoleList Local) ℕ
  listed : ℕ → Option (HoleList Local)
  /-- The chains of each bucket of the shared holeset, as lists of their first holes. -/
  chains : LinkedLists ℕ ℕ
  chained : ℕ → Option ℕ
  granules : ℕ → ℕ

namespace Inventory

variable {Local : Type}

def hole (inventory : Inventory Local) (addr : ℕ) : GranuleRange := ⟨addr, inventory.granules addr⟩

def bucketOf (inventory : Inventory Local) : HoleList Local → Option ℕ
  | .bucket _ idx => some idx
  | .chain first => inventory.chained first

section Operations

variable [DecidableEq Local] (inventory : Inventory Local) (owner : Local) (idx : ℕ)

def push (hole : GranuleRange) : Inventory Local :=
  { inventory with
    lists := inventory.lists.push (.bucket owner (insertBucket hole.granules)) hole.addr
    listed := update inventory.listed hole.addr
      (some (.bucket owner (insertBucket hole.granules)))
    granules := update inventory.granules hole.addr hole.granules }

def pop : Inventory Local :=
  { inventory with
    lists := inventory.lists.pop 0 (.bucket owner idx)
    listed := update inventory.listed (inventory.lists.head (.bucket owner idx)) none }

/-- The bucket of a local holeset becomes the first chain of the shared one. -/
def give : Inventory Local :=
  let first := inventory.lists.head (.bucket owner idx)
  { inventory with
    lists := inventory.lists.moveAll 0 (.bucket owner idx) (.chain first)
    listed := fun addr => if inventory.listed addr = some (.bucket owner idx)
      then some (.chain first) else inventory.listed addr
    chains := inventory.chains.push idx first
    chained := update inventory.chained first (some idx) }

/-- The first chain of a bucket of the shared holeset becomes the bucket of a local one. -/
def take : Inventory Local :=
  let first := inventory.chains.head idx
  { inventory with
    lists := inventory.lists.moveAll 0 (.chain first) (.bucket owner idx)
    listed := fun addr => if inventory.listed addr = some (.chain first)
      then some (.bucket owner idx) else inventory.listed addr
    chains := inventory.chains.pop 0 idx
    chained := update inventory.chained first none }

variable {inventory owner idx} {hole : GranuleRange} {addr first : ℕ} {name : HoleList Local}

theorem listed_push : (inventory.push owner hole).listed =
    update inventory.listed hole.addr (some (.bucket owner (insertBucket hole.granules))) := rfl

theorem granules_push : (inventory.push owner hole).granules =
    update inventory.granules hole.addr hole.granules := rfl

theorem listed_pop : (inventory.pop owner idx).listed =
    update inventory.listed (inventory.lists.head (.bucket owner idx)) none := rfl

/-- What is listed after a push is the new hole, or was listed before. -/
theorem listed_push_cases (isListed : (inventory.push owner hole).listed addr = some name) :
    (addr = hole.addr ∧ name = .bucket owner (insertBucket hole.granules)) ∨
      (addr ≠ hole.addr ∧ inventory.listed addr = some name) := by
  by_cases same : addr = hole.addr
  · subst same
    rw [listed_push, update_self] at isListed
    exact .inl ⟨rfl, (Option.some.inj isListed).symm⟩
  · rw [listed_push, update_of_ne same] at isListed
    exact .inr ⟨same, isListed⟩

theorem hole_push_self : (inventory.push owner hole).hole hole.addr = hole := by
  rw [Inventory.hole, granules_push, update_self]

theorem hole_push_of_ne (different : addr ≠ hole.addr) :
    (inventory.push owner hole).hole addr = inventory.hole addr := by
  rw [Inventory.hole, granules_push, update_of_ne different, Inventory.hole]

theorem listed_pop_cases (isListed : (inventory.pop owner idx).listed addr = some name) :
    addr ≠ inventory.lists.head (.bucket owner idx) ∧ inventory.listed addr = some name := by
  by_cases same : addr = inventory.lists.head (.bucket owner idx)
  · subst same
    rw [listed_pop, update_self] at isListed
    cases isListed
  · rw [listed_pop, update_of_ne same] at isListed
    exact ⟨same, isListed⟩

theorem head_give : (inventory.give owner idx).lists.head = update (update inventory.lists.head
    (.chain (inventory.lists.head (.bucket owner idx)))
    (inventory.lists.head (.bucket owner idx))) (.bucket owner idx) 0 := rfl

theorem chained_give : (inventory.give owner idx).chained =
    update inventory.chained (inventory.lists.head (.bucket owner idx)) (some idx) := rfl

theorem chains_give : (inventory.give owner idx).chains =
    inventory.chains.push idx (inventory.lists.head (.bucket owner idx)) := rfl

theorem head_take : (inventory.take owner idx).lists.head = update (update inventory.lists.head
    (.bucket owner idx) (inventory.lists.head (.chain (inventory.chains.head idx))))
    (.chain (inventory.chains.head idx)) 0 := rfl

theorem chained_take : (inventory.take owner idx).chained =
    update inventory.chained (inventory.chains.head idx) none := rfl

theorem chains_take : (inventory.take owner idx).chains = inventory.chains.pop 0 idx := rfl

theorem listed_give_cases (isListed : (inventory.give owner idx).listed addr = some name) :
    (inventory.listed addr = some (.bucket owner idx) ∧
        name = .chain (inventory.lists.head (.bucket owner idx))) ∨
      (name ≠ .bucket owner idx ∧ inventory.listed addr = some name) := by
  change (if inventory.listed addr = some (.bucket owner idx) then
    some (.chain (inventory.lists.head (.bucket owner idx))) else inventory.listed addr) =
      some name at isListed
  split_ifs at isListed with inBucket
  · exact .inl ⟨inBucket, (Option.some.inj isListed).symm⟩
  · refine .inr ⟨?_, isListed⟩
    rintro rfl
    exact inBucket isListed

theorem listed_take_cases (isListed : (inventory.take owner idx).listed addr = some name) :
    (inventory.listed addr = some (.chain (inventory.chains.head idx)) ∧
        name = .bucket owner idx) ∨
      (name ≠ .chain (inventory.chains.head idx) ∧ inventory.listed addr = some name) := by
  change (if inventory.listed addr = some (.chain (inventory.chains.head idx)) then
    some (.bucket owner idx) else inventory.listed addr) = some name at isListed
  split_ifs at isListed with inChain
  · exact .inl ⟨inChain, (Option.some.inj isListed).symm⟩
  · refine .inr ⟨?_, isListed⟩
    rintro rfl
    exact inChain isListed

end Operations

/-- The memory is as the inventory has it. -/
structure Describes (inventory : Inventory Local) (memory : Holesets Local) : Prop where
  lists : inventory.lists.Listed 0 inventory.listed
  chains : inventory.chains.Listed 0 inventory.chained
  localHead : ∀ owner idx,
    inventory.lists.head (.bucket owner idx) = (memory.locals owner).buckets idx
  sharedHead : ∀ idx, inventory.chains.head idx = memory.shared.buckets idx
  chainHead : ∀ first idx, inventory.chained first = some idx →
    inventory.lists.head (.chain first) = first
  noChain : ∀ first, inventory.chained first = none → inventory.lists.head (.chain first) = 0
  next : ∀ addr, inventory.listed addr ≠ none → inventory.lists.next addr = memory.words addr
  nextChain : ∀ addr, inventory.listed addr ≠ none →
    inventory.chains.next addr = memory.words (nextChainOf addr)
  sorted : ∀ addr name, inventory.listed addr = some name →
    inventory.bucketOf name = some (insertBucket (inventory.granules addr))
  isHole : ∀ addr, inventory.listed addr ≠ none → IsHole memory.words (inventory.hole addr)
  apart : ∀ addr other, inventory.listed addr ≠ none → inventory.listed other ≠ none →
    addr ≠ other → (inventory.hole addr).Apart (inventory.hole other)

namespace Describes

variable {inventory : Inventory Local} {memory : Holesets Local} {owner : Local} {idx addr : ℕ}
variable {name : HoleList Local} {hole : GranuleRange}

/-- The first hole of a chain is in the chain. -/
theorem listed_of_chained (describes : inventory.Describes memory)
    (isChained : inventory.chained addr = some idx) :
    inventory.listed addr = some (.chain addr) := by
  have isHead := describes.chainHead addr idx isChained
  have proper : addr ≠ 0 := by
    rintro rfl
    obtain ⟨nodes, chain, -, -, members⟩ := describes.chains.chain idx
    have member := (members 0).mpr isChained
    exact chain.ne_null member rfl
  have onList := describes.lists.listed_head (isHead.trans_ne proper)
  rwa [isHead] at onList

theorem not_covers (describes : inventory.Describes memory)
    (apart : hole.Apart (inventory.hole addr)) (isListed : inventory.listed addr ≠ none) :
    ¬hole.Covers addr ∧ ¬hole.Covers (nextChainOf addr) := by
  have region := (describes.isHole addr isListed).region
  exact ⟨apart.not_covers region.covers_addr, apart.not_covers region.covers_nextChain⟩

section Operations

variable [DecidableEq Local]

/-- The heads of the local holesets after a change of one bucket of one of them. -/
theorem localHead_withLocal (describes : inventory.Describes memory)
    {lists : LinkedLists (HoleList Local) ℕ} {words : Words} {nonempty : BitVec 64} {value : ℕ}
    (changed : lists.head (.bucket owner idx) = value)
    (kept : ∀ other place, HoleList.bucket other place ≠ .bucket owner idx →
      lists.head (.bucket other place) = inventory.lists.head (.bucket other place))
    (other : Local) (place : ℕ) :
    lists.head (.bucket other place) = ((memory.withLocal owner words
      ⟨nonempty, update (memory.locals owner).buckets idx value⟩).locals other).buckets place := by
  by_cases sameOwner : other = owner
  · subst sameOwner
    rw [Holesets.locals_withLocal_self]
    by_cases samePlace : place = idx
    · subst samePlace
      rw [changed]
      simp
    · rw [kept other place (by simpa using samePlace), describes.localHead]
      simp [samePlace]
  · rw [Holesets.locals_withLocal_of_ne _ _ _ _ sameOwner, kept _ _ (by simp [sameOwner])]
    exact describes.localHead other place

/-- Pushing a free region adds it to the inventory. -/
theorem push (describes : inventory.Describes memory) (region : hole.IsRegion)
    (isClear : IsClear memory.words hole)
    (free : ∀ addr, inventory.listed addr ≠ none → hole.Apart (inventory.hole addr)) :
    (inventory.push owner hole).Describes
      (memory.withLocal owner (pushedWords memory.words (memory.locals owner) hole)
        (pushedHoles (memory.locals owner) hole)) := by
  have unlisted : inventory.listed hole.addr = none := by
    by_contra isListed
    have isHole := describes.isHole hole.addr isListed
    exact region.addr_ne isHole.region (free _ isListed) rfl
  have unchained : inventory.chained hole.addr = none := by
    rw [← Option.not_isSome_iff_eq_none, Option.isSome_iff_exists]
    rintro ⟨idx, isChained⟩
    rw [describes.listed_of_chained isChained] at unlisted
    cases unlisted
  have kept_or_new (addr : ℕ) (isListed : (inventory.push owner hole).listed addr ≠ none) :
      addr = hole.addr ∨ (addr ≠ hole.addr ∧ inventory.listed addr ≠ none) := by
    obtain ⟨name, isName⟩ := Option.ne_none_iff_exists'.mp isListed
    rcases listed_push_cases isName with ⟨same, -⟩ | ⟨different, wasListed⟩
    · exact .inl same
    · exact .inr ⟨different, Option.ne_none_iff_exists'.mpr ⟨name, wasListed⟩⟩
  have headOther (name : HoleList Local)
      (different : name ≠ .bucket owner (insertBucket hole.granules)) :
      (inventory.push owner hole).lists.head name = inventory.lists.head name :=
    update_of_ne different _ _
  refine
    { lists := describes.lists.push region.proper unlisted
      chains := describes.chains
      localHead := ?_
      sharedHead := describes.sharedHead
      chainHead := ?_
      noChain := ?_
      next := ?_
      nextChain := ?_
      sorted := ?_
      isHole := ?_
      apart := ?_ }
  · apply describes.localHead_withLocal (update_self _ _ _)
    intro other place different
    exact update_of_ne different _ _
  · intro first idx isChained
    rw [headOther _ (by simp)]
    exact describes.chainHead first idx isChained
  · intro first notChained
    rw [headOther _ (by simp)]
    exact describes.noChain first notChained
  · intro addr isListed
    rcases kept_or_new addr isListed with rfl | ⟨different, wasListed⟩
    · rw [Holesets.words_withLocal, pushedWords_addr, ← describes.localHead]
      exact update_self _ _ _
    · rw [Holesets.words_withLocal,
        pushedWords_apart region (describes.not_covers (free addr wasListed) wasListed).1,
        ← describes.next addr wasListed]
      exact update_of_ne different _ _
  · intro addr isListed
    rcases kept_or_new addr isListed with rfl | ⟨-, wasListed⟩
    · rw [Holesets.words_withLocal, pushedWords_nextChain region isClear]
      exact describes.chains.loose _ unchained
    · rw [Holesets.words_withLocal,
        pushedWords_apart region (describes.not_covers (free addr wasListed) wasListed).2]
      exact describes.nextChain addr wasListed
  · intro addr name isListed
    rcases listed_push_cases isListed with ⟨rfl, rfl⟩ | ⟨different, wasListed⟩
    · rw [granules_push, update_self]
      rfl
    · rw [granules_push, update_of_ne different, ← describes.sorted addr name wasListed]
      cases name <;> rfl
  · intro addr isListed
    rcases kept_or_new addr isListed with rfl | ⟨different, wasListed⟩
    · rw [hole_push_self]
      exact isHole_pushedWords region isClear
    · rw [hole_push_of_ne different]
      apply (describes.isHole addr wasListed).frame
      intro place covered _
      exact pushedWords_apart region ((free addr wasListed).not_covers covered)
  · intro addr other isListed otherListed different
    rcases kept_or_new addr isListed with rfl | ⟨isOld, wasListed⟩ <;>
      rcases kept_or_new other otherListed with rfl | ⟨otherOld, otherWasListed⟩
    · exact absurd rfl different
    · rw [hole_push_self, hole_push_of_ne otherOld]
      exact free other otherWasListed
    · rw [hole_push_self, hole_push_of_ne isOld]
      exact (free addr wasListed).symm
    · rw [hole_push_of_ne isOld, hole_push_of_ne otherOld]
      exact describes.apart addr other wasListed otherWasListed different

omit [DecidableEq Local] in
/-- The first hole of a local bucket is listed there, and no other hole has its link. -/
theorem listed_first (describes : inventory.Describes memory)
    (nonempty : (memory.locals owner).buckets idx ≠ 0) :
    inventory.listed ((memory.locals owner).buckets idx) = some (.bucket owner idx) := by
  rw [← describes.localHead] at nonempty ⊢
  exact describes.lists.listed_head nonempty

omit [DecidableEq Local] in
/-- Only the first holes of the chains of the shared holeset have a link to a next chain. -/
theorem nextChain_eq_zero (describes : inventory.Describes memory)
    (isListed : inventory.listed addr = some (.bucket owner idx)) :
    memory.words (nextChainOf addr) = 0 ∧ inventory.chained addr = none := by
  have unchained : inventory.chained addr = none := by
    rw [← Option.not_isSome_iff_eq_none, Option.isSome_iff_exists]
    rintro ⟨place, isChained⟩
    rw [describes.listed_of_chained isChained] at isListed
    cases isListed
  refine ⟨?_, unchained⟩
  rw [← describes.nextChain addr (by rw [isListed]; simp)]
  exact describes.chains.loose addr unchained

/-- Popping takes the first hole off its bucket, whatever becomes of its words. -/
theorem pop (describes : inventory.Describes memory)
    (nonempty : (memory.locals owner).buckets idx ≠ 0) {words : Words} {bits : BitVec 64}
    (kept : ∀ addr, ¬(inventory.hole ((memory.locals owner).buckets idx)).Covers addr →
      words addr = memory.words addr) :
    (inventory.pop owner idx).Describes (memory.withLocal owner words
      ⟨bits, update (memory.locals owner).buckets idx
        (memory.words ((memory.locals owner).buckets idx))⟩) := by
  have onList := describes.listed_first nonempty
  rw [← describes.localHead] at nonempty onList kept
  rw [← describes.localHead owner idx]
  set first := inventory.lists.head (.bucket owner idx) with isFirst
  have wasListed (addr : ℕ) (isListed : (inventory.pop owner idx).listed addr ≠ none) :
      addr ≠ first ∧ inventory.listed addr ≠ none := by
    obtain ⟨name, isName⟩ := Option.ne_none_iff_exists'.mp isListed
    obtain ⟨different, before⟩ := listed_pop_cases isName
    exact ⟨different, Option.ne_none_iff_exists'.mpr ⟨name, before⟩⟩
  have headOther (name : HoleList Local) (different : name ≠ .bucket owner idx) :
      (inventory.pop owner idx).lists.head name = inventory.lists.head name :=
    update_of_ne different _ _
  have apart (addr : ℕ) (different : addr ≠ first) (before : inventory.listed addr ≠ none) :
      (inventory.hole first).Apart (inventory.hole addr) :=
    describes.apart first addr (by rw [onList]; simp) before different.symm
  refine
    { lists := describes.lists.pop nonempty
      chains := describes.chains
      localHead := ?_
      sharedHead := describes.sharedHead
      chainHead := ?_
      noChain := ?_
      next := ?_
      nextChain := ?_
      sorted := ?_
      isHole := ?_
      apart := ?_ }
  · apply describes.localHead_withLocal
    · rw [← describes.next first (by rw [onList]; simp)]
      exact update_self _ _ _
    · intro other place different
      exact update_of_ne different _ _
  · intro other place isChained
    rw [headOther _ (by simp)]
    exact describes.chainHead other place isChained
  · intro other notChained
    rw [headOther _ (by simp)]
    exact describes.noChain other notChained
  · intro addr isListed
    obtain ⟨different, before⟩ := wasListed addr isListed
    rw [Holesets.words_withLocal,
      kept addr (describes.not_covers (apart addr different before) before).1,
      ← describes.next addr before]
    exact update_of_ne different _ _
  · intro addr isListed
    obtain ⟨different, before⟩ := wasListed addr isListed
    rw [Holesets.words_withLocal,
      kept _ (describes.not_covers (apart addr different before) before).2]
    exact describes.nextChain addr before
  · intro addr name isListed
    have before := (listed_pop_cases isListed).2
    rw [← show inventory.granules = (inventory.pop owner idx).granules from rfl,
      ← describes.sorted addr name before]
    cases name <;> rfl
  · intro addr isListed
    obtain ⟨different, before⟩ := wasListed addr isListed
    apply (describes.isHole addr before).frame
    intro place covered _
    exact kept place ((apart addr different before).not_covers covered)
  · intro addr other isListed otherListed different
    exact describes.apart addr other (wasListed addr isListed).2 (wasListed other otherListed).2
      different

omit [DecidableEq Local] in
theorem ne_nextChain {other : ℕ} (describes : inventory.Describes memory)
    (isListed : inventory.listed addr ≠ none) (otherListed : inventory.listed other ≠ none) :
    addr ≠ nextChainOf other := by
  have aligned : NOFL_GRANULE_SIZE ∣ addr := (describes.isHole addr isListed).region.aligned
  have otherAligned : NOFL_GRANULE_SIZE ∣ other :=
    (describes.isHole other otherListed).region.aligned
  simp only [NOFL_GRANULE_SIZE] at aligned otherAligned
  rw [nextChainOf]
  omega

omit [DecidableEq Local] in
/-- The link to a next chain is no part of what makes a hole. -/
theorem isHole_update_nextChain {first value : ℕ} (describes : inventory.Describes memory)
    (firstListed : inventory.listed first ≠ none) (isListed : inventory.listed addr ≠ none) :
    IsHole (update memory.words (nextChainOf first) value) (inventory.hole addr) := by
  have isHole := describes.isHole addr isListed
  by_cases same : addr = first
  · subst same
    exact isHole.update_nextChain
  · apply isHole.update_apart
    exact (describes.not_covers (describes.apart addr first isListed firstListed same)
      firstListed).2

/-- Handing a local bucket over to the shared holeset moves its holes there. -/
theorem give (describes : inventory.Describes memory)
    (nonempty : (memory.locals owner).buckets idx ≠ 0) {bits sharedBits : BitVec 64} :
    (inventory.give owner idx).Describes
      ((memory.withLocal owner
        (update memory.words (nextChainOf ((memory.locals owner).buckets idx))
          (memory.shared.buckets idx))
        ⟨bits, update (memory.locals owner).buckets idx 0⟩).withShared
        ⟨sharedBits, update memory.shared.buckets idx ((memory.locals owner).buckets idx)⟩) := by
  have onList := describes.listed_first nonempty
  have unchained := (describes.nextChain_eq_zero onList).2
  rw [← describes.localHead] at nonempty onList unchained
  rw [← describes.localHead owner idx, ← describes.sharedHead idx]
  set first := inventory.lists.head (.bucket owner idx) with isFirst
  have firstListed : inventory.listed first ≠ none := by
    rw [onList]
    simp
  have wasListed (addr : ℕ) (isListed : (inventory.give owner idx).listed addr ≠ none) :
      inventory.listed addr ≠ none := by
    obtain ⟨name, isName⟩ := Option.ne_none_iff_exists'.mp isListed
    rcases listed_give_cases isName with ⟨before, -⟩ | ⟨-, before⟩
    all_goals exact Option.ne_none_iff_exists'.mpr ⟨_, before⟩
  have headOther (name : HoleList Local) (notBucket : name ≠ .bucket owner idx)
      (notChain : name ≠ .chain first) :
      (inventory.give owner idx).lists.head name = inventory.lists.head name :=
    (update_of_ne notBucket _ _).trans (update_of_ne notChain _ _)
  have chainedOther (other : ℕ) (different : other ≠ first) :
      (inventory.give owner idx).chained other = inventory.chained other :=
    update_of_ne different _ _
  refine
    { lists := describes.lists.moveAll (by simp) (describes.noChain first unchained)
      chains := describes.chains.push nonempty unchained
      localHead := ?_
      sharedHead := ?_
      chainHead := ?_
      noChain := ?_
      next := ?_
      nextChain := ?_
      sorted := ?_
      isHole := fun addr isListed =>
        describes.isHole_update_nextChain firstListed (wasListed addr isListed)
      apart := fun addr other isListed otherListed =>
        describes.apart addr other (wasListed addr isListed) (wasListed other otherListed) }
  · rw [Holesets.locals_withShared]
    apply describes.localHead_withLocal
    · rw [head_give, update_self]
    · intro other place different
      exact headOther _ different (by simp)
  · intro place
    rw [chains_give, LinkedLists.head_push, Holesets.shared_withShared]
    by_cases same : place = idx
    · subst same
      simp [isFirst]
    · simp [same, describes.sharedHead]
  · intro other place isChained
    by_cases same : other = first
    · rw [same, head_give, update_of_ne (by simp), ← isFirst, update_self]
    · rw [chainedOther other same] at isChained
      rw [headOther _ (by simp) (by simpa using same)]
      exact describes.chainHead other place isChained
  · intro other notChained
    have different : other ≠ first := by
      intro same
      rw [same, chained_give, ← isFirst, update_self] at notChained
      cases notChained
    rw [chainedOther other different] at notChained
    rw [headOther _ (by simp) (by simpa using different)]
    exact describes.noChain other notChained
  · intro addr isListed
    have before := wasListed addr isListed
    rw [Holesets.words_withShared, Holesets.words_withLocal,
      update_of_ne (describes.ne_nextChain before firstListed)]
    exact describes.next addr before
  · intro addr isListed
    rw [chains_give, LinkedLists.next_push, ← isFirst, Holesets.words_withShared,
      Holesets.words_withLocal]
    by_cases same : addr = first
    · rw [same, update_self, update_self]
    · have different : nextChainOf addr ≠ nextChainOf first := by
        simpa [nextChainOf] using same
      rw [update_of_ne same, update_of_ne different]
      exact describes.nextChain addr (wasListed addr isListed)
  · intro addr name isListed
    rcases listed_give_cases isListed with ⟨before, rfl⟩ | ⟨-, before⟩
    · rw [bucketOf, chained_give, update_self]
      exact describes.sorted addr _ before
    · have isSorted := describes.sorted addr name before
      cases name with
      | bucket other place => exact isSorted
      | chain other =>
          have different : other ≠ first := by
            rintro rfl
            cases unchained.symm.trans isSorted
          exact (chainedOther other different).trans isSorted

/-- Taking the first chain of a bucket of the shared holeset moves its holes to the local one. -/
theorem take (describes : inventory.Describes memory)
    (nonempty : memory.shared.buckets idx ≠ 0) (free : (memory.locals owner).buckets idx = 0)
    {bits sharedBits : BitVec 64} :
    (inventory.take owner idx).Describes
      ((memory.withLocal owner (update memory.words (nextChainOf (memory.shared.buckets idx)) 0)
        ⟨bits, update (memory.locals owner).buckets idx (memory.shared.buckets idx)⟩).withShared
        ⟨sharedBits, update memory.shared.buckets idx
          (memory.words (nextChainOf (memory.shared.buckets idx)))⟩) := by
  rw [← describes.sharedHead] at nonempty
  rw [← describes.localHead] at free
  rw [← describes.sharedHead idx]
  have isChained := describes.chains.listed_head nonempty
  set first := inventory.chains.head idx with isFirst
  have onList := describes.listed_of_chained isChained
  have isHead := describes.chainHead first idx isChained
  have firstListed : inventory.listed first ≠ none := by
    rw [onList]
    simp
  have wasListed (addr : ℕ) (isListed : (inventory.take owner idx).listed addr ≠ none) :
      inventory.listed addr ≠ none := by
    obtain ⟨name, isName⟩ := Option.ne_none_iff_exists'.mp isListed
    rcases listed_take_cases isName with ⟨before, -⟩ | ⟨-, before⟩
    all_goals exact Option.ne_none_iff_exists'.mpr ⟨_, before⟩
  have headOther (name : HoleList Local) (notBucket : name ≠ .bucket owner idx)
      (notChain : name ≠ .chain first) :
      (inventory.take owner idx).lists.head name = inventory.lists.head name :=
    (update_of_ne notChain _ _).trans (update_of_ne notBucket _ _)
  have chainedOther (other : ℕ) (different : other ≠ first) :
      (inventory.take owner idx).chained other = inventory.chained other :=
    update_of_ne different _ _
  refine
    { lists := describes.lists.moveAll (by simp) free
      chains := describes.chains.pop nonempty
      localHead := ?_
      sharedHead := ?_
      chainHead := ?_
      noChain := ?_
      next := ?_
      nextChain := ?_
      sorted := ?_
      isHole := fun addr isListed =>
        describes.isHole_update_nextChain firstListed (wasListed addr isListed)
      apart := fun addr other isListed otherListed =>
        describes.apart addr other (wasListed addr isListed) (wasListed other otherListed) }
  · rw [Holesets.locals_withShared]
    apply describes.localHead_withLocal
    · rw [head_take, update_of_ne (by simp), update_self]
      exact isHead
    · intro other place different
      exact headOther _ different (by simp)
  · intro place
    rw [chains_take, LinkedLists.head_pop, ← isFirst, Holesets.shared_withShared]
    by_cases same : place = idx
    · subst same
      simp [describes.nextChain first firstListed]
    · simp [same, describes.sharedHead]
  · intro other place stillChained
    have different : other ≠ first := by
      intro same
      rw [same, chained_take, ← isFirst, update_self] at stillChained
      cases stillChained
    rw [chainedOther other different] at stillChained
    rw [headOther _ (by simp) (by simpa using different)]
    exact describes.chainHead other place stillChained
  · intro other notChained
    by_cases same : other = first
    · rw [same, head_take, ← isFirst, update_self]
    · rw [chainedOther other same] at notChained
      rw [headOther _ (by simp) (by simpa using same)]
      exact describes.noChain other notChained
  · intro addr isListed
    have before := wasListed addr isListed
    rw [Holesets.words_withShared, Holesets.words_withLocal,
      update_of_ne (describes.ne_nextChain before firstListed)]
    exact describes.next addr before
  · intro addr isListed
    rw [chains_take, LinkedLists.next_pop, ← isFirst, Holesets.words_withShared,
      Holesets.words_withLocal]
    by_cases same : addr = first
    · rw [same, update_self, update_self]
    · have different : nextChainOf addr ≠ nextChainOf first := by
        simpa [nextChainOf] using same
      rw [update_of_ne same, update_of_ne different]
      exact describes.nextChain addr (wasListed addr isListed)
  · intro addr name isListed
    rcases listed_take_cases isListed with ⟨before, rfl⟩ | ⟨notChain, before⟩
    · exact isChained.symm.trans (describes.sorted addr _ before)
    · have isSorted := describes.sorted addr name before
      cases name with
      | bucket other place => exact isSorted
      | chain other =>
          have different : other ≠ first := by
            rintro rfl
            exact notChain rfl
          exact (chainedOther other different).trans isSorted

end Operations

end Describes

end Inventory

end Whippet.Nofl
