import Whippet.Nofl.Allocators

/-!
Who owns the blocks of the nofl space.

An owner is a list of the space, an allocator, or the thread that is moving the block from one to
another. `Owned` says that the lists in memory are those of a given assignment of owners and that
the flags agree with it; since an assignment is a function, a block has one owner. Every operation
of the space is a few pushes and pops, and each of those changes the owner of one block.

Owns: the assignment with its rules for pushing, popping and changing a summary, and that loops
over a list empty it. Does not own: the operations of the space as wholes.
-/

namespace Whippet.Nofl

open Function

inductive Place where
  | list (name : ListName)
  | allocator (name : AllocatorName)
  /-- A local variable. -/
  | hand
  /-- It is not the address of a block. -/
  | nowhere
  deriving DecidableEq

namespace Place

def listName? : Place → Option ListName
  | list name => some name
  | _ => none

@[simp] theorem listName?_list (name : ListName) : (list name).listName? = some name := rfl

@[simp] theorem listName?_allocator (name : AllocatorName) :
    (allocator name).listName? = none := rfl

@[simp] theorem listName?_hand : hand.listName? = none := rfl

@[simp] theorem listName?_nowhere : nowhere.listName? = none := rfl

@[simp] theorem listName?_eq_some_iff {place : Place} {name : ListName} :
    place.listName? = some name ↔ place = list name := by
  cases place <;> simp [listName?]

end Place

def ListName.IsPagedOut (name : ListName) : Prop := ∃ age, name = .pagedOut age

/-- The address of a block, as far as the word of its links and flags can tell. -/
def IsBlockAddress (block : ℕ) : Prop :=
  block ≠ 0 ∧ block % NOFL_BLOCK_SIZE = 0 ∧ block < 2 ^ 64

namespace BlockSpace

variable (space : BlockSpace)

def links : LinkedLists ListName ℕ :=
  { head := fun name => (space.lists name).blocks
    count := fun name => (space.lists name).count
    next := space.noflBlockNext }

def isUnavailable (block : ℕ) : Bool := space.noflBlockHasFlag block NOFL_BLOCK_UNAVAILABLE

section Flags

variable {space} {block : ℕ} {flags : BitVec 64}

@[simp] theorem isUnavailable_setFlag_self :
    (space.noflBlockSetFlag block NOFL_BLOCK_UNAVAILABLE).isUnavailable block = true := by
  rw [isUnavailable, noflBlockHasFlag, noflBlockSetFlag, summary_setSummary_self,
    LinkedSummary.hasFlag_setFlag_self]

@[simp] theorem isUnavailable_clearFlag_self :
    (space.noflBlockClearFlag block NOFL_BLOCK_UNAVAILABLE).isUnavailable block = false := by
  rw [isUnavailable, noflBlockHasFlag, noflBlockClearFlag, summary_setSummary_self,
    LinkedSummary.hasFlag_clearFlag_self (by decide)]

theorem isUnavailable_setFlag (apart : NOFL_BLOCK_UNAVAILABLE &&& flags = 0) :
    (space.noflBlockSetFlag block flags).isUnavailable block = space.isUnavailable block := by
  rw [isUnavailable, noflBlockHasFlag, noflBlockSetFlag, summary_setSummary_self,
    LinkedSummary.hasFlag_setFlag_of_apart apart, isUnavailable, noflBlockHasFlag]

theorem isUnavailable_clearFlag (apart : NOFL_BLOCK_UNAVAILABLE &&& flags = 0) :
    (space.noflBlockClearFlag block flags).isUnavailable block = space.isUnavailable block := by
  rw [isUnavailable, noflBlockHasFlag, noflBlockClearFlag, summary_setSummary_self,
    LinkedSummary.hasFlag_clearFlag_of_apart apart, isUnavailable, noflBlockHasFlag]

end Flags

end BlockSpace

/-- The lists in memory and the flags are those of the assignment of owners. -/
structure Owned (space : BlockSpace) (owner : ℕ → Place) : Prop where
  listed : space.links.Listed 0 fun block => (owner block).listName?
  unavailable : ∀ block, owner block ≠ .hand →
    (space.isUnavailable block = true ↔ ∃ age, owner block = .list (.pagedOut age))
  address : ∀ block, owner block ≠ .nowhere → IsBlockAddress block
  fresh : ∀ block, owner block = .nowhere → (space.summary block).nextAndFlags = 0
  /-- A partly full block has a hole. -/
  hole : ∀ block, owner block = .list .partlyFull →
    0 < (space.summary block).fragmentationGranules

namespace Owned

variable {space : BlockSpace} {owner : ℕ → Place} {block other : ℕ} {name : ListName}

/-- Fields other than the lists and the summaries do not matter. -/
theorem congr (holds : Owned space owner) {changed : BlockSpace}
    (lists : changed.lists = space.lists) (summary : changed.summary = space.summary) :
    Owned changed owner := by
  have links : changed.links = space.links := by
    rw [BlockSpace.links, BlockSpace.links, lists]
    congr 1
    ext block
    rw [BlockSpace.noflBlockNext, BlockSpace.noflBlockNext, summary]
  have flags : ∀ block, changed.isUnavailable block = space.isUnavailable block := by
    intro block
    rw [BlockSpace.isUnavailable, BlockSpace.isUnavailable, BlockSpace.noflBlockHasFlag,
      BlockSpace.noflBlockHasFlag, summary]
  constructor
  · rw [links]
    exact holds.listed
  · intro block notInHand
    rw [flags]
    exact holds.unavailable block notInHand
  · exact holds.address
  · rw [summary]
    exact holds.fresh
  · rw [summary]
    exact holds.hole

/-- The first block of a list. -/
theorem owner_head (holds : Owned space owner) (nonempty : (space.lists name).blocks ≠ 0) :
    owner (space.lists name).blocks = .list name := by
  rw [← Place.listName?_eq_some_iff]
  exact holds.listed.listed_head nonempty

/-- An address that the links contain is null or that of a block. -/
theorem aligned_head (holds : Owned space owner) :
    (space.lists name).blocks % NOFL_BLOCK_SIZE = 0 ∧ (space.lists name).blocks < 2 ^ 64 := by
  by_cases nonempty : (space.lists name).blocks = 0
  · rw [nonempty]
    decide
  · have onList := holds.owner_head nonempty
    apply And.right
    apply holds.address
    rw [onList]
    exact nofun

/-- A list in memory is a chain of as many blocks as its count says. -/
theorem chained_blocksOf (holds : Owned space owner) (name : ListName) :
    Chained space.noflBlockNext 0 (space.lists name).blocks (space.blocksOf name) ∧
      (space.blocksOf name).length = (space.lists name).count ∧
      ∀ block, block ∈ space.blocksOf name ↔ owner block = .list name := by
  obtain ⟨nodes, chain, -, counted, members⟩ := holds.listed.chain name
  have visited : space.blocksOf name = nodes := by
    have walked := chain.walk_eq
    rwa [counted] at walked
  rw [visited]
  refine ⟨chain, counted, ?_⟩
  intro block
  rw [members, Place.listName?_eq_some_iff]

theorem owner_of_mem_blocksOf (holds : Owned space owner) (member : block ∈ space.blocksOf name) :
    owner block = .list name :=
  ((holds.chained_blocksOf name).2.2 block).mp member

/-! ### Pushing and popping -/

section Relinked

variable {changed : BlockSpace} {next : ℕ}

/-- Only the link of one block is new. -/
def Relinked (space changed : BlockSpace) (block next : ℕ) : Prop :=
  next % NOFL_BLOCK_SIZE = 0 ∧ next < 2 ^ 64 ∧
    changed.summary =
      update space.summary block ((space.summary block).noflBlockSummarySetNext next)

theorem Relinked.noflBlockNext (relinked : Relinked space changed block next) :
    changed.noflBlockNext = update space.noflBlockNext block next := by
  obtain ⟨aligned, inRange, summary⟩ := relinked
  ext other
  rw [BlockSpace.noflBlockNext, summary]
  by_cases same : other = block
  · subst same
    rw [update_self, update_self, LinkedSummary.next_setNext aligned inRange]
  · rw [update_of_ne same, update_of_ne same, BlockSpace.noflBlockNext]

theorem Relinked.isUnavailable (relinked : Relinked space changed block next) (other : ℕ) :
    changed.isUnavailable other = space.isUnavailable other := by
  obtain ⟨aligned, -, summary⟩ := relinked
  rw [BlockSpace.isUnavailable, BlockSpace.noflBlockHasFlag, summary]
  by_cases same : other = block
  · subst same
    rw [update_self, LinkedSummary.hasFlag_setNext aligned (by decide), BlockSpace.isUnavailable,
      BlockSpace.noflBlockHasFlag]
  · rw [update_of_ne same, BlockSpace.isUnavailable, BlockSpace.noflBlockHasFlag]

theorem Relinked.fragmentationGranules (relinked : Relinked space changed block next)
    (other : ℕ) :
    (changed.summary other).fragmentationGranules =
      (space.summary other).fragmentationGranules := by
  obtain ⟨-, -, summary⟩ := relinked
  rw [summary]
  by_cases same : other = block
  · subst same
    rw [update_self, LinkedSummary.noflBlockSummarySetNext]
  · rw [update_of_ne same]

end Relinked

theorem relinked_push (holds : Owned space owner) :
    Relinked space (space.noflBlockListPush name block) block (space.lists name).blocks :=
  ⟨holds.aligned_head.1, holds.aligned_head.2, rfl⟩

theorem links_push (holds : Owned space owner) :
    (space.noflBlockListPush name block).links = space.links.push name block := by
  have heads : (space.noflBlockListPush name block).links.head =
      update space.links.head name block := by
    ext other
    by_cases same : other = name
    · subst same
      simp [BlockSpace.links, BlockSpace.noflBlockListPush]
    · simp [BlockSpace.links, BlockSpace.noflBlockListPush, same]
  have counts : (space.noflBlockListPush name block).links.count =
      update space.links.count name (space.links.count name + 1) := by
    ext other
    by_cases same : other = name
    · subst same
      simp [BlockSpace.links, BlockSpace.noflBlockListPush]
    · simp [BlockSpace.links, BlockSpace.noflBlockListPush, same]
  have nexts : (space.noflBlockListPush name block).links.next =
      update space.links.next block (space.links.head name) :=
    holds.relinked_push.noflBlockNext
  rw [LinkedLists.push, ← heads, ← counts, ← nexts]

/-- The lists of names, after one owner changed. -/
theorem listName?_update (owner : ℕ → Place) (block : ℕ) (place : Place) :
    (fun other => (update owner block place other).listName?) =
      update (fun other => (owner other).listName?) block place.listName? := by
  ext1 other
  by_cases same : other = block
  · subst same
    simp
  · simp [same]

/-- The block in hand goes on a list that its flags are right for. -/
theorem push (holds : Owned space owner) (inHand : owner block = .hand)
    (flagged : space.isUnavailable block = true ↔ ∃ age, name = .pagedOut age)
    (hole : name = .partlyFull → 0 < (space.summary block).fragmentationGranules) :
    Owned (space.noflBlockListPush name block) (update owner block (.list name)) := by
  have relinked :
      Relinked space (space.noflBlockListPush name block) block (space.lists name).blocks :=
    holds.relinked_push
  have isAddress : IsBlockAddress block := by
    apply holds.address
    rw [inHand]
    exact nofun
  constructor
  · rw [holds.links_push, listName?_update]
    apply holds.listed.push isAddress.1
    rw [inHand, Place.listName?_hand]
  · intro other notInHand
    rw [relinked.isUnavailable]
    by_cases same : other = block
    · subst same
      simpa using flagged
    · rw [update_of_ne same] at notInHand ⊢
      exact holds.unavailable other notInHand
  · intro other somewhere
    by_cases same : other = block
    · rwa [same]
    · rw [update_of_ne same] at somewhere
      exact holds.address other somewhere
  · intro other nowhere
    have different : other ≠ block := by
      rintro rfl
      simp at nowhere
    rw [update_of_ne different] at nowhere
    rw [relinked.2.2, update_of_ne different]
    exact holds.fresh other nowhere
  · intro other onList
    rw [relinked.fragmentationGranules]
    by_cases same : other = block
    · subst same
      simp only [update_self, Place.list.injEq] at onList
      exact hole onList
    · rw [update_of_ne same] at onList
      exact holds.hole other onList

theorem relinked_withoutHead :
    Relinked space (space.withoutHead name) (space.lists name).blocks 0 :=
  ⟨by decide, by decide, rfl⟩

theorem links_withoutHead :
    (space.withoutHead name).links = space.links.pop 0 name := by
  have heads : (space.withoutHead name).links.head =
      update space.links.head name (space.links.next (space.links.head name)) := by
    ext other
    by_cases same : other = name
    · subst same
      simp [BlockSpace.links, BlockSpace.withoutHead]
    · simp [BlockSpace.links, BlockSpace.withoutHead, same]
  have counts : (space.withoutHead name).links.count =
      update space.links.count name (space.links.count name - 1) := by
    ext other
    by_cases same : other = name
    · subst same
      simp [BlockSpace.links, BlockSpace.withoutHead]
    · simp [BlockSpace.links, BlockSpace.withoutHead, same]
  have nexts : (space.withoutHead name).links.next =
      update space.links.next (space.links.head name) 0 :=
    relinked_withoutHead.noflBlockNext
  rw [LinkedLists.pop, ← heads, ← counts, ← nexts]

/-- The first block of a list is in hand after a pop. -/
theorem withoutHead (holds : Owned space owner) (nonempty : (space.lists name).blocks ≠ 0) :
    Owned (space.withoutHead name) (update owner (space.lists name).blocks .hand) := by
  have relinked : Relinked space (space.withoutHead name) (space.lists name).blocks 0 :=
    relinked_withoutHead
  have onList := holds.owner_head nonempty
  constructor
  · rw [links_withoutHead, listName?_update]
    exact holds.listed.pop nonempty
  · intro other notInHand
    rw [relinked.isUnavailable]
    have different : other ≠ (space.lists name).blocks := by
      rintro rfl
      simp at notInHand
    rw [update_of_ne different] at notInHand ⊢
    exact holds.unavailable other notInHand
  · intro other somewhere
    apply holds.address
    by_cases same : other = (space.lists name).blocks
    · rw [same, onList]
      exact nofun
    · rwa [update_of_ne same] at somewhere
  · intro other nowhere
    have different : other ≠ (space.lists name).blocks := by
      rintro rfl
      simp at nowhere
    rw [update_of_ne different] at nowhere
    rw [relinked.2.2, update_of_ne different]
    exact holds.fresh other nowhere
  · intro other onPartlyFull
    rw [relinked.fragmentationGranules]
    have different : other ≠ (space.lists name).blocks := by
      rintro rfl
      simp at onPartlyFull
    rw [update_of_ne different] at onPartlyFull
    exact holds.hole other onPartlyFull

section Pop

variable {popped : BlockSpace}

/-- What a pop returns was on the list, and is in hand after it. -/
theorem pop (holds : Owned space owner)
    (taken : space.noflBlockListPop name = some (block, popped)) :
    owner block = .list name ∧ Owned popped (update owner block .hand) := by
  obtain ⟨nonempty, rfl, rfl⟩ := BlockSpace.noflBlockListPop_eq_some_iff.mp taken
  exact ⟨holds.owner_head nonempty, holds.withoutHead nonempty⟩

theorem isUnavailable_pop (taken : space.noflBlockListPop name = some (block, popped))
    (other : ℕ) : popped.isUnavailable other = space.isUnavailable other := by
  obtain ⟨-, -, rfl⟩ := BlockSpace.noflBlockListPop_eq_some_iff.mp taken
  exact relinked_withoutHead.isUnavailable other

theorem fragmentationGranules_pop (taken : space.noflBlockListPop name = some (block, popped))
    (other : ℕ) : (popped.summary other).fragmentationGranules =
      (space.summary other).fragmentationGranules := by
  obtain ⟨-, -, rfl⟩ := BlockSpace.noflBlockListPop_eq_some_iff.mp taken
  exact relinked_withoutHead.fragmentationGranules other

/-- The flag of what a pop returns still is that of the list. -/
theorem isUnavailable_popped (holds : Owned space owner)
    (taken : space.noflBlockListPop name = some (block, popped)) :
    popped.isUnavailable block = true ↔ ∃ age, name = .pagedOut age := by
  have onList := (holds.pop taken).1
  rw [isUnavailable_pop taken, holds.unavailable block (by rw [onList]; exact nofun), onList]
  simp only [Place.list.injEq]

end Pop

/-! ### Changing a summary -/

section SetSummary

variable {summary : LinkedSummary}

theorem noflBlockNext_setSummary
    (sameNext : summary.noflBlockSummaryNext = space.noflBlockNext block) :
    (space.setSummary block summary).noflBlockNext = space.noflBlockNext := by
  ext other
  rw [BlockSpace.noflBlockNext, BlockSpace.setSummary]
  by_cases same : other = block
  · subst same
    simpa using sameNext
  · simp [same, BlockSpace.noflBlockNext]

theorem isUnavailable_setSummary_of_ne (different : other ≠ block) :
    (space.setSummary block summary).isUnavailable other = space.isUnavailable other := by
  simp [BlockSpace.isUnavailable, BlockSpace.noflBlockHasFlag, BlockSpace.setSummary, different]

/-- The link of the block stays. Unless it is in hand, its flag stays too; on the list of partly
full blocks it keeps a hole. -/
theorem setSummary (holds : Owned space owner) (somewhere : owner block ≠ .nowhere)
    (sameNext : summary.noflBlockSummaryNext = space.noflBlockNext block)
    (sameFlag : owner block ≠ .hand →
      summary.noflBlockSummaryHasFlag NOFL_BLOCK_UNAVAILABLE = space.isUnavailable block)
    (keepsHole : owner block = .list .partlyFull → 0 < summary.fragmentationGranules) :
    Owned (space.setSummary block summary) owner := by
  constructor
  · have links : (space.setSummary block summary).links = space.links := by
      rw [BlockSpace.links, noflBlockNext_setSummary sameNext]
      rfl
    rw [links]
    exact holds.listed
  · intro other notInHand
    by_cases same : other = block
    · subst same
      rw [← holds.unavailable other notInHand, ← sameFlag notInHand]
      simp [BlockSpace.isUnavailable, BlockSpace.noflBlockHasFlag, BlockSpace.setSummary]
    · rw [isUnavailable_setSummary_of_ne same]
      exact holds.unavailable other notInHand
  · exact holds.address
  · intro other nowhere
    have different : other ≠ block := by
      rintro rfl
      exact somewhere nowhere
    rw [BlockSpace.setSummary]
    simp only [update_of_ne different]
    exact holds.fresh other nowhere
  · intro other onList
    rw [BlockSpace.setSummary]
    by_cases same : other = block
    · subst same
      simpa using keepsHole onList
    · simp only [update_of_ne same]
      exact holds.hole other onList

end SetSummary

theorem setFlag (holds : Owned space owner) {flags : BitVec 64} (inHand : owner block = .hand)
    (isFlag : flags &&& flagMask = flags) : Owned (space.noflBlockSetFlag block flags) owner := by
  apply holds.setSummary
  · rw [inHand]
    exact nofun
  · exact LinkedSummary.next_setFlag isFlag
  · exact fun notInHand => absurd inHand notInHand
  · rw [inHand]
    exact nofun

theorem clearFlag (holds : Owned space owner) {flags : BitVec 64} (inHand : owner block = .hand)
    (isFlag : flags &&& flagMask = flags) :
    Owned (space.noflBlockClearFlag block flags) owner := by
  apply holds.setSummary
  · rw [inHand]
    exact nofun
  · exact LinkedSummary.next_clearFlag isFlag
  · exact fun notInHand => absurd inHand notInHand
  · rw [inHand]
    exact nofun

/-! ### Allocators -/

/-- A block that is on no list before and after changes its owner. -/
theorem reassign (holds : Owned space owner) {place : Place}
    (loose : (owner block).listName? = none) (somewhere : owner block ≠ .nowhere)
    (newLoose : place.listName? = none) (newSomewhere : place ≠ .nowhere)
    (available : place ≠ .hand → space.isUnavailable block = false) :
    Owned space (update owner block place) := by
  have notList : ∀ name, place ≠ .list name := by
    rintro name rfl
    cases newLoose
  constructor
  · rw [listName?_update, newLoose, ← loose, update_eq_self block]
    exact holds.listed
  · intro other notInHand
    by_cases same : other = block
    · subst same
      rw [update_self] at notInHand ⊢
      rw [available notInHand]
      simpa using fun age => notList _
    · rw [update_of_ne same] at notInHand ⊢
      exact holds.unavailable other notInHand
  · intro other otherSomewhere
    apply holds.address
    by_cases same : other = block
    · rwa [same]
    · rwa [update_of_ne same] at otherSomewhere
  · intro other nowhere
    apply holds.fresh
    by_cases same : other = block
    · subst same
      rw [update_self] at nowhere
      exact absurd nowhere newSomewhere
    · rwa [update_of_ne same] at nowhere
  · intro other onList
    apply holds.hole
    by_cases same : other = block
    · subst same
      rw [update_self] at onList
      exact absurd onList (notList _)
    · rwa [update_of_ne same] at onList

/-- An allocator takes the block in hand. -/
theorem give (holds : Owned space owner) (inHand : owner block = .hand)
    (available : space.isUnavailable block = false) (allocator : AllocatorName) :
    Owned space (update owner block (.allocator allocator)) := by
  apply holds.reassign
  · rw [inHand, Place.listName?_hand]
  · rw [inHand]
    exact nofun
  · exact Place.listName?_allocator allocator
  · exact nofun
  · exact fun _ => available

/-- An allocator hands its block over. -/
theorem take (holds : Owned space owner) {allocator : AllocatorName}
    (held : owner block = .allocator allocator) : Owned space (update owner block .hand) := by
  apply holds.reassign
  · rw [held, Place.listName?_allocator]
  · rw [held]
    exact nofun
  · exact Place.listName?_hand
  · exact nofun
  · exact fun notHand => absurd rfl notHand

/-- The flag of a block that an allocator has. -/
theorem isUnavailable_held (holds : Owned space owner) {allocator : AllocatorName}
    (held : owner block = .allocator allocator) : space.isUnavailable block = false := by
  have flagged := holds.unavailable block (by rw [held]; exact nofun)
  simpa [held] using flagged

/-! ### Loops -/

/-- A loop that takes a block off a list in each round ends with the list empty, if the body
puts none on it. -/
theorem whilePops_invariant {body : ℕ → BlockSpace → BlockSpace} {inv : BlockSpace → Prop}
    (owned : ∀ space, inv space → ∃ owner, Owned space owner)
    (kept : ∀ space block popped, inv space →
      space.noflBlockListPop name = some (block, popped) →
      inv (body block popped) ∧
        ((body block popped).lists name).count = (popped.lists name).count)
    {space : BlockSpace} (start : inv space) {rounds : ℕ}
    (enough : (space.lists name).count ≤ rounds) :
    inv (BlockSpace.whilePops name body rounds space) ∧
      ((BlockSpace.whilePops name body rounds space).lists name).blocks = 0 := by
  induction rounds generalizing space with
  | zero =>
      obtain ⟨owner, holds⟩ := owned space start
      exact ⟨start, holds.listed.count_eq_zero_iff.mp (Nat.le_zero.mp enough)⟩
  | succ rounds inductionHypothesis =>
      cases taken : space.noflBlockListPop name with
      | none =>
          rw [BlockSpace.whilePops, taken]
          exact ⟨start, BlockSpace.noflBlockListPop_eq_none_iff.mp taken⟩
      | some result =>
          obtain ⟨block, popped⟩ := result
          rw [BlockSpace.whilePops, taken]
          obtain ⟨again, counted⟩ := kept space block popped start taken
          apply inductionHypothesis again
          obtain ⟨-, -, rfl⟩ := BlockSpace.noflBlockListPop_eq_some_iff.mp taken
          have smaller : ((space.withoutHead name).lists name).count =
              (space.lists name).count - 1 := by
            simp [BlockSpace.withoutHead]
          rw [counted, smaller]
          omega

end Owned

end Whippet.Nofl
