import Mathlib.Algebra.Order.Floor.Ring
import Mathlib.Data.Rat.Floor
import Whippet.Library.Links
import Whippet.Nofl.Space
import Whippet.Types

/-!
The lists of blocks of the nofl space as they are in memory (`nofl-space.h`).

A list is a count and the address of its first block. The link to the next block and the flags of
a block share one word of the block's summary. The operations of `Whippet.Nofl.Space` are here
once more, on these words, together with those that allocators and collections do; what sweeping
finds in a block, and which blocks are marked, comes in from outside.

Owns: the word of links and flags, the lists with everything that moves a block from one to
another, and the `block` field of the allocators. Does not own: metadata, and where holes are.
-/

namespace Whippet.Nofl

open Function

def NOFL_BLOCK_EVACUATE : BitVec 64 := 0x1
def NOFL_BLOCK_ZERO : BitVec 64 := 0x2
def NOFL_BLOCK_UNAVAILABLE : BitVec 64 := 0x4
def NOFL_BLOCK_PAGED_OUT : BitVec 64 := 0x8

/-- `NOFL_BLOCK_SIZE - 1`: the bits of a block's address that are free for flags. -/
def flagMask : BitVec 64 := 0xffff

/-! ## Summaries -/

/-- `struct nofl_block_summary`. -/
structure LinkedSummary where
  holeCount : ℕ
  holeGranules : ℕ
  holesWithFragmentation : ℕ
  fragmentationGranules : ℕ
  nextAndFlags : BitVec 64
  deriving DecidableEq, Repr

namespace LinkedSummary

variable (summary : LinkedSummary)

def noflBlockSummaryHasFlag (flag : BitVec 64) : Bool := summary.nextAndFlags &&& flag == flag

def noflBlockSummarySetFlag (flag : BitVec 64) : LinkedSummary :=
  { summary with nextAndFlags := summary.nextAndFlags ||| flag }

def noflBlockSummaryClearFlag (flag : BitVec 64) : LinkedSummary :=
  { summary with nextAndFlags := summary.nextAndFlags &&& ~~~flag }

def noflBlockSummaryNext : ℕ := (summary.nextAndFlags &&& ~~~flagMask).toNat

def noflBlockSummarySetNext (next : ℕ) : LinkedSummary :=
  { summary with nextAndFlags := (summary.nextAndFlags &&& flagMask) ||| BitVec.ofNat 64 next }

/-- The counters of a block that is going to be swept. -/
def clearCounters : LinkedSummary :=
  { summary with
    holeCount := 0
    holeGranules := 0
    holesWithFragmentation := 0
    fragmentationGranules := 0 }

/-- What `nofl_allocator_next_hole_in_block` counts for a hole. -/
def countHole (granules : ℕ) : LinkedSummary :=
  { summary with
    holeCount := summary.holeCount + 1
    holeGranules := summary.holeGranules + granules }

/-- What `nofl_allocator_finish_hole` counts for the rest of a hole. -/
def countFragmentation (granules : ℕ) : LinkedSummary :=
  { summary with
    holesWithFragmentation := summary.holesWithFragmentation + 1
    fragmentationGranules := summary.fragmentationGranules + granules }

/-! ### Links and flags do not disturb each other -/

theorem and_flagMask_of_aligned {addr : ℕ} (aligned : addr % NOFL_BLOCK_SIZE = 0) :
    BitVec.ofNat 64 addr &&& flagMask = 0 := by
  apply BitVec.eq_of_toNat_eq
  have isPower : flagMask.toNat = 2 ^ 16 - 1 := by decide
  have size : NOFL_BLOCK_SIZE = 2 ^ 16 := by decide
  rw [size] at aligned
  rw [BitVec.toNat_and, isPower, Nat.and_two_pow_sub_one_eq_mod, BitVec.toNat_ofNat]
  change addr % 2 ^ 64 % 2 ^ 16 = 0
  omega

variable {summary} {next : ℕ} {flag other : BitVec 64}

theorem next_setNext (aligned : next % NOFL_BLOCK_SIZE = 0) (inRange : next < 2 ^ 64) :
    (summary.noflBlockSummarySetNext next).noflBlockSummaryNext = next := by
  have word : ((summary.nextAndFlags &&& flagMask) ||| BitVec.ofNat 64 next) &&& ~~~flagMask =
      BitVec.ofNat 64 next := by
    have low := and_flagMask_of_aligned aligned
    ext index inWord
    have bit := congrArg (fun value : BitVec 64 => value[index]) low
    simp only [BitVec.getElem_and, BitVec.getElem_or, BitVec.getElem_not] at bit ⊢
    grind
  rw [noflBlockSummaryNext, noflBlockSummarySetNext, word, BitVec.toNat_ofNat,
    Nat.mod_eq_of_lt inRange]

theorem hasFlag_setNext (aligned : next % NOFL_BLOCK_SIZE = 0) (isFlag : flag &&& flagMask = flag) :
    (summary.noflBlockSummarySetNext next).noflBlockSummaryHasFlag flag =
      summary.noflBlockSummaryHasFlag flag := by
  have word : ((summary.nextAndFlags &&& flagMask) ||| BitVec.ofNat 64 next) &&& flag =
      summary.nextAndFlags &&& flag := by
    have low := and_flagMask_of_aligned aligned
    ext index inWord
    have bit := congrArg (fun value : BitVec 64 => value[index]) low
    have flagBit := congrArg (fun value : BitVec 64 => value[index]) isFlag
    simp only [BitVec.getElem_and, BitVec.getElem_or] at bit flagBit ⊢
    grind
  rw [noflBlockSummaryHasFlag, noflBlockSummarySetNext, word]
  rfl

theorem next_setFlag (isFlag : flag &&& flagMask = flag) :
    (summary.noflBlockSummarySetFlag flag).noflBlockSummaryNext = summary.noflBlockSummaryNext := by
  have word : (summary.nextAndFlags ||| flag) &&& ~~~flagMask =
      summary.nextAndFlags &&& ~~~flagMask := by
    ext index inWord
    have flagBit := congrArg (fun value : BitVec 64 => value[index]) isFlag
    simp only [BitVec.getElem_and, BitVec.getElem_or, BitVec.getElem_not] at flagBit ⊢
    grind
  rw [noflBlockSummaryNext, noflBlockSummarySetFlag, word]
  rfl

theorem next_clearFlag (isFlag : flag &&& flagMask = flag) :
    (summary.noflBlockSummaryClearFlag flag).noflBlockSummaryNext =
      summary.noflBlockSummaryNext := by
  have word : (summary.nextAndFlags &&& ~~~flag) &&& ~~~flagMask =
      summary.nextAndFlags &&& ~~~flagMask := by
    ext index inWord
    have flagBit := congrArg (fun value : BitVec 64 => value[index]) isFlag
    simp only [BitVec.getElem_and, BitVec.getElem_not] at flagBit ⊢
    grind
  rw [noflBlockSummaryNext, noflBlockSummaryClearFlag, word]
  rfl

theorem hasFlag_setFlag_self :
    (summary.noflBlockSummarySetFlag flag).noflBlockSummaryHasFlag flag = true := by
  have word : (summary.nextAndFlags ||| flag) &&& flag = flag := by
    ext index inWord
    simp only [BitVec.getElem_and, BitVec.getElem_or]
    grind
  rw [noflBlockSummaryHasFlag, noflBlockSummarySetFlag, word, beq_self_eq_true]

theorem hasFlag_setFlag_of_apart (apart : flag &&& other = 0) :
    (summary.noflBlockSummarySetFlag other).noflBlockSummaryHasFlag flag =
      summary.noflBlockSummaryHasFlag flag := by
  have word : (summary.nextAndFlags ||| other) &&& flag = summary.nextAndFlags &&& flag := by
    ext index inWord
    have flagBit := congrArg (fun value : BitVec 64 => value[index]) apart
    simp only [BitVec.getElem_and, BitVec.getElem_or] at flagBit ⊢
    grind
  rw [noflBlockSummaryHasFlag, noflBlockSummarySetFlag, word]
  rfl

theorem hasFlag_clearFlag_self (proper : flag ≠ 0) :
    (summary.noflBlockSummaryClearFlag flag).noflBlockSummaryHasFlag flag = false := by
  have word : (summary.nextAndFlags &&& ~~~flag) &&& flag = 0 := by
    ext index inWord
    simp only [BitVec.getElem_and, BitVec.getElem_not]
    grind
  rw [noflBlockSummaryHasFlag, noflBlockSummaryClearFlag, word, beq_eq_false_iff_ne]
  exact proper.symm

theorem hasFlag_clearFlag_of_apart (apart : flag &&& other = 0) :
    (summary.noflBlockSummaryClearFlag other).noflBlockSummaryHasFlag flag =
      summary.noflBlockSummaryHasFlag flag := by
  have word : (summary.nextAndFlags &&& ~~~other) &&& flag = summary.nextAndFlags &&& flag := by
    ext index inWord
    have flagBit := congrArg (fun value : BitVec 64 => value[index]) apart
    simp only [BitVec.getElem_and, BitVec.getElem_not] at flagBit ⊢
    grind
  rw [noflBlockSummaryHasFlag, noflBlockSummaryClearFlag, word]
  rfl

end LinkedSummary

/-! ## Lists -/

/-- `struct nofl_block_list`; `blocks` is the address of the first block, or 0. -/
structure BlockList where
  count : ℕ
  blocks : ℕ
  deriving DecidableEq, Repr

inductive ListName where
  | empty
  | pagedOut (age : Fin NOFL_PAGE_OUT_QUEUE_SIZE)
  | toSweep
  | partlyFull
  | full
  | promoted
  | old
  | evacuationTargets
  /-- The local variable `to_sweep` of `nofl_space_finish_gc`. -/
  | kept
  deriving DecidableEq, Repr

/-- The counters of `struct nofl_space`. -/
structure Statistics where
  oldGenerationGranules : ℕ
  survivorGranulesAtLastCollection : ℕ
  allocatedGranulesSinceLastCollection : ℕ
  fragmentationGranulesSinceLastCollection : ℕ
  deriving DecidableEq, Repr

/-- The fields of `struct nofl_space` that lists of blocks depend on. -/
structure BlockSpace where
  lists : ListName → BlockList
  summary : ℕ → LinkedSummary
  /-- The addresses of the slabs. -/
  slabs : List ℕ
  evacuating : Bool
  lastCollectionWasMinor : Bool
  heapHasAmbiguousEdges : Bool
  evacuationMinimumReserve : ℚ
  evacuationReserve : ℚ
  promotionThreshold : ℚ
  pendingUnavailableBytes : ℤ
  statistics : Statistics
  /-- `GC_GENERATIONAL`. -/
  generational : Bool

namespace BlockSpace

variable (space : BlockSpace)

def setSummary (block : ℕ) (summary : LinkedSummary) : BlockSpace :=
  { space with summary := update space.summary block summary }

@[simp] theorem lists_setSummary (block : ℕ) (summary : LinkedSummary) :
    (space.setSummary block summary).lists = space.lists := rfl

@[simp] theorem slabs_setSummary (block : ℕ) (summary : LinkedSummary) :
    (space.setSummary block summary).slabs = space.slabs := rfl

@[simp] theorem summary_setSummary_self (block : ℕ) (summary : LinkedSummary) :
    (space.setSummary block summary).summary block = summary := update_self _ _ _

theorem summary_setSummary_of_ne {block other : ℕ} (summary : LinkedSummary)
    (different : other ≠ block) :
    (space.setSummary block summary).summary other = space.summary other :=
  update_of_ne different _ _

def noflBlockHasFlag (block : ℕ) (flags : BitVec 64) : Bool :=
  (space.summary block).noflBlockSummaryHasFlag flags

def noflBlockSetFlag (block : ℕ) (flags : BitVec 64) : BlockSpace :=
  space.setSummary block ((space.summary block).noflBlockSummarySetFlag flags)

def noflBlockClearFlag (block : ℕ) (flags : BitVec 64) : BlockSpace :=
  space.setSummary block ((space.summary block).noflBlockSummaryClearFlag flags)

def noflBlockNext (block : ℕ) : ℕ := (space.summary block).noflBlockSummaryNext

/-- `nofl_block_list_push`; `nofl_block_stack_push` does the same under the space's lock. -/
def noflBlockListPush (name : ListName) (block : ℕ) : BlockSpace :=
  { space with
    lists := update space.lists name { count := (space.lists name).count + 1, blocks := block }
    summary := update space.summary block
      ((space.summary block).noflBlockSummarySetNext (space.lists name).blocks) }

@[simp] theorem slabs_noflBlockListPush (name : ListName) (block : ℕ) :
    (space.noflBlockListPush name block).slabs = space.slabs := rfl

/-- Pushing on one list leaves the others. -/
theorem lists_noflBlockListPush_of_ne {name other : ListName} (block : ℕ)
    (different : other ≠ name) :
    (space.noflBlockListPush name block).lists other = space.lists other :=
  update_of_ne different _ _

/-- The list without its first block. -/
def withoutHead (name : ListName) : BlockSpace :=
  let head := (space.lists name).blocks
  { space with
    lists := update space.lists name
      { count := (space.lists name).count - 1, blocks := space.noflBlockNext head }
    summary := update space.summary head ((space.summary head).noflBlockSummarySetNext 0) }

/-- `nofl_block_list_pop`, and `nofl_block_stack_pop`: `none` if the list is empty. -/
def noflBlockListPop (name : ListName) : Option (ℕ × BlockSpace) :=
  let head := (space.lists name).blocks
  if head = 0 then none else some (head, space.withoutHead name)

theorem noflBlockListPop_eq_none_iff {space : BlockSpace} {name : ListName} :
    space.noflBlockListPop name = none ↔ (space.lists name).blocks = 0 := by
  by_cases null : (space.lists name).blocks = 0 <;> simp [noflBlockListPop, null]

theorem noflBlockListPop_eq_some_iff {space popped : BlockSpace} {name : ListName} {block : ℕ} :
    space.noflBlockListPop name = some (block, popped) ↔
      (space.lists name).blocks ≠ 0 ∧ block = (space.lists name).blocks ∧
        popped = space.withoutHead name := by
  by_cases null : (space.lists name).blocks = 0
  · simp [noflBlockListPop, null]
  · simp [noflBlockListPop, null, eq_comm]

def noflBlockCount (name : ListName) : ℕ := (space.lists name).count

/-- The blocks that a walk over a list visits. -/
def blocksOf (name : ListName) : List ℕ :=
  Chained.walk space.noflBlockNext 0 (space.lists name).count (space.lists name).blocks

/-- `while (!nofl_block_is_null (block = pop (name))) body (block)`, for a number of rounds. -/
def whilePops (name : ListName) (body : ℕ → BlockSpace → BlockSpace) : ℕ → BlockSpace → BlockSpace
  | 0, space => space
  | rounds + 1, space =>
      match space.noflBlockListPop name with
      | none => space
      | some (block, popped) => whilePops name body rounds (body block popped)

/-- The loop that moves all blocks of one list to another. -/
def drain (source target : ListName) : BlockSpace :=
  whilePops source (fun block popped => popped.noflBlockListPush target block)
    (space.noflBlockCount source) space

/-! ## Unavailable blocks and evacuation targets -/

def noflPushUnavailableBlock (block : ℕ) : BlockSpace :=
  let flagged := space.noflBlockSetFlag block NOFL_BLOCK_UNAVAILABLE
  if flagged.noflBlockHasFlag block NOFL_BLOCK_PAGED_OUT then
    flagged.noflBlockListPush (.pagedOut 3) block
  else flagged.noflBlockListPush (.pagedOut 0) block

/-- The loop of `nofl_pop_unavailable_block`, over the ages. -/
def popUnavailableLoop : List (Fin NOFL_PAGE_OUT_QUEUE_SIZE) → Option (ℕ × BlockSpace)
  | [] => none
  | age :: ages =>
      match space.noflBlockListPop (.pagedOut age) with
      | none => popUnavailableLoop ages
      | some (block, popped) =>
          some (block, popped.noflBlockClearFlag block NOFL_BLOCK_UNAVAILABLE)

def noflPopUnavailableBlock : Option (ℕ × BlockSpace) := space.popUnavailableLoop [0, 1, 2, 3]

def noflPushEmptyBlock (block : ℕ) : BlockSpace := space.noflBlockListPush .empty block

def noflPopEmptyBlock : Option (ℕ × BlockSpace) := space.noflBlockListPop .empty

def unavailableBlockCount : ℕ :=
  space.noflBlockCount (.pagedOut 0) + space.noflBlockCount (.pagedOut 1) +
    space.noflBlockCount (.pagedOut 2) + space.noflBlockCount (.pagedOut 3)

def noflActiveBlockCount : ℕ :=
  space.slabs.length * NOFL_NONMETA_BLOCKS_PER_SLAB - space.unavailableBlockCount

def noflEvacuationBlockCount : ℕ := space.noflBlockCount .evacuationTargets

/-- `ceil(active * reserve)`. -/
def evacuationTarget (reserve : ℚ) : ℕ := ⌈space.noflActiveBlockCount * reserve⌉₊

/-- `none` if there are enough evacuation targets already. -/
def noflMaybePushEvacuationTarget (block : ℕ) (reserve : ℚ) : Option BlockSpace :=
  if space.noflEvacuationBlockCount ≥ space.evacuationTarget reserve then none
  else some (space.noflBlockListPush .evacuationTargets block)

def noflPushEvacuationTargetIfNeeded (block : ℕ) : Option BlockSpace :=
  space.noflMaybePushEvacuationTarget block space.evacuationMinimumReserve

def noflPushEvacuationTargetIfPossible (block : ℕ) : Option BlockSpace :=
  space.noflMaybePushEvacuationTarget block space.evacuationReserve

/-! ## Requests for memory -/

def addPending (bytes : ℤ) : BlockSpace :=
  { space with pendingUnavailableBytes := space.pendingUnavailableBytes + bytes }

def noflSpaceRequestReleaseMemory (bytes : ℕ) : BlockSpace := space.addPending bytes

/-- What happens to a block that becomes available. -/
def pushAvailableBlock (block : ℕ) : BlockSpace :=
  (space.noflPushEvacuationTargetIfNeeded block).getD (space.noflPushEmptyBlock block)

/-- The loop of `nofl_space_maybe_reacquire_memory`. Each round takes one unavailable block. -/
def reacquireLoop : ℕ → BlockSpace → BlockSpace
  | 0, space => space
  | rounds + 1, space =>
      if space.pendingUnavailableBytes + NOFL_BLOCK_SIZE ≤ 0 then
        match space.noflPopUnavailableBlock with
        | none => space
        | some (block, popped) =>
            reacquireLoop rounds ((popped.pushAvailableBlock block).addPending NOFL_BLOCK_SIZE)
      else space

def noflSpaceMaybeReacquireMemory (bytes : ℕ) : BlockSpace :=
  reacquireLoop space.unavailableBlockCount (space.addPending (-bytes))

/-- The loops of `nofl_space_shrink`: while memory is pending, and while there are more blocks
than `target` on the list by the count that was read before the loop, one block becomes
unavailable. -/
def shrinkLoop (source : ListName) (target : ℕ) : ℕ → BlockSpace → BlockSpace
  | 0, space => space
  | avail + 1, space =>
      if avail + 1 > target ∧ space.pendingUnavailableBytes > 0 then
        match space.noflBlockListPop source with
        | none => space
        | some (block, popped) =>
            shrinkLoop source target avail ((popped.noflPushUnavailableBlock block).addPending
              (-NOFL_BLOCK_SIZE))
      else space

/-- `nofl_space_shrink`: first the empty blocks, then the evacuation targets above the minimum. -/
def noflSpaceShrink (bytes : ℕ) : BlockSpace :=
  let requested := space.noflSpaceRequestReleaseMemory bytes
  let shrunk := shrinkLoop .empty 0 (requested.noflBlockCount .empty) requested
  if shrunk.pendingUnavailableBytes > 0 then
    shrinkLoop .evacuationTargets (shrunk.evacuationTarget shrunk.evacuationMinimumReserve)
      shrunk.noflEvacuationBlockCount shrunk
  else shrunk

/-- A block of a new slab, as it comes from the operating system. -/
def pushFreshBlock (block : ℕ) : BlockSpace :=
  (space.noflBlockSetFlag block (NOFL_BLOCK_ZERO ||| NOFL_BLOCK_PAGED_OUT)).noflPushUnavailableBlock
    block

def noflSpaceAddSlabs (slabs : List ℕ) : BlockSpace := { space with slabs := space.slabs ++ slabs }

/-- The blocks of the new slabs, and then those of them that are needed at once. -/
def pushNewSlabs (slabs : List ℕ) : BlockSpace :=
  let added := space.noflSpaceAddSlabs slabs
  ((slabs.flatMap NoflSpace.slabBlocks).foldl pushFreshBlock added).noflSpaceMaybeReacquireMemory 0

/-- `nofl_space_expand`, where `base` is the memory that `nofl_allocate_slabs` returns. -/
def noflSpaceExpand (bytes base : ℕ) : BlockSpace :=
  let reacquired := space.noflSpaceMaybeReacquireMemory bytes
  let toAcquire := -reacquired.pendingUnavailableBytes
  if toAcquire < NOFL_BLOCK_SIZE then reacquired
  else reacquired.pushNewSlabs (NoflSpace.slabsAt base (NoflSpace.slabsToAcquire toAcquire.toNat))

/-! ## Paging out -/

/-- One turn of the loop of `nofl_space_advance_page_out_queue`: `none` if it breaks. -/
def advanceAge (age older : Fin NOFL_PAGE_OUT_QUEUE_SIZE) : Option BlockSpace :=
  match space.noflBlockListPop (.pagedOut age) with
  | none => none
  | some (block, popped) => some (popped.noflBlockListPush (.pagedOut older) block)

def noflSpaceAdvancePageOutQueue : BlockSpace :=
  match space.advanceAge 1 2 with
  | none => space
  | some advanced => (advanced.advanceAge 0 1).getD advanced

/-- What `nofl_space_page_out_blocks` does with a block of the second oldest stack. -/
def pageOut (block : ℕ) : BlockSpace :=
  (space.noflBlockSetFlag block (NOFL_BLOCK_ZERO ||| NOFL_BLOCK_PAGED_OUT)).noflBlockListPush
    (.pagedOut 3) block

def noflSpacePageOutBlocks : BlockSpace :=
  whilePops (.pagedOut 2) (fun block popped => popped.pageOut block)
    (space.noflBlockCount (.pagedOut 2)) space

end BlockSpace

end Whippet.Nofl
