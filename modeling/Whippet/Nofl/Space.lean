import Mathlib.Algebra.Order.Floor.Ring
import Mathlib.Data.Rat.Floor
import Whippet.Library.Rounding

/-!
The blocks of the nofl space (`nofl-space.h`).

Blocks are named by their addresses. Every block is on one of the lists of the space or is held by
an allocator; the flags that live in the low bits of the block's link, and the counts beside them,
are its summary. One operation here is one critical section under the space's lock.

Owns: the lists with their pushes and pops, the queue of unavailable blocks, requests for memory
and their resolution (`nofl_space_request_release_memory`, `nofl_space_maybe_reacquire_memory`,
`nofl_space_shrink`, `nofl_space_expand`), and page-out. Does not own: what is inside a block.
-/

namespace Whippet.Nofl

open Function

def NOFL_GRANULE_SIZE : ℕ := 16
def NOFL_SLAB_SIZE : ℕ := 4 * 1024 * 1024
def NOFL_BLOCK_SIZE : ℕ := 64 * 1024
def NOFL_GRANULES_PER_BLOCK : ℕ := NOFL_BLOCK_SIZE / NOFL_GRANULE_SIZE
def NOFL_METADATA_BYTES_PER_BLOCK : ℕ := NOFL_BLOCK_SIZE / NOFL_GRANULE_SIZE
def NOFL_BLOCKS_PER_SLAB : ℕ := NOFL_SLAB_SIZE / NOFL_BLOCK_SIZE
def NOFL_META_BLOCKS_PER_SLAB : ℕ :=
  NOFL_METADATA_BYTES_PER_BLOCK * NOFL_BLOCKS_PER_SLAB / NOFL_BLOCK_SIZE
def NOFL_NONMETA_BLOCKS_PER_SLAB : ℕ := NOFL_BLOCKS_PER_SLAB - NOFL_META_BLOCKS_PER_SLAB
abbrev NOFL_PAGE_OUT_QUEUE_SIZE : ℕ := 4

instance : NeZero NOFL_PAGE_OUT_QUEUE_SIZE := ⟨by decide⟩

example : NOFL_NONMETA_BLOCKS_PER_SLAB = 60 := by decide

def alignUp (value align : ℕ) : ℕ := (value + align - 1) / align * align

/-- `struct nofl_block_summary`, with the flags of `next_and_flags`. -/
structure BlockSummary where
  holeCount : ℕ
  holeGranules : ℕ
  holesWithFragmentation : ℕ
  fragmentationGranules : ℕ
  evacuate : Bool
  zero : Bool
  unavailable : Bool
  pagedOut : Bool
  deriving DecidableEq, Repr

/-- The fields of `struct nofl_space` that say where the blocks are. A list's head is the block
that is popped next. -/
structure NoflSpace where
  empty : List ℕ
  pagedOut : Fin NOFL_PAGE_OUT_QUEUE_SIZE → List ℕ
  toSweep : List ℕ
  partlyFull : List ℕ
  full : List ℕ
  promoted : List ℕ
  old : List ℕ
  evacuationTargets : List ℕ
  /-- The blocks that allocators hold: each is in the `block` field of one allocator. -/
  held : List ℕ
  summary : ℕ → BlockSummary
  /-- The addresses of the slabs. -/
  slabs : List ℕ
  evacuationMinimumReserve : ℚ
  evacuationReserve : ℚ
  pendingUnavailableBytes : ℤ

namespace NoflSpace

variable (space : NoflSpace)

/-! ## Pushing and popping -/

def unavailableBlockCount : ℕ :=
  (space.pagedOut 0).length + (space.pagedOut 1).length + (space.pagedOut 2).length +
    (space.pagedOut 3).length

def noflActiveBlockCount : ℕ :=
  space.slabs.length * NOFL_NONMETA_BLOCKS_PER_SLAB - space.unavailableBlockCount

def noflEvacuationBlockCount : ℕ := space.evacuationTargets.length

def noflEmptyBlockCount : ℕ := space.empty.length

def setUnavailable (block : ℕ) (unavailable : Bool) : NoflSpace :=
  { space with
    summary := update space.summary block { space.summary block with unavailable := unavailable } }

def setPagedOut (block : ℕ) : NoflSpace :=
  { space with
    summary := update space.summary block
      { space.summary block with zero := true, pagedOut := true } }

def pushPagedOut (age : Fin NOFL_PAGE_OUT_QUEUE_SIZE) (block : ℕ) : NoflSpace :=
  { space with pagedOut := update space.pagedOut age (block :: space.pagedOut age) }

def noflPushUnavailableBlock (block : ℕ) : NoflSpace :=
  let age := if (space.summary block).pagedOut then 3 else 0
  (space.setUnavailable block true).pushPagedOut age block

/-- Pops from the first nonempty stack of `ages`. -/
def popPagedOut : List (Fin NOFL_PAGE_OUT_QUEUE_SIZE) → Option (ℕ × NoflSpace)
  | [] => none
  | age :: ages =>
      match space.pagedOut age with
      | [] => popPagedOut ages
      | block :: rest => some (block, { space with pagedOut := update space.pagedOut age rest })

def noflPopUnavailableBlock : Option (ℕ × NoflSpace) :=
  match space.popPagedOut [0, 1, 2, 3] with
  | none => none
  | some (block, popped) => some (block, popped.setUnavailable block false)

def noflPushEmptyBlock (block : ℕ) : NoflSpace := { space with empty := block :: space.empty }

/-- `ceil(reserve * active)`. -/
def evacuationTarget (reserve : ℚ) : ℕ := ⌈reserve * space.noflActiveBlockCount⌉₊

/-- `none` if there are enough evacuation targets already. -/
def noflMaybePushEvacuationTarget (block : ℕ) (reserve : ℚ) : Option NoflSpace :=
  if space.noflEvacuationBlockCount ≥ space.evacuationTarget reserve then none
  else some { space with evacuationTargets := block :: space.evacuationTargets }

def noflPushEvacuationTargetIfNeeded (block : ℕ) : Option NoflSpace :=
  space.noflMaybePushEvacuationTarget block space.evacuationMinimumReserve

/-- What happens to a block that is available again. -/
def pushAvailableBlock (block : ℕ) : NoflSpace :=
  (space.noflPushEvacuationTargetIfNeeded block).getD (space.noflPushEmptyBlock block)

/-! ## Requests for memory -/

def addPending (bytes : ℤ) : NoflSpace :=
  { space with pendingUnavailableBytes := space.pendingUnavailableBytes + bytes }

def noflSpaceRequestReleaseMemory (bytes : ℕ) : NoflSpace := space.addPending bytes

/-- The loop of `nofl_space_maybe_reacquire_memory`. Each round takes one unavailable block. -/
def reacquireLoop : ℕ → NoflSpace → NoflSpace
  | 0, space => space
  | rounds + 1, space =>
      if space.pendingUnavailableBytes + NOFL_BLOCK_SIZE ≤ 0 then
        match space.noflPopUnavailableBlock with
        | none => space
        | some (block, popped) =>
            reacquireLoop rounds ((popped.pushAvailableBlock block).addPending NOFL_BLOCK_SIZE)
      else space

def noflSpaceMaybeReacquireMemory (bytes : ℕ) : NoflSpace :=
  reacquireLoop space.unavailableBlockCount (space.addPending (-bytes))

/-- The first loop of `nofl_space_shrink`, over the empty blocks. -/
def shrinkEmptyLoop : List ℕ → NoflSpace → NoflSpace
  | [], space => space
  | block :: rest, space =>
      if space.pendingUnavailableBytes > 0 then
        let popped := { space with empty := rest }
        shrinkEmptyLoop rest ((popped.noflPushUnavailableBlock block).addPending
          (-NOFL_BLOCK_SIZE))
      else space

/-- The second loop of `nofl_space_shrink`, over the evacuation targets above `target`; `avail`
counts them down. -/
def shrinkReserveLoop (target : ℕ) : ℕ → NoflSpace → NoflSpace
  | 0, space => space
  | avail + 1, space =>
      if avail + 1 > target ∧ space.pendingUnavailableBytes > 0 then
        match space.evacuationTargets with
        | [] => space
        | block :: rest =>
            let popped := { space with evacuationTargets := rest }
            shrinkReserveLoop target avail ((popped.noflPushUnavailableBlock block).addPending
              (-NOFL_BLOCK_SIZE))
      else space

/-- `nofl_space_shrink`; it returns what is pending after it, if that is positive. -/
def noflSpaceShrink (bytes : ℕ) : NoflSpace :=
  let requested := space.noflSpaceRequestReleaseMemory bytes
  let shrunk := shrinkEmptyLoop requested.empty requested
  if shrunk.pendingUnavailableBytes > 0 then
    shrinkReserveLoop (shrunk.evacuationTarget shrunk.evacuationMinimumReserve)
      shrunk.noflEvacuationBlockCount shrunk
  else shrunk

/-- The blocks of a slab that hold objects. -/
def slabBlocks (slab : ℕ) : List ℕ :=
  (List.range NOFL_NONMETA_BLOCKS_PER_SLAB).map fun index =>
    slab + (NOFL_META_BLOCKS_PER_SLAB + index) * NOFL_BLOCK_SIZE

/-- The addresses of `count` slabs that begin at `base`. -/
def slabsAt (base count : ℕ) : List ℕ :=
  (List.range count).map fun index => base + index * NOFL_SLAB_SIZE

/-- A block of a new slab, as it comes from the operating system. -/
def pushFreshBlock (block : ℕ) : NoflSpace :=
  (space.setPagedOut block).noflPushUnavailableBlock block

/-- `to_acquire * (1 + overhead)`, in doubles of 53 digits, as an integer again. The overhead is the
ratio of metadata blocks to all blocks of a slab, which are a power of two. -/
def withOverhead (toAcquire : ℕ) : ℕ :=
  Rounding.toPrecision 53 ((NOFL_BLOCKS_PER_SLAB + NOFL_META_BLOCKS_PER_SLAB) *
    Rounding.toPrecision 53 toAcquire) / NOFL_BLOCKS_PER_SLAB

/-- The number of slabs that `nofl_space_expand` acquires for a need of `toAcquire` bytes. -/
def slabsToAcquire (toAcquire : ℕ) : ℕ :=
  alignUp (withOverhead toAcquire) NOFL_SLAB_SIZE / NOFL_SLAB_SIZE

/-- `nofl_space_expand`, where `base` is the memory that `nofl_allocate_slabs` returns. -/
def noflSpaceExpand (bytes base : ℕ) : NoflSpace :=
  let reacquired := space.noflSpaceMaybeReacquireMemory bytes
  let toAcquire := -reacquired.pendingUnavailableBytes
  if toAcquire < NOFL_BLOCK_SIZE then reacquired
  else
    let nslabs := slabsToAcquire toAcquire.toNat
    let added := { reacquired with slabs := reacquired.slabs ++ slabsAt base nslabs }
    let pushed := ((slabsAt base nslabs).flatMap slabBlocks).foldl pushFreshBlock added
    pushed.noflSpaceMaybeReacquireMemory 0

/-! ## Paging out -/

/-- One turn of the loop of `nofl_space_advance_page_out_queue`: `none` if it breaks. -/
def advanceAge (age older : Fin NOFL_PAGE_OUT_QUEUE_SIZE) : Option NoflSpace :=
  match space.pagedOut age with
  | [] => none
  | block :: rest =>
      some ({ space with pagedOut := update space.pagedOut age rest }.pushPagedOut older block)

def noflSpaceAdvancePageOutQueue : NoflSpace :=
  match space.advanceAge 1 2 with
  | none => space
  | some advanced => (advanced.advanceAge 0 1).getD advanced

/-- The loop of `nofl_space_page_out_blocks`, over the blocks of the second oldest stack. -/
def pageOutLoop : List ℕ → NoflSpace → NoflSpace
  | [], space => space
  | block :: rest, space =>
      let popped := { space with pagedOut := update space.pagedOut 2 rest }
      pageOutLoop rest ((popped.setPagedOut block).pushPagedOut 3 block)

def noflSpacePageOutBlocks : NoflSpace := pageOutLoop (space.pagedOut 2) space

/-! ## Initialization -/

/-- The loop of `nofl_space_init`: the blocks beyond the size of the heap start out unavailable.
`excess` is `reserved - size`. -/
def initLoop : List ℕ → ℕ → NoflSpace → NoflSpace
  | [], _, space => space
  | block :: blocks, excess, space =>
      let fresh := space.setPagedOut block
      if excess > 0 then
        initLoop blocks (excess - NOFL_BLOCK_SIZE) (fresh.noflPushUnavailableBlock block)
      else initLoop blocks excess (fresh.pushAvailableBlock block)

/-- `nofl_space_init` for a heap of `size` bytes, with its slabs at `base`. -/
def noflSpaceInit (size base : ℕ) (evacuationMinimumReserve : ℚ) : NoflSpace :=
  let size := alignUp size NOFL_BLOCK_SIZE
  let reserved := alignUp size NOFL_SLAB_SIZE
  let slabs := slabsAt base (reserved / NOFL_SLAB_SIZE)
  let unused : BlockSummary :=
    { holeCount := 0, holeGranules := 0, holesWithFragmentation := 0,
      fragmentationGranules := 0, evacuate := false, zero := false, unavailable := false,
      pagedOut := false }
  let space : NoflSpace :=
    { empty := [], pagedOut := fun _ => [], toSweep := [], partlyFull := [], full := [],
      promoted := [], old := [], evacuationTargets := [], held := [],
      summary := fun _ => unused, slabs := slabs,
      evacuationMinimumReserve := evacuationMinimumReserve,
      evacuationReserve := evacuationMinimumReserve, pendingUnavailableBytes := 0 }
  initLoop (slabs.flatMap slabBlocks) (reserved - size) space

end NoflSpace

end Whippet.Nofl
