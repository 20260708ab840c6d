import Mathlib.Data.Int.Basic
import Mathlib.Data.Nat.Log
import Whippet.Library.Checked
import Whippet.Nofl.Space

/-!
The blocks of a copy space (`copy-space.h`).

Blocks are named by their addresses. Every block is on one of the lists of the space or is held by
an allocator. `bytes_to_page_out` is the debt of the space: what has been asked of it and not yet
paid by paging out blocks, or, if it is negative, what it may page in again.

Owns: the lists with their pushes and pops, the queue of paged-out blocks, requests for memory and
how they are paid (`copy_space_request_release_memory`,
`copy_space_page_out_blocks_until_memory_released`, `copy_space_maybe_reacquire_memory`,
`copy_space_reacquire_memory`, `copy_space_shrink`, `copy_space_expand`), the background tasks,
and how an allocator gets an empty block. Does not own: what is inside a block.
-/

namespace Whippet.Pcc

open Function
open Nofl (alignUp)

def COPY_SPACE_SLAB_SIZE : ℕ := 64 * 1024 * 1024
def COPY_SPACE_REGION_SIZE : ℕ := 64 * 1024
def COPY_SPACE_BLOCK_SIZE : ℕ := 2 * COPY_SPACE_REGION_SIZE
def COPY_SPACE_BLOCKS_PER_SLAB : ℕ := COPY_SPACE_SLAB_SIZE / COPY_SPACE_BLOCK_SIZE
def COPY_SPACE_HEADER_BLOCKS_PER_SLAB : ℕ := 1
def COPY_SPACE_NONHEADER_BLOCKS_PER_SLAB : ℕ :=
  COPY_SPACE_BLOCKS_PER_SLAB - COPY_SPACE_HEADER_BLOCKS_PER_SLAB
abbrev COPY_SPACE_PAGE_OUT_QUEUE_SIZE : ℕ := 4

/-- The fields of `struct copy_space` that say where the blocks are and what is owed. A list's head
is the block that is popped next. -/
structure CopySpace where
  empty : List ℕ
  /-- The blocks of `partly_full` and `full`, and those that allocators hold. -/
  occupied : List ℕ
  pagedOut : Fin COPY_SPACE_PAGE_OUT_QUEUE_SIZE → List ℕ
  inCore : ℕ → Bool
  bytesToPageOut : ℤ
  inGc : Bool
  hasFieldLoggingBits : Bool
  nslabs : ℕ

namespace CopySpace

variable (space : CopySpace)

/-! ## Pushing and popping -/

def pagedOutCount : ℕ :=
  (space.pagedOut 0).length + (space.pagedOut 1).length + (space.pagedOut 2).length +
    (space.pagedOut 3).length

def pushPagedOut (age : Fin COPY_SPACE_PAGE_OUT_QUEUE_SIZE) (block : ℕ) : CopySpace :=
  { space with pagedOut := update space.pagedOut age (block :: space.pagedOut age) }

def pageOutBlock (block : ℕ) : CopySpace :=
  space.pushPagedOut (if space.inCore block = true then 0 else 3) block

/-- Pops from the first nonempty stack of `ages`. -/
def popPagedOut : List (Fin COPY_SPACE_PAGE_OUT_QUEUE_SIZE) → Option (ℕ × CopySpace)
  | [] => none
  | age :: ages =>
      match space.pagedOut age with
      | [] => popPagedOut ages
      | block :: rest => some (block, { space with pagedOut := update space.pagedOut age rest })

def pageInBlock : Option (ℕ × CopySpace) := space.popPagedOut [0, 1, 2, 3]

def pushEmptyBlock (block : ℕ) : CopySpace := { space with empty := block :: space.empty }

def popEmptyBlock : Option (ℕ × CopySpace) :=
  match space.empty with
  | [] => none
  | block :: rest => some (block, { space with empty := rest })

def addToPageOut (bytes : ℤ) : CopySpace :=
  { space with bytesToPageOut := space.bytesToPageOut + bytes }

/-! ## Requests for memory -/

def requestReleaseMemory (bytes : ℕ) : CopySpace := space.addToPageOut bytes

/-- One turn of the loop of `copy_space_page_out_blocks_until_memory_released`, past its test of
`pending`: `none` if it breaks. -/
def pageOutOne : Option CopySpace :=
  match space.popEmptyBlock with
  | none => none
  | some (block, popped) =>
      some ((popped.pageOutBlock block).addToPageOut (-COPY_SPACE_BLOCK_SIZE))

/-- The loop, with as many turns left as there are blocks to pop. -/
def pageOutLoop : ℕ → CopySpace → CopySpace
  | 0, space => space
  | turns + 1, space =>
      if 0 < space.bytesToPageOut then
        match space.pageOutOne with
        | none => space
        | some released => pageOutLoop turns released
      else space

/-- Returns what is pending in `bytesToPageOut`. -/
def pageOutBlocksUntilMemoryReleased : CopySpace := pageOutLoop space.empty.length space

/-- One turn of the loop of `copy_space_maybe_reacquire_memory`, past its test of `pending`: `none`
if it breaks. -/
def reacquireOne : Option CopySpace :=
  match space.pageInBlock with
  | none => none
  | some (block, popped) => some ((popped.pushEmptyBlock block).addToPageOut COPY_SPACE_BLOCK_SIZE)

/-- The loop, with as many turns left as there are blocks to page in. -/
def reacquireLoop : ℕ → CopySpace → CopySpace
  | 0, space => space
  | turns + 1, space =>
      if space.bytesToPageOut + COPY_SPACE_BLOCK_SIZE ≤ 0 then
        match space.reacquireOne with
        | none => space
        | some reacquired => reacquireLoop turns reacquired
      else space

/-- Returns what is pending in `bytesToPageOut`. -/
def maybeReacquireMemory (bytes : ℕ) : CopySpace :=
  reacquireLoop space.pagedOutCount (space.addToPageOut (-bytes))

/-- The assertion of `copy_space_reacquire_memory`: `pending + COPY_SPACE_BLOCK_SIZE > 0`. -/
inductive ReacquireAssertion where
  | enoughPagedOut
  deriving DecidableEq, Repr

def reacquireMemory (bytes : ℕ) : Outcome ReacquireAssertion CopySpace := do
  let reacquired := space.maybeReacquireMemory bytes
  Outcome.check (reacquired.bytesToPageOut + COPY_SPACE_BLOCK_SIZE > 0) .enoughPagedOut
  pure reacquired

def shrink (bytes : ℕ) : CopySpace :=
  (space.requestReleaseMemory bytes).pageOutBlocksUntilMemoryReleased

/-! ## Slabs -/

/-- The blocks of a slab that `copy_space_field_logging_blocks` sets aside. -/
def fieldLoggingBlocks : ℕ :=
  if space.hasFieldLoggingBits = true then
    alignUp (COPY_SPACE_SLAB_SIZE / 8 / 8) COPY_SPACE_BLOCK_SIZE / COPY_SPACE_BLOCK_SIZE
  else 0

def firstPayloadBlock : ℕ := space.fieldLoggingBlocks

/-- The blocks of a slab that hold objects. -/
def payloadBlocks (slab : ℕ) : List ℕ :=
  (List.range (COPY_SPACE_NONHEADER_BLOCKS_PER_SLAB - space.firstPayloadBlock)).map fun index =>
    slab + (COPY_SPACE_HEADER_BLOCKS_PER_SLAB + space.firstPayloadBlock + index) *
      COPY_SPACE_BLOCK_SIZE

/-- The addresses of `count` slabs that begin at `base`. -/
def slabsAt (base count : ℕ) : List ℕ :=
  (List.range count).map fun index => base + index * COPY_SPACE_SLAB_SIZE

/-- A block of a new slab, as it comes from the operating system. -/
def pushFreshBlock (block : ℕ) : CopySpace :=
  { space with inCore := update space.inCore block false }.pageOutBlock block

/-- The slabs that `copy_space_expand` allocates once it has reacquired what it can. -/
def newSlabs : ℕ :=
  alignUp (-space.bytesToPageOut).toNat COPY_SPACE_SLAB_SIZE / COPY_SPACE_SLAB_SIZE

def addSlabs (base count : ℕ) : CopySpace :=
  ((slabsAt base count).flatMap space.payloadBlocks).foldl pushFreshBlock
    { space with nslabs := space.nslabs + count }

/-- `copy_space_expand`, where `base` is the memory that `copy_space_allocate_slabs` returns. -/
def expand (bytes base : ℕ) : Outcome ReacquireAssertion CopySpace :=
  let reacquired := space.maybeReacquireMemory bytes
  if -reacquired.bytesToPageOut ≤ 0 then pure reacquired
  else (reacquired.addSlabs base reacquired.newSlabs).reacquireMemory 0

/-! ## Background tasks -/

/-- Moves the blocks of a stack to the one after it, one at a time. -/
def ageBlocks (age older : Fin COPY_SPACE_PAGE_OUT_QUEUE_SIZE) : CopySpace :=
  (space.pagedOut age).foldl (fun moved block => moved.pushPagedOut older block)
    { space with pagedOut := update space.pagedOut age [] }

def advancePageOutQueue : CopySpace := (space.ageBlocks 1 2).ageBlocks 0 1

def pageOutBlocks : CopySpace :=
  { space with
    inCore := fun block => space.inCore block && !decide (block ∈ space.pagedOut 2) }.ageBlocks 2 3

/-! ## Collections and allocators -/

def flip : CopySpace :=
  { space with empty := space.empty ++ space.occupied, occupied := [], inGc := true }

def finishGc : CopySpace := { space with inGc := false }

/-- `copy_space_obtain_empty_block_during_gc`, when there is no empty block. -/
def obtainEmptyBlockDuringGc : Option (ℕ × CopySpace) :=
  match space.pageInBlock with
  | none => none
  | some (block, popped) => some (block, popped.addToPageOut COPY_SPACE_BLOCK_SIZE)

/-- `copy_space_allocator_acquire_empty_block`. -/
def acquireEmptyBlock : Option CopySpace :=
  let found :=
    match space.popEmptyBlock with
    | some found => some found
    | none => if space.inGc = true then space.obtainEmptyBlockDuringGc else none
  match found with
  | none => none
  | some (block, popped) =>
      some { popped with
        occupied := block :: popped.occupied, inCore := update popped.inCore block true }

/-- `copy_space_can_allocate`. -/
def canAllocate (bytes : ℕ) : ℕ :=
  min space.empty.length ((bytes + COPY_SPACE_REGION_SIZE - 1) / COPY_SPACE_REGION_SIZE) *
    COPY_SPACE_REGION_SIZE

/-! ## Initialization -/

/-- The loop of `copy_space_init`: the blocks beyond the size of the heap start out paged out.
`excess` is `reserved - size`. -/
def initLoop : List ℕ → ℕ → CopySpace → CopySpace
  | [], _, space => space
  | block :: blocks, excess, space =>
      if excess > 0 then initLoop blocks (excess - COPY_SPACE_BLOCK_SIZE) (space.pageOutBlock block)
      else initLoop blocks excess (space.pushEmptyBlock block)

/-- A space without blocks. -/
def bare (nslabs : ℕ) (hasFieldLoggingBits : Bool) : CopySpace :=
  { empty := [], occupied := [], pagedOut := fun _ => [], inCore := fun _ => false,
    bytesToPageOut := 0, inGc := false, hasFieldLoggingBits := hasFieldLoggingBits,
    nslabs := nslabs }

/-- `copy_space_round_up_power_of_two`. -/
def roundUpPowerOfTwo (value : ℕ) : ℕ := 2 ^ Nat.clog 2 value

/-- The bytes of the slabs of a space of `size` bytes. -/
def reservedSize (size : ℕ) (aligned : Bool) : ℕ :=
  let reserved := alignUp (size + COPY_SPACE_BLOCK_SIZE * 16) COPY_SPACE_SLAB_SIZE
  if aligned = true then roundUpPowerOfTwo reserved else reserved

/-- `copy_space_init` for a space of `size` bytes, with its slabs at `base`. -/
def init (size base : ℕ) (aligned hasFieldLoggingBits : Bool) : CopySpace :=
  let size := alignUp size COPY_SPACE_BLOCK_SIZE
  let reserved := reservedSize size aligned
  let space := bare (reserved / COPY_SPACE_SLAB_SIZE) hasFieldLoggingBits
  initLoop ((slabsAt base space.nslabs).flatMap space.payloadBlocks) (reserved - size) space

end CopySpace

end Whippet.Pcc
