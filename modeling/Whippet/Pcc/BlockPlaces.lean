import Mathlib.Data.List.Nodup
import Whippet.Pcc.CopySpaceBudget

/-!
Where the blocks of a copy space are.

A block is in as many places as the lists of the space have entries for it. Every operation on the
lists takes a block from one place and puts it in another.

Owns: the number of places of a block, how the operations of `CopySpace` change it, and that the
payload blocks of different slabs are different. Does not own: what allocators do with the blocks
they take.
-/

namespace Whippet.Pcc

open Function

theorem count_cons (block other : ℕ) (list : List ℕ) :
    (block :: list).count other = list.count other + [block].count other := by
  rw [List.count_cons, List.count_singleton]

namespace CopySpace

/-- The entries for a block on the stacks of paged-out blocks. -/
def pagedOutPlaces (space : CopySpace) (block : ℕ) : ℕ :=
  (space.pagedOut 0).count block + (space.pagedOut 1).count block +
    (space.pagedOut 2).count block + (space.pagedOut 3).count block

/-- The entries for a block on all lists. -/
def places (space : CopySpace) (block : ℕ) : ℕ :=
  space.empty.count block + space.occupied.count block + space.pagedOutPlaces block

/-- The operation moves blocks between the empty and the paged-out ones. -/
structure Repages (before after : CopySpace) : Prop where
  places_eq : ∀ block, after.places block = before.places block
  occupied_eq : after.occupied = before.occupied
  inGc_eq : after.inGc = before.inGc
  logging_eq : after.hasFieldLoggingBits = before.hasFieldLoggingBits

theorem Repages.trans {before middle after : CopySpace} (left : Repages before middle)
    (right : Repages middle after) : Repages before after where
  places_eq block := (right.places_eq block).trans (left.places_eq block)
  occupied_eq := right.occupied_eq.trans left.occupied_eq
  inGc_eq := right.inGc_eq.trans left.inGc_eq
  logging_eq := right.logging_eq.trans left.logging_eq

/-! ## Single blocks -/

section Single

variable {space popped : CopySpace} {block : ℕ}

theorem pagedOutPlaces_update (space : CopySpace) (age : Fin COPY_SPACE_PAGE_OUT_QUEUE_SIZE)
    (list : List ℕ) (other : ℕ) :
    pagedOutPlaces { space with pagedOut := update space.pagedOut age list } other +
        (space.pagedOut age).count other =
      space.pagedOutPlaces other + list.count other := by
  match age with
  | 0 | 1 | 2 | 3 =>
      simp [pagedOutPlaces]
      omega

theorem pagedOutPlaces_pushPagedOut (space : CopySpace)
    (age : Fin COPY_SPACE_PAGE_OUT_QUEUE_SIZE) (block other : ℕ) :
    (space.pushPagedOut age block).pagedOutPlaces other =
      space.pagedOutPlaces other + [block].count other := by
  have balance := space.pagedOutPlaces_update age (block :: space.pagedOut age) other
  rw [count_cons] at balance
  show pagedOutPlaces
    { space with pagedOut := update space.pagedOut age (block :: space.pagedOut age) } other = _
  omega

theorem pagedOutPlaces_pageOutBlock (space : CopySpace) (block other : ℕ) :
    (space.pageOutBlock block).pagedOutPlaces other =
      space.pagedOutPlaces other + [block].count other :=
  space.pagedOutPlaces_pushPagedOut _ block other

theorem pagedOutPlaces_popPagedOut {ages : List (Fin COPY_SPACE_PAGE_OUT_QUEUE_SIZE)}
    (found : space.popPagedOut ages = some (block, popped)) (other : ℕ) :
    popped.pagedOutPlaces other + [block].count other = space.pagedOutPlaces other := by
  induction ages with
  | nil => simp [popPagedOut] at found
  | cons age ages inductionHypothesis =>
      rw [popPagedOut] at found
      split at found
      · exact inductionHypothesis found
      next rest stackEq =>
        cases found
        have balance := space.pagedOutPlaces_update age rest other
        rw [stackEq, count_cons] at balance
        omega

/-- Paging in takes a block from the stacks and leaves everything else as it is. -/
theorem pageInBlock_eq_some (found : space.pageInBlock = some (block, popped)) :
    popped = { space with pagedOut := popped.pagedOut } ∧
      ∀ other, popped.pagedOutPlaces other + [block].count other = space.pagedOutPlaces other :=
  ⟨(popPagedOut_eq found).2, pagedOutPlaces_popPagedOut found⟩

theorem popEmptyBlock_eq_some (found : space.popEmptyBlock = some (block, popped)) :
    space.empty = block :: popped.empty ∧ popped = { space with empty := popped.empty } := by
  unfold popEmptyBlock at found
  split at found
  · cases found
  next emptyEq =>
    cases found
    exact ⟨emptyEq, rfl⟩

theorem addToPageOut_repages (space : CopySpace) (bytes : ℤ) :
    Repages space (space.addToPageOut bytes) where
  places_eq _ := rfl
  occupied_eq := rfl
  inGc_eq := rfl
  logging_eq := rfl

/-- An empty block that is popped and paged out. -/
theorem pageOutBlock_repages (found : space.popEmptyBlock = some (block, popped)) :
    Repages space (popped.pageOutBlock block) := by
  obtain ⟨emptyEq, poppedEq⟩ := popEmptyBlock_eq_some found
  generalize popped.empty = rest at emptyEq poppedEq
  subst poppedEq
  constructor
  · intro other
    have pushed := pagedOutPlaces_pageOutBlock { space with empty := rest } block other
    have same : pagedOutPlaces { space with empty := rest } other = space.pagedOutPlaces other :=
      rfl
    have kept : (pageOutBlock { space with empty := rest } block).empty = rest := rfl
    have occupied : (pageOutBlock { space with empty := rest } block).occupied =
      space.occupied := rfl
    unfold places
    rw [pushed, same, kept, occupied, emptyEq, count_cons block other rest]
    omega
  all_goals rfl

theorem reacquireOne_repages {reacquired : CopySpace}
    (paged : space.reacquireOne = some reacquired) :
    Repages space reacquired ∧
      ∀ other, reacquired.pagedOutPlaces other ≤ space.pagedOutPlaces other := by
  unfold reacquireOne at paged
  split at paged
  · cases paged
  next block popped found =>
    cases paged
    obtain ⟨poppedEq, balance⟩ := pageInBlock_eq_some found
    have fewer (other : ℕ) : popped.pagedOutPlaces other ≤ space.pagedOutPlaces other := by
      have taken := balance other
      omega
    refine ⟨?_, fewer⟩
    generalize popped.pagedOut = pagedOut at poppedEq
    subst poppedEq
    constructor
    · intro other
      have taken := balance other
      show (block :: space.empty).count other + space.occupied.count other +
        pagedOutPlaces { space with pagedOut := pagedOut } other = _
      rw [count_cons block other space.empty, places]
      omega
    all_goals rfl

end Single

/-! ## Background tasks -/

/-- The loop that moves a stack pushes its blocks in turn. -/
theorem foldl_pushPagedOut (older : Fin COPY_SPACE_PAGE_OUT_QUEUE_SIZE) (blocks : List ℕ)
    (start : CopySpace) :
    ∃ pagedOut,
      blocks.foldl (fun moved block => moved.pushPagedOut older block) start =
        { start with pagedOut := pagedOut } ∧
      ∀ other, pagedOutPlaces { start with pagedOut := pagedOut } other =
        start.pagedOutPlaces other + blocks.count other := by
  induction blocks generalizing start with
  | nil => exact ⟨start.pagedOut, rfl, fun _ => rfl⟩
  | cons block blocks inductionHypothesis =>
      obtain ⟨pagedOut, equal, counted⟩ := inductionHypothesis (start.pushPagedOut older block)
      refine ⟨pagedOut, equal, ?_⟩
      intro other
      have rest := counted other
      rw [pagedOutPlaces_pushPagedOut] at rest
      rw [count_cons block other blocks]
      exact rest.trans (by omega)

theorem ageBlocks_repages (age older : Fin COPY_SPACE_PAGE_OUT_QUEUE_SIZE) (space : CopySpace) :
    Repages space (space.ageBlocks age older) ∧
      ∀ other, (space.ageBlocks age older).pagedOutPlaces other = space.pagedOutPlaces other := by
  obtain ⟨pagedOut, equal, counted⟩ := foldl_pushPagedOut older (space.pagedOut age)
    { space with pagedOut := update space.pagedOut age [] }
  have emptied := space.pagedOutPlaces_update age []
  have same (other : ℕ) :
      (space.ageBlocks age older).pagedOutPlaces other = space.pagedOutPlaces other := by
    have all := counted other
    have none := emptied other
    rw [List.count_nil] at none
    rw [ageBlocks, equal]
    omega
  refine ⟨⟨?_, ?_, ?_, ?_⟩, same⟩
  · intro other
    unfold places
    rw [same, ageBlocks, equal]
  all_goals
    rw [ageBlocks, equal]

theorem advancePageOutQueue_repages (space : CopySpace) :
    Repages space space.advancePageOutQueue ∧
      ∀ other, space.advancePageOutQueue.pagedOutPlaces other = space.pagedOutPlaces other := by
  obtain ⟨first, firstSame⟩ := ageBlocks_repages 1 2 space
  obtain ⟨second, secondSame⟩ := ageBlocks_repages 0 1 (space.ageBlocks 1 2)
  exact ⟨first.trans second, fun other => (secondSame other).trans (firstSame other)⟩

theorem pageOutBlocks_repages (space : CopySpace) :
    Repages space space.pageOutBlocks ∧
      ∀ other, space.pageOutBlocks.pagedOutPlaces other = space.pagedOutPlaces other := by
  obtain ⟨aged, same⟩ := ageBlocks_repages 2 3
    { space with
      inCore := fun block => space.inCore block && !decide (block ∈ space.pagedOut 2) }
  exact ⟨⟨aged.places_eq, aged.occupied_eq, aged.inGc_eq, aged.logging_eq⟩, same⟩

/-! ## Slabs -/

section Slabs

variable {space other : CopySpace} {slab block base count : ℕ}

theorem payloadBlocks_congr (same : other.hasFieldLoggingBits = space.hasFieldLoggingBits) :
    other.payloadBlocks = space.payloadBlocks := by
  funext slab
  unfold payloadBlocks firstPayloadBlock fieldLoggingBlocks
  rw [same]

/-- The slab and the position that a payload block is at. -/
theorem mem_payloadBlocks (aligned : COPY_SPACE_SLAB_SIZE ∣ slab)
    (member : block ∈ space.payloadBlocks slab) :
    COPY_SPACE_BLOCK_SIZE ∣ block ∧ block / COPY_SPACE_SLAB_SIZE * COPY_SPACE_SLAB_SIZE = slab := by
  simp only [payloadBlocks, List.mem_map, List.mem_range] at member
  obtain ⟨index, below, rfl⟩ := member
  obtain ⟨number, rfl⟩ := aligned
  have first : space.firstPayloadBlock + index < 511 := by
    have size : COPY_SPACE_NONHEADER_BLOCKS_PER_SLAB = 511 := by decide
    omega
  have header : COPY_SPACE_HEADER_BLOCKS_PER_SLAB = 1 := rfl
  have slabSize : COPY_SPACE_SLAB_SIZE = 512 * COPY_SPACE_BLOCK_SIZE := by decide
  have blockSize : COPY_SPACE_BLOCK_SIZE = 131072 := by decide
  rw [header, slabSize, blockSize]
  constructor <;> omega

theorem nodup_payloadBlocks (space : CopySpace) (slab : ℕ) : (space.payloadBlocks slab).Nodup := by
  apply List.Nodup.map _ List.nodup_range
  intro left right same
  have positive : 0 < COPY_SPACE_BLOCK_SIZE := by decide
  have positions := Nat.eq_of_mul_eq_mul_right positive (Nat.add_left_cancel same)
  exact Nat.add_left_cancel positions

theorem mem_slabsAt : slab ∈ slabsAt base count ↔
    ∃ index < count, slab = base + index * COPY_SPACE_SLAB_SIZE := by
  simp only [slabsAt, List.mem_map, List.mem_range, eq_comm]

theorem nodup_slabsAt (base count : ℕ) : (slabsAt base count).Nodup := by
  apply List.Nodup.map _ List.nodup_range
  intro left right same
  have positive : 0 < COPY_SPACE_SLAB_SIZE := by decide
  exact Nat.eq_of_mul_eq_mul_right positive (Nat.add_left_cancel same)

theorem aligned_slabsAt (aligned : COPY_SPACE_SLAB_SIZE ∣ base)
    (member : slab ∈ slabsAt base count) : COPY_SPACE_SLAB_SIZE ∣ slab := by
  obtain ⟨index, -, rfl⟩ := mem_slabsAt.mp member
  exact aligned.add (Nat.dvd_mul_left _ _)

/-- The payload blocks of different slabs are different. -/
theorem nodup_flatMap_payloadBlocks (space : CopySpace) {slabs : List ℕ} (nodup : slabs.Nodup)
    (aligned : ∀ slab ∈ slabs, COPY_SPACE_SLAB_SIZE ∣ slab) :
    (slabs.flatMap space.payloadBlocks).Nodup := by
  rw [List.nodup_flatMap]
  refine ⟨fun slab _ => space.nodup_payloadBlocks slab, ?_⟩
  apply nodup.imp_of_mem
  intro left right leftMember rightMember different block inLeft inRight
  apply different
  rw [← (mem_payloadBlocks (aligned left leftMember) inLeft).2,
    ← (mem_payloadBlocks (aligned right rightMember) inRight).2]

/-- Fresh blocks are paged out. -/
theorem foldl_pushFreshBlock (blocks : List ℕ) (start : CopySpace) :
    ∃ pagedOut inCore,
      blocks.foldl pushFreshBlock start =
        { start with pagedOut := pagedOut, inCore := inCore } ∧
      ∀ other, pagedOutPlaces { start with pagedOut := pagedOut } other =
        start.pagedOutPlaces other + blocks.count other := by
  induction blocks generalizing start with
  | nil => exact ⟨start.pagedOut, start.inCore, rfl, fun _ => rfl⟩
  | cons block blocks inductionHypothesis =>
      obtain ⟨pagedOut, inCore, equal, counted⟩ :=
        inductionHypothesis (start.pushFreshBlock block)
      refine ⟨pagedOut, inCore, equal, ?_⟩
      intro other
      have rest := counted other
      have pushed := pagedOutPlaces_pageOutBlock
        { start with inCore := update start.inCore block false } block other
      have same : (start.pushFreshBlock block).pagedOutPlaces other =
          start.pagedOutPlaces other + [block].count other := pushed
      rw [same] at rest
      rw [count_cons block other blocks]
      exact rest.trans (by omega)

theorem addSlabs_spec (space : CopySpace) (base count : ℕ) :
    (space.addSlabs base count).empty = space.empty ∧
      (space.addSlabs base count).occupied = space.occupied ∧
      (space.addSlabs base count).inGc = space.inGc ∧
      (space.addSlabs base count).hasFieldLoggingBits = space.hasFieldLoggingBits ∧
      ∀ other, (space.addSlabs base count).pagedOutPlaces other = space.pagedOutPlaces other +
        ((slabsAt base count).flatMap space.payloadBlocks).count other := by
  obtain ⟨pagedOut, inCore, equal, counted⟩ := foldl_pushFreshBlock
    ((slabsAt base count).flatMap space.payloadBlocks)
    { space with nslabs := space.nslabs + count }
  rw [addSlabs, equal]
  exact ⟨rfl, rfl, rfl, rfl, counted⟩

/-- A space starts out with all of its blocks empty or paged out. -/
theorem initLoop_places (blocks : List ℕ) (excess : ℕ) (space : CopySpace) :
    (initLoop blocks excess space).occupied = space.occupied ∧
      (initLoop blocks excess space).inGc = space.inGc ∧
      (initLoop blocks excess space).hasFieldLoggingBits = space.hasFieldLoggingBits ∧
      (initLoop blocks excess space).nslabs = space.nslabs ∧
      ∀ other, (initLoop blocks excess space).places other =
        space.places other + blocks.count other := by
  induction blocks generalizing excess space with
  | nil => exact ⟨rfl, rfl, rfl, rfl, fun _ => rfl⟩
  | cons block blocks inductionHypothesis =>
      rw [initLoop]
      split
      · obtain ⟨occupied, inGc, logging, nslabs, counted⟩ :=
          inductionHypothesis (excess - COPY_SPACE_BLOCK_SIZE) (space.pageOutBlock block)
        refine ⟨occupied, inGc, logging, nslabs, ?_⟩
        intro other
        have pushed := space.pagedOutPlaces_pageOutBlock block other
        have same : (space.pageOutBlock block).places other =
            space.empty.count other + space.occupied.count other +
              (space.pageOutBlock block).pagedOutPlaces other := rfl
        rw [counted, same, pushed, count_cons block other blocks, places]
        omega
      · obtain ⟨occupied, inGc, logging, nslabs, counted⟩ :=
          inductionHypothesis excess (space.pushEmptyBlock block)
        refine ⟨occupied, inGc, logging, nslabs, ?_⟩
        intro other
        have same : (space.pushEmptyBlock block).places other =
            (block :: space.empty).count other + space.occupied.count other +
              space.pagedOutPlaces other := rfl
        rw [counted, same, count_cons block other space.empty, count_cons block other blocks,
          places]
        omega

end Slabs

end CopySpace

end Whippet.Pcc
