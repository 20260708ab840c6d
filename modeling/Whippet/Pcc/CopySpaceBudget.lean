import Mathlib.Algebra.BigOperators.Group.List.Basic
import Mathlib.Algebra.Group.Action.Defs
import Mathlib.Tactic.Ring
import Whippet.Pcc.CopySpace

/-!
What the operations on blocks do to a copy space's budget.

The value of a space is the bytes of the blocks that are not paged out less its debt. Paging a
block in or out against one block of debt leaves it alone, and so does mapping slabs whose blocks
all start out paged out.

Owns: the value and the number of blocks of a space, how each operation of `CopySpace` changes
them, how far the two loops get, and when the assertion of `copy_space_reacquire_memory` holds. Does
not own: who calls them.
-/

namespace Whippet.Pcc

open Function

namespace CopySpace

/-- The blocks that are not paged out. -/
def activeCount (space : CopySpace) : ℕ := space.empty.length + space.occupied.length

def blockCount (space : CopySpace) : ℕ := space.activeCount + space.pagedOutCount

/-- The bytes of the blocks that are not paged out less the debt. -/
def value (space : CopySpace) : ℤ :=
  (space.activeCount : ℤ) * COPY_SPACE_BLOCK_SIZE - space.bytesToPageOut

theorem activeCount_le {before after : CopySpace} (value : after.value = before.value)
    (debt : after.bytesToPageOut ≤ before.bytesToPageOut) :
    after.activeCount ≤ before.activeCount := by
  simp only [CopySpace.value, COPY_SPACE_BLOCK_SIZE, COPY_SPACE_REGION_SIZE] at value
  omega

theorem activeCount_pageIn {before after : CopySpace} (value : after.value = before.value)
    (debt : after.bytesToPageOut = before.bytesToPageOut + COPY_SPACE_BLOCK_SIZE) :
    after.activeCount = before.activeCount + 1 := by
  simp only [CopySpace.value, debt, COPY_SPACE_BLOCK_SIZE, COPY_SPACE_REGION_SIZE] at value
  omega

/-- The operation adds `bytes` to the value of the space, and loses no block. -/
structure Adds (bytes : ℤ) (before after : CopySpace) : Prop where
  value_eq : after.value = before.value + bytes
  blockCount_eq : after.blockCount = before.blockCount
  occupied_eq : after.occupied = before.occupied
  nslabs_eq : after.nslabs = before.nslabs
  logging_eq : after.hasFieldLoggingBits = before.hasFieldLoggingBits

theorem Adds.refl (space : CopySpace) : Adds 0 space space where
  value_eq := by omega
  blockCount_eq := rfl
  occupied_eq := rfl
  nslabs_eq := rfl
  logging_eq := rfl

theorem Adds.trans {first second : ℤ} {before middle after : CopySpace}
    (left : Adds first before middle) (right : Adds second middle after) :
    Adds (first + second) before after where
  value_eq := by rw [right.value_eq, left.value_eq, add_assoc]
  blockCount_eq := right.blockCount_eq.trans left.blockCount_eq
  occupied_eq := right.occupied_eq.trans left.occupied_eq
  nslabs_eq := right.nslabs_eq.trans left.nslabs_eq
  logging_eq := right.logging_eq.trans left.logging_eq

theorem Adds.congr {bytes other : ℤ} {before after : CopySpace} (adds : Adds bytes before after)
    (equal : bytes = other) : Adds other before after := equal ▸ adds

/-! ## Single blocks -/

section Single

variable {space popped : CopySpace} {block : ℕ}

theorem pagedOutCount_update (space : CopySpace) (age : Fin COPY_SPACE_PAGE_OUT_QUEUE_SIZE)
    (blocks : List ℕ) :
    pagedOutCount { space with pagedOut := update space.pagedOut age blocks } +
        (space.pagedOut age).length =
      space.pagedOutCount + blocks.length := by
  match age with
  | 0 | 1 | 2 | 3 =>
      simp [pagedOutCount]
      omega

@[simp] theorem pagedOutCount_pushPagedOut (age : Fin COPY_SPACE_PAGE_OUT_QUEUE_SIZE) :
    (space.pushPagedOut age block).pagedOutCount = space.pagedOutCount + 1 := by
  have balance := space.pagedOutCount_update age (block :: space.pagedOut age)
  simp only [List.length_cons] at balance
  show pagedOutCount
    { space with pagedOut := update space.pagedOut age (block :: space.pagedOut age) } = _
  omega

@[simp] theorem pagedOutCount_pageOutBlock :
    (space.pageOutBlock block).pagedOutCount = space.pagedOutCount + 1 :=
  pagedOutCount_pushPagedOut _

/-- Popping a paged-out block leaves everything else as it is. -/
theorem popPagedOut_eq {ages : List (Fin COPY_SPACE_PAGE_OUT_QUEUE_SIZE)}
    (found : space.popPagedOut ages = some (block, popped)) :
    popped.pagedOutCount + 1 = space.pagedOutCount ∧
      popped = { space with pagedOut := popped.pagedOut } := by
  induction ages with
  | nil => simp [popPagedOut] at found
  | cons age ages inductionHypothesis =>
      rw [popPagedOut] at found
      split at found
      · exact inductionHypothesis found
      next rest stackEq =>
        cases found
        have balance := space.pagedOutCount_update age rest
        rw [stackEq, List.length_cons] at balance
        exact ⟨by omega, rfl⟩

theorem popPagedOut_eq_none {ages : List (Fin COPY_SPACE_PAGE_OUT_QUEUE_SIZE)}
    (missing : space.popPagedOut ages = none) : ∀ age ∈ ages, space.pagedOut age = [] := by
  induction ages with
  | nil => simp
  | cons age ages inductionHypothesis =>
      rw [popPagedOut] at missing
      split at missing
      next stackEq =>
        intro other member
        rcases List.mem_cons.mp member with rfl | inRest
        · exact stackEq
        · exact inductionHypothesis missing other inRest
      · cases missing

theorem pageInBlock_eq_none (missing : space.pageInBlock = none) : space.pagedOutCount = 0 := by
  have bare := popPagedOut_eq_none missing
  simp [pagedOutCount, bare 0 (by simp), bare 1 (by simp), bare 2 (by simp),
    bare 3 (by simp)]

theorem pageOutOne_eq_some {released : CopySpace} (paged : space.pageOutOne = some released) :
    Adds 0 space released ∧
      released.bytesToPageOut = space.bytesToPageOut - COPY_SPACE_BLOCK_SIZE ∧
      released.empty.length + 1 = space.empty.length ∧ released.inGc = space.inGc := by
  unfold pageOutOne popEmptyBlock at paged
  cases emptyEq : space.empty with
  | nil => simp [emptyEq] at paged
  | cons block rest =>
      simp only [emptyEq, Option.some.injEq] at paged
      subst paged
      let popped := { space with empty := rest }
      have count : (popped.pageOutBlock block).pagedOutCount = popped.pagedOutCount + 1 :=
        pagedOutCount_pageOutBlock
      refine ⟨?_, by rfl, by rfl, rfl⟩
      constructor
      · show ((rest.length + space.occupied.length : ℕ) : ℤ) * COPY_SPACE_BLOCK_SIZE -
          (space.bytesToPageOut + -COPY_SPACE_BLOCK_SIZE) = _
        rw [value, activeCount, emptyEq, List.length_cons]
        push_cast
        ring
      · show rest.length + space.occupied.length + (popped.pageOutBlock block).pagedOutCount = _
        rw [count, blockCount, activeCount, emptyEq, List.length_cons]
        show _ + (space.pagedOutCount + 1) = _
        omega
      all_goals rfl

theorem pageOutOne_eq_none (missing : space.pageOutOne = none) : space.empty = [] := by
  unfold pageOutOne popEmptyBlock at missing
  cases emptyEq : space.empty with
  | nil => rfl
  | cons block rest => simp [emptyEq] at missing

theorem reacquireOne_eq_some {reacquired : CopySpace}
    (paged : space.reacquireOne = some reacquired) :
    Adds 0 space reacquired ∧
      reacquired.bytesToPageOut = space.bytesToPageOut + COPY_SPACE_BLOCK_SIZE ∧
      reacquired.pagedOutCount + 1 = space.pagedOutCount ∧ reacquired.inGc = space.inGc := by
  unfold reacquireOne at paged
  split at paged
  · cases paged
  next block popped found =>
    cases paged
    obtain ⟨count, same⟩ := popPagedOut_eq found
    generalize popped.pagedOut = pagedOut at same
    subst same
    refine ⟨?_, rfl, count, rfl⟩
    constructor
    · show ((space.empty.length + 1 + space.occupied.length : ℕ) : ℤ) * COPY_SPACE_BLOCK_SIZE -
        (space.bytesToPageOut + COPY_SPACE_BLOCK_SIZE) = _
      rw [value, activeCount]
      push_cast
      ring
    · show space.empty.length + 1 + space.occupied.length +
        pagedOutCount { space with pagedOut := pagedOut } = _
      rw [blockCount, activeCount, ← count]
      omega
    all_goals rfl

theorem reacquireOne_eq_none (missing : space.reacquireOne = none) : space.pagedOutCount = 0 := by
  unfold reacquireOne at missing
  split at missing
  next none => exact pageInBlock_eq_none none
  · cases missing

theorem addToPageOut_adds (space : CopySpace) (bytes : ℤ) :
    Adds (-bytes) space (space.addToPageOut bytes) where
  value_eq := by
    show (space.activeCount : ℤ) * COPY_SPACE_BLOCK_SIZE - (space.bytesToPageOut + bytes) = _
    rw [value]
    ring
  blockCount_eq := rfl
  occupied_eq := rfl
  nslabs_eq := rfl
  logging_eq := rfl

end Single

/-! ## The two loops -/

section Loops

variable {space : CopySpace}

/-- The first loop ends with the debt paid or with no empty block left, and it does not pay more
than it has to. -/
theorem pageOutLoop_spec (turns : ℕ) (space : CopySpace) (enough : space.empty.length ≤ turns) :
    Adds 0 space (pageOutLoop turns space) ∧
      ((pageOutLoop turns space).bytesToPageOut ≤ 0 ∨ (pageOutLoop turns space).empty = []) ∧
      (pageOutLoop turns space).bytesToPageOut ≤ space.bytesToPageOut ∧
      (pageOutLoop turns space).inGc = space.inGc := by
  induction turns generalizing space with
  | zero =>
      refine ⟨Adds.refl space, Or.inr ?_, le_rfl, rfl⟩
      exact List.eq_nil_of_length_eq_zero (Nat.le_zero.mp enough)
  | succ turns inductionHypothesis =>
      rw [pageOutLoop]
      split
      · split
        next missing =>
          exact ⟨Adds.refl space, Or.inr (pageOutOne_eq_none missing), le_rfl, rfl⟩
        next released paged =>
          obtain ⟨adds, debt, shorter, sameGc⟩ := pageOutOne_eq_some paged
          obtain ⟨rest, done, atMost, inGc⟩ := inductionHypothesis released (by omega)
          exact ⟨adds.trans rest, done, by omega, inGc.trans sameGc⟩
      next paid => exact ⟨Adds.refl space, Or.inl (not_lt.mp paid), le_rfl, rfl⟩

/-- The second loop ends with less than a block to page in, or with no paged-out block left. -/
theorem reacquireLoop_spec (turns : ℕ) (space : CopySpace)
    (enough : space.pagedOutCount ≤ turns) :
    Adds 0 space (reacquireLoop turns space) ∧
      (0 < (reacquireLoop turns space).bytesToPageOut + COPY_SPACE_BLOCK_SIZE ∨
        (reacquireLoop turns space).pagedOutCount = 0) ∧
      (0 < space.bytesToPageOut → (reacquireLoop turns space).bytesToPageOut =
        space.bytesToPageOut) ∧
      (space.bytesToPageOut ≤ 0 → (reacquireLoop turns space).bytesToPageOut ≤ 0) ∧
      (reacquireLoop turns space).inGc = space.inGc := by
  induction turns generalizing space with
  | zero => exact ⟨Adds.refl space, Or.inr (Nat.le_zero.mp enough), fun _ => rfl, id, rfl⟩
  | succ turns inductionHypothesis =>
      rw [reacquireLoop]
      split
      next owed =>
        split
        next missing =>
          exact ⟨Adds.refl space, Or.inr (reacquireOne_eq_none missing), fun _ => rfl, id, rfl⟩
        next reacquired paged =>
          obtain ⟨adds, debt, fewer, sameGc⟩ := reacquireOne_eq_some paged
          obtain ⟨rest, done, -, atMost, inGc⟩ := inductionHypothesis reacquired (by omega)
          refine ⟨adds.trans rest, done, ?_, fun _ => atMost (by omega), inGc.trans sameGc⟩
          intro positive
          simp only [COPY_SPACE_BLOCK_SIZE, COPY_SPACE_REGION_SIZE] at owed
          omega
      next enoughPaged =>
        exact ⟨Adds.refl space, Or.inl (not_le.mp enoughPaged), fun _ => rfl, id, rfl⟩

theorem pageOutBlocksUntilMemoryReleased_adds (space : CopySpace) :
    Adds 0 space space.pageOutBlocksUntilMemoryReleased :=
  (pageOutLoop_spec _ space le_rfl).1

theorem maybeReacquireMemory_adds (space : CopySpace) (bytes : ℕ) :
    Adds bytes space (space.maybeReacquireMemory bytes) := by
  obtain ⟨adds, -⟩ := reacquireLoop_spec space.pagedOutCount (space.addToPageOut (-bytes)) le_rfl
  have requested := addToPageOut_adds space (-bytes)
  exact (requested.trans adds).congr (by omega)

/-- What `copy_space_maybe_reacquire_memory` leaves is less than a block, or all blocks are in
use. -/
theorem maybeReacquireMemory_done (space : CopySpace) (bytes : ℕ) :
    0 < (space.maybeReacquireMemory bytes).bytesToPageOut + COPY_SPACE_BLOCK_SIZE ∨
      (space.maybeReacquireMemory bytes).pagedOutCount = 0 :=
  (reacquireLoop_spec space.pagedOutCount (space.addToPageOut (-bytes)) le_rfl).2.1

theorem shrink_adds (space : CopySpace) (bytes : ℕ) : Adds (-bytes) space (space.shrink bytes) := by
  have requested := addToPageOut_adds space bytes
  exact (requested.trans (pageOutBlocksUntilMemoryReleased_adds _)).congr (by omega)

/-- The assertion of `copy_space_reacquire_memory` holds if and only if the space is worth less than
all of its blocks and one more. -/
theorem reacquire_enough_iff (space : CopySpace) (bytes : ℕ) :
    0 < (space.maybeReacquireMemory bytes).bytesToPageOut + COPY_SPACE_BLOCK_SIZE ↔
      space.value + bytes < ((space.blockCount + 1) * COPY_SPACE_BLOCK_SIZE : ℕ) := by
  have adds := space.maybeReacquireMemory_adds bytes
  have done := space.maybeReacquireMemory_done bytes
  rw [← adds.value_eq, ← adds.blockCount_eq]
  generalize space.maybeReacquireMemory bytes = reacquired at done ⊢
  rw [value, blockCount]
  simp only [COPY_SPACE_BLOCK_SIZE, COPY_SPACE_REGION_SIZE] at *
  push_cast
  omega

theorem reacquireMemory_eq_next {space reacquired : CopySpace} {bytes : ℕ} :
    space.reacquireMemory bytes = .next reacquired ↔
      space.value + bytes < ((space.blockCount + 1) * COPY_SPACE_BLOCK_SIZE : ℕ) ∧
        space.maybeReacquireMemory bytes = reacquired := by
  simp only [reacquireMemory, gt_iff_lt, Outcome.check_bind_eq_next, Outcome.pure_eq_next,
    Outcome.next.injEq, reacquire_enough_iff]

theorem reacquireMemory_eq_failed {space : CopySpace} {bytes : ℕ}
    {assertion : ReacquireAssertion} :
    space.reacquireMemory bytes = .failed assertion ↔
      ((space.blockCount + 1) * COPY_SPACE_BLOCK_SIZE : ℕ) ≤ space.value + bytes := by
  simp only [reacquireMemory, gt_iff_lt, Outcome.check_bind_eq_failed, Outcome.pure_eq_next,
    reacquire_enough_iff]
  cases assertion
  simp

end Loops

/-! ## Collections and background tasks -/

section Collections

variable {space : CopySpace}

/-- The background tasks move blocks among those that are paged out. -/
theorem ageBlocks_keeps (age older : Fin COPY_SPACE_PAGE_OUT_QUEUE_SIZE) (space : CopySpace) :
    (space.ageBlocks age older).value = space.value ∧
      (space.ageBlocks age older).blockCount = space.blockCount := by
  have pushed : ∀ (blocks : List ℕ) (start : CopySpace),
      (blocks.foldl (fun moved block => moved.pushPagedOut older block) start).value =
          start.value ∧
        (blocks.foldl (fun moved block => moved.pushPagedOut older block) start).blockCount =
          start.blockCount + blocks.length := by
    intro blocks
    induction blocks with
    | nil => exact fun _ => ⟨rfl, rfl⟩
    | cons block rest inductionHypothesis =>
        intro start
        obtain ⟨value, count⟩ := inductionHypothesis (start.pushPagedOut older block)
        refine ⟨value, ?_⟩
        have one : (start.pushPagedOut older block).blockCount = start.blockCount + 1 :=
          congrArg (start.activeCount + ·) (pagedOutCount_pushPagedOut older)
        rw [List.foldl_cons, count, one, List.length_cons]
        omega
  obtain ⟨value, count⟩ := pushed (space.pagedOut age)
    { space with pagedOut := Function.update space.pagedOut age [] }
  refine ⟨value, count.trans ?_⟩
  have emptied := space.pagedOutCount_update age []
  have same : blockCount { space with pagedOut := Function.update space.pagedOut age [] } =
      space.activeCount +
        pagedOutCount { space with pagedOut := Function.update space.pagedOut age [] } := rfl
  rw [same, blockCount]
  rw [List.length_nil] at emptied
  omega

@[simp] theorem bytesToPageOut_ageBlocks (age older : Fin COPY_SPACE_PAGE_OUT_QUEUE_SIZE)
    (space : CopySpace) : (space.ageBlocks age older).bytesToPageOut = space.bytesToPageOut := by
  have pushed : ∀ (blocks : List ℕ) (start : CopySpace),
      (blocks.foldl (fun moved block => moved.pushPagedOut older block) start).bytesToPageOut =
        start.bytesToPageOut := by
    intro blocks
    induction blocks with
    | nil => exact fun _ => rfl
    | cons block rest inductionHypothesis =>
        exact fun start => inductionHypothesis (start.pushPagedOut older block)
  exact pushed (space.pagedOut age) { space with pagedOut := update space.pagedOut age [] }

theorem advancePageOutQueue_keeps (space : CopySpace) :
    space.advancePageOutQueue.value = space.value ∧
      space.advancePageOutQueue.blockCount = space.blockCount := by
  obtain ⟨firstValue, firstCount⟩ := ageBlocks_keeps 1 2 space
  obtain ⟨secondValue, secondCount⟩ := ageBlocks_keeps 0 1 (space.ageBlocks 1 2)
  exact ⟨secondValue.trans firstValue, secondCount.trans firstCount⟩

theorem pageOutBlocks_keeps (space : CopySpace) :
    space.pageOutBlocks.value = space.value ∧
      space.pageOutBlocks.blockCount = space.blockCount :=
  ageBlocks_keeps 2 3 _

theorem flip_keeps (space : CopySpace) :
    space.flip.value = space.value ∧ space.flip.blockCount = space.blockCount := by
  have active : space.flip.activeCount = space.activeCount := by simp [flip, activeCount]
  exact ⟨congrArg (fun count : ℕ => (count : ℤ) * COPY_SPACE_BLOCK_SIZE - space.bytesToPageOut)
    active, congrArg (· + space.pagedOutCount) active⟩

/-- The next empty block that an allocator acquires has to be paged in. -/
def AcquiresPagedOut (space : CopySpace) : Prop := space.inGc = true ∧ space.empty = []

/-- The block that an allocator acquires was empty, or is paged in. -/
theorem acquireEmptyBlock_eq_some {acquired : CopySpace}
    (found : space.acquireEmptyBlock = some acquired) :
    (∃ block rest inCore, space.empty = block :: rest ∧ acquired =
      { space with empty := rest, occupied := block :: space.occupied, inCore := inCore }) ∨
    (space.AcquiresPagedOut ∧ ∃ block pagedOut inCore,
      pagedOutCount { space with pagedOut := pagedOut } + 1 = space.pagedOutCount ∧ acquired =
        { space with
          pagedOut := pagedOut
          bytesToPageOut := space.bytesToPageOut + COPY_SPACE_BLOCK_SIZE
          occupied := block :: space.occupied
          inCore := inCore }) := by
  unfold acquireEmptyBlock popEmptyBlock at found
  cases emptyEq : space.empty with
  | cons block rest =>
      simp only [emptyEq, Option.some.injEq] at found
      exact .inl ⟨block, rest, _, rfl, found.symm⟩
  | nil =>
      simp only [emptyEq] at found
      split at found
      · cases found
      next block popped obtained =>
        cases found
        split at obtained
        next isInGc =>
          unfold obtainEmptyBlockDuringGc at obtained
          split at obtained
          · cases obtained
          next taken inner paged =>
            cases obtained
            obtain ⟨count, same⟩ := popPagedOut_eq paged
            generalize inner.pagedOut = pagedOut at same
            subst same
            rw [← emptyEq]
            exact .inr ⟨⟨isInGc, emptyEq⟩, block, pagedOut, _, count, rfl⟩
        · cases obtained

/-- An allocator's block stays active, or becomes so against one block of debt. -/
theorem acquireEmptyBlock_keeps {acquired : CopySpace}
    (found : space.acquireEmptyBlock = some acquired) :
    acquired.value = space.value ∧ acquired.blockCount = space.blockCount := by
  rcases acquireEmptyBlock_eq_some found with
    ⟨block, rest, _, emptyEq, rfl⟩ | ⟨-, block, pagedOut, _, count, rfl⟩
  · constructor
    · simp only [value, activeCount, emptyEq, List.length_cons]
      push_cast
      ring
    · show rest.length + (space.occupied.length + 1) + space.pagedOutCount = _
      rw [blockCount, activeCount, emptyEq, List.length_cons]
      omega
  · constructor
    · simp only [value, activeCount, List.length_cons]
      push_cast
      ring
    · show space.empty.length + (space.occupied.length + 1) +
        pagedOutCount { space with pagedOut := pagedOut } = _
      rw [blockCount, activeCount, ← count]
      omega

theorem bytesToPageOut_acquireEmptyBlock {acquired : CopySpace}
    (found : space.acquireEmptyBlock = some acquired) :
    ¬space.AcquiresPagedOut ∧ acquired.bytesToPageOut = space.bytesToPageOut ∨
      space.AcquiresPagedOut ∧
        acquired.bytesToPageOut = space.bytesToPageOut + COPY_SPACE_BLOCK_SIZE := by
  rcases acquireEmptyBlock_eq_some found with
    ⟨block, rest, _, emptyEq, rfl⟩ | ⟨pagedOut, _, _, _, -, rfl⟩
  · exact .inl ⟨by simp [AcquiresPagedOut, emptyEq], rfl⟩
  · exact .inr ⟨pagedOut, rfl⟩

end Collections

/-! ## New slabs -/

section Slabs

variable {space : CopySpace}

/-- A space starts out with its blocks beyond `excess` empty, and with the others paged out. -/
theorem initLoop_eq (blocks : List ℕ) (excess : ℕ) (space : CopySpace) :
    ∃ empty pagedOut,
      initLoop blocks excess space = { space with empty := empty, pagedOut := pagedOut } ∧
      empty.length = space.empty.length + (blocks.length -
        (excess + COPY_SPACE_BLOCK_SIZE - 1) / COPY_SPACE_BLOCK_SIZE) := by
  induction blocks generalizing excess space with
  | nil => exact ⟨space.empty, space.pagedOut, rfl, by simp⟩
  | cons block blocks inductionHypothesis =>
      rw [initLoop, List.length_cons]
      split
      · obtain ⟨empty, pagedOut, equal, count⟩ :=
          inductionHypothesis (excess - COPY_SPACE_BLOCK_SIZE) (space.pageOutBlock block)
        refine ⟨empty, pagedOut, equal, ?_⟩
        have same : (space.pageOutBlock block).empty = space.empty := rfl
        rw [same] at count
        simp only [COPY_SPACE_BLOCK_SIZE, COPY_SPACE_REGION_SIZE] at count ⊢
        omega
      · obtain ⟨empty, pagedOut, equal, count⟩ :=
          inductionHypothesis excess (space.pushEmptyBlock block)
        refine ⟨empty, pagedOut, equal, ?_⟩
        have longer : (space.pushEmptyBlock block).empty.length = space.empty.length + 1 := rfl
        rw [longer] at count
        simp only [COPY_SPACE_BLOCK_SIZE, COPY_SPACE_REGION_SIZE] at count ⊢
        omega

theorem length_payloadBlocks (space : CopySpace) (slab : ℕ) :
    (space.payloadBlocks slab).length =
      COPY_SPACE_NONHEADER_BLOCKS_PER_SLAB - space.firstPayloadBlock := by
  simp [payloadBlocks]

theorem length_slabBlocks (space : CopySpace) (base count : ℕ) :
    ((slabsAt base count).flatMap space.payloadBlocks).length =
      count * (COPY_SPACE_NONHEADER_BLOCKS_PER_SLAB - space.firstPayloadBlock) := by
  rw [List.length_flatMap]
  simp only [length_payloadBlocks]
  rw [List.map_const', List.sum_replicate, smul_eq_mul]
  simp [slabsAt]

/-- The blocks that a space starts out with fit in its size: the header block of each slab comes
off it. -/
theorem payload_le (size nonheader : ℕ) (atMost : nonheader ≤ 511) :
    reservedSize (Nofl.alignUp size COPY_SPACE_BLOCK_SIZE) false / COPY_SPACE_SLAB_SIZE *
        nonheader * COPY_SPACE_BLOCK_SIZE -
      (reservedSize (Nofl.alignUp size COPY_SPACE_BLOCK_SIZE) false -
        Nofl.alignUp size COPY_SPACE_BLOCK_SIZE) ≤ size := by
  simp only [reservedSize, Bool.false_eq_true, if_false, Nofl.alignUp, COPY_SPACE_BLOCK_SIZE,
    COPY_SPACE_REGION_SIZE, COPY_SPACE_SLAB_SIZE]
  generalize nslabsEq : (((size + 2 * (64 * 1024) - 1) / (2 * (64 * 1024)) * (2 * (64 * 1024)) +
    2 * (64 * 1024) * 16 + 64 * 1024 * 1024 - 1) / (64 * 1024 * 1024)) = nslabs
  rw [Nat.mul_div_cancel _ (by omega)]
  have payload : nslabs * nonheader ≤ nslabs * 511 := Nat.mul_le_mul_left _ atMost
  omega

/-- A new space, with its empty blocks counted. -/
theorem init_eq (size base : ℕ) (hasFieldLoggingBits : Bool) :
    ∃ empty pagedOut, init size base false hasFieldLoggingBits =
        { bare (reservedSize (Nofl.alignUp size COPY_SPACE_BLOCK_SIZE) false /
            COPY_SPACE_SLAB_SIZE) hasFieldLoggingBits with
          empty := empty, pagedOut := pagedOut } ∧
      empty.length =
        reservedSize (Nofl.alignUp size COPY_SPACE_BLOCK_SIZE) false / COPY_SPACE_SLAB_SIZE *
            (COPY_SPACE_NONHEADER_BLOCKS_PER_SLAB - (bare (reservedSize (Nofl.alignUp size
              COPY_SPACE_BLOCK_SIZE) false / COPY_SPACE_SLAB_SIZE)
                hasFieldLoggingBits).firstPayloadBlock) -
          (reservedSize (Nofl.alignUp size COPY_SPACE_BLOCK_SIZE) false -
            Nofl.alignUp size COPY_SPACE_BLOCK_SIZE + COPY_SPACE_BLOCK_SIZE - 1) /
              COPY_SPACE_BLOCK_SIZE := by
  obtain ⟨empty, pagedOut, equal, count⟩ := initLoop_eq _ _ _
  refine ⟨empty, pagedOut, equal, ?_⟩
  rw [length_slabBlocks] at count
  exact count.trans (Nat.zero_add _)

theorem bytesToPageOut_init (size base : ℕ) (aligned hasFieldLoggingBits : Bool) :
    (init size base aligned hasFieldLoggingBits).bytesToPageOut = 0 := by
  unfold init
  obtain ⟨empty, pagedOut, equal, -⟩ := initLoop_eq _ _ _
  rw [equal]
  rfl

/-- A new space is worth no more than its blocks. -/
theorem value_init_le (size base : ℕ) (aligned hasFieldLoggingBits : Bool) :
    (init size base aligned hasFieldLoggingBits).value ≤
      ((init size base aligned hasFieldLoggingBits).blockCount * COPY_SPACE_BLOCK_SIZE : ℕ) := by
  rw [value, bytesToPageOut_init, sub_zero]
  exact_mod_cast Nat.mul_le_mul_right _ (Nat.le_add_right _ _)

theorem activeCount_init_le (size base : ℕ) (hasFieldLoggingBits : Bool) :
    (init size base false hasFieldLoggingBits).activeCount * COPY_SPACE_BLOCK_SIZE ≤ size := by
  have nonheader : COPY_SPACE_NONHEADER_BLOCKS_PER_SLAB = 511 := by decide
  obtain ⟨empty, pagedOut, equal, count⟩ := init_eq size base hasFieldLoggingBits
  rw [equal]
  show (empty.length + 0) * COPY_SPACE_BLOCK_SIZE ≤ size
  rw [Nat.add_zero, count]
  generalize payloadEq : COPY_SPACE_NONHEADER_BLOCKS_PER_SLAB - firstPayloadBlock _ = payload
  refine le_trans ?_ (payload_le size payload (by omega))
  generalize reservedSize _ _ / _ * payload = blocks
  simp only [COPY_SPACE_BLOCK_SIZE, COPY_SPACE_REGION_SIZE]
  omega

theorem addSlabs_keeps (space : CopySpace) (base count : ℕ) :
    (space.addSlabs base count).value = space.value ∧
      (space.addSlabs base count).blockCount = space.blockCount +
        count * (COPY_SPACE_NONHEADER_BLOCKS_PER_SLAB - space.firstPayloadBlock) := by
  have pushed : ∀ (blocks : List ℕ) (start : CopySpace),
      (blocks.foldl pushFreshBlock start).value = start.value ∧
        (blocks.foldl pushFreshBlock start).blockCount = start.blockCount + blocks.length := by
    intro blocks
    induction blocks with
    | nil => exact fun _ => ⟨rfl, rfl⟩
    | cons block rest inductionHypothesis =>
        intro start
        obtain ⟨value, count⟩ := inductionHypothesis (start.pushFreshBlock block)
        refine ⟨value, ?_⟩
        have one : (start.pushFreshBlock block).blockCount = start.blockCount + 1 :=
          congrArg (start.activeCount + ·) pagedOutCount_pageOutBlock
        rw [List.foldl_cons, count, one, List.length_cons]
        omega
  rw [← length_slabBlocks space base count]
  exact pushed _ _

/-- The blocks of a space after `copy_space_expand` by `bytes`. -/
def blockCountAfterExpand (space : CopySpace) (bytes : ℕ) : ℕ :=
  let reacquired := space.maybeReacquireMemory bytes
  if -reacquired.bytesToPageOut ≤ 0 then space.blockCount
  else space.blockCount + reacquired.newSlabs *
    (COPY_SPACE_NONHEADER_BLOCKS_PER_SLAB - space.firstPayloadBlock)

theorem firstPayloadBlock_congr {other : CopySpace}
    (same : other.hasFieldLoggingBits = space.hasFieldLoggingBits) :
    other.firstPayloadBlock = space.firstPayloadBlock := by
  rw [firstPayloadBlock, fieldLoggingBlocks, same]
  rfl

theorem expand_eq_next {expanded : CopySpace} {bytes base : ℕ}
    (grown : space.expand bytes base = .next expanded) :
    expanded.value = space.value + bytes ∧
      expanded.blockCount = space.blockCountAfterExpand bytes := by
  have adds := space.maybeReacquireMemory_adds bytes
  unfold expand at grown
  unfold blockCountAfterExpand
  dsimp only at grown ⊢
  split at grown
  next enough =>
    cases grown
    rw [if_pos enough]
    exact ⟨adds.value_eq, adds.blockCount_eq⟩
  next short =>
    rw [if_neg short]
    obtain ⟨-, rfl⟩ := reacquireMemory_eq_next.mp grown
    obtain ⟨value, count⟩ := (space.maybeReacquireMemory bytes).addSlabs_keeps base
      (space.maybeReacquireMemory bytes).newSlabs
    have final := maybeReacquireMemory_adds ((space.maybeReacquireMemory bytes).addSlabs base
      (space.maybeReacquireMemory bytes).newSlabs) 0
    rw [final.value_eq, final.blockCount_eq, value, count, adds.value_eq, adds.blockCount_eq,
      firstPayloadBlock_congr adds.logging_eq]
    exact ⟨by omega, rfl⟩

/-- `copy_space_expand` fails if and only if the space is then worth more than all of its blocks,
and slabs were added. -/
theorem expand_eq_failed {bytes base : ℕ} {assertion : ReacquireAssertion}
    (failed : space.expand bytes base = .failed assertion) :
    ((space.blockCountAfterExpand bytes + 1) * COPY_SPACE_BLOCK_SIZE : ℕ) ≤
      space.value + bytes := by
  have adds := space.maybeReacquireMemory_adds bytes
  unfold expand at failed
  unfold blockCountAfterExpand
  dsimp only at failed ⊢
  split at failed
  · cases failed
  next short =>
    rw [if_neg short]
    have tooMuch := reacquireMemory_eq_failed.mp failed
    obtain ⟨value, count⟩ := (space.maybeReacquireMemory bytes).addSlabs_keeps base
      (space.maybeReacquireMemory bytes).newSlabs
    rw [value, count, adds.value_eq, adds.blockCount_eq,
      firstPayloadBlock_congr adds.logging_eq] at tooMuch
    simpa using tooMuch

end Slabs

end CopySpace

end Whippet.Pcc
