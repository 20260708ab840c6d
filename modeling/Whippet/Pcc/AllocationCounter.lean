import Whippet.AllocationCounter
import Whippet.Pcc.BlockRuns

/-!
What a copy space adds to the allocation counter of pcc.

The space counts what is allocated in a block when an allocator gives the block up. The counter gets
the difference to what was allocated at the end of the last collection.

Owns: `copy_space_add_to_allocation_counter`. Does not own: the old space of a generational heap,
in which mutators do not allocate.
-/

namespace Whippet.Pcc

open Counting Tables

namespace SharedAction

/-- The actions of `copy_space_flip` and `copy_space_finish_gc`. -/
def isCollection : SharedAction → Bool
  | .flip | .finishGc _ => true
  | _ => false

def endsCollection : SharedAction → Bool
  | .finishGc _ => true
  | _ => false

end SharedAction

namespace SharedSpace

variable (space : SharedSpace)

/-- `copy_space_add_to_allocation_counter`. -/
def addToAllocationCounter (counter : Word) : Word :=
  counter + (BitVec.ofNat 64 space.allocatedBytes - BitVec.ofNat 64 space.allocatedBytesAtLastGc)

def bytesSinceLastCollection : ℕ := space.allocatedBytes - space.allocatedBytesAtLastGc

/-- Between collections, the space has not less allocated than at the end of the last one. -/
structure Idle : Prop where
  notInGc : space.blocks.inGc = false
  atLastGc_le : space.allocatedBytesAtLastGc ≤ space.allocatedBytes

end SharedSpace

def copySpaceCounters : SmallSpace SharedWorld SharedAction :=
  { initial := sharedSystem.initial
    step := SharedWorld.step
    isCollection := SharedAction.isCollection
    endsCollection := SharedAction.endsCollection
    addToAllocationCounter := fun world => world.space.addToAllocationCounter
    bytesSinceLastCollection := fun world => world.space.bytesSinceLastCollection }

section Steps

variable {space after : SharedSpace} {world next : SharedWorld} {stage : AllocatorStage}
variable {turn : Turn} {action : SharedAction}

/-- The space is not in a collection, and allocates. -/
structure Allocates (before after : SharedSpace) : Prop where
  inGc_eq : after.blocks.inGc = before.blocks.inGc
  allocated_le : before.allocatedBytes ≤ after.allocatedBytes
  atLastGc_eq : after.allocatedBytesAtLastGc = before.allocatedBytesAtLastGc

theorem Allocates.idle (allocates : Allocates space after) (idle : space.Idle) :
    after.Idle ∧ space.bytesSinceLastCollection ≤ after.bytesSinceLastCollection := by
  have ordered := allocates.allocated_le
  have same := allocates.atLastGc_eq
  refine ⟨⟨allocates.inGc_eq.trans idle.notInGc, ?_⟩, ?_⟩
  · rw [same]
    exact idle.atLastGc_le.trans ordered
  · rw [SharedSpace.bytesSinceLastCollection, SharedSpace.bytesSinceLastCollection, same]
    exact Nat.sub_le_sub_right ordered _

theorem Move.allocates (move : Move space stage turn) : Allocates space turn.space := by
  refine ⟨move.hands.inGc_eq, ?_, ?_⟩
  · cases move with
    | countFull | countWrapped | countPartlyFull => exact Nat.le_add_right _ _
    | @pushFull block =>
        obtain ⟨isSurvivor, pushedEq⟩ := pushFullBlock_eq space block
        rw [pushedEq]
    | @popEmpty block size popped found =>
        obtain ⟨blocks, -, rfl⟩ := popEmptyBlock_eq_some found
        exact le_rfl
    | wait | bump | pushPartlyFull | popPartlyFull | pageIn => exact le_rfl
  · cases move with
    | @pushFull block =>
        obtain ⟨isSurvivor, pushedEq⟩ := pushFullBlock_eq space block
        rw [pushedEq]
    | @popEmpty block size popped found =>
        obtain ⟨blocks, -, rfl⟩ := popEmptyBlock_eq_some found
        rfl
    | _ => rfl

theorem allocates_of_repages {blocks : CopySpace}
    (repages : CopySpace.Repages space.blocks blocks) :
    Allocates space { space with blocks := blocks } :=
  ⟨repages.inGc_eq, le_rfl, rfl⟩

/-- Outside of a collection, an allocator takes its turn or blocks are paged. -/
theorem allocates_of_step {ref : Option ℕ} (invariant : world.Invariant)
    (outside : action.isCollection = false)
    (stepped : world.stepWithRef action = .next (next, ref)) :
    Allocates world.space next.space := by
  cases sharedMove_of_step invariant stepped with
  | turn isTurn found move => exact move.allocates
  | flip | finishGc => cases outside
  | repage repages => exact allocates_of_repages repages
  | pageOut paged =>
      unfold SharedSpace.pageOutOne at paged
      split at paged
      · cases paged
      next block popped found =>
        cases paged
        obtain ⟨blocks, foundEq, rfl⟩ := popEmptyBlock_eq_some found
        have repages := (CopySpace.pageOutBlock_repages foundEq).trans
          (CopySpace.addToPageOut_repages _ (-COPY_SPACE_BLOCK_SIZE))
        exact ⟨repages.inGc_eq, le_rfl, rfl⟩
  | @addSlabs action base count =>
      obtain ⟨-, -, inGc, -, -⟩ := CopySpace.addSlabs_spec world.space.blocks base count
      exact ⟨inGc, le_rfl, rfl⟩

theorem idle_of_finishGc (isMinorGc : Bool) :
    (space.finishGc isMinorGc).Idle ∧
      (space.finishGc isMinorGc).bytesSinceLastCollection = 0 :=
  ⟨⟨rfl, le_rfl⟩, Nat.sub_self _⟩

theorem copySpaceCounters_counts :
    copySpaceCounters.Counts SharedWorld.Invariant (fun world => world.space.Idle) where
  initially := by
    intro world initial
    have invariant := reachable_accounts (.initial initial)
    obtain ⟨size, base, aligned, hasFieldLoggingBits, count, slabAligned, rfl⟩ := initial
    refine ⟨invariant, ⟨?_, le_rfl⟩, rfl⟩
    exact (CopySpace.initLoop_places _ _ (CopySpace.bare _ hasFieldLoggingBits)).2.1
  keeps := by
    intro world action next invariant stepped
    obtain ⟨⟨middle, ref⟩, withRef, rest⟩ := Outcome.bind_eq_next.mp stepped
    cases rest
    exact invariant.stepWithRef withRef
  grows := by
    intro world action next invariant idle outside stepped
    obtain ⟨⟨middle, ref⟩, withRef, rest⟩ := Outcome.bind_eq_next.mp stepped
    cases rest
    exact (allocates_of_step invariant outside withRef).idle idle
  ends := by
    intro world action next ends stepped
    obtain ⟨⟨middle, ref⟩, withRef, rest⟩ := Outcome.bind_eq_next.mp stepped
    cases rest
    cases action with
    | finishGc isMinorGc =>
        simp only [SharedWorld.stepWithRef, Outcome.require_bind_eq_next] at withRef
        obtain ⟨-, finished⟩ := withRef
        cases finished
        exact idle_of_finishGc isMinorGc
    | _ => cases ends
  adds := by
    intro world counter idle
    have split : world.space.allocatedBytes =
        world.space.bytesSinceLastCollection + world.space.allocatedBytesAtLastGc :=
      (Nat.sub_add_cancel idle.atLastGc_le).symm
    show world.space.addToAllocationCounter counter =
      counter + BitVec.ofNat 64 world.space.bytesSinceLastCollection
    rw [SharedSpace.addToAllocationCounter, split, BitVec.ofNat_add, BitVec.add_sub_cancel]

end Steps

end Whippet.Pcc
