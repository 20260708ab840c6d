import Whippet.AllocationCounter
import Whippet.Nofl.AllocatedGranules

/-!
What the nofl space adds to the allocation counter of mmc.

The space counts the holes of the blocks that allocators release as full, and the objects that they
place in the fragments of other blocks on a second chance. Both counts end with the collection.

Owns: `nofl_space_add_to_allocation_counter` with the counters it reads. Does not own: which
fragments there are.
-/

namespace Whippet.Mmc

open Counting Nofl Tables

/-- The blocks of the space, and `second_chance_granules_since_last_collection`. -/
structure NoflCounters where
  world : BlockWorld
  secondChanceGranules : ℕ

inductive NoflAction where
  | blocks (action : BlockAction)
  /-- `nofl_allocate_slow` after `nofl_allocate_second_chance` found a fragment. -/
  | secondChance (granules : ℕ)

namespace NoflAction

/-- The actions of `nofl_space_start_gc` and `nofl_space_finish_gc`. -/
def isCollection : NoflAction → Bool
  | .blocks action => decide action.IsCollection
  | .secondChance _ => false

def endsCollection : NoflAction → Bool
  | .blocks (.finishGc _ _ _) => true
  | _ => false

end NoflAction

namespace NoflCounters

variable (space : NoflCounters)

def step : NoflAction → Outcome Empty NoflCounters
  | .blocks action => do
      let world ← blockStep space.world action
      -- `nofl_space_reset_statistics`.
      pure
        { world := world
          secondChanceGranules :=
            if (NoflAction.blocks action).endsCollection = true then 0
            else space.secondChanceGranules }
  | .secondChance granules =>
      pure { space with secondChanceGranules := space.secondChanceGranules + granules }

/-- `nofl_space_add_to_allocation_counter`. -/
def addToAllocationCounter (counter : Word) : Word :=
  let allocated := BitVec.ofNat 64 space.world.space.allocatedGranules
  let secondChance := BitVec.ofNat 64 space.secondChanceGranules
  counter + (allocated + secondChance) * BitVec.ofNat 64 NOFL_GRANULE_SIZE

def bytesSinceLastCollection : ℕ :=
  (space.world.space.allocatedGranules + space.secondChanceGranules) * NOFL_GRANULE_SIZE

end NoflCounters

def noflCounters : SmallSpace NoflCounters NoflAction :=
  { initial := fun space => blockSystem.initial space.world ∧ space.secondChanceGranules = 0
    step := NoflCounters.step
    isCollection := NoflAction.isCollection
    endsCollection := NoflAction.endsCollection
    addToAllocationCounter := NoflCounters.addToAllocationCounter
    bytesSinceLastCollection := NoflCounters.bytesSinceLastCollection }

section Steps

variable {space after : NoflCounters} {action : NoflAction}

theorem bytes_le_of_noflStep (notCollection : action.isCollection = false)
    (stepped : space.step action = .next after) :
    space.bytesSinceLastCollection ≤ after.bytesSinceLastCollection := by
  cases action with
  | blocks action =>
      have outside : ¬action.IsCollection := of_decide_eq_false notCollection
      have notEnd : (NoflAction.blocks action).endsCollection = false := by
        cases action <;> first | rfl | exact absurd trivial outside
      simp only [NoflCounters.step, notEnd, Bool.false_eq_true, if_false, Outcome.bind_eq_next,
        Outcome.pure_eq_next, Outcome.next.injEq] at stepped
      obtain ⟨world, blocksStep, rfl⟩ := stepped
      have grown := BlockWorld.allocatedGranules_le outside blocksStep
      exact Nat.mul_le_mul_right _ (Nat.add_le_add_right grown _)
  | secondChance granules =>
      obtain rfl := Outcome.next.inj stepped
      exact Nat.mul_le_mul_right _ (Nat.add_le_add_left (Nat.le_add_right _ _) _)

theorem bytes_eq_zero_of_noflStep (ends : action.endsCollection = true)
    (stepped : space.step action = .next after) : after.bytesSinceLastCollection = 0 := by
  cases action with
  | blocks action =>
      simp only [NoflCounters.step, ends, if_true, Outcome.bind_eq_next, Outcome.pure_eq_next,
        Outcome.next.injEq] at stepped
      obtain ⟨world, blocksStep, rfl⟩ := stepped
      cases action with
      | finishGc kind marked holes =>
          rw [NoflCounters.bytesSinceLastCollection,
            BlockWorld.allocatedGranules_finishGc blocksStep]
          rfl
      | _ => cases ends
  | secondChance granules => cases ends

theorem noflCounters_counts : noflCounters.Counts (fun _ => True) (fun _ => True) where
  initially := by
    intro space initial
    obtain ⟨⟨fresh, -⟩, none⟩ := initial
    refine ⟨trivial, trivial, ?_⟩
    show space.bytesSinceLastCollection = 0
    rw [NoflCounters.bytesSinceLastCollection, allocatedGranules_fresh fresh, none]
    rfl
  keeps := fun _ _ _ _ _ => trivial
  grows := fun _ _ _ _ _ outside stepped => ⟨trivial, bytes_le_of_noflStep outside stepped⟩
  ends := fun _ _ _ ends stepped => ⟨trivial, bytes_eq_zero_of_noflStep ends stepped⟩
  adds := by
    intro space counter _
    show space.addToAllocationCounter counter = _
    rw [NoflCounters.addToAllocationCounter, ← BitVec.ofNat_add, ← BitVec.ofNat_mul]
    rfl

end Steps

end Whippet.Mmc
