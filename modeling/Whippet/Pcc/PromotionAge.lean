import Whippet.Pcc.BlockRuns

/-!
The ages of the objects in the nursery of a generational pcc (`copy-space.h`, `pcc.c`).

A minor collection copies an object within the nursery the first time it survives, and promotes it
the next time. What it goes by is a flag of the region of the block that the object is in: the
collection's allocators set it, and it is reset when a mutator's allocator takes the block.

Owns: `copy_space_should_promote`, the nursery with its objects and how many minor collections each
of them survived there, and which of the objects a collection copies, promotes and drops. Does not
own: which objects are live, and the old space.
-/

namespace Whippet.Pcc

open Function

/-! ## Objects -/

/-- The assertions of `copy_space_should_promote`. -/
inductive ShouldPromoteAssertion where
  /-- `copy_space_contains(space, ref)`. -/
  | contains
  /-- `copy_space_object_region(ref) == space->active_region ^ 1`. -/
  | region
  deriving DecidableEq, Repr

def copySpaceObjectRegion (address : ℕ) : Bool :=
  decide (address / COPY_SPACE_REGION_SIZE % 2 = 1)

def copySpaceBlockForAddr (address : ℕ) : ℕ :=
  address / COPY_SPACE_BLOCK_SIZE * COPY_SPACE_BLOCK_SIZE

namespace SharedSpace

/-- `copy_space_contains_address`: the extents of a space are its slabs. -/
def containsAddress (space : SharedSpace) (address : ℕ) : Bool :=
  decide (address / COPY_SPACE_SLAB_SIZE * COPY_SPACE_SLAB_SIZE ∈ space.slabs)

/-- `copy_space_should_promote`. -/
def shouldPromote (space : SharedSpace) (address : ℕ) : Outcome ShouldPromoteAssertion Bool := do
  Outcome.check (space.containsAddress address = true) .contains
  Outcome.check (copySpaceObjectRegion address = !space.activeRegion) .region
  pure (space.isSurvivor (copySpaceBlockForAddr address) (!space.activeRegion))

end SharedSpace

/-- An object in the nursery. -/
structure AgedObject where
  address : ℕ
  /-- The collections that had ended when it was allocated. -/
  born : ℕ
  /-- The minor collections that it survived in the nursery. -/
  survived : ℕ
  deriving DecidableEq, Repr

def AgedObject.region (object : AgedObject) : Bool := copySpaceObjectRegion object.address

def AgedObject.block (object : AgedObject) : ℕ := copySpaceBlockForAddr object.address

/-! ## The nursery -/

structure AgedWorld where
  shared : SharedWorld
  objects : List AgedObject
  /-- What the trace workers are about to copy, with the indexes of their allocators. -/
  copying : List (ℕ × AgedObject)
  isMinorGc : Bool
  /-- The collections that have ended. -/
  collections : ℕ

inductive AgedAction where
  /-- A mutator's allocation, a turn of an allocator, or paging. -/
  | shared (action : SharedAction)
  | startGc (isMinorGc : Bool)
  /-- `do_minor_trace` for an object that is not to be promoted, up to the first turn of
  `copy_space_allocate`. -/
  | evacuate (index : ℕ) (object : AgedObject) (size : ℕ)
  /-- The object is copied to the old space. -/
  | promote (object : AgedObject)
  | finishGc
  deriving DecidableEq, Repr

namespace AgedWorld

variable (world : AgedWorld)

def space : SharedSpace := world.shared.space

def inGc : Bool := world.space.blocks.inGc

/-- The allocator at `index` has got an address for the object that it is to copy, or for a new
one. -/
def returned (index address : ℕ) : AgedWorld :=
  match world.copying.find? fun claim => claim.1 = index with
  | some (_, object) =>
      { world with
        objects := { object with address := address, survived := object.survived + 1 } ::
          world.objects.erase object
        copying := world.copying.filter fun claim => claim.1 ≠ index }
  | none =>
      { world with
        objects := { address := address, born := world.collections, survived := 0 } ::
          world.objects }

/-- A turn that may be the last of an allocation: it returns an address, or a null reference. -/
def afterTurn (index : ℕ) (ref : Option ℕ) : AgedWorld :=
  match ref with
  | some address => world.returned index address
  | none =>
      if world.shared.allocators[index]? = some .idle then
        { world with copying := world.copying.filter fun claim => claim.1 ≠ index }
      else world

def shareStep (action : SharedAction) : Outcome Empty AgedWorld := do
  let (shared, ref) ← world.shared.stepWithRef action
  let stepped := { world with shared := shared }
  match action with
  | .allocate index _ | .continue index | .finish index => pure (stepped.afterTurn index ref)
  | _ => pure stepped

def step : AgedAction → Outcome Empty AgedWorld
  | .shared action =>
      match action with
      | .flip | .finishGc _ => .disabled
      | .allocate _ _ => do
          Outcome.require (world.inGc = false)
          world.shareStep action
      | _ => world.shareStep action
  | .startGc isMinorGc => do
      let started ← world.shareStep .flip
      pure { started with isMinorGc := isMinorGc }
  | .evacuate index object size => do
      Outcome.require (world.inGc = true ∧ world.isMinorGc = true)
      Outcome.require (object ∈ world.objects ∧ ∀ claim ∈ world.copying, claim.2 ≠ object)
      Outcome.require (object.region = !world.space.activeRegion)
      Outcome.require (world.space.shouldPromote object.address = .next false)
      { world with copying := (index, object) :: world.copying }.shareStep (.allocate index size)
  | .promote object => do
      Outcome.require (world.inGc = true)
      Outcome.require (object ∈ world.objects ∧ ∀ claim ∈ world.copying, claim.2 ≠ object)
      Outcome.require (object.region = !world.space.activeRegion)
      pure { world with objects := world.objects.erase object }
  | .finishGc => do
      Outcome.require (world.copying = [])
      let finished ← world.shareStep (.finishGc world.isMinorGc)
      pure { finished with
        objects := world.objects.filter fun object => object.region = world.space.activeRegion
        collections := world.collections + 1 }

end AgedWorld

/-- The nursery of a heap that has just been made. -/
def agedSystem : System AgedWorld AgedAction Empty :=
  { initial := fun world => ∃ shared, sharedSystem.initial shared ∧
      world = { shared := shared, objects := [], copying := [], isMinorGc := false,
                collections := 0 }
    step := AgedWorld.step }

end Whippet.Pcc
