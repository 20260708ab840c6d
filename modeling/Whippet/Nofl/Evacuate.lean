import Whippet.Library.Checked
import Whippet.Nofl.Metadata
import Whippet.Nofl.Space

/-!
Visits to one object of the nofl space by the workers of a trace (`nofl-space.h`).

One action is one atomic step of one visit: a load, store, swap or compare-exchange of the
object's metadata byte, an access to its forwarding word, or one of the plain writes between them.
A visit's local variables are in its phase, and what a visit computes from them happens with the
step before.

Owns: `nofl_space_evacuate_or_mark_object` with `nofl_space_evacuate` and `nofl_space_set_mark`,
`nofl_space_mark_object` and `nofl_space_forward_or_mark_if_traced`. Does not own: where
`nofl_evacuation_allocate` finds memory, and which edges there are to visit.
-/

namespace Whippet.Nofl

open Function

/-- The memory that visits read and write. -/
structure Memory where
  /-- The word at an address. -/
  words : ℕ → ℕ
  /-- The metadata byte of a granule. -/
  metadata : ℕ → Byte
  /-- The mark of a block. -/
  blockMarks : ℕ → Bool

/-- The number of the granule that `nofl_metadata_byte_for_addr` finds the byte of. -/
def granuleOf (addr : ℕ) : ℕ := addr / NOFL_GRANULE_SIZE

def blockOf (addr : ℕ) : ℕ := addr / NOFL_BLOCK_SIZE

/-- The address is in `granules` granules from `start` on. -/
def Within (addr start granules : ℕ) : Prop :=
  start ≤ addr ∧ addr < start + granules * NOFL_GRANULE_SIZE

instance (addr start granules : ℕ) : Decidable (Within addr start granules) :=
  inferInstanceAs (Decidable (_ ∧ _))

namespace Memory

variable (memory : Memory)

/-- The metadata byte of an object. -/
def head (ref : ℕ) : Byte := memory.metadata (granuleOf ref)

def setHead (ref : ℕ) (byte : Byte) : Memory :=
  { memory with metadata := update memory.metadata (granuleOf ref) byte }

/-- `gc_edge_update`, and the store of a forwarding pointer. -/
def setWord (addr value : ℕ) : Memory :=
  { memory with words := update memory.words addr value }

/-- `memcpy` of an object's contents. -/
def copyWords (source target granules : ℕ) : Memory :=
  { memory with
    words := fun addr =>
      if Within addr target granules then memory.words (source + (addr - target))
      else memory.words addr }

/-- `memcpy` of the metadata bytes of an object after its first. -/
def copyMetadata (source target granules : ℕ) : Memory :=
  { memory with
    metadata := fun granule =>
      if granuleOf target < granule ∧ granule < granuleOf target + granules then
        memory.metadata (granuleOf source + (granule - granuleOf target))
      else memory.metadata granule }

/-- The loop of `clear_logged_bits_in_evacuated_object`. -/
def clearLoggedBits (target granules : ℕ) : Memory :=
  { memory with
    metadata := fun granule =>
      if granuleOf target < granule ∧ granule < granuleOf target + granules then
        memory.metadata granule &&& ~~~NOFL_METADATA_BYTE_LOGGED_MASK
      else memory.metadata granule }

/-- `nofl_block_set_mark`. -/
def noflBlockSetMark (addr : ℕ) : Memory :=
  { memory with blockMarks := update memory.blockMarks (blockOf addr) true }

section Access

variable {memory : Memory} {ref addr other value granule : ℕ} {byte : Byte}

@[simp] theorem head_setHead : (memory.setHead ref byte).head ref = byte :=
  update_self _ _ _

@[simp] theorem words_setHead : (memory.setHead ref byte).words = memory.words := rfl

theorem metadata_setHead_of_ne (different : granule ≠ granuleOf ref) :
    (memory.setHead ref byte).metadata granule = memory.metadata granule :=
  update_of_ne different _ _

@[simp] theorem words_setWord : (memory.setWord addr value).words addr = value :=
  update_self _ _ _

@[simp] theorem metadata_setWord : (memory.setWord addr value).metadata = memory.metadata := rfl

theorem words_setWord_of_ne (different : other ≠ addr) :
    (memory.setWord addr value).words other = memory.words other :=
  update_of_ne different _ _

end Access

end Memory

/-- The fields of the space that visits read. They stay the same during a trace. -/
structure TraceSpace where
  currentMark : Byte
  survivorMark : Byte
  currentMark_mem : currentMark ∈
    [NOFL_METADATA_BYTE_MARK_0, NOFL_METADATA_BYTE_MARK_1, NOFL_METADATA_BYTE_MARK_2]
  survivorMark_mem : survivorMark ∈
    [NOFL_METADATA_BYTE_MARK_0, NOFL_METADATA_BYTE_MARK_1, NOFL_METADATA_BYTE_MARK_2]
  evacuating : Bool
  heapHasAmbiguousEdges : Bool
  /-- The blocks with the flag `NOFL_BLOCK_EVACUATE`. -/
  evacuate : ℕ → Bool
  /-- `GC_GENERATIONAL`. -/
  generational : Bool

inductive VisitAssertion where
  /-- `nofl_space_set_nonempty_mark`: the object is young or has the survivor mark. -/
  | youngOrSurvivor
  /-- `nofl_space_mark_object`: the object should not be evacuated. -/
  | notEvacuated
  deriving DecidableEq, Repr

/-- What visits an edge to the object. -/
inductive VisitKind where
  /-- `nofl_space_evacuate_or_mark_object`. -/
  | relocatable
  /-- `nofl_space_mark_object`. -/
  | pinned
  /-- `nofl_space_forward_or_mark_if_traced`, for the key of an ephemeron. -/
  | key
  deriving DecidableEq, Repr

/-- What a visit does next. `byte` is the metadata byte as it was first loaded. -/
inductive Phase where
  | loading
  /-- The swap of `nofl_space_set_mark`. -/
  | marking (byte : Byte)
  /-- The compare-exchange of `nofl_space_evacuate`. -/
  | claiming (byte : Byte)
  | allocating (byte : Byte)
  /-- The store of the marked byte, after a failed allocation. -/
  | aborting (byte : Byte)
  | copying (byte : Byte) (granules newRef : ℕ)
  | storingForwardingPointer (byte : Byte) (granules newRef : ℕ)
  /-- The store of the forwarded byte. -/
  | committing (byte : Byte) (granules newRef : ℕ)
  | copyingMetadata (byte : Byte) (granules newRef : ℕ)
  | clearingLoggedBits (byte : Byte) (granules newRef : ℕ)
  /-- The store of the new object's metadata byte, `byte`. -/
  | storingMetadata (byte : Byte) (newRef : ℕ)
  /-- `nofl_block_set_mark`, and then the update of the edge if the object has moved. -/
  | settingBlockMark (addr : ℕ) (moved : Bool)
  /-- The loop that waits while the byte last loaded, `seen`, is the busy byte. -/
  | waiting (byte seen : Byte)
  /-- `gc_edge_update`, before the visit returns `result`. -/
  | updatingEdge (newRef : ℕ) (result : Bool)
  | returned (result : Bool)
  deriving DecidableEq, Repr

structure Visit where
  kind : VisitKind
  /-- The address of the edge. -/
  edge : ℕ
  phase : Phase
  deriving DecidableEq, Repr

def busyByte (byte : Byte) : Byte := withMark byte NOFL_METADATA_BYTE_BUSY

def forwardedByte (byte : Byte) : Byte := withMark byte NOFL_METADATA_BYTE_FORWARDED

namespace TraceSpace

variable (space : TraceSpace)

def noflSpaceShouldEvacuate (metadataByte : Byte) (ref : ℕ) : Bool :=
  if space.heapHasAmbiguousEdges then false
  else if !space.evacuating then false
  else if metadataByte &&& NOFL_METADATA_BYTE_PINNED ≠ 0 then false
  else space.evacuate (blockOf ref)

/-- What `nofl_space_set_mark` stores. -/
def setMarkByte (byte : Byte) : Byte :=
  (byte &&& ~~~NOFL_METADATA_BYTE_MARK_MASK) ||| space.currentMark

def markedByte (byte : Byte) : Byte := withMark byte space.currentMark

/-- The byte of the new object. -/
def newByte (byte : Byte) : Byte :=
  if space.generational then space.markedByte byte &&& ~~~NOFL_METADATA_BYTE_LOGGED_MASK
  else space.markedByte byte

/-- `nofl_space_evacuate` up to its compare-exchange. -/
def noflSpaceEvacuate (byte : Byte) : Phase :=
  if noflMetadataByteIsYoungOrHasMark byte space.survivorMark then .claiming byte
  else .waiting byte byte

/-- `nofl_space_evacuate_or_mark_object`, after the load. -/
def noflSpaceEvacuateOrMarkObject (byte : Byte) (ref : ℕ) : Phase :=
  if noflMetadataByteHasMark byte space.currentMark then .returned false
  else if space.noflSpaceShouldEvacuate byte ref then space.noflSpaceEvacuate byte
  else .marking byte

/-- `nofl_space_mark_object`, after the load. -/
def noflSpaceMarkObject (byte : Byte) (ref : ℕ) : Outcome VisitAssertion Phase :=
  if noflMetadataByteHasMark byte space.currentMark then pure (.returned false)
  else do
    Outcome.check (space.noflSpaceShouldEvacuate byte ref = false) .notEvacuated
    pure (.marking byte)

/-- What follows the loop that waits for the byte not to be busy. -/
def afterWaiting (memory : Memory) (ref : ℕ) (kind : VisitKind) (byte seen : Byte) : Phase :=
  if seen = forwardedByte byte then .updatingEdge (memory.words ref) (kind == .key)
  else if kind = .key then .returned (noflMetadataByteHasMark seen space.currentMark)
  else .returned false

/-- `nofl_space_set_mark`, and the assertion of `nofl_space_set_nonempty_mark`. -/
def noflSpaceSetNonemptyMark (memory : Memory) (ref : ℕ) (byte : Byte) :
    Outcome VisitAssertion (Memory × Phase) := do
  let previous := memory.head ref
  let marked := memory.setHead ref (space.setMarkByte byte)
  if space.setMarkByte byte = previous then pure (marked, .returned false)
  else
    Outcome.check (noflMetadataByteIsYoungOrHasMark byte space.survivorMark = true)
      .youngOrSurvivor
    pure (marked, .settingBlockMark ref false)

/-- One step of a visit to the object at `ref`, but for the allocation. -/
def advance (memory : Memory) (ref : ℕ) (visit : Visit) :
    Outcome VisitAssertion (Memory × Phase) :=
  match visit.phase with
  | .loading =>
      let byte := memory.head ref
      match visit.kind with
      | .relocatable => pure (memory, space.noflSpaceEvacuateOrMarkObject byte ref)
      | .pinned => do
          let phase ← space.noflSpaceMarkObject byte ref
          pure (memory, phase)
      | .key => pure (memory, .waiting byte byte)
  | .marking byte => space.noflSpaceSetNonemptyMark memory ref byte
  | .claiming byte =>
      if memory.head ref = byte then pure (memory.setHead ref (busyByte byte), .allocating byte)
      else pure (memory, .waiting byte (memory.head ref))
  | .allocating _ => .disabled
  | .aborting byte => pure (memory.setHead ref (space.markedByte byte), .settingBlockMark ref false)
  | .copying byte granules newRef =>
      pure (memory.copyWords ref newRef granules, .storingForwardingPointer byte granules newRef)
  | .storingForwardingPointer byte granules newRef =>
      pure (memory.setWord ref newRef, .committing byte granules newRef)
  | .committing byte granules newRef =>
      pure (memory.setHead ref (forwardedByte byte), .copyingMetadata byte granules newRef)
  | .copyingMetadata byte granules newRef =>
      pure (memory.copyMetadata ref newRef granules, .clearingLoggedBits byte granules newRef)
  | .clearingLoggedBits byte granules newRef =>
      pure (if space.generational then memory.clearLoggedBits newRef granules else memory,
        .storingMetadata (space.newByte byte) newRef)
  | .storingMetadata byte newRef =>
      pure (memory.setHead newRef byte, .settingBlockMark newRef true)
  | .settingBlockMark addr moved =>
      pure (memory.noflBlockSetMark addr,
        if moved then .updatingEdge addr true else .returned true)
  | .waiting byte seen =>
      if seen = busyByte byte then pure (memory, .waiting byte (memory.head ref))
      else pure (memory, space.afterWaiting memory ref visit.kind byte seen)
  | .updatingEdge newRef result => pure (memory.setWord visit.edge newRef, .returned result)
  | .returned _ => .disabled

end TraceSpace

/-- A live object that is not yet traced, and the memory it is in. -/
structure LiveObject (space : TraceSpace) where
  memory : Memory
  ref : ℕ
  granules : ℕ
  aligned : NOFL_GRANULE_SIZE ∣ ref
  positive : 0 < granules
  bounded : granules < SIZE_MAX
  ends : memory.metadata (granuleOf ref + (granules - 1)) &&& NOFL_METADATA_BYTE_END ≠ 0
  goesOn : ∀ offset < granules - 1,
    memory.metadata (granuleOf ref + offset) &&& NOFL_METADATA_BYTE_END = 0
  live : noflMetadataByteIsYoungOrHasMark (memory.head ref) space.survivorMark = true
  untraced : noflMetadataByteHasMark (memory.head ref) space.currentMark = false

/-- The memory, the visits that have begun, and what `nofl_evacuation_allocate` has returned. -/
structure VisitWorld where
  memory : Memory
  visits : List Visit
  allocations : List (Option ℕ)

/-- The visit found the object to be newly traced. -/
def Visit.NewlyTraced (visit : Visit) : Prop :=
  visit.kind ≠ .key ∧ visit.phase = .returned true

instance (visit : Visit) : Decidable visit.NewlyTraced := inferInstanceAs (Decidable (_ ∧ _))

namespace VisitWorld

variable (world : VisitWorld) (ref granules : ℕ)

/-- A visit has returned that the object is newly traced. -/
def Traced : Prop := ∃ visit ∈ world.visits, visit.NewlyTraced

instance : Decidable world.Traced := inferInstanceAs (Decidable (∃ visit ∈ _, _))

/-- Where the object is in the end: where it was copied to, if an allocation for it succeeded. -/
def finalAddress : ℕ := (world.allocations.findSome? id).getD ref

/-- The edge is in the object or in memory that was allocated for its copy. -/
def InObject (edge : ℕ) : Prop :=
  Within edge ref granules ∨ Within edge (world.finalAddress ref) granules

instance (edge : ℕ) : Decidable (world.InObject ref granules edge) :=
  inferInstanceAs (Decidable (_ ∨ _))

/-- An object's own fields are visited only after it was found to be newly traced, and where it
is then. -/
def Visitable (edge : ℕ) : Prop :=
  world.InObject ref granules edge →
    world.Traced ∧ Within edge (world.finalAddress ref) granules

instance (edge : ℕ) : Decidable (world.Visitable ref granules edge) :=
  inferInstanceAs (Decidable (_ → _))

/-- Memory for a copy that is apart from the object and from the edges that are being visited. -/
def Fresh (newRef : ℕ) : Prop :=
  NOFL_GRANULE_SIZE ∣ newRef ∧
    (newRef + granules * NOFL_GRANULE_SIZE ≤ ref ∨
      ref + granules * NOFL_GRANULE_SIZE ≤ newRef) ∧
    ∀ visit ∈ world.visits, ¬Within visit.edge newRef granules

instance (newRef : ℕ) : Decidable (world.Fresh ref granules newRef) :=
  inferInstanceAs (Decidable (_ ∧ _ ∧ _))

end VisitWorld

inductive VisitAction where
  /-- A worker comes upon an edge to the object. -/
  | begin (kind : VisitKind) (edge : ℕ)
  /-- The visit at `index` takes a step. -/
  | advance (index : ℕ)
  /-- The visit at `index` gets `result` from `nofl_evacuation_allocate`. -/
  | allocate (index : ℕ) (result : Option ℕ)
  deriving DecidableEq, Repr

section Step

variable (space : TraceSpace) (object : LiveObject space)

/-- Pinned roots are traced before evacuation starts. -/
def beginVisit (world : VisitWorld) (kind : VisitKind) (edge : ℕ) :
    Outcome VisitAssertion VisitWorld := do
  Outcome.require (world.memory.words edge = object.ref)
  Outcome.require (world.Visitable object.ref object.granules edge)
  Outcome.require (kind = .pinned → space.evacuating = false)
  pure { world with visits := world.visits ++ [{ kind := kind, edge := edge, phase := .loading }] }

def advanceVisit (world : VisitWorld) (index : ℕ) (visit : Visit) :
    Outcome VisitAssertion VisitWorld := do
  let advanced ← space.advance world.memory object.ref visit
  pure { world with
    memory := advanced.1
    visits := world.visits.set index { visit with phase := advanced.2 } }

/-- The allocation of `nofl_space_evacuate`. -/
def allocateFor (world : VisitWorld) (index : ℕ) (visit : Visit) (byte : Byte) :
    Option ℕ → Outcome VisitAssertion VisitWorld
  | none =>
      pure { world with
        visits := world.visits.set index { visit with phase := .aborting byte }
        allocations := world.allocations ++ [none] }
  | some newRef => do
      let granules := noflSpaceLiveObjectGranules world.memory.metadata (granuleOf object.ref)
      Outcome.require (world.Fresh object.ref granules newRef)
      pure { world with
        visits := world.visits.set index { visit with phase := .copying byte granules newRef }
        allocations := world.allocations ++ [some newRef] }

def visitStep (world : VisitWorld) : VisitAction → Outcome VisitAssertion VisitWorld
  | .begin kind edge => beginVisit space object world kind edge
  | .advance index =>
      match world.visits[index]? with
      | some visit => advanceVisit space object world index visit
      | none => .disabled
  | .allocate index result =>
      match world.visits[index]? with
      | some visit =>
          match visit.phase with
          | .allocating byte => allocateFor space object world index visit byte result
          | _ => .disabled
      | none => .disabled

end Step

def visitSystem (space : TraceSpace) (object : LiveObject space) :
    System VisitWorld VisitAction VisitAssertion :=
  { initial := fun world => world = { memory := object.memory, visits := [], allocations := [] }
    step := visitStep space object }

end Whippet.Nofl
