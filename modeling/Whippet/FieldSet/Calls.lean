import Mathlib.Data.Finset.Insert
import Mathlib.Data.Multiset.AddSub
import Whippet.Library.ArrayBags
import Whippet.Library.AtomicStacks
import Whippet.Library.Checked

/-!
The set of remembered edges (`field-set.h`).

Mutators and trace workers write edges to buffers of their own, which they take from the set and
give back to it. A collection makes the buffers roots of the tracer, whose workers visit their
edges, and clears the set. Buffers are known by their addresses; zero is the null pointer. The empty
and the full buffers are on lists that are changed by compare-and-swap, and each access to one of
these is a step of its own; the lock of the partly full buffers is held for one step.

Owns: the writers, the visits of buffers, adding roots, clearing, and their runs. Does not own:
which edges are remembered, and what a visit of an edge does.
-/

namespace Whippet.FieldSets

open Function

def GC_EDGE_BUFFER_CAPACITY : ℕ := 510

structure EdgeBuffer where
  next : ℕ
  size : ℕ
  edges : ℕ → ℕ

/-- The edges of a buffer. -/
def EdgeBuffer.contents (buffer : EdgeBuffer) : Multiset ℕ := arrayBag buffer.edges buffer.size

/-- A buffer after `memset`. -/
def emptyBuffer : EdgeBuffer := { next := 0, size := 0, edges := fun _ => 0 }

/-- The lists of a set, and the two that clearing takes from it. -/
inductive BufferList where
  | full
  | partlyFull
  | empty
  | clearingPartlyFull
  | clearingFull
  deriving DecidableEq, Repr

/-! ## Writers -/

/-- Where the call of a writer is. -/
inductive WriterCall where
  | idle
  /-- `gc_field_set_acquire_buffer` pops an empty buffer for the edge. -/
  | popEmpty (edge : ℕ) (stage : StackStage BufferList ℕ)
  /-- It is about to take the lock. -/
  | popPartlyFull (edge : ℕ)
  /-- It is about to allocate a buffer. -/
  | allocate (edge : ℕ)
  /-- `gc_field_set_writer_add_edge` is about to write the edge. -/
  | store (edge : ℕ)
  /-- `gc_field_set_release_buffer`. -/
  | release (buffer : ℕ)
  | pushFull (stage : StackStage BufferList ℕ)
  deriving DecidableEq

/-- A mutator or a trace worker: `struct gc_field_set_writer`, with the buffer that a worker visits
and the index in it. -/
structure FieldSetWriter where
  buf : ℕ
  visiting : Option (ℕ × ℕ)
  call : WriterCall
  deriving DecidableEq

def freshWriter : FieldSetWriter := { buf := 0, visiting := none, call := .idle }

/-- What the collector does with the set. -/
inductive Controller where
  | idle
  | addingRoots
  /-- The heads of the lists that are left to be cleared. -/
  | clearing (partlyFull full : ℕ)
  deriving DecidableEq, Repr

/-- `struct gc_field_set` with its buffers, those that are roots of the tracer, the writers, and the
edges that have been added, that visits have dropped and that clearing has forgotten. -/
structure FieldSet where
  buffers : ℕ → EdgeBuffer
  full : ℕ
  partlyFull : ℕ
  empty : ℕ
  allocated : Finset ℕ
  roots : List ℕ
  writers : List FieldSetWriter
  controller : Controller
  added : Multiset ℕ
  dropped : Multiset ℕ
  forgotten : Multiset ℕ

inductive FieldSetAction where
  /-- `gc_field_set_writer_init` of another writer. -/
  | start
  /-- `gc_field_set_writer_add_edge`. -/
  | addEdge (writer edge : ℕ)
  /-- `gc_field_set_writer_release_buffer`. -/
  | releaseBuffer (writer : ℕ)
  /-- A trace worker takes one of the roots. -/
  | takeRoot (writer index : ℕ)
  /-- `gc_field_set_visit_edge_buffer` visits the next edge, or is done. -/
  | visit (writer : ℕ) (keep : Bool)
  /-- The next step of the call of a writer. What `malloc` returns, if the step calls it, is
  `fresh`. -/
  | access (writer : ℕ) (spurious : Bool) (fresh : ℕ)
  /-- `gc_field_set_add_roots`. -/
  | addRoots
  /-- `gc_field_set_clear`. -/
  | clear
  /-- The collector handles the next buffer. -/
  | control
  deriving DecidableEq, Repr

inductive FieldSetFailure where
  /-- A `GC_ASSERT` that fails. -/
  | assertion
  deriving DecidableEq, Repr

namespace FieldSet

variable (set : FieldSet)

/-- What pushes and pops see of the set. -/
def lists : AtomicStacks BufferList ℕ where
  head
    | .full => set.full
    | .partlyFull => set.partlyFull
    | .empty => set.empty
    | .clearingPartlyFull =>
        match set.controller with
        | .clearing partlyFull _ => partlyFull
        | _ => 0
    | .clearingFull =>
        match set.controller with
        | .clearing _ full => full
        | _ => 0
  next buffer := (set.buffers buffer).next

/-- Writes back what a push to the full buffers or a pop of an empty one has changed. -/
def withLists (lists : AtomicStacks BufferList ℕ) : FieldSet :=
  { set with
    buffers := fun buffer => { set.buffers buffer with next := lists.next buffer }
    full := lists.head .full
    empty := lists.head .empty }

def setWriter (index : ℕ) (writer : FieldSetWriter) : FieldSet :=
  { set with writers := set.writers.set index writer }

def setBuffer (address : ℕ) (buffer : EdgeBuffer) : FieldSet :=
  { set with buffers := update set.buffers address buffer }

/-- No writer is inside a call or a visit. -/
def IsStopped : Prop :=
  ∀ writer ∈ set.writers, writer.call = .idle ∧ writer.visiting = none

instance : Decidable set.IsStopped := inferInstanceAs (Decidable (∀ writer ∈ set.writers, _))

/-- `gc_edge_buffer_list_push` to the full buffers, up to where it has read the head. -/
def beginPushFull (buffer : ℕ) : Outcome FieldSetFailure WriterCall := do
  Outcome.check ((set.buffers buffer).next = 0) .assertion
  pure (.pushFull (.linking .full buffer set.full))

/-- `gc_edge_buffer_stack_push` to the partly full buffers. -/
def pushPartlyFull (buffer : ℕ) : Outcome FieldSetFailure FieldSet := do
  Outcome.check ((set.buffers buffer).next = 0) .assertion
  pure { set.setBuffer buffer { set.buffers buffer with next := set.partlyFull } with
    partlyFull := buffer }

/-- `gc_edge_buffer_stack_pop` of the partly full buffers, if there is one. -/
def popPartlyFull : FieldSet :=
  { set.setBuffer set.partlyFull { set.buffers set.partlyFull with next := 0 } with
    partlyFull := (set.buffers set.partlyFull).next }

/-- `gc_edge_buffer_list_pop` of the full buffers when no one else accesses them, if there is
one. -/
def popFull : FieldSet :=
  { set.setBuffer set.full { set.buffers set.full with next := 0 } with
    full := (set.buffers set.full).next }

/-- The next step of the call of a writer. -/
def access (index : ℕ) (writer : FieldSetWriter) (spurious : Bool) (fresh : ℕ) :
    WriterCall → Outcome FieldSetFailure FieldSet
  | .idle => .disabled
  | .popEmpty edge stage =>
      let (lists, next) := set.lists.step 0 spurious stage
      match next with
      | .popped buffer =>
          if buffer = 0 then
            .next ((set.withLists lists).setWriter index
              { writer with call := .popPartlyFull edge })
          else
            .next ((set.withLists lists).setWriter index
              { writer with buf := buffer, call := .store edge })
      | stage => .next ((set.withLists lists).setWriter index
          { writer with call := .popEmpty edge stage })
  | .popPartlyFull edge =>
      if set.partlyFull = 0 then
        .next (set.setWriter index { writer with call := .allocate edge })
      else
        .next (set.popPartlyFull.setWriter index
          { writer with buf := set.partlyFull, call := .store edge })
  | .allocate edge => do
      Outcome.require (fresh ≠ 0 ∧ fresh ∉ set.allocated)
      pure ({ set.setBuffer fresh emptyBuffer with
        allocated := insert fresh set.allocated }.setWriter index
          { writer with buf := fresh, call := .store edge })
  | .store edge => do
      let buffer := set.buffers writer.buf
      Outcome.check (buffer.size < GC_EDGE_BUFFER_CAPACITY) .assertion
      let stored := { set.setBuffer writer.buf { buffer with
        size := buffer.size + 1
        edges := update buffer.edges buffer.size edge } with added := edge ::ₘ set.added }
      if buffer.size + 1 = GC_EDGE_BUFFER_CAPACITY then do
        let call ← stored.beginPushFull writer.buf
        pure (stored.setWriter index { writer with buf := 0, call := call })
      else pure (stored.setWriter index { writer with call := .idle })
  | .release buffer =>
      if (set.buffers buffer).size = GC_EDGE_BUFFER_CAPACITY then do
        let call ← set.beginPushFull buffer
        pure (set.setWriter index { writer with call := call })
      else do
        let pushed ← set.pushPartlyFull buffer
        pure (pushed.setWriter index { writer with call := .idle })
  | .pushFull stage =>
      let (lists, next) := set.lists.step 0 spurious stage
      match next with
      | .pushed _ => .next ((set.withLists lists).setWriter index { writer with call := .idle })
      | stage => .next ((set.withLists lists).setWriter index
          { writer with call := .pushFull stage })

/-- One turn of the loop of `gc_field_set_visit_edge_buffer`. -/
def visit (index : ℕ) (writer : FieldSetWriter) (keep : Bool) (address position : ℕ) : FieldSet :=
  let buffer := set.buffers address
  if position < buffer.size then
    if keep then set.setWriter index { writer with visiting := some (address, position + 1) }
    else
      { set.setBuffer address { buffer with
          size := buffer.size - 1
          edges := update buffer.edges position (buffer.edges (buffer.size - 1)) } with
        dropped := buffer.edges position ::ₘ set.dropped }
  else set.setWriter index { writer with visiting := none, call := .release address }

/-- Clearing forgets the edges of a buffer and pushes it to the empty ones. -/
def clearBuffer (address : ℕ) (controller : Controller) : FieldSet :=
  { set.setBuffer address { set.buffers address with next := set.empty, size := 0 } with
    empty := address
    controller := controller
    forgotten := (set.buffers address).contents + set.forgotten }

/-- What the collector does next. -/
def control : Controller → Outcome FieldSetFailure FieldSet
  | .idle => .disabled
  | .addingRoots =>
      if set.partlyFull ≠ 0 then
        .next { set.popPartlyFull with roots := set.roots ++ [set.partlyFull] }
      else if set.full ≠ 0 then .next { set.popFull with roots := set.roots ++ [set.full] }
      else .next { set with controller := .idle }
  | .clearing partlyFull full =>
      if partlyFull ≠ 0 then
        .next (set.clearBuffer partlyFull (.clearing (set.buffers partlyFull).next full))
      else if full ≠ 0 then
        .next (set.clearBuffer full (.clearing partlyFull (set.buffers full).next))
      else .next { set with controller := .idle }

def step : FieldSetAction → Outcome FieldSetFailure FieldSet
  | .start => .next { set with writers := set.writers ++ [freshWriter] }
  | .addEdge index edge => do
      let writer := set.writers.getD index freshWriter
      Outcome.require (index < set.writers.length ∧ writer.call = .idle ∧ set.controller = .idle)
      if writer.buf = 0 then
        pure (set.setWriter index
          { writer with call := .popEmpty edge (.reading .empty set.empty) })
      else pure (set.setWriter index { writer with call := .store edge })
  | .releaseBuffer index => do
      let writer := set.writers.getD index freshWriter
      Outcome.require (index < set.writers.length ∧ writer.call = .idle ∧
        writer.visiting = none ∧ set.controller = .idle)
      if writer.buf = 0 then pure set
      else pure (set.setWriter index { writer with buf := 0, call := .release writer.buf })
  | .takeRoot index position => do
      let writer := set.writers.getD index freshWriter
      Outcome.require (index < set.writers.length ∧ writer.call = .idle ∧
        writer.visiting = none ∧ set.controller = .idle ∧ position < set.roots.length)
      pure ({ set with roots := set.roots.eraseIdx position }.setWriter index
        { writer with visiting := some (set.roots.getD position 0, 0) })
  | .visit index keep => do
      let writer := set.writers.getD index freshWriter
      Outcome.require (writer.call = .idle ∧ set.controller = .idle)
      match writer.visiting with
      | some (address, position) => pure (set.visit index writer keep address position)
      | none => .disabled
  | .access index spurious fresh =>
      let writer := set.writers.getD index freshWriter
      set.access index writer spurious fresh writer.call
  | .addRoots => do
      Outcome.require (set.IsStopped ∧ set.controller = .idle)
      pure { set with controller := .addingRoots }
  | .clear => do
      Outcome.require (set.IsStopped ∧ set.controller = .idle)
      pure { set with
        controller := .clearing set.partlyFull set.full
        partlyFull := 0
        full := 0 }
  | .control => set.control set.controller

end FieldSet

/-- `gc_field_set_init`. -/
def FieldSet.initial : FieldSet :=
  { buffers := fun _ => emptyBuffer
    full := 0
    partlyFull := 0
    empty := 0
    allocated := ∅
    roots := []
    writers := []
    controller := .idle
    added := 0
    dropped := 0
    forgotten := 0 }

def fieldSetSystem : System FieldSet FieldSetAction FieldSetFailure where
  initial set := set = FieldSet.initial
  step := FieldSet.step

end Whippet.FieldSets
