import Whippet.Pcc.PromotionAge

/-!
The locks that a collection of generational pcc takes (`pcc.c`, `large-object-space.h`).

The collector takes the lock of the large object space when a collection starts and gives it back
when the collection finishes. In between the trace workers visit edges, and a visit goes through
critical sections of its own. To acquire a lock that is held is to wait.

Owns: the visits of edges with their critical sections, in the order in which the code goes through
them, and what they read and write of the large objects, the field-logged bits and the remembered
edges. Does not own: where objects are copied to, and whether there is room.
-/

namespace Whippet.Pcc

open Function

/-! ## The heap -/

/-- A node of the object tree and the object map of the large object space. -/
structure TracedLargeObject where
  addr : ℕ
  size : ℕ
  isLive : Bool
  mark : ℕ
  deriving DecidableEq, Repr

/-- What the visits of a collection read and write. -/
structure TracedHeap where
  /-- The extent of the nursery. -/
  low : ℕ
  high : ℕ
  /-- The blocks of the nursery whose survivor flag is set for the inactive region. -/
  survivorBlocks : List ℕ
  /-- The slabs of the old space. -/
  oldSlabs : List ℕ
  largeObjects : List TracedLargeObject
  marked : ℕ
  /-- What an edge refers to; `none` is a null reference or an immediate. -/
  edgeRef : ℕ → Option ℕ
  fieldLogged : ℕ → Bool
  rememberedEdges : List ℕ

namespace TracedHeap

variable (heap : TracedHeap)

/-- `new_space_contains_addr`. -/
def newSpaceContains (address : ℕ) : Bool := decide (heap.low ≤ address ∧ address < heap.high)

/-- `copy_space_contains` for the old space. -/
def oldSpaceContains (address : ℕ) : Bool :=
  decide (address / COPY_SPACE_SLAB_SIZE * COPY_SPACE_SLAB_SIZE ∈ heap.oldSlabs)

/-- `copy_space_should_promote`. -/
def shouldPromote (address : ℕ) : Bool :=
  decide (copySpaceBlockForAddr address ∈ heap.survivorBlocks)

/-- `large_object_space_object_containing_edge`. -/
def largeObjectContaining (edge : ℕ) : Option ℕ :=
  match heap.largeObjects.find? fun object =>
      object.addr ≤ edge ∧ edge < object.addr + object.size with
  | some object => if object.isLive then some object.addr else none
  | none => none

/-- `large_object_space_lookup`. -/
def lookupLarge (address : ℕ) : Option TracedLargeObject :=
  heap.largeObjects.find? fun object => object.addr = address

/-- `large_object_space_is_marked`. -/
def isMarked (address : ℕ) : Bool :=
  match heap.lookupLarge address with
  | some object => decide (object.mark = heap.marked)
  | none => false

/-- `large_object_space_mark`. -/
def mark (address : ℕ) : TracedHeap :=
  { heap with largeObjects := heap.largeObjects.map fun object =>
      if object.addr = address then { object with mark := heap.marked } else object }

def setEdgeRef (edge address : ℕ) : TracedHeap :=
  { heap with edgeRef := update heap.edgeRef edge (some address) }

def setLogged (edge : ℕ) (logged : Bool) : TracedHeap :=
  { heap with fieldLogged := update heap.fieldLogged edge logged }

end TracedHeap

/-! ## Visits -/

inductive HeapLock where
  /-- `large_object_space.lock`. -/
  | space
  /-- `large_object_space.object_tree_lock`. -/
  | objectTree
  /-- `large_object_space.remembered_edges_lock`. -/
  | rememberedEdges
  /-- `gc_field_set.lock`. -/
  | fieldSet
  /-- `copy_space.lock` of the new space. -/
  | newSpace
  /-- `copy_space.lock` of the old space. -/
  | oldSpace
  deriving DecidableEq, Repr

/-- An edge with what it refers to, and whether it comes out of the remembered set. -/
structure EdgeVisit where
  edge : ℕ
  ref : ℕ
  isRemembered : Bool
  deriving DecidableEq, Repr

inductive CriticalSection where
  /-- In `large_object_space_object_containing_edge`. -/
  | lookupObject
  /-- The assertion of `large_object_space_remember_edge`. -/
  | assertContains (object : ℕ)
  /-- The assertion of `large_object_space_is_survivor`. -/
  | assertSurvivor (object : ℕ)
  /-- In `large_object_space_is_survivor`. -/
  | isSurvivor (object : ℕ)
  /-- In `large_object_space_remember_edge`. -/
  | rememberEdge
  /-- In `large_object_space_forget_edge`. -/
  | forgetEdge
  /-- In `gc_field_set_acquire_buffer`. -/
  | acquireBuffer
  /-- In `gc_field_set_release_buffer`. -/
  | releaseBuffer
  /-- In `copy_space_allocate`, for the old space or the new one. -/
  | allocate (toOld : Bool)
  deriving DecidableEq, Repr

def CriticalSection.lock : CriticalSection → HeapLock
  | .lookupObject => .objectTree
  | .assertContains _ | .assertSurvivor _ | .isSurvivor _ => .space
  | .rememberEdge | .forgetEdge => .rememberedEdges
  | .acquireBuffer | .releaseBuffer => .fieldSet
  | .allocate true => .oldSpace
  | .allocate false => .newSpace

/-- Where a trace worker is in a visit. -/
inductive WorkerStage where
  | idle
  /-- Before `copy_space_forward` to the old space or the new one. -/
  | forward (visit : EdgeVisit) (toOld : Bool)
  /-- Before `gc_field_set_writer_add_edge`. -/
  | log (visit : EdgeVisit)
  | waiting (visit : EdgeVisit) (criticalSection : CriticalSection)
  | inside (visit : EdgeVisit) (criticalSection : CriticalSection)
  deriving DecidableEq, Repr

/-- The lock that a worker holds. -/
def WorkerStage.held? : WorkerStage → Option HeapLock
  | .inside _ criticalSection => some criticalSection.lock
  | _ => none

/-- The lock that a worker is about to acquire. -/
def WorkerStage.wanted? : WorkerStage → Option HeapLock
  | .waiting _ criticalSection => some criticalSection.lock
  | _ => none

/-- The ways in which a visit does not return. -/
inductive TraceFailure where
  | assertion
  | outOfMemory
  deriving DecidableEq, Repr

/-- The heap after a part of a visit, and where the worker is then. -/
structure VisitResult where
  heap : TracedHeap
  stage : WorkerStage

namespace TracedHeap

variable (heap : TracedHeap)

/-- The end of `trace_edge`, and for a remembered edge the rest of `trace_remembered_edge`. -/
def finishVisit (visit : EdgeVisit) : VisitResult :=
  if visit.isRemembered then
    if (heap.edgeRef visit.edge).any heap.newSpaceContains then { heap := heap, stage := .idle }
    else if heap.oldSpaceContains visit.edge then
      { heap := heap.setLogged visit.edge false, stage := .idle }
    else { heap := heap, stage := .waiting visit .forgetEdge }
  else { heap := heap, stage := .idle }

/-- `large_object_space_remember_edge`, up to its first lock. -/
def rememberLarge (gcDebug : Bool) (visit : EdgeVisit) (object : ℕ) : WorkerStage :=
  if gcDebug then .waiting visit (.assertContains object) else .waiting visit (.isSurvivor object)

/-- `remember_edge_to_survivor_object`, up to its first lock. -/
def rememberEdgeToSurvivor (visit : EdgeVisit) : VisitResult :=
  if heap.oldSpaceContains visit.edge then
    if heap.fieldLogged visit.edge then { heap := heap, stage := .forward visit false }
    else { heap := heap.setLogged visit.edge true, stage := .log visit }
  else { heap := heap, stage := .waiting visit .lookupObject }

/-- `do_minor_trace`, up to its first lock. -/
def doMinorTrace (visit : EdgeVisit) : VisitResult :=
  if heap.newSpaceContains visit.ref then
    if heap.shouldPromote visit.ref then { heap := heap, stage := .forward visit true }
    else if heap.newSpaceContains visit.edge then { heap := heap, stage := .forward visit false }
    else heap.rememberEdgeToSurvivor visit
  else (heap.mark visit.ref).finishVisit visit

/-- `do_trace`, up to its first lock. -/
def doTrace (isMinorGc : Bool) (visit : EdgeVisit) : VisitResult :=
  if isMinorGc then heap.doMinorTrace visit
  else if heap.newSpaceContains visit.ref || heap.oldSpaceContains visit.ref then
    { heap := heap, stage := .forward visit true }
  else (heap.mark visit.ref).finishVisit visit

/-- The rest of a critical section, and what the worker does up to the next one. -/
def leave (gcDebug : Bool) (visit : EdgeVisit) :
    CriticalSection → Outcome TraceFailure VisitResult
  | .lookupObject =>
      match heap.largeObjectContaining visit.edge with
      | some object => pure { heap := heap, stage := rememberLarge gcDebug visit object }
      | none => pure { heap := heap, stage := .forward visit false }
  | .assertContains object => do
      Outcome.check (heap.lookupLarge object ≠ none) .assertion
      pure { heap := heap, stage := .waiting visit (.assertSurvivor object) }
  | .assertSurvivor object => do
      Outcome.check (heap.lookupLarge object ≠ none) .assertion
      pure { heap := heap, stage := .waiting visit (.isSurvivor object) }
  | .isSurvivor object =>
      if heap.isMarked object then pure { heap := heap, stage := .waiting visit .rememberEdge }
      else pure { heap := heap, stage := .forward visit false }
  | .rememberEdge =>
      if visit.edge ∈ heap.rememberedEdges then
        pure { heap := heap, stage := .forward visit false }
      else pure
        { heap := { heap with rememberedEdges := visit.edge :: heap.rememberedEdges }
          stage := .log visit }
  | .forgetEdge => do
      Outcome.check (gcDebug = true → visit.edge ∈ heap.rememberedEdges) .assertion
      pure
        { heap := { heap with rememberedEdges := heap.rememberedEdges.erase visit.edge }
          stage := .idle }
  | .acquireBuffer => pure { heap := heap, stage := .forward visit false }
  | .releaseBuffer => pure { heap := heap, stage := .idle }
  | .allocate toOld => pure { heap := heap, stage := .forward visit toOld }

end TracedHeap

/-! ## Collections -/

structure TraceWorld where
  heap : TracedHeap
  /-- Whether there is a collection, and whether that is a minor one. -/
  collecting : Option Bool
  workers : List WorkerStage

/-- What the allocators and the buffers of a worker answer. -/
inductive TraceChoice where
  /-- A block or a buffer is needed first. -/
  | acquire
  /-- `COPY_SPACE_FORWARD_UPDATED` or `COPY_SPACE_FORWARD_EVACUATED`, with the new address. -/
  | forwarded (address : ℕ)
  /-- `COPY_SPACE_FORWARD_FAILED`. -/
  | failed
  /-- There is nothing to choose, or the buffer has room. -/
  | proceed
  deriving DecidableEq, Repr

inductive TraceAction where
  /-- What mutators do between two collections. -/
  | mutate (heap : TracedHeap)
  | startGc (isMinorGc : Bool)
  /-- `trace_edge`, or `trace_remembered_edge`. -/
  | visit (index edge : ℕ) (isRemembered : Bool)
  /-- `gc_visit_ephemeron_key`, with the new address if the key has been copied. -/
  | visitEphemeronKey (index edge : ℕ) (forwarded : Option ℕ)
  /-- The end of `gc_field_set_visit_edge_buffer`, or of the trace of a worker, with a buffer that
  is not full. -/
  | releaseBuffer (index : ℕ)
  /-- The next step of a visit. -/
  | advance (index : ℕ) (choice : TraceChoice)
  | finishGc

namespace TraceWorld

variable (gcDebug : Bool) (world : TraceWorld)

/-- The collector holds the lock of the large object space. -/
def IsHeld (lock : HeapLock) : Prop :=
  (lock = .space ∧ world.collecting ≠ none) ∨ ∃ stage ∈ world.workers, stage.held? = some lock

instance (lock : HeapLock) : Decidable (world.IsHeld lock) :=
  inferInstanceAs (Decidable (_ ∨ _))

def setWorker (index : ℕ) (result : VisitResult) : TraceWorld :=
  { world with heap := result.heap, workers := world.workers.set index result.stage }

/-- The next step of a visit from a stage. -/
def advanceFrom (choice : TraceChoice) : WorkerStage → Outcome TraceFailure VisitResult
  | .idle => .disabled
  | .forward visit toOld =>
      match choice with
      | .acquire => pure { heap := world.heap, stage := .waiting visit (.allocate toOld) }
      | .forwarded address => pure ((world.heap.setEdgeRef visit.edge address).finishVisit visit)
      | .failed =>
          if toOld then .failed .outOfMemory
          else pure { heap := world.heap, stage := .forward visit true }
      | .proceed => .disabled
  | .log visit =>
      match choice with
      | .acquire => pure { heap := world.heap, stage := .waiting visit .acquireBuffer }
      | .proceed => pure { heap := world.heap, stage := .forward visit false }
      | _ => .disabled
  | .waiting visit criticalSection => do
      Outcome.require (¬world.IsHeld criticalSection.lock)
      pure { heap := world.heap, stage := .inside visit criticalSection }
  | .inside visit criticalSection => world.heap.leave gcDebug visit criticalSection

def step : TraceAction → Outcome TraceFailure TraceWorld
  | .mutate heap => do
      Outcome.require (world.collecting = none)
      pure { world with heap := heap }
  | .startGc isMinorGc => do
      Outcome.require (¬world.IsHeld .space)
      pure { world with collecting := some isMinorGc }
  | .visit index edge isRemembered =>
      match world.collecting, world.heap.edgeRef edge with
      | some isMinorGc, some ref => do
          Outcome.require (world.workers[index]? = some .idle)
          Outcome.check (isRemembered = true → isMinorGc = true) .assertion
          pure (world.setWorker index (world.heap.doTrace isMinorGc
            { edge := edge, ref := ref, isRemembered := isRemembered }))
      | _, _ => .disabled
  | .visitEphemeronKey index edge forwarded => do
      Outcome.require (world.collecting ≠ none ∧ world.workers[index]? = some .idle)
      match forwarded with
      | some address => pure { world with heap := world.heap.setEdgeRef edge address }
      | none => pure world
  | .releaseBuffer index => do
      Outcome.require (world.collecting ≠ none ∧ world.workers[index]? = some .idle)
      pure (world.setWorker index
        { heap := world.heap
          stage := .waiting { edge := 0, ref := 0, isRemembered := false } .releaseBuffer })
  | .advance index choice =>
      match world.workers[index]? with
      | some stage => do
          let result ← world.advanceFrom gcDebug choice stage
          pure (world.setWorker index result)
      | none => .disabled
  | .finishGc => do
      Outcome.require (world.collecting ≠ none ∧ ∀ stage ∈ world.workers, stage = .idle)
      pure { world with collecting := none }

/-- A visit has begun and no worker can go on with its visit. -/
def Stuck : Prop :=
  (∃ stage ∈ world.workers, stage ≠ .idle) ∧
    ∀ index choice, world.step gcDebug (.advance index choice) = .disabled

/-- Some worker is about to acquire the lock of the large object space. -/
def AcquiresSpace : Prop := ∃ stage ∈ world.workers, stage.wanted? = some .space

/-- The edge is in a large object, and what it refers to is to stay in the nursery. -/
def isLargeToSurvivor (edge : ℕ) : Bool :=
  match world.heap.edgeRef edge with
  | some ref => world.heap.newSpaceContains ref && !world.heap.shouldPromote ref &&
      !world.heap.newSpaceContains edge && !world.heap.oldSpaceContains edge &&
        (world.heap.largeObjectContaining edge).isSome
  | none => false

/-- The action is not the visit of such an edge in a minor collection. -/
def Avoids : TraceAction → Prop
  | .visit _ edge _ => world.collecting = some true → world.isLargeToSurvivor edge = false
  | _ => True

instance (action : TraceAction) : Decidable (world.Avoids action) := by
  cases action <;> unfold Avoids <;> infer_instance

end TraceWorld

/-- Any heap with any number of trace workers. -/
def traceSystem (gcDebug : Bool) : System TraceWorld TraceAction TraceFailure :=
  { initial := fun world => world.collecting = none ∧ ∀ stage ∈ world.workers, stage = .idle
    step := TraceWorld.step gcDebug }

end Whippet.Pcc
