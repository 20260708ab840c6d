import Mathlib.Data.Finset.Insert
import Whippet.Ephemeron.Tracing

/-!
The resolution of finalizers (`gc-finalizer.c`, and the visits of `semi.c`, `mmc.c`, `pcc.c`).

A finalizer is known by its address; zero is the null pointer. A table has its finalizers on lists
that go through their links, and a resolution takes the lists apart to build those of the next
table. Objects are known by the addresses that they had before the collection.

Owns: finalizers, their tables, attaching them, and `gc_resolve_finalizers` with what the visits of
the three collectors mark on the way. Does not own: tracing from roots, and who pops what has fired.
-/

namespace Whippet.Finalizers

open Function
open Ephemerons (Ref)

/-! ## Objects -/

inductive HeapSpace where
  /-- The semi-space, the nofl space, or a copy space. -/
  | small
  | large
  | external
  deriving DecidableEq, Repr

structure HeapObject where
  space : HeapSpace
  fields : List Ref
  deriving DecidableEq, Repr

/-- The objects of a heap with their addresses. -/
structure ObjectGraph where
  objects : List (ℕ × HeapObject)
  deriving DecidableEq, Repr

def ObjectGraph.objectAt (graph : ObjectGraph) (addr : ℕ) : Option HeapObject :=
  graph.objects.lookup addr

/-- What a collector has marked or forwarded, and the roots that its tracer has not visited yet. -/
structure Marking where
  visited : Finset ℕ
  roots : List Ref
  deriving DecidableEq

inductive Collector where
  | semi
  | mmc
  | pcc
  deriving DecidableEq, Repr

/-- `gc_visit_ephemeron_key`: whether the object has been visited. -/
def gcVisitEphemeronKey (graph : ObjectGraph) (marking : Marking) : Ref → Bool
  | .null | .immediate _ => true
  | .object addr =>
      match graph.objectAt addr with
      | some { space := .external, fields := _ } => true
      | some _ => decide (addr ∈ marking.visited)
      | none => true

/-- `visit` of `semi.c`. A small object is copied and not scanned yet; a large one is traced at
once. The depth of the recursion is limited by the first argument. -/
def semiVisit (graph : ObjectGraph) : ℕ → Finset ℕ → Ref → Finset ℕ
  | 0, visited, _ => visited
  | depth + 1, visited, ref =>
      match ref with
      | .null | .immediate _ => visited
      | .object addr =>
          match graph.objectAt addr with
          | some { space := .small, fields := _ } => insert addr visited
          | some { space := _, fields := fields } =>
              if addr ∈ visited then visited
              else fields.foldl (semiVisit graph depth) (insert addr visited)
          | none => visited

/-- What `gc_resolve_finalizers` calls for an object to be finalized: `trace` of `semi.c`,
`enqueue_root_edge` of `mmc.c` and `visit_root_edge` of `pcc.c`. -/
def Collector.visit (graph : ObjectGraph) (marking : Marking) (ref : Ref) : Collector → Marking
  | .semi => { marking with
      visited := semiVisit graph (graph.objects.length + 1) marking.visited ref }
  | .mmc | .pcc => { marking with roots := marking.roots ++ [ref] }

/-! ## Finalizers -/

/-- `enum finalizer_state`. -/
inductive FinalizerStatus where
  | init
  | active
  | fired
  deriving DecidableEq, Repr

structure Finalizer where
  state : FinalizerStatus
  object : Ref
  closure : Ref
  next : ℕ
  deriving DecidableEq, Repr

def BUCKET_COUNT : ℕ := 32

structure FinalizerTable where
  finalizerCount : ℕ
  buckets : Fin BUCKET_COUNT → ℕ

def emptyTable : FinalizerTable := { finalizerCount := 0, buckets := fun _ => 0 }

/-- `struct gc_finalizer_state` with the finalizers that there are. -/
structure FinalizerWorld where
  finalizers : ℕ → Finalizer
  fired : ℕ
  firedThisCycle : ℕ
  tableCount : ℕ
  tables : ℕ → FinalizerTable

inductive FinalizerFailure where
  /-- A `GC_ASSERT` that fails. -/
  | assertion
  /-- `GC_CRASH`. -/
  | crash
  /-- A list without an end. -/
  | diverges
  deriving DecidableEq, Repr

/-- `finalizer_list_push`, for the link of the finalizer. The head of the list is then the
finalizer. -/
def finalizerListPush (finalizers : ℕ → Finalizer) (head finalizer : ℕ) : ℕ → Finalizer :=
  update finalizers finalizer { finalizers finalizer with next := head }

/-- The bucket that the next finalizer is added to. -/
def FinalizerTable.nextBucket (table : FinalizerTable) : Fin BUCKET_COUNT :=
  ⟨table.finalizerCount % BUCKET_COUNT, Nat.mod_lt _ (by decide)⟩

/-- `add_finalizer_to_table`, for the table. -/
def FinalizerTable.add (table : FinalizerTable) (finalizer : ℕ) : FinalizerTable :=
  { finalizerCount := table.finalizerCount + 1
    buckets := update table.buckets table.nextBucket finalizer }

/-- `gc_make_finalizer_state`. -/
def gcMakeFinalizerState (tableCount : ℕ) (finalizers : ℕ → Finalizer) : FinalizerWorld :=
  { finalizers := finalizers
    fired := 0
    firedThisCycle := 0
    tableCount := tableCount
    tables := fun _ => emptyTable }

namespace FinalizerWorld

variable (world : FinalizerWorld)

/-- `gc_finalizer_attach_internal`. -/
def attach (finalizer priority : ℕ) : Outcome FinalizerFailure FinalizerWorld := do
  Outcome.check ((world.finalizers finalizer).state = .init) .crash
  Outcome.check ((world.finalizers finalizer).object ≠ .null) .crash
  Outcome.check (priority < world.tableCount) .assertion
  let table := world.tables priority
  let active := update world.finalizers finalizer
    { world.finalizers finalizer with state := .active }
  pure { world with
    finalizers := finalizerListPush active (table.buckets table.nextBucket) finalizer
    tables := update world.tables priority (table.add finalizer) }

/-- The finalizer gets the state `FINALIZER_STATE_FIRED` and goes to the fired ones. -/
def pushFired (finalizer : ℕ) : FinalizerWorld :=
  let fired := update world.finalizers finalizer
    { world.finalizers finalizer with state := .fired }
  { world with
    finalizers := finalizerListPush fired world.fired finalizer
    fired := finalizer }

/-- `add_fired_finalizer`. -/
def addFired (finalizer : ℕ) : Outcome FinalizerFailure FinalizerWorld := do
  Outcome.check ((world.finalizers finalizer).state = .active) .crash
  pure (world.pushFired finalizer)

end FinalizerWorld

/-- The state of a resolution: the finalizers with the fired ones, the table that is being built,
and what is marked. -/
structure Resolution where
  world : FinalizerWorld
  scratch : FinalizerTable
  finalizersFired : ℕ
  marking : Marking

namespace Resolution

variable (collector : Collector) (graph : ObjectGraph) (state : Resolution)

/-- `f->next = NULL`. -/
def unlink (finalizer : ℕ) : Resolution :=
  { state with world := { state.world with
      finalizers := update state.world.finalizers finalizer
        { state.world.finalizers finalizer with next := 0 } } }

/-- `add_finalizer_to_table(&scratch, f)`. -/
def addToScratch (finalizer : ℕ) : Resolution :=
  { state with
    world := { state.world with
      finalizers := finalizerListPush state.world.finalizers
        (state.scratch.buckets state.scratch.nextBucket) finalizer }
    scratch := state.scratch.add finalizer }

/-- The body of the loop for one finalizer. -/
def resolveOne (finalizer : ℕ) : Outcome FinalizerFailure Resolution := do
  let object := (state.world.finalizers finalizer).object
  Outcome.check (object ≠ .null) .assertion
  let unlinked := state.unlink finalizer
  if gcVisitEphemeronKey graph state.marking object then pure (unlinked.addToScratch finalizer)
  else do
    let world ← unlinked.world.addFired finalizer
    pure { unlinked with
      world := world
      finalizersFired := state.finalizersFired + 1
      marking := collector.visit graph state.marking object }

/-- The loop over a bucket. -/
def resolveBucket : ℕ → ℕ → Resolution → Outcome FinalizerFailure Resolution
  | 0, _, _ => .failed .diverges
  | rounds + 1, finalizer, state =>
      if finalizer = 0 then pure state
      else do
        let next := (state.world.finalizers finalizer).next
        let after ← state.resolveOne collector graph finalizer
        resolveBucket rounds next after

/-- The loop over the buckets of a table. -/
def resolveBuckets (table : FinalizerTable) :
    List (Fin BUCKET_COUNT) → Resolution → Outcome FinalizerFailure Resolution
  | [], state => pure state
  | bucket :: rest, state => do
      let after ← resolveBucket collector graph (table.finalizerCount + 1) (table.buckets bucket)
        state
      resolveBuckets table rest after

end Resolution

/-- `gc_resolve_finalizers`. The result has the number of finalizers that have fired. -/
def FinalizerWorld.gcResolveFinalizers (world : FinalizerWorld) (collector : Collector)
    (graph : ObjectGraph) (marking : Marking) (priority : ℕ) :
    Outcome FinalizerFailure (FinalizerWorld × Marking × ℕ) := do
  Outcome.check (priority < world.tableCount) .assertion
  let table := world.tables priority
  if table.finalizerCount ≠ 0 then do
    let resolved ← Resolution.resolveBuckets collector graph table (List.finRange BUCKET_COUNT)
      { world := world, scratch := emptyTable, finalizersFired := 0, marking := marking }
    pure ({ resolved.world with
      tables := update resolved.world.tables priority resolved.scratch
      firedThisCycle := resolved.world.firedThisCycle + resolved.finalizersFired },
      resolved.marking, resolved.finalizersFired)
  else pure (world, marking, 0)

end Whippet.Finalizers
