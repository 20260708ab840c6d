import Whippet.Finalizer.Resolution
import Whippet.Library.AtomicStacks

/-!
Finalizers that several mutators attach and pop at the same time.

Attaching a finalizer counts it, chooses a bucket by the count and pushes it there; popping takes a
fired finalizer off its list. Both lists are changed by compare-and-swap, and every access to them
is a step of its own. A collection happens when no mutator is inside a call. A finalizer that has
not been attached is known to one mutator only.

Owns: the calls of the mutators, the resolution of all priorities with its notification, and the
runs of both. Does not own: what is traced between the priorities.
-/

namespace Whippet.Finalizers

open Function
open Ephemerons (Ref)

/-! ## The lists -/

/-- The head of a list of finalizers. -/
inductive FinalizerLoc where
  | bucket (priority : ℕ) (index : Fin BUCKET_COUNT)
  | fired
  deriving DecidableEq

/-- What pushes and pops see of the finalizers. -/
def FinalizerWorld.atomicLists (world : FinalizerWorld) : AtomicStacks FinalizerLoc ℕ where
  head
    | .bucket priority index => (world.tables priority).buckets index
    | .fired => world.fired
  next finalizer := (world.finalizers finalizer).next

def FinalizerWorld.withLists (world : FinalizerWorld) (lists : AtomicStacks FinalizerLoc ℕ) :
    FinalizerWorld :=
  { world with
    finalizers := fun finalizer =>
      { world.finalizers finalizer with next := lists.next finalizer }
    fired := lists.head .fired
    tables := fun priority => { world.tables priority with
      buckets := fun index => lists.head (.bucket priority index) } }

/-! ## Calls -/

/-- Where the call of a mutator is. -/
inductive FinalizerCall where
  | idle
  /-- `add_finalizer_to_table` is about to count the finalizer. -/
  | counting (finalizer priority : ℕ)
  /-- `finalizer_list_push` is about to read the head of the bucket. -/
  | choosing (finalizer priority : ℕ) (index : Fin BUCKET_COUNT)
  /-- `finalizer_list_push` or `finalizer_list_pop`. -/
  | onList (stage : StackStage FinalizerLoc ℕ)
  deriving DecidableEq

/-- The mutators, the finalizers, and what has happened to them: with which priority each one was
attached, which ones have been popped, and how many were announced. -/
structure FinalizerMachine where
  world : FinalizerWorld
  calls : List FinalizerCall
  hasCallback : Bool
  priorityOf : ℕ → ℕ
  popped : List ℕ
  announced : ℕ

inductive FinalizerAction where
  /-- Another mutator starts. -/
  | start
  /-- `gc_finalizer_attach`. -/
  | attach (mutator finalizer priority : ℕ) (object closure : Ref)
  /-- `gc_pop_finalizable`. -/
  | pop (mutator : ℕ)
  /-- The next access of the call of a mutator. -/
  | access (mutator : ℕ) (spurious : Bool)
  /-- `gc_set_finalizer_callback`. -/
  | setCallback (hasCallback : Bool)
  /-- A collection, with what tracing marks before the finalizers are resolved and after each
  priority. -/
  | collect (collector : Collector) (graph : ObjectGraph) (marking : Marking)
      (trace : Marking → Marking)

namespace FinalizerWorld

variable (world : FinalizerWorld)

/-- `gc_finalizer_init_internal`. -/
def gcFinalizerInitInternal (finalizer : ℕ) (object closure : Ref) :
    Outcome FinalizerFailure FinalizerWorld := do
  Outcome.check ((world.finalizers finalizer).state = .init) .crash
  Outcome.check ((world.finalizers finalizer).object = .null) .assertion
  pure { world with
    finalizers := update world.finalizers finalizer
      { world.finalizers finalizer with object := object, closure := closure } }

/-- `gc_finalizer_attach_internal`, before the finalizer is added to the table. -/
def activate (finalizer priority : ℕ) : Outcome FinalizerFailure FinalizerWorld := do
  Outcome.check ((world.finalizers finalizer).state = .init) .crash
  Outcome.check ((world.finalizers finalizer).object ≠ .null) .crash
  Outcome.check (priority < world.tableCount) .assertion
  pure { world with
    finalizers := update world.finalizers finalizer
      { world.finalizers finalizer with state := .active } }

/-- The priorities that are left in `resolve_finalizers`. -/
def resolvePriorities (collector : Collector) (graph : ObjectGraph) (trace : Marking → Marking) :
    List ℕ → FinalizerWorld → Marking → Outcome FinalizerFailure (FinalizerWorld × Marking)
  | [], world, marking => pure (world, marking)
  | priority :: rest, world, marking => do
      let (after, marks, fired) ← world.gcResolveFinalizers collector graph marking priority
      resolvePriorities collector graph trace rest after (if fired ≠ 0 then trace marks else marks)

end FinalizerWorld

namespace FinalizerMachine

variable (machine : FinalizerMachine)

def setCall (mutator : ℕ) (call : FinalizerCall) : FinalizerMachine :=
  { machine with calls := machine.calls.set mutator call }

/-- `gc_notify_finalizers`. -/
def gcNotifyFinalizers : FinalizerMachine :=
  if machine.world.firedThisCycle ≠ 0 ∧ machine.hasCallback = true then
    { machine with
      world := { machine.world with firedThisCycle := 0 }
      announced := machine.announced + machine.world.firedThisCycle }
  else machine

/-- `resolve_finalizers` of the three collectors. -/
def resolveFinalizers (collector : Collector) (graph : ObjectGraph) (marking : Marking)
    (trace : Marking → Marking) : Outcome FinalizerFailure FinalizerMachine := do
  let (world, _) ← FinalizerWorld.resolvePriorities collector graph trace
    (List.range machine.world.tableCount) machine.world marking
  pure { machine with world := world }.gcNotifyFinalizers

/-- The next access of a call. -/
def access (mutator : ℕ) (spurious : Bool) : FinalizerCall →
    Outcome FinalizerFailure FinalizerMachine
  | .idle => .disabled
  | .counting finalizer priority =>
      let table := machine.world.tables priority
      .next ({ machine with
        world := { machine.world with
          tables := update machine.world.tables priority
            { table with finalizerCount := table.finalizerCount + 1 } } }.setCall mutator
              (.choosing finalizer priority table.nextBucket))
  | .choosing finalizer priority index =>
      .next (machine.setCall mutator (.onList (.linking (.bucket priority index) finalizer
        ((machine.world.tables priority).buckets index))))
  | .onList stage =>
      let (lists, next) := machine.world.atomicLists.step 0 spurious stage
      let after := { machine with world := machine.world.withLists lists }
      match next with
      | .pushed _ => .next (after.setCall mutator .idle)
      | .popped finalizer =>
          .next ({ after with
            popped := if finalizer = 0 then machine.popped else finalizer :: machine.popped
              }.setCall mutator .idle)
      | stage => .next (after.setCall mutator (.onList stage))

def step : FinalizerAction → Outcome FinalizerFailure FinalizerMachine
  | .start => .next { machine with calls := machine.calls ++ [.idle] }
  | .attach mutator finalizer priority object closure => do
      Outcome.require (machine.calls[mutator]? = some .idle ∧ finalizer ≠ 0)
      let initialized ← machine.world.gcFinalizerInitInternal finalizer object closure
      let active ← initialized.activate finalizer priority
      pure ({ machine with
        world := active
        priorityOf := update machine.priorityOf finalizer priority }.setCall mutator
          (.counting finalizer priority))
  | .pop mutator => do
      Outcome.require (machine.calls[mutator]? = some .idle)
      pure (machine.setCall mutator (.onList (.reading .fired machine.world.fired)))
  | .access mutator spurious => machine.access mutator spurious (machine.calls.getD mutator .idle)
  | .setCallback hasCallback => .next { machine with hasCallback := hasCallback }
  | .collect collector graph marking trace => do
      Outcome.require (∀ call ∈ machine.calls, call = .idle)
      machine.resolveFinalizers collector graph marking trace

end FinalizerMachine

/-- A finalizer as `gc_allocate_finalizer` gives it. -/
def freshFinalizer : Finalizer := { state := .init, object := .null, closure := .null, next := 0 }

/-- The state when the heap has been made. -/
def FinalizerMachine.initial (tableCount : ℕ) : FinalizerMachine :=
  { world := gcMakeFinalizerState tableCount fun _ => freshFinalizer
    calls := []
    hasCallback := false
    priorityOf := fun _ => 0
    popped := []
    announced := 0 }

def finalizerSystem : System FinalizerMachine FinalizerAction FinalizerFailure where
  initial machine := ∃ tableCount, machine = FinalizerMachine.initial tableCount
  step := FinalizerMachine.step

end Whippet.Finalizers
