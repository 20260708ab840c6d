import Mathlib.Data.Nat.Notation
import Mathlib.Logic.Function.Basic
import Whippet.Library.Checked

/-!
A full collection of a heap with ephemerons (`gc-ephemeron.c`, and `collect` in `semi.c`, `mmc.c`
and `pcc.c`).

Objects are named by their addresses before the collection. An object's contents stay under that
name when it is forwarded to its final address. One action visits one edge, or traces one
ephemeron, and any piece of work that there is may come next.

Owns: visiting edges and ephemeron keys, `gc_trace_ephemeron`, the pending and resolved sets, and
the order of tracing, resolution, finalization and sweeping. Does not own: where objects are
copied to, how workers share the work, and which finalizers there are to resolve.
-/

namespace Whippet.Ephemerons

open Function

inductive Ref where
  | null
  | immediate (bits : ℕ)
  | object (addr : ℕ)
  deriving DecidableEq, Repr

inductive EphemeronState where
  | traced
  | claimed
  | pending
  | resolved
  deriving DecidableEq, Repr

/-- `struct gc_ephemeron`, but for the links of the pending and resolved sets, which are lists
here. -/
structure Ephemeron where
  state : EphemeronState
  epoch : ℕ
  chain : Ref
  key : Ref
  value : Ref
  deriving DecidableEq, Repr

inductive Object where
  | ordinary (fields : List Ref)
  | ephemeron (ephemeron : Ephemeron)
  deriving DecidableEq, Repr

/-- A heap, and what a collection of it will do with it. -/
structure Graph where
  objects : ℕ → Option Object
  addresses : List ℕ
  mem_addresses : ∀ addr object, objects addr = some object → addr ∈ addresses
  roots : List Ref
  /-- The edges that `gc_resolve_finalizers` visits for each priority. -/
  finalizerRoots : List (List Ref)
  /-- `gc_heap_ephemeron_trace_epoch`. -/
  epoch : ℕ
  /-- Ephemerons are traced between collections, and not in this epoch. -/
  ready : ∀ addr ephemeron, objects addr = some (.ephemeron ephemeron) →
    ephemeron.state = .traced ∧ ephemeron.epoch ≠ epoch
  /-- The length of the longest chain from an ephemeron. -/
  depth : ℕ → ℕ
  depth_lt : ∀ addr ephemeron next, objects addr = some (.ephemeron ephemeron) →
    ephemeron.chain = .object next → depth next < depth addr
  /-- The final address of each object that is traced. -/
  place : ℕ → ℕ
  place_apart : ∀ addr object, objects (place addr) = some object → place addr = addr
  /-- `hash_address`, scaled to the number of buckets. -/
  hash : ℕ → ℕ
  nbuckets : ℕ
  hash_lt : ∀ addr, hash addr < nbuckets

/-- Pieces of work that the tracer has still to do. -/
inductive Work where
  /-- Visit a root. -/
  | root (ref : Ref)
  /-- Visit a field of an ordinary object. -/
  | field (addr index : ℕ)
  /-- Trace an ephemeron. -/
  | ephemeron (addr : ℕ)
  /-- Trace the value of an ephemeron that was popped from the resolved set. -/
  | resolved (addr : ℕ)
  deriving DecidableEq, Repr

inductive Phase where
  /-- Tracing from the roots, with `check_pending_ephemerons` unset. -/
  | tracing
  /-- Tracing what the resolution of ephemerons and finalizers finds. -/
  | resolving
  | swept
  deriving DecidableEq, Repr

structure World where
  objects : ℕ → Option Object
  forwarded : ℕ → Option ℕ
  work : List Work
  checkPendingEphemerons : Bool
  /-- The buckets of `struct gc_pending_ephemerons`. -/
  buckets : ℕ → List ℕ
  resolved : List ℕ
  finalizerRoots : List (List Ref)
  phase : Phase
  /-- Every ephemeron that was pushed to the resolved set, the last one first. -/
  resolutions : List ℕ

namespace World

variable (graph : Graph) (world : World)

def ephemeronAt (addr : ℕ) : Option Ephemeron :=
  match world.objects addr with
  | some (.ephemeron ephemeron) => some ephemeron
  | _ => none

def modify (addr : ℕ) (change : Ephemeron → Ephemeron) : World :=
  match world.ephemeronAt addr with
  | some ephemeron =>
      { world with objects := update world.objects addr (some (.ephemeron (change ephemeron))) }
  | none => world

def setState (addr : ℕ) (state : EphemeronState) : World :=
  world.modify addr fun ephemeron => { ephemeron with state := state }

def isPending (addr : ℕ) : Bool :=
  match world.ephemeronAt addr with
  | some ephemeron => ephemeron.state == .pending
  | none => false

/-- The key, or null if this is no ephemeron. -/
def keyOf (addr : ℕ) : Ref :=
  match world.ephemeronAt addr with
  | some ephemeron => ephemeron.key
  | none => .null

/-! ## Keys and the pending and resolved sets -/

/-- Where a reference to an object leads now, or nothing if the object is not traced yet. What is
not an object of the collected spaces counts as traced. -/
def tracedRef (ref : Ref) : Option Ref :=
  match ref with
  | .object addr =>
      match world.objects addr with
      | some _ => (world.forwarded addr).map .object
      | none => some ref
  | _ => some ref

/-- `gc_visit_ephemeron_key`: whether the key is traced, and if so the key is updated. -/
def gcVisitEphemeronKey (addr : ℕ) : Bool × World :=
  match world.tracedRef (world.keyOf addr) with
  | some key => (true, world.modify addr fun ephemeron => { ephemeron with key := key })
  | none => (false, world)

def maybeResolveEphemeron (addr : ℕ) : World :=
  if world.isPending addr then
    let world := world.setState addr .resolved
    { world with resolved := addr :: world.resolved, resolutions := addr :: world.resolutions }
  else world

/-- Visits the key of a pending ephemeron, and resolves it if the key is traced. -/
def resolveIfKeyTraced (addr : ℕ) : World :=
  match world.gcVisitEphemeronKey addr with
  | (true, world) => world.maybeResolveEphemeron addr
  | (false, world) => world

/-- Follows the pending links of a bucket. Links past ephemerons that are no longer pending are
elided. -/
def forEachPending (bucket : ℕ) (body : World → ℕ → World) : World :=
  let links := (world.buckets bucket).filter world.isPending
  links.foldl (fun world link => if world.isPending link then body world link else world)
    { world with buckets := update world.buckets bucket links }

def gcResolvePendingEphemerons (addr : ℕ) : World :=
  world.forEachPending (graph.hash addr) fun world link =>
    if world.keyOf link = .object addr then
      (world.gcVisitEphemeronKey link).2.maybeResolveEphemeron link
    else world

def addPendingEphemeron (addr : ℕ) : World :=
  match world.keyOf addr with
  | .object key =>
      let world := world.setState addr .pending
      let bucket := graph.hash key
      { world with buckets := update world.buckets bucket (addr :: world.buckets bucket) }
  | _ => world

/-! ## Visiting edges -/

/-- What tracing an object will have to do. -/
def itemsOf (addr : ℕ) : Object → List Work
  | .ordinary fields => (List.range fields.length).map (Work.field addr)
  | .ephemeron _ => [Work.ephemeron addr]

/-- An object is found to be newly traced. -/
def shade (addr : ℕ) (object : Object) : World :=
  let world :=
    { world with
      forwarded := update world.forwarded addr (some (graph.place addr))
      work := world.work ++ itemsOf addr object }
  if world.checkPendingEphemerons then world.gcResolvePendingEphemerons graph addr else world

/-- Visits an edge that holds `ref`; also what the edge holds then. -/
def visit (ref : Ref) : World × Ref :=
  match ref with
  | .object addr =>
      match world.objects addr, world.forwarded addr with
      | some object, none => (world.shade graph addr object, .object (graph.place addr))
      | some _, some final => (world, .object final)
      | none, _ => (world, ref)
  | _ => (world, ref)

def fieldAt (addr index : ℕ) : Ref :=
  match world.objects addr with
  | some (.ordinary fields) => fields.getD index .null
  | _ => .null

def setField (addr index : ℕ) (ref : Ref) : World :=
  match world.objects addr with
  | some (.ordinary fields) =>
      { world with objects := update world.objects addr (some (.ordinary (fields.set index ref))) }
  | _ => world

def visitField (addr index : ℕ) : World :=
  let (world, ref) := world.visit graph (world.fieldAt addr index)
  world.setField addr index ref

def valueOf (addr : ℕ) : Ref :=
  match world.ephemeronAt addr with
  | some ephemeron => ephemeron.value
  | none => .null

/-- Visits the value of an ephemeron, and sets its state to traced. -/
def visitValue (addr : ℕ) : World :=
  let (world, value) := world.visit graph (world.valueOf addr)
  let world := world.modify addr fun ephemeron => { ephemeron with value := value }
  world.setState addr .traced

/-! ## Tracing ephemerons -/

end World

/-- `follow_chain`: the first reference of the chain from `ref` that is not to a dead ephemeron. -/
def followChain (objects : ℕ → Option Object) : ℕ → Ref → Ref
  | 0, ref => ref
  | fuel + 1, ref =>
      match ref with
      | .object addr =>
          match objects addr with
          | some (.ephemeron ephemeron) =>
              if ephemeron.key = .null then followChain objects fuel ephemeron.chain else ref
          | _ => ref
      | _ => ref

namespace World

variable (graph : Graph) (world : World)

/-- Visits the chain link of an ephemeron, past dead ephemerons. -/
def visitChain (addr : ℕ) (chain : Ref) : World :=
  let target := followChain world.objects (graph.depth addr) chain
  let (world, chain) := world.visit graph target
  world.modify addr fun ephemeron => { ephemeron with chain := chain }

/-- The end of `gc_trace_ephemeron`: publishes an ephemeron whose key is not traced yet, and
checks the key again. -/
def publish (addr : ℕ) : World :=
  (world.addPendingEphemeron graph addr).resolveIfKeyTraced addr

/-- `gc_trace_ephemeron`. The state is left alone where it would be claimed and set back. -/
def gcTraceEphemeron (addr : ℕ) : World :=
  match world.ephemeronAt addr with
  | none => world
  | some ephemeron =>
      if ephemeron.state ≠ .traced then world
      else if ephemeron.epoch = graph.epoch then world
      else
        let world := world.modify addr fun ephemeron =>
          { ephemeron with state := .claimed, epoch := graph.epoch }
        let world := world.visitChain graph addr ephemeron.chain
        if world.keyOf addr = .null then world.setState addr .traced
        else
          match world.gcVisitEphemeronKey addr with
          | (true, world) => world.visitValue graph addr
          | (false, world) => world.publish graph addr

/-! ## The collection -/

def doWork : Work → World
  | .root ref => (world.visit graph ref).1
  | .field addr index => world.visitField graph addr index
  | .ephemeron addr => world.gcTraceEphemeron graph addr
  | .resolved addr => world.visitValue graph addr

def gcScanPendingEphemerons : World :=
  (List.range graph.nbuckets).foldl
    (fun world bucket => world.forEachPending bucket resolveIfKeyTraced) world

/-- An ephemeron that is still pending at the end is dead. -/
def markDead (addr : ℕ) : World :=
  world.modify addr fun ephemeron => { ephemeron with key := .null, state := .traced }

def sweepBucket (bucket : ℕ) : World :=
  let world := world.forEachPending bucket markDead
  { world with buckets := update world.buckets bucket [] }

def gcSweepPendingEphemerons : World :=
  (List.range graph.nbuckets).foldl sweepBucket world

end World

inductive Action where
  /-- A worker does the piece of work at `index`. -/
  | work (index : ℕ)
  /-- With everything traced that the roots reach, `check_pending_ephemerons` is set and pending
  ephemerons are scanned. -/
  | resolveEagerly
  /-- `gc_pop_resolved_ephemerons`. -/
  | popResolved
  /-- `gc_resolve_finalizers` for the next priority. -/
  | resolveFinalizers
  | sweep
  deriving DecidableEq, Repr

/-- Whether the tracer has nothing to do. -/
def World.idle (world : World) : Prop := world.work = []

instance (world : World) : Decidable world.idle := inferInstanceAs (Decidable (_ = _))

section Step

variable (graph : Graph)

def step (world : World) : Action → Outcome Empty World
  | .work index =>
      match world.work[index]? with
      | some item =>
          let done := world.doWork graph item
          pure { done with work := done.work.eraseIdx index }
      | none => .disabled
  | .resolveEagerly => do
      Outcome.require (world.phase = .tracing ∧ world.idle)
      pure (World.gcScanPendingEphemerons graph
        { world with checkPendingEphemerons := true, phase := .resolving })
  | .popResolved => do
      Outcome.require (world.phase = .resolving ∧ world.idle ∧ world.resolved ≠ [])
      pure { world with work := world.resolved.map .resolved, resolved := [] }
  | .resolveFinalizers => do
      Outcome.require (world.phase = .resolving ∧ world.idle ∧ world.resolved = [])
      match world.finalizerRoots with
      | [] => .disabled
      | roots :: rest => pure { world with work := roots.map .root, finalizerRoots := rest }
  | .sweep => do
      Outcome.require (world.phase = .resolving ∧ world.idle ∧ world.resolved = [] ∧
        world.finalizerRoots = [])
      let swept := world.gcSweepPendingEphemerons graph
      pure { swept with phase := .swept }

/-- After `resolve_ephemerons_lazily`, with all roots still to be visited. -/
def initialWorld : World :=
  { objects := graph.objects
    forwarded := fun _ => none
    work := graph.roots.map .root
    checkPendingEphemerons := false
    buckets := fun _ => []
    resolved := []
    finalizerRoots := graph.finalizerRoots
    phase := .tracing
    resolutions := [] }

def system : System World Action Empty :=
  { initial := fun world => world = initialWorld graph
    step := step graph }

end Step

end Whippet.Ephemerons
