import Whippet.Lospace.ConservativeRefs
import Whippet.Nofl.ConservativeRefs

/-!
Conservative references in the mostly marking collector (`mmc.c`).

A word is looked up in the nofl space if it is an address there, and otherwise in the large object
space. That happens when the embedder asks for it, for conservative roots, and for the words of
objects that are traced conservatively: of all objects in some builds, and in others of those that
are allocated that way.

Owns: `gc_resolve_conservative_ref` and `do_trace_conservative_ref`, runs of the large object space
with both, and when the lookup reads an array that was not allocated. Does not own: which objects
are traced.
-/

namespace Whippet.Mmc

open Lospace Tables Nofl

/-- How the collector is built. -/
structure ConservativeBuild where
  lospace : Lospace.Config
  embedder : Embedder
  /-- `gc_has_global_conservative_roots`. -/
  hasGlobalConservativeRoots : Bool
  /-- `GC_CONSERVATIVE_TRACE`. -/
  conservativeTrace : Bool

/-- `gc_conservative_ref_might_be_a_heap_object`. -/
def gcConservativeRefMightBeAHeapObject (embedder : Embedder) (ref : Word)
    (possiblyInterior : Bool) : Bool :=
  if ref < 4096 then false
  else if possiblyInterior then true
  else embedder.isValidDisplacement (ref &&& 7)

/-- What conservative references read and write. -/
structure ConservativeHeap where
  noflExtents : Extents
  summary : ℕ → BlockSummary
  marks : NoflMarks
  heapHasAmbiguousEdges : Bool
  lospace : LospaceState
  /-- The extents of the large object space. -/
  extents : Option Extents

inductive ConservativeRefFailure where
  | nofl (assertion : ResolveAssertion)
  | lospace (failure : ConservativeFailure)
  deriving DecidableEq, Repr

namespace ConservativeHeap

variable (build : ConservativeBuild) (heap : ConservativeHeap)

def conservativeSpace : ConservativeSpace := ⟨heap.lospace.space, heap.extents⟩

def withSpace (space : LargeObjectSpace) : ConservativeHeap :=
  { heap with lospace := { heap.lospace with space := space } }

/-- `nofl_space_contains_conservative_ref`. -/
def noflSpaceContainsConservativeRef (ref : Word) : Bool := heap.noflExtents.containAddr ref ≠ 0

/-- `large_object_space_resolve_conservative_ref`. -/
def largeObjectSpaceResolveConservativeRef (ref : Word) (possiblyInterior : Bool) :
    Outcome ConservativeRefFailure (ConservativeHeap × ℕ) := do
  let (space, node) ← (heap.conservativeSpace.lookupConservativeRef build.lospace build.embedder ref
    possiblyInterior).mapFailure .lospace
  pure (heap.withSpace space, if space.isLive node then (space.keyOf node).addr else 0)

/-- `large_object_space_mark_conservative_ref`. -/
def largeObjectSpaceMarkConservativeRef (ref : Word) (possiblyInterior : Bool) :
    Outcome ConservativeRefFailure (ConservativeHeap × ℕ) := do
  let (space, node) ← (heap.conservativeSpace.lookupConservativeRef build.lospace build.embedder ref
    possiblyInterior).mapFailure .lospace
  if space.isLive node then do
    let addr := (space.keyOf node).addr
    let marked ← ((space.mark build.lospace (BitVec.ofNat 64 addr)).mapFailure
      ConservativeFailure.lospace).mapFailure .lospace
    pure (heap.withSpace marked, if space.isMarked node then 0 else addr)
  else pure (heap.withSpace space, 0)

/-- `gc_resolve_conservative_ref`: the address of the object, or null. -/
def gcResolveConservativeRef (ref : Word) (possiblyInterior : Bool) :
    Outcome ConservativeRefFailure (ConservativeHeap × ℕ) :=
  if gcConservativeRefMightBeAHeapObject build.embedder ref possiblyInterior = false then
    pure (heap, 0)
  else if heap.noflSpaceContainsConservativeRef ref then do
    let addr ← (noflSpaceResolveConservativeRef
      (fun displacement => build.embedder.isValidDisplacement (BitVec.ofNat 64 displacement))
      heap.summary heap.marks.metadata ref.toNat possiblyInterior).mapFailure .nofl
    pure (heap, addr)
  else heap.largeObjectSpaceResolveConservativeRef build ref possiblyInterior

/-- `do_trace_conservative_ref`: the address of the object if this marked it, or null. -/
def doTraceConservativeRef (ref : Word) (possiblyInterior : Bool) :
    Outcome ConservativeRefFailure (ConservativeHeap × ℕ) :=
  if gcConservativeRefMightBeAHeapObject build.embedder ref possiblyInterior = false then
    pure (heap, 0)
  else if heap.noflSpaceContainsConservativeRef ref then do
    let (marks, addr) ← (noflSpaceMarkConservativeRef
      (fun displacement => build.embedder.isValidDisplacement (BitVec.ofNat 64 displacement))
      heap.summary heap.marks ref.toNat possiblyInterior).mapFailure .nofl
    pure ({ heap with marks := marks }, addr)
  else heap.largeObjectSpaceMarkConservativeRef build ref possiblyInterior

end ConservativeHeap

/-! ## Runs -/

inductive ConservativeAction where
  /-- A step of the large object space, with the memory that there is for extents. -/
  | lospace (action : LospaceAction) (memory : ℕ → Bool)
  /-- Whatever the nofl space does. -/
  | nofl (extents : Extents) (summary : ℕ → BlockSummary) (marks : NoflMarks)
  /-- `nofl_space_set_heap_has_ambiguous_edges`, when an object is allocated that is to be traced
  conservatively. -/
  | setHeapHasAmbiguousEdges
  /-- `gc_resolve_conservative_ref`, as the embedder asks for it. -/
  | resolve (ref : Word) (possiblyInterior : Bool)
  /-- `do_trace_conservative_ref`, for a word in a root or in an object. -/
  | trace (ref : Word) (possiblyInterior : Bool)

namespace ConservativeHeap

variable (build : ConservativeBuild) (heap : ConservativeHeap)

/-- There are words to trace conservatively. -/
def TracesConservatively : Prop :=
  build.embedder.hasMutatorConservativeRoots = true ∨ build.hasGlobalConservativeRoots = true ∨
    heap.heapHasAmbiguousEdges = true

instance : Decidable (heap.TracesConservatively build) := inferInstanceAs (Decidable (_ ∨ _ ∨ _))

/-- Collections start and finish with the extents. -/
def stepExtents (memory : ℕ → Bool) : LospaceAction → Outcome ConservativeFailure ConservativeSpace
  | .startGc _ => do
      Outcome.require (heap.lospace.collecting = none)
      heap.conservativeSpace.startExtents build.embedder memory
  | .finishGc _ => do
      Outcome.require (heap.lospace.collecting ≠ none)
      heap.conservativeSpace.finishExtents build.embedder
  | _ => pure heap.conservativeSpace

/-- A step of the large object space. -/
def stepLospace (memory : ℕ → Bool) (action : LospaceAction) :
    Outcome ConservativeRefFailure ConservativeHeap := do
  let prepared ← (heap.stepExtents build memory action).mapFailure .lospace
  let after ← ((heap.lospace.step build.lospace action).mapFailure
    ConservativeFailure.lospace).mapFailure .lospace
  pure { heap with
    lospace := after
    extents := prepared.extents }

def step : ConservativeAction → Outcome ConservativeRefFailure ConservativeHeap
  | .lospace action memory => heap.stepLospace build memory action
  | .nofl extents summary marks => pure { heap with
      noflExtents := extents
      summary := summary
      marks := marks }
  | .setHeapHasAmbiguousEdges => pure { heap with heapHasAmbiguousEdges := true }
  | .resolve ref possiblyInterior => do
      let (after, _) ← heap.gcResolveConservativeRef build ref possiblyInterior
      pure after
  | .trace ref possiblyInterior => do
      Outcome.require (heap.lospace.collecting ≠ none ∧ heap.TracesConservatively build)
      let (after, _) ← heap.doTraceConservativeRef build ref possiblyInterior
      pure after

end ConservativeHeap

/-- `large_object_space_init` allocates the extents if mutators have conservative roots. -/
def conservativeSystem (build : ConservativeBuild) :
    System ConservativeHeap ConservativeAction ConservativeRefFailure :=
  { initial := fun heap => (lospaceSystem build.lospace).initial heap.lospace ∧
      heap.heapHasAmbiguousEdges = build.conservativeTrace ∧
      heap.extents =
        if build.embedder.hasMutatorConservativeRoots then some { capacity := 64, ranges := [] }
        else none
    step := fun heap action => heap.step build action }

/-! ## Reads of the extents -/

/-- The word is dismissed before the extents of the large object space are looked at. -/
def IsDismissed (build : ConservativeBuild) (heap : ConservativeHeap) (ref : Word)
    (possiblyInterior : Bool) : Prop :=
  gcConservativeRefMightBeAHeapObject build.embedder ref possiblyInterior = false ∨
    heap.noflSpaceContainsConservativeRef ref = true ∨
    ConservativeSpace.stripDisplacement build.lospace build.embedder ref possiblyInterior = none

/-- The action does not look a word up in the large object space. -/
def ConservativeAction.LooksNothingUp (build : ConservativeBuild) (heap : ConservativeHeap) :
    ConservativeAction → Prop
  | .resolve ref possiblyInterior => IsDismissed build heap ref possiblyInterior
  | .trace ref possiblyInterior =>
      heap.lospace.collecting = none ∨ ¬heap.TracesConservatively build ∨
        IsDismissed build heap ref possiblyInterior
  | _ => True

/-- What an action does with an array of extents that was not allocated. -/
def ReadsNoExtents (build : ConservativeBuild) (heap : ConservativeHeap)
    (action : ConservativeAction) : Prop :=
  heap.step build action ≠ .failed (.lospace .noExtents)

section Reads

variable {build : ConservativeBuild} {heap after : ConservativeHeap} {action : ConservativeAction}
variable {ref : Word} {possiblyInterior : Bool} {memory : ℕ → Bool}

theorem resolve_eq_noExtents_iff :
    heap.gcResolveConservativeRef build ref possiblyInterior = .failed (.lospace .noExtents) ↔
      heap.extents = none ∧ ¬IsDismissed build heap ref possiblyInterior := by
  rw [ConservativeHeap.gcResolveConservativeRef, IsDismissed, not_or, not_or]
  split
  · rename_i dismissed
    simp [dismissed]
  · rename_i possible
    split
    · rename_i inNofl
      rw [Outcome.bind_eq_failed]
      constructor
      · rintro (failed | ⟨addr, -, continued⟩)
        · obtain ⟨part, -, same⟩ := Outcome.mapFailure_eq_failed.mp failed
          cases same
        · cases continued
      · exact fun ⟨_, _, notInNofl, _⟩ => absurd inNofl notInNofl
    · rename_i notInNofl
      rw [ConservativeHeap.largeObjectSpaceResolveConservativeRef, Outcome.bind_eq_failed]
      constructor
      · rintro (failed | ⟨⟨space, node⟩, -, continued⟩)
        · obtain ⟨part, failed, same⟩ := Outcome.mapFailure_eq_failed.mp failed
          cases same
          obtain ⟨none, notNone⟩ := lookupConservativeRef_eq_noExtents_iff.mp failed
          exact ⟨none, possible, notInNofl, notNone⟩
        · cases continued
      · rintro ⟨none, -, -, notNone⟩
        left
        apply Outcome.mapFailure_eq_failed.mpr
        exact ⟨.noExtents, lookupConservativeRef_eq_noExtents_iff.mpr ⟨none, notNone⟩, rfl⟩

theorem trace_eq_noExtents_iff :
    heap.doTraceConservativeRef build ref possiblyInterior = .failed (.lospace .noExtents) ↔
      heap.extents = none ∧ ¬IsDismissed build heap ref possiblyInterior := by
  rw [ConservativeHeap.doTraceConservativeRef, IsDismissed, not_or, not_or]
  split
  · rename_i dismissed
    simp [dismissed]
  · rename_i possible
    split
    · rename_i inNofl
      rw [Outcome.bind_eq_failed]
      constructor
      · rintro (failed | ⟨⟨marks, addr⟩, -, continued⟩)
        · obtain ⟨part, -, same⟩ := Outcome.mapFailure_eq_failed.mp failed
          cases same
        · cases continued
      · exact fun ⟨_, _, notInNofl, _⟩ => absurd inNofl notInNofl
    · rename_i notInNofl
      rw [ConservativeHeap.largeObjectSpaceMarkConservativeRef, Outcome.bind_eq_failed]
      constructor
      · rintro (failed | ⟨⟨space, node⟩, -, continued⟩)
        · obtain ⟨part, failed, same⟩ := Outcome.mapFailure_eq_failed.mp failed
          cases same
          obtain ⟨none, notNone⟩ := lookupConservativeRef_eq_noExtents_iff.mp failed
          exact ⟨none, possible, notInNofl, notNone⟩
        · dsimp only at continued
          split at continued
          · rw [Outcome.bind_eq_failed] at continued
            rcases continued with failed | ⟨marked, -, continued⟩
            · obtain ⟨part, failed, same⟩ := Outcome.mapFailure_eq_failed.mp failed
              cases same
              obtain ⟨part, -, same⟩ := Outcome.mapFailure_eq_failed.mp failed
              cases same
            · cases continued
          · cases continued
      · rintro ⟨none, -, -, notNone⟩
        left
        apply Outcome.mapFailure_eq_failed.mpr
        exact ⟨.noExtents, lookupConservativeRef_eq_noExtents_iff.mpr ⟨none, notNone⟩, rfl⟩

/-- There are extents if mutators have conservative roots. -/
def ExtentsAllocated (build : ConservativeBuild) (heap : ConservativeHeap) : Prop :=
  heap.extents.isSome = build.embedder.hasMutatorConservativeRoots

theorem stepExtents_spec (allocated : ExtentsAllocated build heap) {action : LospaceAction} :
    heap.stepExtents build memory action ≠ .failed .noExtents ∧
      ∀ state, heap.stepExtents build memory action = .next state →
        state.extents.isSome = build.embedder.hasMutatorConservativeRoots := by
  have isSome : heap.conservativeSpace.extents.isSome =
      build.embedder.hasMutatorConservativeRoots := allocated
  cases action with
  | startGc isMinorGc =>
      constructor
      · intro failed
        rw [ConservativeHeap.stepExtents, Outcome.require_bind_eq_failed] at failed
        exact (startExtents_spec isSome).1 failed.2
      · intro state started
        rw [ConservativeHeap.stepExtents, Outcome.require_bind_eq_next] at started
        exact (startExtents_spec isSome).2 state started.2
  | finishGc pages =>
      constructor
      · intro failed
        rw [ConservativeHeap.stepExtents, Outcome.require_bind_eq_failed] at failed
        exact (finishExtents_spec isSome).1 failed.2
      · intro state finished
        rw [ConservativeHeap.stepExtents, Outcome.require_bind_eq_next] at finished
        exact (finishExtents_spec isSome).2 state finished.2
  | _ =>
      refine ⟨nofun, ?_⟩
      intro state same
      cases same
      exact isSome

/-- Steps of the large object space do not read extents that there are not, and keep them. -/
theorem stepLospace_spec (allocated : ExtentsAllocated build heap) {action : LospaceAction} :
    heap.stepLospace build memory action ≠ .failed (.lospace .noExtents) ∧
      ∀ after, heap.stepLospace build memory action = .next after →
        ExtentsAllocated build after := by
  rw [ConservativeHeap.stepLospace]
  constructor
  · intro failed
    rw [Outcome.bind_eq_failed] at failed
    rcases failed with failed | ⟨state, -, failed⟩
    · obtain ⟨part, failed, same⟩ := Outcome.mapFailure_eq_failed.mp failed
      cases same
      exact (stepExtents_spec allocated).1 failed
    · rw [Outcome.bind_eq_failed] at failed
      rcases failed with failed | ⟨lospace, -, continued⟩
      · obtain ⟨part, failed, same⟩ := Outcome.mapFailure_eq_failed.mp failed
        cases same
        obtain ⟨part, -, same⟩ := Outcome.mapFailure_eq_failed.mp failed
        cases same
      · cases continued
  · intro after stepped
    rw [Outcome.bind_eq_next] at stepped
    obtain ⟨state, isState, stepped⟩ := stepped
    rw [Outcome.bind_eq_next] at stepped
    obtain ⟨lospace, -, same⟩ := stepped
    cases same
    exact (stepExtents_spec allocated).2 state (Outcome.mapFailure_eq_next.mp isState)

theorem resolve_extents {addr : ℕ}
    (resolved : heap.gcResolveConservativeRef build ref possiblyInterior = .next (after, addr)) :
    after.extents = heap.extents := by
  rw [ConservativeHeap.gcResolveConservativeRef] at resolved
  split at resolved
  · cases resolved
    rfl
  · split at resolved
    · rw [Outcome.bind_eq_next] at resolved
      obtain ⟨addr, -, same⟩ := resolved
      cases same
      rfl
    · rw [ConservativeHeap.largeObjectSpaceResolveConservativeRef, Outcome.bind_eq_next] at resolved
      obtain ⟨⟨space, node⟩, -, same⟩ := resolved
      cases same
      rfl

theorem trace_extents {addr : ℕ}
    (traced : heap.doTraceConservativeRef build ref possiblyInterior = .next (after, addr)) :
    after.extents = heap.extents := by
  rw [ConservativeHeap.doTraceConservativeRef] at traced
  split at traced
  · cases traced
    rfl
  · split at traced
    · rw [Outcome.bind_eq_next] at traced
      obtain ⟨⟨marks, addr⟩, -, same⟩ := traced
      cases same
      rfl
    · rw [ConservativeHeap.largeObjectSpaceMarkConservativeRef, Outcome.bind_eq_next] at traced
      obtain ⟨⟨space, node⟩, -, traced⟩ := traced
      dsimp only at traced
      split at traced
      · rw [Outcome.bind_eq_next] at traced
        obtain ⟨marked, -, same⟩ := traced
        cases same
        rfl
      · cases traced
        rfl

theorem extentsAllocated_of_step (allocated : ExtentsAllocated build heap)
    (stepped : heap.step build action = .next after) : ExtentsAllocated build after := by
  cases action with
  | lospace action memory => exact (stepLospace_spec allocated).2 after stepped
  | nofl extents summary marks =>
      cases stepped
      exact allocated
  | setHeapHasAmbiguousEdges =>
      cases stepped
      exact allocated
  | resolve ref possiblyInterior =>
      rw [ConservativeHeap.step, Outcome.bind_eq_next] at stepped
      obtain ⟨⟨resolved, addr⟩, isResolved, same⟩ := stepped
      cases same
      rw [ExtentsAllocated, resolve_extents isResolved]
      exact allocated
  | trace ref possiblyInterior =>
      rw [ConservativeHeap.step, Outcome.require_bind_eq_next, Outcome.bind_eq_next] at stepped
      obtain ⟨-, ⟨traced, addr⟩, isTraced, same⟩ := stepped
      cases same
      rw [ExtentsAllocated, trace_extents isTraced]
      exact allocated

theorem extentsAllocated_of_reachable (reached : (conservativeSystem build).Reachable heap) :
    ExtentsAllocated build heap := by
  induction reached with
  | initial start =>
      obtain ⟨-, -, isInitial⟩ := start
      rw [ExtentsAllocated, isInitial]
      cases build.embedder.hasMutatorConservativeRoots with
      | true => rfl
      | false => rfl
  | step _ _ stepped inductionHypothesis =>
      exact extentsAllocated_of_step inductionHypothesis stepped

/-- In every state of every run, an action does not read extents that were not allocated if and only
if mutators have conservative roots or the action looks nothing up in the large object space. -/
theorem reads_no_missing_extents_iff (reached : (conservativeSystem build).Reachable heap)
    (action : ConservativeAction) :
    ReadsNoExtents build heap action ↔
      build.embedder.hasMutatorConservativeRoots = true ∨ action.LooksNothingUp build heap := by
  have allocated := extentsAllocated_of_reachable reached
  have none_iff : heap.extents = none ↔ build.embedder.hasMutatorConservativeRoots ≠ true := by
    rw [← allocated, ne_eq, Option.isSome_iff_ne_none, not_not]
  cases action with
  | lospace action memory =>
      exact ⟨fun _ => .inr trivial, fun _ => (stepLospace_spec allocated).1⟩
  | nofl extents summary marks => exact ⟨fun _ => .inr trivial, fun _ => nofun⟩
  | setHeapHasAmbiguousEdges => exact ⟨fun _ => .inr trivial, fun _ => nofun⟩
  | resolve ref possiblyInterior =>
      have step_iff : heap.step build (.resolve ref possiblyInterior) =
          .failed (.lospace .noExtents) ↔
            heap.gcResolveConservativeRef build ref possiblyInterior =
              .failed (.lospace .noExtents) := by
        rw [ConservativeHeap.step, Outcome.bind_eq_failed]
        exact ⟨fun failed => failed.resolve_right nofun, .inl⟩
      rw [ReadsNoExtents, ne_eq, step_iff, resolve_eq_noExtents_iff, none_iff,
        ConservativeAction.LooksNothingUp, not_and_or, ne_eq, not_not, not_not]
  | trace ref possiblyInterior =>
      have step_iff : heap.step build (.trace ref possiblyInterior) =
          .failed (.lospace .noExtents) ↔
            (heap.lospace.collecting ≠ none ∧ heap.TracesConservatively build) ∧
            heap.doTraceConservativeRef build ref possiblyInterior =
              .failed (.lospace .noExtents) := by
        rw [ConservativeHeap.step, Outcome.require_bind_eq_failed, Outcome.bind_eq_failed]
        apply and_congr_right
        intro _
        exact ⟨fun failed => failed.resolve_right nofun, .inl⟩
      rw [ReadsNoExtents, ne_eq, step_iff, trace_eq_noExtents_iff, none_iff,
        ConservativeAction.LooksNothingUp, not_and_or, not_and_or, not_and_or, ne_eq, ne_eq,
          not_not,
        not_not, not_not]
      tauto

end Reads

/-! ## A word that the embedder asks about -/

namespace AskedAbout

/-- With a choice of roots, and no conservative tracing. -/
def build (hasMutatorConservativeRoots : Bool) : ConservativeBuild where
  lospace := pagedConfig
  embedder :=
    { hasMutatorConservativeRoots := hasMutatorConservativeRoots
      isValidDisplacement := fun displacement => displacement == 0 }
  hasGlobalConservativeRoots := hasMutatorConservativeRoots
  conservativeTrace := false

/-- The heap before anything is allocated, with a slab at 4 MiB. -/
def heap (space : LargeObjectSpace) (hasMutatorConservativeRoots : Bool) : ConservativeHeap where
  noflExtents := { capacity := 10, ranges := [⟨0x400000, 0x800000⟩] }
  summary := fun _ => ⟨0, 0, 0, 0, false, false, false, false⟩
  marks := ⟨NOFL_METADATA_BYTE_MARK_0, NOFL_METADATA_BYTE_MARK_0, fun _ => 0, fun _ => false⟩
  heapHasAmbiguousEdges := false
  lospace := { space := space, collecting := none, allocated := [] }
  extents := if hasMutatorConservativeRoots then some { capacity := 64, ranges := [] } else none

theorem reached {space : LargeObjectSpace} {hasRoots : Bool}
    (created : largeObjectSpaceInit (fun _ => true) = .next space) :
    (conservativeSystem (build hasRoots)).Reachable (heap space hasRoots) :=
  .initial ⟨⟨_, created, rfl, rfl⟩, rfl, rfl⟩

end AskedAbout

/-- An object is allocated and a collection starts. -/
def AskedAbout.actions : List ConservativeAction :=
  [.lospace (.alloc 0x1000 .precisely (roomyEnvironment 1 0x10000)) fun _ => true,
    .lospace (.startGc false) fun _ => true]

open AskedAbout in
/-- During a collection the embedder asks about a word in a large object. With conservative roots
the array is there; without them it is read although it is not. -/
theorem reads_no_missing_extents_iff_asked_about :
    ∃ withRoots withoutRoots : ConservativeHeap,
      withRoots.lospace.allocated ≠ [] ∧ withRoots.lospace.collecting = some false ∧
      (conservativeSystem (build true)).Reachable withRoots ∧
      ReadsNoExtents (build true) withRoots (.resolve 0x10234 true) ∧
      (conservativeSystem (build false)).Reachable withoutRoots ∧
      ¬ReadsNoExtents (build false) withoutRoots (.resolve 0x10234 true) := by
  have leads (hasRoots : Bool) : (largeObjectSpaceInit (fun _ => true)).leadsTo (fun space =>
      (System.runBy (conservativeSystem (build hasRoots)).step (fun _ _ => True)
        (heap space hasRoots) actions).leadsTo fun after =>
          decide (after.lospace.allocated ≠ [] ∧ after.lospace.collecting = some false ∧
            after.noflSpaceContainsConservativeRef 0x10234 = false)) = true := by
    cases hasRoots <;> decide +kernel
  have runs (hasRoots : Bool) : ∃ after : ConservativeHeap,
      (conservativeSystem (build hasRoots)).Reachable after ∧ after.lospace.allocated ≠ [] ∧
        after.lospace.collecting = some false ∧
        after.noflSpaceContainsConservativeRef 0x10234 = false := by
    obtain ⟨space, created, ran⟩ := Outcome.exists_next_of_leadsTo (leads hasRoots)
    obtain ⟨after, isAfter, facts⟩ := Outcome.exists_next_of_leadsTo ran
    exact ⟨after, (reached created).of_runBy (conservativeSystem (build hasRoots)) (fun _ _ => True)
      (fun _ _ => id) actions isAfter, of_decide_eq_true facts⟩
  obtain ⟨withRoots, reachedWith, allocated, collecting, -⟩ := runs true
  obtain ⟨withoutRoots, reachedWithout, -, -, outside⟩ := runs false
  refine ⟨withRoots, withoutRoots, allocated, collecting, reachedWith,
    (reads_no_missing_extents_iff reachedWith _).mpr (.inl rfl), reachedWithout, ?_⟩
  rw [reads_no_missing_extents_iff reachedWithout]
  rintro (hasRoots | dismissed | isNofl | stripped)
  · cases hasRoots
  · revert dismissed
    decide
  · rw [outside] at isNofl
    cases isNofl
  · revert stripped
    decide

open AskedAbout in
/-- Without conservative roots, the embedder asks about a word that is not in the nofl space. -/
theorem reads_missing_extents :
    ¬∀ build heap action, (conservativeSystem build).Reachable heap →
      ReadsNoExtents build heap action := by
  intro claimed
  obtain ⟨space, created⟩ : ∃ space, largeObjectSpaceInit (fun _ => true) = .next space := ⟨_, rfl⟩
  apply claimed (build false) (heap space false) (.resolve 0x10000 true) (reached created)
  have outside : (heap space false).noflSpaceContainsConservativeRef 0x10000 = false := by
    have notFound : (⟨10, [⟨0x400000, 0x800000⟩]⟩ : Extents).containAddr 0x10000 = 0 := by
      decide +kernel
    rw [ConservativeHeap.noflSpaceContainsConservativeRef]
    exact decide_eq_false (not_not.mpr notFound)
  rw [ConservativeHeap.step, ConservativeHeap.gcResolveConservativeRef, if_neg (by decide),
    if_neg (by rw [outside]; decide)]
  rfl

end Whippet.Mmc
