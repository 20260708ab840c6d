import Whippet.Library.Processes
import Whippet.Pcc.TraceLocks

/-!
When the trace of a generational pcc waits for itself.

The only visit that acquires the lock of the large object space is that of an edge from a large
object to a survivor of the nursery. In a run without such visits the locks that the workers wait
for are only ever held by other workers, which are about to release them.

Owns: that no worker acquires the lock of the large object space in such runs, that they are never
stuck, and that the visit of such an edge does acquire it. Does not own: how long a worker waits.
-/

namespace Whippet.Pcc

open Function

/-! ## Objects -/

section Objects

variable {heap : TracedHeap}

/-- Marking leaves the spans of the objects alone. -/
theorem TracedHeap.largeObjectContaining_mark (heap : TracedHeap) (address edge : ℕ) :
    (heap.mark address).largeObjectContaining edge = heap.largeObjectContaining edge := by
  unfold largeObjectContaining mark
  dsimp only
  rw [List.find?_map]
  have same : ((fun object : TracedLargeObject =>
      decide (object.addr ≤ edge ∧ edge < object.addr + object.size)) ∘ fun object =>
        if object.addr = address then { object with mark := heap.marked } else object) =
      fun object => decide (object.addr ≤ edge ∧ edge < object.addr + object.size) := by
    funext object
    dsimp only [comp]
    split <;> rfl
  rw [same]
  cases heap.largeObjects.find? fun object =>
      decide (object.addr ≤ edge ∧ edge < object.addr + object.size) with
  | none => rfl
  | some object =>
      dsimp only [Option.map_some]
      split_ifs <;> rfl

end Objects

/-! ## Stages -/

/-- A worker is on its way to no section of the large object space, and a lookup will find no
object. -/
def WorkerStage.Avoids (heap : TracedHeap) : WorkerStage → Prop
  | .waiting visit criticalSection | .inside visit criticalSection =>
      criticalSection.lock ≠ .space ∧
        (criticalSection = .lookupObject → heap.largeObjectContaining visit.edge = none)
  | _ => True

/-- What a part of a visit does. -/
structure VisitResult.Avoids (heap : TracedHeap) (result : VisitResult) : Prop where
  sameObjects : ∀ edge,
    result.heap.largeObjectContaining edge = heap.largeObjectContaining edge
  stage : result.stage.Avoids heap

section Stages

variable {heap after : TracedHeap} {visit : EdgeVisit} {stage : WorkerStage}
variable {gcDebug : Bool} {result : VisitResult}

theorem WorkerStage.Avoids.congr
    (same : ∀ edge, after.largeObjectContaining edge = heap.largeObjectContaining edge)
    (avoids : stage.Avoids heap) : stage.Avoids after := by
  cases stage with
  | waiting visit criticalSection =>
      exact ⟨avoids.1, fun isLookup => (same visit.edge).trans (avoids.2 isLookup)⟩
  | inside visit criticalSection =>
      exact ⟨avoids.1, fun isLookup => (same visit.edge).trans (avoids.2 isLookup)⟩
  | _ => trivial

theorem TracedHeap.finishVisit_avoids (heap : TracedHeap) (visit : EdgeVisit) :
    (heap.finishVisit visit).Avoids heap := by
  unfold finishVisit
  split_ifs
  · exact ⟨fun _ => rfl, trivial⟩
  · exact ⟨fun _ => rfl, trivial⟩
  · exact ⟨fun _ => rfl, by rintro ⟨⟩, by rintro ⟨⟩⟩
  · exact ⟨fun _ => rfl, trivial⟩

theorem VisitResult.Avoids.of_same
    (same : ∀ edge, after.largeObjectContaining edge = heap.largeObjectContaining edge)
    (avoids : result.Avoids after) : result.Avoids heap where
  sameObjects edge := (avoids.sameObjects edge).trans (same edge)
  stage := avoids.stage.congr fun edge => (same edge).symm

/-- A visit waits for the object tree only if no large object contains the edge. -/
theorem TracedHeap.doMinorTrace_avoids
    (noObject : heap.newSpaceContains visit.ref = true → heap.shouldPromote visit.ref = false →
      heap.newSpaceContains visit.edge = false → heap.oldSpaceContains visit.edge = false →
        heap.largeObjectContaining visit.edge = none) :
    (heap.doMinorTrace visit).Avoids heap := by
  unfold doMinorTrace
  split
  next inNew =>
    split
    next => exact ⟨fun _ => rfl, trivial⟩
    next keeps =>
      split
      next => exact ⟨fun _ => rfl, trivial⟩
      next notInNew =>
        unfold rememberEdgeToSurvivor
        split
        next => split <;> exact ⟨fun _ => rfl, trivial⟩
        next notInOld =>
          refine ⟨fun _ => rfl, by rintro ⟨⟩, fun _ => noObject inNew ?_ ?_ ?_⟩
          · exact Bool.eq_false_iff.mpr keeps
          · exact Bool.eq_false_iff.mpr notInNew
          · exact Bool.eq_false_iff.mpr notInOld
  next =>
    exact .of_same (heap.largeObjectContaining_mark visit.ref)
      ((heap.mark visit.ref).finishVisit_avoids visit)

/-- In a major collection no visit waits for a lock of the large object space. -/
theorem TracedHeap.doTrace_avoids {isMinorGc : Bool}
    (noObject : isMinorGc = true → heap.newSpaceContains visit.ref = true →
      heap.shouldPromote visit.ref = false → heap.newSpaceContains visit.edge = false →
        heap.oldSpaceContains visit.edge = false →
          heap.largeObjectContaining visit.edge = none) :
    (heap.doTrace isMinorGc visit).Avoids heap := by
  unfold doTrace
  split
  next isMinor => exact doMinorTrace_avoids (noObject isMinor)
  next =>
    split
    next => exact ⟨fun _ => rfl, trivial⟩
    next =>
      exact .of_same (heap.largeObjectContaining_mark visit.ref)
        ((heap.mark visit.ref).finishVisit_avoids visit)

theorem TracedHeap.leave_avoids {criticalSection : CriticalSection}
    (avoids : (WorkerStage.inside visit criticalSection).Avoids heap)
    (left : heap.leave gcDebug visit criticalSection = .next result) : result.Avoids heap := by
  cases criticalSection with
  | lookupObject =>
      simp only [leave, avoids.2 rfl] at left
      cases left
      exact ⟨fun _ => rfl, trivial⟩
  | assertContains object => exact absurd rfl avoids.1
  | assertSurvivor object => exact absurd rfl avoids.1
  | isSurvivor object => exact absurd rfl avoids.1
  | rememberEdge =>
      dsimp only [leave] at left
      split at left <;> cases left <;> exact ⟨fun _ => rfl, trivial⟩
  | forgetEdge =>
      simp only [leave, Outcome.check_bind_eq_next] at left
      cases left.2
      exact ⟨fun _ => rfl, trivial⟩
  | acquireBuffer =>
      cases left
      exact ⟨fun _ => rfl, trivial⟩
  | releaseBuffer =>
      cases left
      exact ⟨fun _ => rfl, trivial⟩
  | allocate toOld =>
      cases left
      exact ⟨fun _ => rfl, trivial⟩

theorem TraceWorld.advanceFrom_avoids {world : TraceWorld} {choice : TraceChoice}
    (avoids : stage.Avoids world.heap)
    (advanced : world.advanceFrom gcDebug choice stage = .next result) :
    result.Avoids world.heap := by
  cases stage with
  | idle => cases advanced
  | forward visit toOld =>
      cases choice with
      | acquire =>
          cases advanced
          refine ⟨fun _ => rfl, ?_, by rintro ⟨⟩⟩
          cases toOld <;> rintro ⟨⟩
      | forwarded address =>
          cases advanced
          have same (edge : ℕ) :
              (world.heap.setEdgeRef visit.edge address).largeObjectContaining edge =
                world.heap.largeObjectContaining edge := rfl
          exact .of_same same
            ((world.heap.setEdgeRef visit.edge address).finishVisit_avoids visit)
      | failed =>
          cases toOld with
          | true => cases advanced
          | false =>
              cases advanced
              exact ⟨fun _ => rfl, trivial⟩
      | proceed => cases advanced
  | log visit =>
      cases choice with
      | acquire =>
          cases advanced
          exact ⟨fun _ => rfl, by rintro ⟨⟩, by rintro ⟨⟩⟩
      | proceed =>
          cases advanced
          exact ⟨fun _ => rfl, trivial⟩
      | forwarded address => cases advanced
      | failed => cases advanced
  | waiting visit criticalSection =>
      simp only [advanceFrom, Outcome.require_bind_eq_next] at advanced
      cases advanced.2
      exact ⟨fun _ => rfl, avoids⟩
  | inside visit criticalSection => exact TracedHeap.leave_avoids avoids advanced

end Stages

/-! ## Runs -/

structure TraceWorld.Invariant (world : TraceWorld) : Prop where
  /-- Visits are part of collections. -/
  idle : world.collecting = none → ∀ stage ∈ world.workers, stage = .idle
  avoids : ∀ stage ∈ world.workers, stage.Avoids world.heap

section Runs

variable {gcDebug : Bool} {world after : TraceWorld} {index : ℕ} {action : TraceAction}

theorem TraceWorld.Invariant.setWorker {result : VisitResult} (invariant : world.Invariant)
    (collecting : world.collecting ≠ none) (avoids : result.Avoids world.heap) :
    (world.setWorker index result).Invariant where
  idle notCollecting := absurd notCollecting collecting
  avoids stage member := by
    rcases Processes.mem_set_cases member with rfl | before
    · exact avoids.stage.congr avoids.sameObjects
    · exact (invariant.avoids stage before).congr avoids.sameObjects

theorem TraceWorld.Invariant.step (invariant : world.Invariant) (avoids : world.Avoids action)
    (stepped : world.step gcDebug action = .next after) : after.Invariant := by
  cases action with
  | mutate heap =>
      simp only [TraceWorld.step, Outcome.require_bind_eq_next] at stepped
      obtain ⟨notCollecting, stepped⟩ := stepped
      cases stepped
      refine ⟨invariant.idle, ?_⟩
      intro stage member
      rw [invariant.idle notCollecting stage member]
      trivial
  | startGc isMinorGc =>
      simp only [TraceWorld.step, Outcome.require_bind_eq_next] at stepped
      cases stepped.2
      exact ⟨by rintro ⟨⟩, invariant.avoids⟩
  | visit index edge isRemembered =>
      dsimp only [TraceWorld.step] at stepped
      split at stepped
      next isMinorGc ref collecting refers =>
        simp only [Outcome.require_bind_eq_next, Outcome.check_bind_eq_next] at stepped
        obtain ⟨-, -, stepped⟩ := stepped
        cases stepped
        refine invariant.setWorker (by rw [collecting]; exact (by rintro ⟨⟩))
          (TracedHeap.doTrace_avoids ?_)
        intro isMinor inNew keeps notInNew notInOld
        subst isMinor
        have notLarge := avoids collecting
        simp only [TraceWorld.isLargeToSurvivor, refers, inNew, keeps, notInNew,
          notInOld] at notLarge
        simpa using notLarge
      next => cases stepped
  | visitEphemeronKey index edge forwarded =>
      simp only [TraceWorld.step, Outcome.require_bind_eq_next] at stepped
      obtain ⟨⟨collecting, -⟩, stepped⟩ := stepped
      cases forwarded with
      | none =>
          cases stepped
          exact invariant
      | some address =>
          cases stepped
          refine ⟨fun notCollecting => absurd notCollecting collecting, ?_⟩
          intro stage member
          exact (invariant.avoids stage member).congr fun _ => rfl
  | releaseBuffer index =>
      simp only [TraceWorld.step, Outcome.require_bind_eq_next] at stepped
      obtain ⟨⟨collecting, -⟩, stepped⟩ := stepped
      cases stepped
      exact invariant.setWorker collecting ⟨fun _ => rfl, by rintro ⟨⟩, by rintro ⟨⟩⟩
  | advance index choice =>
      dsimp only [TraceWorld.step] at stepped
      split at stepped
      next stage found =>
        obtain ⟨result, advanced, rest⟩ := Outcome.bind_eq_next.mp stepped
        cases rest
        have member := List.mem_of_getElem? found
        have collecting : world.collecting ≠ none := by
          intro notCollecting
          rw [invariant.idle notCollecting stage member] at advanced
          cases advanced
        exact invariant.setWorker collecting
          (TraceWorld.advanceFrom_avoids (invariant.avoids stage member) advanced)
      next => cases stepped
  | finishGc =>
      simp only [TraceWorld.step, Outcome.require_bind_eq_next] at stepped
      obtain ⟨⟨-, idle⟩, stepped⟩ := stepped
      cases stepped
      exact ⟨fun _ => idle, invariant.avoids⟩

theorem reachable_avoids (reached : (traceSystem gcDebug).ReachableBy TraceWorld.Avoids world) :
    world.Invariant := by
  apply reached.invariant
  · rintro state ⟨notCollecting, idle⟩
    refine ⟨fun _ => idle, ?_⟩
    intro stage member
    rw [idle stage member]
    trivial
  · intro before action after invariant avoids stepped
    exact invariant.step avoids stepped

/-- A worker in a critical section can go on. -/
theorem TracedHeap.leave_ne_disabled (heap : TracedHeap) (visit : EdgeVisit)
    (criticalSection : CriticalSection) :
    heap.leave gcDebug visit criticalSection ≠ .disabled := by
  cases criticalSection with
  | lookupObject =>
      dsimp only [leave]
      split <;> rintro ⟨⟩
  | assertContains object => exact Outcome.check_bind_ne_disabled (by rintro ⟨⟩)
  | assertSurvivor object => exact Outcome.check_bind_ne_disabled (by rintro ⟨⟩)
  | isSurvivor object =>
      dsimp only [leave]
      split <;> rintro ⟨⟩
  | rememberEdge =>
      dsimp only [leave]
      split <;> rintro ⟨⟩
  | forgetEdge => exact Outcome.check_bind_ne_disabled (by rintro ⟨⟩)
  | _ => rintro ⟨⟩

theorem TraceWorld.advance_ne_disabled {stage : WorkerStage} {choice : TraceChoice}
    (found : world.workers[index]? = some stage)
    (goesOn : world.advanceFrom gcDebug choice stage ≠ .disabled) :
    world.step gcDebug (.advance index choice) ≠ .disabled := by
  dsimp only [TraceWorld.step]
  rw [found]
  dsimp only
  cases advanced : world.advanceFrom gcDebug choice stage with
  | disabled => exact absurd advanced goesOn
  | failed failure => rintro ⟨⟩
  | next result => rintro ⟨⟩

/-- A worker that holds a lock can go on, and if no worker holds one then none waits. -/
theorem TraceWorld.Invariant.not_stuck (invariant : world.Invariant) : ¬world.Stuck gcDebug := by
  rintro ⟨⟨stage, member, busy⟩, disabled⟩
  have goesOn (stage : WorkerStage) (member : stage ∈ world.workers) (choice : TraceChoice) :
      world.advanceFrom gcDebug choice stage = .disabled := by
    obtain ⟨index, found⟩ := List.mem_iff_getElem?.mp member
    by_contra notDisabled
    exact advance_ne_disabled found notDisabled (disabled index choice)
  have noneHeld (stage : WorkerStage) (member : stage ∈ world.workers) : stage.held? = none := by
    cases stage with
    | inside visit criticalSection =>
        exact absurd (goesOn _ member .proceed) (world.heap.leave_ne_disabled visit criticalSection)
    | _ => rfl
  cases stage with
  | idle => exact busy rfl
  | forward visit toOld => cases goesOn _ member (.forwarded 0)
  | log visit => cases goesOn _ member .proceed
  | waiting visit criticalSection =>
      have free : ¬world.IsHeld criticalSection.lock := by
        rintro (⟨isSpace, -⟩ | ⟨holder, isWorker, holds⟩)
        · exact (invariant.avoids _ member).1 isSpace
        · rw [noneHeld holder isWorker] at holds
          cases holds
      have waits := goesOn _ member .proceed
      dsimp only [advanceFrom, Outcome.require] at waits
      rw [if_pos free] at waits
      cases waits
  | inside visit criticalSection => cases noneHeld _ member

theorem TraceWorld.Invariant.not_acquiresSpace (invariant : world.Invariant) :
    ¬world.AcquiresSpace := by
  rintro ⟨stage, member, wants⟩
  have avoids := invariant.avoids stage member
  cases stage with
  | waiting visit criticalSection => exact avoids.1 (Option.some.inj wants)
  | _ => cases wants

/-! ### Waiting for the collector -/

/-- Only the end of the collection could let a worker go on that acquires the lock, and it does not
come before the worker is idle. -/
theorem TraceWorld.waits_step {stage : WorkerStage} {isMinorGc : Bool}
    (found : world.workers[index]? = some stage) (wants : stage.wanted? = some .space)
    (collecting : world.collecting = some isMinorGc)
    (stepped : world.step gcDebug action = .next after) :
    after.workers[index]? = some stage ∧ after.collecting = some isMinorGc := by
  have busy : stage ≠ .idle := by
    rintro rfl
    cases wants
  have others {other : ℕ} (otherStage : WorkerStage) (different : other ≠ index) :
      (world.workers.set other otherStage)[index]? = some stage := by
    rw [List.getElem?_set_ne different]
    exact found
  have notIdle {other : ℕ} (idle : world.workers[other]? = some .idle) : other ≠ index := by
    rintro rfl
    rw [found] at idle
    exact busy (Option.some.inj idle)
  cases action with
  | mutate heap =>
      simp only [step, Outcome.require_bind_eq_next] at stepped
      rw [collecting] at stepped
      cases stepped.1
  | startGc isMinor =>
      simp only [step, Outcome.require_bind_eq_next] at stepped
      refine absurd (.inl ⟨rfl, ?_⟩) stepped.1
      rw [collecting]
      rintro ⟨⟩
  | visit other edge isRemembered =>
      dsimp only [step] at stepped
      split at stepped
      next isMinor ref isCollecting refers =>
        simp only [Outcome.require_bind_eq_next, Outcome.check_bind_eq_next] at stepped
        obtain ⟨idle, -, stepped⟩ := stepped
        cases stepped
        exact ⟨others _ (notIdle idle), collecting⟩
      next => cases stepped
  | visitEphemeronKey other edge forwarded =>
      simp only [step, Outcome.require_bind_eq_next] at stepped
      obtain ⟨-, stepped⟩ := stepped
      cases forwarded with
      | none =>
          cases stepped
          exact ⟨found, collecting⟩
      | some address =>
          cases stepped
          exact ⟨found, collecting⟩
  | releaseBuffer other =>
      simp only [step, Outcome.require_bind_eq_next] at stepped
      obtain ⟨⟨-, idle⟩, stepped⟩ := stepped
      cases stepped
      exact ⟨others _ (notIdle idle), collecting⟩
  | advance other choice =>
      dsimp only [step] at stepped
      split at stepped
      next otherStage atOther =>
        obtain ⟨result, advanced, rest⟩ := Outcome.bind_eq_next.mp stepped
        cases rest
        refine ⟨others _ ?_, collecting⟩
        rintro rfl
        rw [found] at atOther
        cases atOther
        cases stage with
        | waiting visit criticalSection =>
            simp only [advanceFrom, Outcome.require_bind_eq_next] at advanced
            refine advanced.1 (.inl ⟨Option.some.inj wants, ?_⟩)
            rw [collecting]
            rintro ⟨⟩
        | _ => cases wants
      next => cases stepped
  | finishGc =>
      simp only [step, Outcome.require_bind_eq_next] at stepped
      exact absurd (stepped.1.2 stage (List.mem_of_getElem? found)) busy

theorem TraceWorld.step_advance {stage : WorkerStage} {choice : TraceChoice} {result : VisitResult}
    (found : world.workers[index]? = some stage)
    (advanced : world.advanceFrom gcDebug choice stage = .next result) :
    world.step gcDebug (.advance index choice) = .next (world.setWorker index result) := by
  dsimp only [step]
  rw [found]
  dsimp only
  rw [advanced]
  rfl

/-- The visit of an edge from a large object to a survivor acquires the lock, once the lock of the
object tree is free. -/
theorem TraceWorld.visit_acquiresSpace {edge : ℕ} (isRemembered : Bool)
    (isMinorGc : world.collecting = some true)
    (idle : world.workers[index]? = some .idle) (isLarge : world.isLargeToSurvivor edge = true)
    (free : ¬world.IsHeld .objectTree) :
    ∃ visited entered left, world.step gcDebug (.visit index edge isRemembered) = .next visited ∧
      visited.step gcDebug (.advance index .proceed) = .next entered ∧
        entered.step gcDebug (.advance index .proceed) = .next left ∧ left.AcquiresSpace := by
  have inRange : index < world.workers.length := (List.getElem?_eq_some_iff.mp idle).1
  unfold isLargeToSurvivor at isLarge
  split at isLarge
  next ref refers =>
    simp only [Bool.and_eq_true, Bool.not_eq_true'] at isLarge
    obtain ⟨⟨⟨⟨inNew, keeps⟩, notInNew⟩, notInOld⟩, contained⟩ := isLarge
    obtain ⟨object, isObject⟩ := Option.isSome_iff_exists.mp contained
    let visit : EdgeVisit := { edge := edge, ref := ref, isRemembered := isRemembered }
    let stageAt (stage : WorkerStage) : TraceWorld :=
      world.setWorker index { heap := world.heap, stage := stage }
    have stageAt_get (stage : WorkerStage) : (stageAt stage).workers[index]? = some stage :=
      List.getElem?_set_self inRange
    have stageAt_set (stage next : WorkerStage) :
        (stageAt stage).setWorker index { heap := world.heap, stage := next } = stageAt next := by
      simp only [stageAt, setWorker, List.set_set]
    have waitingFree : ¬(stageAt (.waiting visit .lookupObject)).IsHeld .objectTree := by
      rintro (⟨isSpace, -⟩ | ⟨holder, isWorker, holds⟩)
      · cases isSpace
      · rcases Processes.mem_set_cases isWorker with rfl | before
        · cases holds
        · exact free (.inr ⟨holder, before, holds⟩)
    refine ⟨stageAt (.waiting visit .lookupObject), stageAt (.inside visit .lookupObject),
      stageAt (TracedHeap.rememberLarge gcDebug visit object), ?_, ?_, ?_, ?_⟩
    · simp only [step, isMinorGc, refers, idle, TracedHeap.doTrace, TracedHeap.doMinorTrace,
        TracedHeap.rememberEdgeToSurvivor, inNew, keeps, notInNew, notInOld, Outcome.require,
        Outcome.check, implies_true, if_true, Outcome.bind_next]
      rfl
    · have entered : (stageAt (.waiting visit .lookupObject)).advanceFrom gcDebug .proceed
          (.waiting visit .lookupObject) =
            .next { heap := world.heap, stage := .inside visit .lookupObject } :=
        Outcome.require_bind_eq_next.mpr ⟨waitingFree, rfl⟩
      rw [step_advance (stageAt_get _) entered]
      exact congrArg Outcome.next (stageAt_set _ _)
    · have contains : world.heap.largeObjectContaining visit.edge = some object := isObject
      have left : (stageAt (.inside visit .lookupObject)).advanceFrom gcDebug .proceed
          (.inside visit .lookupObject) =
            .next
              { heap := world.heap
                stage := TracedHeap.rememberLarge gcDebug visit object } := by
        dsimp only [advanceFrom, TracedHeap.leave, stageAt, setWorker]
        rw [contains]
        rfl
      rw [step_advance (stageAt_get _) left]
      exact congrArg Outcome.next (stageAt_set _ _)
    · refine ⟨_, List.mem_of_getElem? (stageAt_get _), ?_⟩
      cases gcDebug <;> rfl
  next => cases isLarge

end Runs

/-- In a run without visits of edges from large objects to survivors in minor collections, no worker
is ever about to acquire the lock that the collector holds, and no state is stuck. -/
theorem traces_without_self_deadlock (gcDebug : Bool) (world : TraceWorld)
    (reached : (traceSystem gcDebug).ReachableBy TraceWorld.Avoids world) :
    ¬world.AcquiresSpace ∧ ¬world.Stuck gcDebug := by
  have invariant := reachable_avoids reached
  exact ⟨invariant.not_acquiresSpace, invariant.not_stuck⟩

/-- A heap with a large object at 4096 and the nursery above 2 ^ 30. -/
def largeAndNursery (ref : ℕ) : TracedHeap :=
  { low := 2 ^ 30, high := 2 ^ 30 + 2 ^ 26, survivorBlocks := [], oldSlabs := [2 ^ 26]
    largeObjects := [{ addr := 4096, size := 16384, isLive := true, mark := 1 }]
    marked := 1
    edgeRef := fun edge => if edge = 4112 then some ref else none
    fieldLogged := fun _ => false
    rememberedEdges := [4112] }

/-- A remembered edge from a large object to another large object. -/
theorem traces_without_self_deadlock_large :
    ∃ world : TraceWorld,
      world.workers = [.waiting { edge := 4112, ref := 8192, isRemembered := true }
      .forgetEdge] ∧ ¬world.AcquiresSpace ∧ ¬world.Stuck false := by
  have start : (traceSystem false).initial
      { heap := largeAndNursery 8192, collecting := none, workers := [.idle] } := ⟨rfl, by simp⟩
  have leads : (System.runBy (traceSystem false).step TraceWorld.Avoids
      { heap := largeAndNursery 8192, collecting := none, workers := [.idle] }
      [.startGc true, .visit 0 4112 true]).leadsTo (fun world => decide (world.workers =
        [.waiting { edge := 4112, ref := 8192, isRemembered := true } .forgetEdge])) = true := by
    decide +kernel
  obtain ⟨world, ran, tested⟩ := Outcome.exists_next_of_leadsTo leads
  have reached := System.ReachableBy.of_runBy (traceSystem false) TraceWorld.Avoids
    (fun _ _ => id) (.initial start) _ ran
  exact ⟨world, of_decide_eq_true tested, traces_without_self_deadlock false world reached⟩

/-- A remembered edge from a large object to an object that the collection is to leave in the
nursery. -/
theorem traces_without_self_deadlock_fails :
    ¬∀ world : TraceWorld, (traceSystem false).Reachable world →
      ¬world.AcquiresSpace ∧ ¬world.Stuck false := by
  intro claimed
  have start : (traceSystem false).initial
      { heap := largeAndNursery (2 ^ 30 + 2 ^ 17), collecting := none, workers := [.idle] } :=
    ⟨rfl, by simp⟩
  have leads : (System.runBy (traceSystem false).step (fun _ _ => True)
      { heap := largeAndNursery (2 ^ 30 + 2 ^ 17), collecting := none, workers := [.idle] }
      [.startGc true, .visit 0 4112 true, .advance 0 .proceed, .advance 0 .proceed]).leadsTo
        (fun world => decide (world.workers = [.waiting
          { edge := 4112, ref := 2 ^ 30 + 2 ^ 17, isRemembered := true } (.isSurvivor 4096)])) =
      true := by
    decide +kernel
  obtain ⟨world, ran, tested⟩ := Outcome.exists_next_of_leadsTo leads
  have reached := System.ReachableBy.of_runBy (traceSystem false) (fun _ _ => True)
    (fun _ _ => id) (.initial start) _ ran
  apply (claimed world reached).1
  unfold TraceWorld.AcquiresSpace
  rw [of_decide_eq_true tested]
  exact ⟨_, List.mem_singleton_self _, rfl⟩

/-! ## A worker that waits for the lock -/

section Waits

variable {gcDebug : Bool} {world final : TraceWorld} {index : ℕ}

/-- Workers visit edges in collections only. -/
theorem reachable_idle (reached : (traceSystem gcDebug).Reachable world)
    (notCollecting : world.collecting = none) : ∀ stage ∈ world.workers, stage = .idle := by
  revert notCollecting
  apply System.ReachableBy.invariant (traceSystem gcDebug) ?_ ?_ reached
  · exact fun state start _ => start.2
  · intro before action after holds _ stepped notCollecting
    change before.step gcDebug action = .next after at stepped
    cases action with
    | mutate heap =>
        simp only [TraceWorld.step, Outcome.require_bind_eq_next] at stepped
        obtain ⟨wasNone, stepped⟩ := stepped
        cases stepped
        exact holds wasNone
    | startGc isMinorGc =>
        simp only [TraceWorld.step, Outcome.require_bind_eq_next] at stepped
        obtain ⟨-, stepped⟩ := stepped
        cases stepped
        cases notCollecting
    | visit other edge isRemembered =>
        dsimp only [TraceWorld.step] at stepped
        split at stepped
        next isMinorGc ref isCollecting refers =>
          simp only [Outcome.require_bind_eq_next, Outcome.check_bind_eq_next] at stepped
          obtain ⟨-, -, stepped⟩ := stepped
          cases stepped
          exact absurd (isCollecting.symm.trans notCollecting) (by rintro ⟨⟩)
        next => cases stepped
    | visitEphemeronKey other edge forwarded =>
        simp only [TraceWorld.step, Outcome.require_bind_eq_next] at stepped
        obtain ⟨⟨isCollecting, -⟩, stepped⟩ := stepped
        cases forwarded with
        | none =>
            cases stepped
            exact absurd notCollecting isCollecting
        | some address =>
            cases stepped
            exact absurd notCollecting isCollecting
    | releaseBuffer other =>
        simp only [TraceWorld.step, Outcome.require_bind_eq_next] at stepped
        obtain ⟨⟨isCollecting, -⟩, stepped⟩ := stepped
        cases stepped
        exact absurd notCollecting isCollecting
    | advance other choice =>
        dsimp only [TraceWorld.step] at stepped
        split at stepped
        next stage atOther =>
          obtain ⟨result, advanced, rest⟩ := Outcome.bind_eq_next.mp stepped
          cases rest
          have isIdle := holds notCollecting stage (List.mem_of_getElem? atOther)
          subst isIdle
          cases advanced
        next => cases stepped
    | finishGc =>
        simp only [TraceWorld.step, Outcome.require_bind_eq_next] at stepped
        obtain ⟨⟨-, allIdle⟩, stepped⟩ := stepped
        cases stepped
        exact allIdle

/-- Whatever the others do, a worker that is about to acquire the lock stays where it is. -/
theorem TraceWorld.waits_run {stage : WorkerStage} {isMinorGc : Bool} (actions : List TraceAction)
    (found : world.workers[index]? = some stage) (wants : stage.wanted? = some .space)
    (collecting : world.collecting = some isMinorGc)
    (ran : System.runBy (traceSystem gcDebug).step (fun _ _ => True) world actions =
      .next final) :
    final.workers[index]? = some stage ∧ final.collecting = some isMinorGc := by
  induction actions generalizing world with
  | nil =>
      cases ran
      exact ⟨found, collecting⟩
  | cons action rest inductionHypothesis =>
      rw [System.runBy, Outcome.require_bind_eq_next, Outcome.bind_eq_next] at ran
      obtain ⟨-, middle, stepped, continued⟩ := ran
      obtain ⟨stillFound, stillCollecting⟩ := waits_step found wants collecting stepped
      exact inductionHypothesis stillFound stillCollecting continued

/-- Once a worker is about to acquire the lock that the collector holds, it waits for ever: whatever
steps follow, the same worker still waits at the same point of its visit, and the collection has not
ended. -/
theorem space_waits_for_ever (gcDebug : Bool) (world final : TraceWorld) (index : ℕ)
    (stage : WorkerStage) (reached : (traceSystem gcDebug).Reachable world)
    (waits : world.workers[index]? = some stage) (wants : stage.wanted? = some .space)
    (actions : List TraceAction)
    (ran : System.runBy (traceSystem gcDebug).step (fun _ _ => True) world actions =
      .next final) :
    final.workers[index]? = some stage ∧ final.collecting = world.collecting ∧
      world.collecting ≠ none := by
  cases isCollecting : world.collecting with
  | none =>
      have isIdle := reachable_idle reached isCollecting stage (List.mem_of_getElem? waits)
      subst isIdle
      cases wants
  | some isMinorGc =>
      obtain ⟨stillWaits, stillCollecting⟩ :=
        TraceWorld.waits_run actions waits wants isCollecting ran
      exact ⟨stillWaits, stillCollecting, by rintro ⟨⟩⟩

/-- The first worker waits, and the second one that releases a buffer does not
help it. -/
theorem space_waits_for_ever_beside :
    ∃ (world final : TraceWorld) (stage : WorkerStage), (traceSystem false).Reachable world ∧
      stage.wanted? = some .space ∧ final.workers[0]? = some stage ∧
        final.collecting = world.collecting ∧ world.collecting ≠ none := by
  have start : (traceSystem false).initial
      { heap := largeAndNursery (2 ^ 30 + 2 ^ 17), collecting := none,
        workers := [.idle, .idle] } :=
    ⟨rfl, by simp⟩
  have leads : (System.runBy (traceSystem false).step (fun _ _ => True)
      { heap := largeAndNursery (2 ^ 30 + 2 ^ 17), collecting := none, workers := [.idle, .idle] }
      [.startGc true, .visit 0 4112 true, .advance 0 .proceed, .advance 0 .proceed]).leadsTo
        (fun world => decide (world.workers[0]? = some (.waiting
          { edge := 4112, ref := 2 ^ 30 + 2 ^ 17, isRemembered := true } (.isSurvivor 4096))) &&
          (System.runBy (traceSystem false).step (fun _ _ => True) world
            [.releaseBuffer 1, .advance 1 .proceed, .advance 1 .proceed]).leadsTo
              fun _ => true) = true := by
    decide +kernel
  obtain ⟨world, ran, tested⟩ := Outcome.exists_next_of_leadsTo leads
  obtain ⟨waits, goesOn⟩ := Bool.and_eq_true_iff.mp tested
  obtain ⟨final, ranOn, -⟩ := Outcome.exists_next_of_leadsTo goesOn
  have reached := System.ReachableBy.of_runBy (traceSystem false) (fun _ _ => True)
    (fun _ _ => id) (.initial start) _ ran
  exact ⟨world, final, _, reached, rfl,
    space_waits_for_ever false world final 0 _ reached (of_decide_eq_true waits) rfl _ ranOn⟩

end Waits

end Whippet.Pcc
