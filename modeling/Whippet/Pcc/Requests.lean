import Whippet.Mmc.Requests
import Whippet.Pcc.StopTheWorldRefinement

/-!
Whether collection requests are honoured in generational pcc.

A mutator that pauses in `trigger_collection` reads `is_minor_collection` after each return from
its wait, and once it has seen the flag clear, it takes the collection it waits for to be a
compacting one. The flag is set after the wait for the mutators to stop, not before: a mutator
that returns from its wait too early reads what an older collection left there, or what `gc_init`
did.

Owns: the history of a run of pcc, the condition on returns from the wait under which every
request is honoured, and the invariant of the runs that meet it. What it means that a request was
honoured is the same as for mmc.
-/

namespace Whippet.Pcc

open Function
open Mmc (Event Pending Served Honoured honoured_nil)

/-! ## Runs with their history -/

/-- A world and the requests and collections so far, the latest first. -/
structure Recorded where
  world : World
  history : List Event

/-- What a step from `world` to `result` adds to the history. A wait in `trigger_collection` that
leads back to the caller is a return without a collection. -/
def events (world : World) (action : Action) (result : World) : List Event :=
  match action with
  | .triggerCollection mutator requested _ => [.called mutator requested]
  | .wake mutator _ =>
      match world.phase mutator with
      | .paused (.trigger _) _ =>
          if result.phase mutator = .running then [.waited mutator] else []
      | _ => []
  | .finishCollection mutator =>
      match world.phase mutator with
      | .collecting kind => [.collected mutator kind]
      | _ => []
  | _ => []

def Recorded.step (recorded : Recorded) (action : Action) : Outcome Assertion Recorded := do
  let result ← Pcc.step true recorded.world action
  pure { world := result, history := events recorded.world action result ++ recorded.history }

/-- The stop-the-world protocol of generational pcc, with its history. -/
def recordedSystem : System Recorded Action Assertion :=
  { initial := fun recorded => recorded = { world := initialWorld, history := [] }
    step := Recorded.step }

/-! ## Collections since a call -/

/-- The latest call of the mutator has not returned, and a collection has ended since. All
collections of pcc are minor at least. -/
def EndedSince (history : List Event) (mutator : Mutator) (requested : CollectionKind) : Prop :=
  ∃ between before, history = between ++ .called mutator requested :: before ∧
    (∀ event ∈ between, event.mutator ≠ mutator) ∧
    ∃ collector kind, .collected collector kind ∈ between ∧
      CollectionKind.minor.toInt ≤ kind.toInt

section EndedSince

variable {history : List Event} {mutator : Mutator} {requested : CollectionKind} {event : Event}

/-- A collection that has ended serves a request for any or for a minor one. -/
theorem EndedSince.served (ended : EndedSince history mutator requested)
    (atMost : requested.toInt ≤ CollectionKind.minor.toInt) :
    Served history mutator requested := by
  obtain ⟨between, before, split, others, collector, kind, member, covers⟩ := ended
  exact ⟨between, before, split, others, collector, kind, member, atMost.trans covers⟩

theorem EndedSince.cons (ended : EndedSince history mutator requested)
    (other : event.mutator ≠ mutator) : EndedSince (event :: history) mutator requested := by
  obtain ⟨between, before, rfl, others, collector, kind, member, covers⟩ := ended
  refine ⟨event :: between, before, rfl, ?_, collector, kind, List.mem_cons_of_mem _ member,
    covers⟩
  simpa [other] using others

/-- An event that ends no collection leaves open whether one has ended. -/
theorem EndedSince.of_cons (ended : EndedSince (event :: history) mutator requested)
    (other : event.mutator ≠ mutator)
    (notCollected : ∀ collector kind, event ≠ .collected collector kind) :
    EndedSince history mutator requested := by
  obtain ⟨between, before, split, others, collector, kind, member, covers⟩ := ended
  cases between with
  | nil =>
      simp only [List.nil_append, List.cons.injEq] at split
      rw [split.1] at other
      exact absurd rfl other
  | cons head between =>
      simp only [List.cons_append, List.cons.injEq] at split
      obtain ⟨rfl, rfl⟩ := split
      have inRest : .collected collector kind ∈ between := by
        rcases List.mem_cons.mp member with equal | inRest
        · exact absurd equal.symm (notCollected collector kind)
        · exact inRest
      exact ⟨between, before, rfl, fun later inLater => others later
        (List.mem_cons_of_mem _ inLater), collector, kind, inRest, covers⟩

/-- The end of a collection, as far as a pending request is concerned. -/
theorem endedSince_collected {collector : Mutator} {kind : CollectionKind}
    (pending : Pending history mutator requested) (other : collector ≠ mutator)
    (covers : CollectionKind.minor.toInt ≤ kind.toInt) :
    EndedSince (.collected collector kind :: history) mutator requested := by
  obtain ⟨between, before, rfl, others⟩ := pending
  refine ⟨.collected collector kind :: between, before, rfl, ?_, collector, kind,
    List.mem_cons_self, covers⟩
  simpa [Event.mutator, other] using others

end EndedSince

/-! ## The invariant -/

/-- What is known of a mutator that is paused in `trigger_collection`, about to answer `kind`.
With the lock free, `is_minor_collection` tells of the last collection that ended. -/
structure Waiting (recorded : Recorded) (mutator : Mutator) (requested kind : CollectionKind) :
    Prop where
  pending : Pending recorded.history mutator requested
  stopping : recorded.world.heap.collecting = true ∨
    EndedSince recorded.history mutator requested
  flagged : recorded.world.lock = none → EndedSince recorded.history mutator requested →
    recorded.world.heap.isMinorCollection = false → Served recorded.history mutator requested
  served : kind ≠ .minor → CollectionKind.minor.toInt < requested.toInt →
    Served recorded.history mutator requested

/-- The mutator collects, and `is_minor_collection` tells of its collection. -/
def Collects (world : World) (mutator : Mutator) : Prop :=
  ∃ kind, world.phase mutator = .collecting kind ∧
    world.heap.isMinorCollection = decide (kind = .minor) ∧
    (kind = .minor ∨ kind = .compacting)

structure Informed (recorded : Recorded) : Prop where
  holder : ∀ mutator, recorded.world.lock = some mutator → Collects recorded.world mutator
  waiting : ∀ mutator requested kind,
    recorded.world.phase mutator = .paused (.trigger requested) kind →
      Waiting recorded mutator requested kind
  honoured : Honoured recorded.history

/-- What a step of one mutator leaves alone: the other mutators' phases, the stop once it is
requested, and `is_minor_collection` unless the mutator takes the lock with it. -/
structure Frame (world result : World) (mutator : Mutator) : Prop where
  phase_other : ∀ other, other ≠ mutator → result.phase other = world.phase other
  collecting : world.heap.collecting = true → result.heap.collecting = true
  flag : result.lock = none → world.lock = none ∧
    result.heap.isMinorCollection = world.heap.isMinorCollection

/-- The phases of which the invariant says nothing. -/
def Phase.Plain : Phase → Prop
  | .paused (.trigger _) _ | .collecting _ => False
  | _ => True

namespace Informed

variable {world result : World} {history : List Event} {mutator : Mutator}
variable {requested : CollectionKind} {oldSpaceHasRoom : Bool}

/-- The invariant after a step that changes the phase of one mutator. -/
theorem change (informed : Informed ⟨world, history⟩) (mutator : Mutator)
    (frame : Frame world result mutator)
    (holder : ∀ other, result.lock = some other → Collects result other)
    (waitingSelf : ∀ requested kind, result.phase mutator = .paused (.trigger requested) kind →
      Waiting ⟨result, history⟩ mutator requested kind) : Informed ⟨result, history⟩ where
  holder := holder
  waiting := by
    intro other requested kind isPaused
    by_cases same : other = mutator
    · subst same
      exact waitingSelf requested kind isPaused
    · have wasPaused : world.phase other = .paused (.trigger requested) kind := by
        rw [← frame.phase_other other same]
        exact isPaused
      have waiting := informed.waiting other requested kind wasPaused
      refine
        { pending := waiting.pending, stopping := ?_, flagged := ?_, served := waiting.served }
      · rcases waiting.stopping with asked | ended
        · exact Or.inl (frame.collecting asked)
        · exact Or.inr ended
      · intro free ended clear
        obtain ⟨wasFree, flagEq⟩ := frame.flag free
        exact waiting.flagged wasFree ended (flagEq ▸ clear)
  honoured := informed.honoured

/-- The history grows by an event of a mutator that is not paused for a request. -/
theorem record (informed : Informed ⟨world, history⟩) {event : Event}
    (notPaused : ∀ requested kind,
      world.phase event.mutator ≠ .paused (.trigger requested) kind)
    (notCollected : ∀ collector kind, event ≠ .collected collector kind)
    (honoured : Honoured (event :: history)) : Informed ⟨world, event :: history⟩ where
  holder := informed.holder
  waiting := by
    intro other requested kind isPaused
    have waiting := informed.waiting other requested kind isPaused
    have different : event.mutator ≠ other := by
      intro same
      subst same
      exact notPaused requested kind isPaused
    refine
      { pending := waiting.pending.cons different, stopping := ?_, flagged := ?_, served := ?_ }
    · rcases waiting.stopping with asked | ended
      · exact Or.inl asked
      · exact Or.inr (ended.cons different)
    · intro free ended clear
      exact (waiting.flagged free (ended.of_cons different notCollected) clear).cons different
    · intro notMinor above
      exact (waiting.served notMinor above).cons different
  honoured := honoured

/-- A step to a plain phase that leaves the lock and the flag alone. -/
theorem plain (informed : Informed ⟨world, history⟩) (mutator : Mutator) (phase : Phase)
    (isPlain : phase.Plain) (free : world.lock = none)
    (phaseEq : result.phase = update world.phase mutator phase)
    (collecting : world.heap.collecting = true → result.heap.collecting = true)
    (flagEq : result.heap.isMinorCollection = world.heap.isMinorCollection)
    (lockEq : result.lock = world.lock) : Informed ⟨result, history⟩ := by
  apply informed.change mutator
  · exact
      { phase_other := fun other different => by rw [phaseEq, update_of_ne different]
        collecting := collecting
        flag := fun _ => ⟨free, flagEq⟩ }
  · intro other held
    rw [lockEq, free] at held
    cases held
  · intro requested kind isPaused
    rw [phaseEq, update_self] at isPaused
    simp [isPaused, Phase.Plain] at isPlain

theorem addMutator (informed : Informed ⟨world, history⟩) (free : world.lock = none) :
    Informed ⟨addMutator world mutator, history⟩ := by
  unfold Pcc.addMutator
  split
  · exact informed.plain mutator .adding trivial free rfl id rfl rfl
  · refine informed.plain mutator .running trivial free rfl ?_ ?_ rfl
    · intro asked
      simpa [addMutatorLocked] using asked
    · simp [addMutatorLocked]

theorem reactivateMutatorLocked (informed : Informed ⟨world, history⟩)
    (free : world.lock = none) : Informed ⟨reactivateMutatorLocked world mutator, history⟩ := by
  refine informed.plain mutator .running trivial free rfl ?_ ?_ rfl
  · intro asked
    simpa [Pcc.reactivateMutatorLocked] using asked
  · simp [Pcc.reactivateMutatorLocked]

/-- `deactivate_mutator` tests its assertions before it takes the lock, which a collector may
hold. -/
theorem deactivating (informed : Informed ⟨world, history⟩)
    (was : world.phase mutator = .running) :
    Informed ⟨world.setPhase mutator .deactivating, history⟩ := by
  apply informed.change mutator
  · exact
      { phase_other := fun other different => by simp [World.setPhase, different]
        collecting := id
        flag := fun free => ⟨free, rfl⟩ }
  · intro other held
    obtain ⟨kind, isCollecting, flagEq, kinds⟩ := informed.holder other held
    have different : other ≠ mutator := by
      intro same
      subst same
      rw [was] at isCollecting
      cases isCollecting
    refine ⟨kind, ?_, flagEq, kinds⟩
    simpa [World.setPhase, different] using isCollecting
  · simp [World.setPhase]

/-- The kind a collection begins with is what `is_minor_collection` says. -/
theorem waitForMutatorsToStop (informed : Informed ⟨world, history⟩) (free : world.lock = none)
    {asking : World} (phaseEq : asking.phase = world.phase) (lockEq : asking.lock = world.lock)
    (flagEq : asking.heap.isMinorCollection = world.heap.isMinorCollection)
    (collecting : world.heap.collecting = true → asking.heap.collecting = true) :
    Informed ⟨waitForMutatorsToStop true oldSpaceHasRoom asking mutator requested, history⟩ := by
  unfold Pcc.waitForMutatorsToStop
  split
  · have kinds : determineCollectionKind true oldSpaceHasRoom requested = .minor ∨
        determineCollectionKind true oldSpaceHasRoom requested = .compacting := by
      unfold determineCollectionKind
      split <;> simp
    apply informed.change mutator
    · exact
        { phase_other := fun other different => by
            simp [collectStopped, World.setPhase, different, phaseEq]
          collecting := collecting
          flag := fun freed => by simp [collectStopped] at freed }
    · intro other held
      simp only [collectStopped, Option.some.injEq] at held
      subst held
      refine ⟨determineCollectionKind true oldSpaceHasRoom requested, ?_, ?_, kinds⟩
      · simp [collectStopped, World.setPhase]
      · simp [collectStopped]
    · simp [collectStopped, World.setPhase]
  · refine informed.plain mutator (.stopping requested) trivial free ?_ collecting flagEq lockEq
    simp [World.setPhase, phaseEq]

theorem collect (informed : Informed ⟨world, history⟩) (free : world.lock = none)
    {asking : World} (phaseEq : asking.phase = world.phase) (lockEq : asking.lock = world.lock)
    (flagEq : asking.heap.isMinorCollection = world.heap.isMinorCollection)
    (collected : collect true oldSpaceHasRoom asking mutator requested = .next result) :
    Informed ⟨result, history⟩ := by
  obtain ⟨-, rfl⟩ := collect_eq_next.mp collected
  exact informed.waitForMutatorsToStop free phaseEq lockEq flagEq fun _ => rfl

/-- A mutator that pauses with a request waits for the collection under way. -/
theorem pauseMutatorForCollection (informed : Informed ⟨world, history⟩) {caller : PauseCaller}
    (free : world.lock = none)
    (pending : ∀ requested, caller = .trigger requested →
      Pending history mutator requested ∧ ¬EndedSince history mutator requested)
    (paused : pauseMutatorForCollection world mutator caller = .next result) :
    Informed ⟨result, history⟩ := by
  simp only [Pcc.pauseMutatorForCollection, Outcome.check_bind_eq_next] at paused
  obtain ⟨asked, -, equal⟩ := paused
  cases equal
  apply informed.change mutator
  · exact
      { phase_other := fun other different => by simp [World.setPhase, different]
        collecting := id
        flag := fun _ => ⟨free, rfl⟩ }
  · intro other held
    simp [World.setPhase, free] at held
  · intro requested kind isPaused
    simp only [World.setPhase, update_self, Phase.paused.injEq] at isPaused
    obtain ⟨callerEq, rfl⟩ := isPaused
    obtain ⟨isPending, notEnded⟩ := pending requested callerEq
    exact
      { pending := isPending
        stopping := Or.inl asked
        flagged := fun _ ended => absurd ended notEnded
        served := fun notMinor => absurd rfl notMinor }

end Informed

/-! ## Steps -/

/-- The actions that the code handles: a mutator that is paused in `trigger_collection` for more
than a minor collection does not return from its wait while `is_minor_collection` is clear, unless
a collection has ended since its call. -/
def Action.Timely (recorded : Recorded) : Action → Prop
  | .wake mutator _ => ∀ requested kind,
      recorded.world.phase mutator = .paused (.trigger requested) kind →
        CollectionKind.minor.toInt < requested.toInt →
        recorded.world.heap.isMinorCollection = false →
        EndedSince recorded.history mutator requested
  | _ => True

section Steps

variable {world result : World} {history : List Event} {mutator : Mutator}
variable {oldSpaceHasRoom : Bool}

theorem pending_called_not_ended (requested : CollectionKind) :
    Pending (.called mutator requested :: history) mutator requested ∧
      ¬EndedSince (.called mutator requested :: history) mutator requested := by
  refine ⟨.called _ _ _, ?_⟩
  rintro ⟨between, before, split, others, collector, kind, member, -⟩
  cases between with
  | nil => cases member
  | cons head between =>
      simp only [List.cons_append, List.cons.injEq] at split
      refine others head List.mem_cons_self ?_
      rw [← split.1]
      rfl

theorem triggerCollection_informed {requested : CollectionKind}
    (informed : Informed ⟨world, history⟩) (was : world.phase mutator = .running)
    (free : world.lock = none)
    (triggered : triggerCollection true oldSpaceHasRoom world mutator requested =
      .next result) : Informed ⟨result, .called mutator requested :: history⟩ := by
  have called : Informed ⟨world, .called mutator requested :: history⟩ := by
    apply informed.record
    · simp [Event.mutator, was]
    · simp
    · exact informed.honoured.cons fun _ => by simp
  unfold triggerCollection at triggered
  split at triggered
  · apply called.pauseMutatorForCollection free _ triggered
    rintro _ ⟨rfl⟩
    exact pending_called_not_ended requested
  · unfold triggerAfterPausing at triggered
    split at triggered
    · exact called.collect free rfl rfl rfl triggered
    next notBelow =>
      have nonnegative := requested.toInt_nonneg
      omega

theorem gcSafepointSlow_informed (informed : Informed ⟨world, history⟩)
    (free : world.lock = none) (stepped : gcSafepointSlow world mutator = .next result) :
    Informed ⟨result, history⟩ := by
  unfold gcSafepointSlow at stepped
  split at stepped
  · exact informed.pauseMutatorForCollection free (by simp) stepped
  · cases stepped
    exact informed

/-- A mutator that reads the flag in time answers a kind that covers its request only if a
collection has served it. -/
theorem resumePaused_informed {requested kind : CollectionKind}
    (informed : Informed ⟨world, history⟩) (free : world.lock = none)
    (was : world.phase mutator = .paused (.trigger requested) kind)
    (timely : CollectionKind.minor.toInt < requested.toInt →
      world.heap.isMinorCollection = false → EndedSince history mutator requested)
    (resumed : resumePaused true oldSpaceHasRoom world mutator (.trigger requested) kind =
      .next result) :
    Informed ⟨result, (if result.phase mutator = .running then [.waited mutator] else []) ++
      history⟩ := by
  have waiting := informed.waiting mutator requested kind was
  simp only [resumePaused, Bool.true_eq_false, false_or] at resumed
  generalize answerEq : (if world.heap.isMinorCollection = false then CollectionKind.compacting
    else kind) = answer at resumed
  have answered : answer ≠ .minor → CollectionKind.minor.toInt < requested.toInt →
      Served history mutator requested := by
    intro notMinor above
    by_cases clear : world.heap.isMinorCollection = false
    · exact waiting.flagged free (timely above clear) clear
    · rw [if_neg clear] at answerEq
      subst answerEq
      exact waiting.served notMinor above
  split at resumed
  next asked =>
    cases resumed
    have stillPaused : (world.setPhase mutator (.paused (.trigger requested) answer)).phase
        mutator ≠ .running := by simp [World.setPhase]
    rw [if_neg stillPaused]
    apply informed.change mutator
    · exact
        { phase_other := fun other different => by simp [World.setPhase, different]
          collecting := id
          flag := fun _ => ⟨free, rfl⟩ }
    · intro other held
      simp [World.setPhase, free] at held
    · intro other otherKind isPaused
      simp only [World.setPhase, update_self, Phase.paused.injEq,
        PauseCaller.trigger.injEq] at isPaused
      obtain ⟨rfl, rfl⟩ := isPaused
      exact
        { pending := waiting.pending
          stopping := waiting.stopping
          flagged := waiting.flagged
          served := answered }
  next notStopping =>
    have ended : EndedSince history mutator requested := by
      rcases waiting.stopping with asked | ended
      · exact absurd asked notStopping
      · exact ended
    unfold triggerAfterPausing at resumed
    split at resumed
    · let heap :=
        { world.heap with pausedMutatorCount := sizeSub world.heap.pausedMutatorCount 1 }
      let asking : World := { world with heap := heap }
      have collected : Informed ⟨result, history⟩ :=
        informed.collect free (rfl : asking.phase = world.phase) rfl rfl resumed
      have notRunning : result.phase mutator ≠ .running := by
        obtain ⟨-, rfl⟩ := collect_eq_next.mp resumed
        unfold waitForMutatorsToStop
        split <;> simp [collectStopped, World.setPhase]
      rw [if_neg notRunning]
      exact collected
    next notBelow =>
      cases resumed
      rw [if_pos (by simp [World.setPhase])]
      have served : Served history mutator requested := by
        by_cases above : CollectionKind.minor.toInt < requested.toInt
        · apply answered _ above
          rintro rfl
          exact notBelow above
        · exact ended.served (not_lt.mp above)
      refine Informed.record ?_ ?_ ?_ ?_
      · exact informed.plain mutator .running trivial free rfl id rfl rfl
      · simp [Event.mutator, World.setPhase]
      · simp
      · exact informed.honoured.waited served

/-- The end of a collection: what the flag says is now true of a collection that has ended. -/
theorem finishCollection_informed (informed : Informed ⟨world, history⟩)
    (held : world.lock = some mutator)
    (finished : finishCollection world mutator = .next result) :
    Informed ⟨result, events world (.finishCollection mutator) result ++ history⟩ := by
  obtain ⟨kind, was, flagEq, kinds⟩ := informed.holder mutator held
  dsimp only at was flagEq
  have historyEq : events world (.finishCollection mutator) result ++ history =
      .collected mutator kind :: history := by simp [events, was]
  rw [historyEq]
  obtain ⟨-, -, -, rfl⟩ := finishCollection_eq_next.mp finished
  have covers : CollectionKind.minor.toInt ≤ kind.toInt := by
    rcases kinds with rfl | rfl <;> simp [CollectionKind.toInt]
  refine { holder := by simp, waiting := ?_, honoured := informed.honoured.cons (by simp) }
  intro other requested answer isPaused
  have different : mutator ≠ other := by
    rintro rfl
    simp [World.setPhase] at isPaused
  have wasPaused : world.phase other = .paused (.trigger requested) answer := by
    simpa [World.setPhase, different.symm] using isPaused
  have waiting := informed.waiting other requested answer wasPaused
  refine
    { pending := waiting.pending.cons different
      stopping := Or.inr (endedSince_collected waiting.pending different covers)
      flagged := ?_
      served := fun notMinor above => (waiting.served notMinor above).cons different }
  intro _ _ clear
  have notMinor : kind ≠ .minor := by
    rintro rfl
    simp [flagEq] at clear
  have isCompacting : kind = .compacting := kinds.resolve_left notMinor
  apply waiting.pending.serve different
  rw [isCompacting]
  exact requested.toInt_le_compacting

theorem wake_informed (informed : Informed ⟨world, history⟩) (free : world.lock = none)
    (timely : (Action.wake mutator oldSpaceHasRoom).Timely ⟨world, history⟩)
    (woken : wake true oldSpaceHasRoom world mutator = .next result) :
    Informed ⟨result, events world (.wake mutator oldSpaceHasRoom) result ++ history⟩ := by
  unfold wake at woken
  split at woken
  next was =>
    cases woken
    simp only [events, was, List.nil_append]
    exact informed.addMutator free
  next caller kind was =>
    cases caller with
    | safepoint =>
        simp only [events, was, List.nil_append]
        unfold resumePaused at woken
        dsimp only at woken
        split at woken
        · cases woken
          exact informed.plain mutator (.paused .safepoint _) trivial free rfl id rfl rfl
        · cases woken
          exact informed.plain mutator .running trivial free rfl id rfl rfl
    | trigger requested =>
        simp only [events, was]
        exact resumePaused_informed informed free was (timely requested kind was) woken
  next requested was =>
    cases woken
    simp only [events, was, List.nil_append]
    exact informed.waitForMutatorsToStop free rfl rfl rfl id
  next was =>
    simp only [events, was, List.nil_append]
    split at woken
    · cases woken
      exact informed
    · cases woken
      exact informed.reactivateMutatorLocked free
  next => cases woken

/-- Every timely action keeps the invariant. -/
theorem step_informed {recorded after : Recorded} {action : Action}
    (informed : Informed recorded) (timely : action.Timely recorded)
    (stepped : recorded.step action = .next after) : Informed after := by
  obtain ⟨world, history⟩ := recorded
  simp only [Recorded.step, Outcome.bind_eq_next, Outcome.pure_eq_next,
    Outcome.next.injEq] at stepped
  obtain ⟨result, stepped, rfl⟩ := stepped
  cases action with
  | initForThread mutator =>
      simp only [step, Outcome.require_bind_eq_next] at stepped
      obtain ⟨-, free, equal⟩ := stepped
      cases equal
      exact informed.addMutator free
  | finishForThread mutator =>
      simp only [step, Outcome.require_bind_eq_next] at stepped
      obtain ⟨-, free, equal⟩ := stepped
      cases equal
      exact informed.plain mutator .absent trivial free rfl id rfl rfl
  | deactivate mutator =>
      simp only [step, deactivateMutator, Outcome.require_bind_eq_next,
        Outcome.check_bind_eq_next] at stepped
      obtain ⟨was, -, -, equal⟩ := stepped
      cases equal
      exact informed.deactivating was
  | deactivateLocked mutator =>
      simp only [step, Outcome.require_bind_eq_next] at stepped
      obtain ⟨-, free, equal⟩ := stepped
      cases equal
      exact informed.plain mutator .inactive trivial free rfl id rfl rfl
  | reactivate mutator =>
      simp only [step, reactivateMutator, Outcome.require_bind_eq_next,
        Outcome.check_bind_eq_next] at stepped
      obtain ⟨-, -, free, reactivated⟩ := stepped
      split at reactivated
      · cases reactivated
        exact informed.plain mutator .reactivating trivial free rfl id rfl rfl
      · cases reactivated
        exact informed.reactivateMutatorLocked free
  | safepoint mutator =>
      simp only [step, Outcome.require_bind_eq_next] at stepped
      obtain ⟨-, free, stopped⟩ := stepped
      exact gcSafepointSlow_informed informed free stopped
  | triggerCollection mutator requested oldSpaceHasRoom =>
      simp only [step, Outcome.require_bind_eq_next] at stepped
      obtain ⟨was, free, triggered⟩ := stepped
      exact triggerCollection_informed informed was free triggered
  | wake mutator oldSpaceHasRoom =>
      simp only [step, Outcome.require_bind_eq_next] at stepped
      exact wake_informed informed stepped.1 timely stepped.2
  | finishCollection mutator =>
      simp only [step, Outcome.require_bind_eq_next] at stepped
      exact finishCollection_informed informed stepped.1 stepped.2

end Steps

/-! ## Whole runs -/

theorem initial_informed : Informed ⟨initialWorld, []⟩ where
  holder := by simp [initialWorld]
  waiting := by simp [initialWorld]
  honoured := honoured_nil

/-- In every run in which no mutator with a request for more than a minor collection reads
`is_minor_collection` clear before a collection has ended since its call, every request that
returns without collecting was honoured. -/
theorem requests_honoured_in_time (recorded : Recorded)
    (reached : recordedSystem.ReachableBy (fun state action => action.Timely state) recorded) :
    Honoured recorded.history := by
  have informed : Informed recorded := by
    apply reached.invariant
    · rintro state rfl
      exact initial_informed
    · intro before action after informed timely stepped
      exact step_informed informed timely stepped
  exact informed.honoured

/-- The action is a return from the wait of `pause_mutator_for_collection`. -/
def Action.resumesPaused (recorded : Recorded) : Action → Bool
  | .wake mutator _ =>
      match recorded.world.phase mutator with
      | .paused _ _ => true
      | _ => false
  | _ => false

theorem timely_of_not_resumesPaused {recorded : Recorded} {action : Action}
    (other : action.resumesPaused recorded = false) : action.Timely recorded := by
  cases action with
  | wake mutator oldSpaceHasRoom =>
      intro requested kind was
      simp [Action.resumesPaused, was] at other
  | _ => trivial

/-- Mutator 1 asks for a compacting collection while mutator 0 stops the world for one. -/
theorem requests_honoured_in_time_compacting :
    ∃ recorded : Recorded, recorded.history =
        [.waited 1, .collected 0 .compacting, .called 1 .compacting, .called 0 .compacting] ∧
      Honoured recorded.history := by
  refine ⟨_, ?_, requests_honoured_in_time _ (System.ReachableBy.afterAction recordedSystem
    (System.ReachableBy.of_runBy recordedSystem
      (fun state action => action.resumesPaused state = false)
      (fun _ _ => timely_of_not_resumesPaused) (.initial rfl)
      [.initForThread 0, .initForThread 1, .triggerCollection 0 .compacting true,
        .triggerCollection 1 .compacting true, .wake 0 true, .finishCollection 0] rfl)
    (.wake 1 true) ?_ rfl)⟩
  · rfl
  · intro requested kind was _ _
    cases was
    exact ⟨[.collected 0 .compacting], _, rfl, by simp [Event.mutator], 0, .compacting, by simp,
      by simp [CollectionKind.toInt]⟩

/-- Mutator 1 asks for a compacting collection while mutator 0 stops the world for the first, minor
one, returns from its wait too early, and takes the clear flag of `gc_init` for the answer. -/
theorem requests_honoured_in_time_fails :
    ¬∀ recorded, recordedSystem.Reachable recorded → Honoured recorded.history := by
  intro holds
  have reached : ∃ recorded : Recorded, recordedSystem.Reachable recorded ∧
      recorded.history =
        [.waited 1, .collected 0 .minor, .called 1 .compacting, .called 0 .minor] :=
    ⟨_, System.ReachableBy.of_runBy recordedSystem (fun _ _ => True) (fun _ _ => id)
      (.initial rfl)
      [.initForThread 0, .initForThread 1, .triggerCollection 0 .minor true,
        .triggerCollection 1 .compacting true, .wake 1 true, .wake 0 true, .finishCollection 0,
        .wake 1 true] rfl, rfl⟩
  obtain ⟨recorded, reachable, historyEq⟩ := reached
  obtain ⟨requested, between, before, split, others, collector, kind, member, covers⟩ :=
    holds recorded reachable [] 1 _ historyEq
  match between, split, others, member with
  | [], split, _, _ => simp at split
  | [event], split, _, member =>
      simp only [List.cons_append, List.nil_append, List.cons.injEq, Event.called.injEq,
        true_and] at split
      obtain ⟨rfl, rfl, -⟩ := split
      simp only [List.mem_singleton, Event.collected.injEq] at member
      obtain ⟨-, rfl⟩ := member
      simp [CollectionKind.toInt] at covers
  | _ :: event :: _, split, others, _ =>
      simp only [List.cons_append, List.cons.injEq] at split
      refine others event (by simp) ?_
      rw [← split.2.1]
      rfl

end Whippet.Pcc
