import Whippet.Mmc.StopTheWorldRefinement

/-!
Whether collection requests are honoured in mmc.

A mutator that finds a stop under way pauses, and records the kind of the collection before: the
one it pauses for has not chosen its kind yet. If the recorded kind covers its own request, it
returns without collecting, whatever the collection it paused for turned out to be.

Owns: what it means that a request was honoured, the condition on the choice of a kind under which
all are, and the invariant of the runs that meet it.
-/

namespace Whippet.Mmc

open Function

/-! ## Requests in a history -/

/-- The latest call of the mutator has not returned. -/
def Pending (history : List Event) (mutator : Mutator) (requested : CollectionKind) : Prop :=
  ∃ between before, history = between ++ .called mutator requested :: before ∧
    ∀ event ∈ between, event.mutator ≠ mutator

/-- The latest call of the mutator has not returned, and a collection of at least the requested
kind has ended since. -/
def Served (history : List Event) (mutator : Mutator) (requested : CollectionKind) : Prop :=
  ∃ between before, history = between ++ .called mutator requested :: before ∧
    (∀ event ∈ between, event.mutator ≠ mutator) ∧
    ∃ collector kind, .collected collector kind ∈ between ∧ requested.toInt ≤ kind.toInt

/-- Every call that returned without having collected or grown the heap saw a collection of at
least the requested kind end. -/
def Honoured (history : List Event) : Prop :=
  ∀ later mutator earlier, history = later ++ .waited mutator :: earlier →
    ∃ requested, Served earlier mutator requested

section Histories

variable {history : List Event} {mutator : Mutator} {requested : CollectionKind} {event : Event}

theorem Pending.called (history : List Event) (mutator : Mutator) (requested : CollectionKind) :
    Pending (.called mutator requested :: history) mutator requested :=
  ⟨[], history, rfl, by simp⟩

theorem Pending.cons (pending : Pending history mutator requested)
    (other : event.mutator ≠ mutator) : Pending (event :: history) mutator requested := by
  obtain ⟨between, before, rfl, others⟩ := pending
  refine ⟨event :: between, before, rfl, ?_⟩
  simpa [other] using others

theorem Served.cons (served : Served history mutator requested)
    (other : event.mutator ≠ mutator) : Served (event :: history) mutator requested := by
  obtain ⟨between, before, rfl, others, collector, kind, member, covers⟩ := served
  refine ⟨event :: between, before, rfl, ?_, collector, kind, List.mem_cons_of_mem _ member,
    covers⟩
  simpa [other] using others

/-- A collection that ends serves the pending requests that it covers. -/
theorem Pending.serve {collector : Mutator} {kind : CollectionKind}
    (pending : Pending history mutator requested) (other : collector ≠ mutator)
    (covers : requested.toInt ≤ kind.toInt) :
    Served (.collected collector kind :: history) mutator requested := by
  obtain ⟨between, before, rfl, others⟩ := pending
  refine ⟨.collected collector kind :: between, before, rfl, ?_, collector, kind,
    List.mem_cons_self, covers⟩
  simpa [Event.mutator, other] using others

theorem Honoured.cons (honoured : Honoured history)
    (notWaited : ∀ mutator, event ≠ .waited mutator) : Honoured (event :: history) := by
  intro later mutator earlier equal
  cases later with
  | nil =>
      simp only [List.nil_append, List.cons.injEq] at equal
      exact absurd equal.1 (notWaited mutator)
  | cons head later =>
      simp only [List.cons_append, List.cons.injEq] at equal
      exact honoured later mutator earlier equal.2

theorem Honoured.waited (honoured : Honoured history)
    (served : Served history mutator requested) : Honoured (.waited mutator :: history) := by
  intro later other earlier equal
  cases later with
  | nil =>
      simp only [List.nil_append, List.cons.injEq, Event.waited.injEq] at equal
      obtain ⟨rfl, rfl⟩ := equal
      exact ⟨requested, served⟩
  | cons head later =>
      simp only [List.cons_append, List.cons.injEq] at equal
      exact honoured later other earlier equal.2

theorem honoured_nil : Honoured [] := by
  intro later mutator earlier equal
  simp at equal

end Histories

/-! ## The invariant -/

/-- What is known of a mutator that is paused in `trigger_collection` with a recorded kind. -/
structure Waiting (world : World) (mutator : Mutator) (requested recorded : CollectionKind)
    (since : ℕ) : Prop where
  pending : Pending world.history mutator requested
  since_le : since ≤ world.heap.count
  stopping : since = world.heap.count → world.heap.collecting = true
  served : since < world.heap.count → requested.toInt ≤ recorded.toInt →
    Served world.history mutator requested

/-- The mutator paused for the stop that is under way, and will return without collecting. -/
def Relies (world : World) (mutator : Mutator) (requested : CollectionKind) : Prop :=
  ∃ recorded, world.phase mutator = .paused (.trigger requested) recorded world.heap.count ∧
    requested.toInt ≤ recorded.toInt

structure Invariant (world : World) : Prop where
  lock_of_collecting : ∀ mutator kind, world.phase mutator = .collecting kind →
    world.lock = some mutator
  requesting : ∀ mutator requested, world.phase mutator = .requesting requested →
    Pending world.history mutator requested
  waiting : ∀ mutator requested recorded since,
    world.phase mutator = .paused (.trigger requested) recorded since →
      Waiting world mutator requested recorded since
  covered : ∀ collector kind, world.phase collector = .collecting kind →
    ∀ mutator requested, Relies world mutator requested → requested.toInt ≤ kind.toInt
  honoured : Honoured world.history

/-- What a step of one mutator leaves alone: the other mutators' phases, the count of collections,
and the stop once it is requested. Its events are its own. -/
structure Frame (world result : World) (mutator : Mutator) : Prop where
  phase_other : ∀ other, other ≠ mutator → result.phase other = world.phase other
  count_eq : result.heap.count = world.heap.count
  collecting : world.heap.collecting = true → result.heap.collecting = true
  history : ∃ events : List Event, result.history = events ++ world.history ∧
    ∀ event ∈ events, event.mutator = mutator

section Frames

variable {world result : World} {mutator : Mutator}

theorem Frame.pending (frame : Frame world result mutator) {other : Mutator}
    (different : other ≠ mutator) {requested : CollectionKind}
    (pending : Pending world.history other requested) :
    Pending result.history other requested := by
  obtain ⟨events, historyEq, own⟩ := frame.history
  rw [historyEq]
  clear historyEq
  induction events with
  | nil => exact pending
  | cons event events inductionHypothesis =>
      refine (inductionHypothesis fun later member =>
        own later (List.mem_cons_of_mem _ member)).cons
        ?_
      rw [own event List.mem_cons_self]
      exact different.symm

theorem Frame.served (frame : Frame world result mutator) {other : Mutator}
    (different : other ≠ mutator) {requested : CollectionKind}
    (served : Served world.history other requested) :
    Served result.history other requested := by
  obtain ⟨events, historyEq, own⟩ := frame.history
  rw [historyEq]
  clear historyEq
  induction events with
  | nil => exact served
  | cons event events inductionHypothesis =>
      refine (inductionHypothesis fun later member =>
        own later (List.mem_cons_of_mem _ member)).cons
        ?_
      rw [own event List.mem_cons_self]
      exact different.symm

theorem Frame.waiting (frame : Frame world result mutator) {other : Mutator}
    (different : other ≠ mutator) {requested recorded : CollectionKind} {since : ℕ}
    (waiting : Waiting world other requested recorded since) :
    Waiting result other requested recorded since where
  pending := frame.pending different waiting.pending
  since_le := by
    rw [frame.count_eq]
    exact waiting.since_le
  stopping := by
    rw [frame.count_eq]
    exact fun equal => frame.collecting (waiting.stopping equal)
  served := by
    rw [frame.count_eq]
    exact fun before covers => frame.served different (waiting.served before covers)

/-- The invariant after a step that changes the phase of one mutator. -/
theorem Invariant.change (invariant : Invariant world) (mutator : Mutator)
    (frame : Frame world result mutator)
    (exclusive : world.lock = none ∨ result.lock = world.lock ∧
      ∀ requested, ¬Relies result mutator requested)
    (lockSelf : ∀ kind, result.phase mutator = .collecting kind → result.lock = some mutator)
    (requestingSelf : ∀ requested, result.phase mutator = .requesting requested →
      Pending result.history mutator requested)
    (waitingSelf : ∀ requested recorded since,
      result.phase mutator = .paused (.trigger requested) recorded since →
        Waiting result mutator requested recorded since)
    (coveredSelf : ∀ kind, result.phase mutator = .collecting kind →
      ∀ other requested, Relies world other requested → requested.toInt ≤ kind.toInt)
    (honoured : Honoured result.history) : Invariant result where
  lock_of_collecting := by
    intro other kind isCollecting
    by_cases same : other = mutator
    · subst same
      exact lockSelf kind isCollecting
    · rw [frame.phase_other other same] at isCollecting
      have held := invariant.lock_of_collecting other kind isCollecting
      rcases exclusive with free | ⟨kept, -⟩
      · rw [free] at held
        cases held
      · exact kept.trans held
  requesting := by
    intro other requested isRequesting
    by_cases same : other = mutator
    · subst same
      exact requestingSelf requested isRequesting
    · rw [frame.phase_other other same] at isRequesting
      exact frame.pending same (invariant.requesting other requested isRequesting)
  waiting := by
    intro other requested recorded since isPaused
    by_cases same : other = mutator
    · subst same
      exact waitingSelf requested recorded since isPaused
    · rw [frame.phase_other other same] at isPaused
      exact frame.waiting same (invariant.waiting other requested recorded since isPaused)
  covered := by
    intro collector kind isCollecting other requested relies
    have reliedBefore : other ≠ mutator → Relies world other requested := by
      intro different
      obtain ⟨recorded, isPaused, covers⟩ := relies
      rw [frame.phase_other other different, frame.count_eq] at isPaused
      exact ⟨recorded, isPaused, covers⟩
    by_cases same : collector = mutator
    · subst same
      refine coveredSelf kind isCollecting other requested (reliedBefore ?_)
      intro equal
      obtain ⟨recorded, isPaused, -⟩ := relies
      rw [equal, isCollecting] at isPaused
      cases isPaused
    · rw [frame.phase_other collector same] at isCollecting
      have held := invariant.lock_of_collecting collector kind isCollecting
      rcases exclusive with free | ⟨-, notRelies⟩
      · rw [free] at held
        cases held
      · refine invariant.covered collector kind isCollecting other requested (reliedBefore ?_)
        intro equal
        rw [equal] at relies
        exact notRelies requested relies
  honoured := honoured

end Frames

/-! ## Steps -/

/-- The phases of which the invariant says nothing. -/
def Phase.Plain : Phase → Prop
  | .requesting _ | .paused (.trigger _) _ _ | .collecting _ => False
  | _ => True

section Steps

variable {generational : Bool} {statistics : Statistics} {world result : World}
variable {mutator : Mutator} {requested : CollectionKind}

/-- A step to a plain phase, with nothing for the history. -/
theorem Invariant.plain (invariant : Invariant world) (free : world.lock = none)
    (mutator : Mutator) (phase : Phase) (isPlain : phase.Plain)
    (phaseEq : result.phase = update world.phase mutator phase)
    (countEq : result.heap.count = world.heap.count)
    (collecting : world.heap.collecting = true → result.heap.collecting = true)
    (historyEq : result.history = world.history) : Invariant result := by
  have frame : Frame world result mutator :=
    { phase_other := fun other different => by rw [phaseEq, update_of_ne different]
      count_eq := countEq
      collecting := collecting
      history := ⟨[], historyEq, by simp⟩ }
  have phaseSelf : result.phase mutator = phase := by rw [phaseEq, update_self]
  refine invariant.change mutator frame (Or.inl free) ?_ ?_ ?_ ?_ (historyEq ▸ invariant.honoured)
  · intro kind isCollecting
    rw [phaseSelf] at isCollecting
    simp [isCollecting, Phase.Plain] at isPlain
  · intro other isRequesting
    rw [phaseSelf] at isRequesting
    simp [isRequesting, Phase.Plain] at isPlain
  · intro other recorded since isPaused
    rw [phaseSelf] at isPaused
    simp [isPaused, Phase.Plain] at isPlain
  · intro kind isCollecting
    rw [phaseSelf] at isCollecting
    simp [isCollecting, Phase.Plain] at isPlain

/-- With no stop under way, nobody relies on the next collection. -/
theorem Invariant.not_relies (invariant : Invariant world) (calm : world.heap.collecting = false)
    (other : Mutator) (requested : CollectionKind) : ¬Relies world other requested := by
  rintro ⟨recorded, isPaused, -⟩
  have asked := (invariant.waiting other requested recorded _ isPaused).stopping rfl
  rw [calm] at asked
  cases asked

theorem addMutator_invariant (invariant : Invariant world) (free : world.lock = none) :
    Invariant (addMutator world mutator) := by
  unfold addMutator
  split
  · exact invariant.plain free mutator .adding trivial rfl rfl id rfl
  · exact invariant.plain free mutator .running trivial rfl rfl id rfl

theorem reactivateMutatorLocked_invariant (invariant : Invariant world)
    (free : world.lock = none) : Invariant (reactivateMutatorLocked world mutator) :=
  invariant.plain free mutator .running trivial rfl rfl id rfl

/-- The worlds differ in the counters and the stop flag at most: the mutator has only asked the
others to stop, or counted itself out. -/
structure Alike (world asking : World) : Prop where
  phase_eq : asking.phase = world.phase
  count_eq : asking.heap.count = world.heap.count
  history_eq : asking.history = world.history

/-- Entering `collect`'s critical part. -/
theorem collectStopped_invariant (invariant : Invariant world) (free : world.lock = none)
    {asking : World} (alike : Alike world asking)
    (collecting : world.heap.collecting = true → asking.heap.collecting = true)
    (covers : ∀ heap kind,
      determineCollectionKind generational statistics asking.heap requested =
        .next (heap, kind) →
      ∀ other awaited, Relies world other awaited → awaited.toInt ≤ kind.toInt)
    (stepped : collectStopped generational statistics asking mutator requested =
      .next result) : Invariant result := by
  simp only [collectStopped, Outcome.bind_eq_next, Prod.exists] at stepped
  obtain ⟨heap, kind, determined, equal⟩ := stepped
  cases equal
  have heapEq := determineCollectionKind_eq_next determined
  have heapCount : heap.count = asking.heap.count := by rw [heapEq]
  have heapCollecting : heap.collecting = asking.heap.collecting := by rw [heapEq]
  have phaseSelf : ∀ phase, update asking.phase mutator (.collecting kind) mutator = phase →
      phase = .collecting kind := by
    intro phase equal
    rw [← equal, update_self]
  refine invariant.change mutator
    { phase_other := ?_, count_eq := ?_, collecting := ?_,
      history := ⟨[], alike.history_eq, by simp⟩ }
    (Or.inl free) ?_ ?_ ?_ ?_ ?_
  · intro other different
    simp [World.setPhase, different, alike.phase_eq]
  · exact heapCount.trans alike.count_eq
  · intro asked
    exact heapCollecting.trans (collecting asked)
  · intro _ _
    rfl
  · intro other isRequesting
    cases phaseSelf _ isRequesting
  · intro other recorded since isPaused
    cases phaseSelf _ isPaused
  · intro other isCollecting
    cases phaseSelf _ isCollecting
    exact covers heap kind determined
  · exact alike.history_eq ▸ invariant.honoured

/-- Waiting for the others to stop, and leaving the wait. -/
theorem waitForMutatorsToStop_invariant (invariant : Invariant world)
    (free : world.lock = none) {asking : World} (alike : Alike world asking)
    (collecting : world.heap.collecting = true → asking.heap.collecting = true)
    (covers : ∀ heap kind,
      determineCollectionKind generational statistics asking.heap requested =
        .next (heap, kind) →
      ∀ other awaited, Relies world other awaited → awaited.toInt ≤ kind.toInt)
    (stepped : waitForMutatorsToStop generational statistics asking mutator requested =
      .next result) : Invariant result := by
  unfold waitForMutatorsToStop at stepped
  split at stepped
  · exact collectStopped_invariant invariant free alike collecting covers stepped
  · cases stepped
    refine invariant.plain free mutator (.stopping requested) trivial ?_ alike.count_eq
      collecting alike.history_eq
    simp [World.setPhase, alike.phase_eq]

/-- A collection that begins with no stop under way has nobody who relies on it. -/
theorem collect_invariant (invariant : Invariant world) (free : world.lock = none)
    {asking : World} (alike : Alike world asking)
    (collecting : asking.heap.collecting = world.heap.collecting)
    (stepped : collect generational statistics asking mutator requested = .next result) :
    Invariant result := by
  simp only [collect, Outcome.bind_eq_next, requestMutatorsToStop_eq_next] at stepped
  obtain ⟨heap, ⟨calm, rfl⟩, waited⟩ := stepped
  rw [collecting] at calm
  refine waitForMutatorsToStop_invariant invariant free ?_ (fun _ => rfl) ?_ waited
  · exact ⟨alike.phase_eq, alike.count_eq, alike.history_eq⟩
  · intro _ _ _ other awaited relies
    exact absurd relies (invariant.not_relies calm other awaited)

/-- Past its pausing loop, the mutator collects unless the recorded kind covers its request; then
a collection must have served it. -/
theorem triggerAfterPausing_invariant {prevKind : ℤ} (invariant : Invariant world)
    (free : world.lock = none) {asking : World} (alike : Alike world asking)
    (collecting : asking.heap.collecting = world.heap.collecting)
    (served : requested.toInt ≤ prevKind → Served world.history mutator requested)
    (stepped : triggerAfterPausing generational statistics asking mutator prevKind requested =
      .next result) : Invariant result := by
  unfold triggerAfterPausing at stepped
  split at stepped
  · exact collect_invariant invariant free alike collecting stepped
  next notBelow =>
    cases stepped
    have frame : Frame world ((asking.setPhase mutator .running).record (.waited mutator))
        mutator :=
      { phase_other := fun other different => by
          simp [World.record, World.setPhase, different, alike.phase_eq]
        count_eq := alike.count_eq
        collecting := fun asked => collecting.trans asked
        history := ⟨[.waited mutator], by simp [World.record, World.setPhase, alike.history_eq],
          by simp [Event.mutator]⟩ }
    have covered : Served world.history mutator requested := served (not_lt.mp notBelow)
    refine invariant.change mutator frame (Or.inl free) ?_ ?_ ?_ ?_ ?_
    · simp [World.record, World.setPhase]
    · simp [World.record, World.setPhase]
    · simp [World.record, World.setPhase]
    · simp [World.record, World.setPhase]
    · simp only [World.record, World.setPhase, alike.history_eq]
      exact invariant.honoured.waited covered

/-- A mutator that pauses waits for the collection under way: none has ended since. -/
theorem pauseForTrigger_invariant (invariant : Invariant world) (free : world.lock = none)
    (pending : Pending world.history mutator requested)
    (stepped : pauseMutatorForCollection world mutator (.trigger requested) = .next result) :
    Invariant result := by
  obtain ⟨asked, -, rfl⟩ := pauseMutatorForCollection_eq_next.mp stepped
  refine invariant.change mutator
    { phase_other := ?_, count_eq := rfl, collecting := id, history := ⟨[], rfl, by simp⟩ }
    (Or.inl free) ?_ ?_ ?_ ?_ invariant.honoured
  · intro other different
    simp [World.setPhase, different]
  · simp [World.setPhase]
  · simp [World.setPhase]
  · intro other recorded since isPaused
    simp only [World.setPhase, update_self, Phase.paused.injEq,
      PauseCaller.trigger.injEq] at isPaused
    obtain ⟨rfl, rfl, rfl⟩ := isPaused
    exact
      { pending := pending
        since_le := le_rfl
        stopping := fun _ => asked
        served := fun before => absurd before (lt_irrefl _) }
  · simp [World.setPhase]

theorem gcSafepointSlow_invariant (invariant : Invariant world) (free : world.lock = none)
    (stepped : gcSafepointSlow world mutator = .next result) : Invariant result := by
  unfold gcSafepointSlow at stepped
  split at stepped
  · obtain ⟨-, -, rfl⟩ := pauseMutatorForCollection_eq_next.mp stepped
    exact invariant.plain free mutator (.paused .safepoint world.heap.gcKind world.heap.count)
      trivial
      rfl rfl id rfl
  · cases stepped
    exact invariant

theorem resumePaused_invariant {caller : PauseCaller} {recorded : CollectionKind} {since : ℕ}
    (invariant : Invariant world) (free : world.lock = none)
    (was : world.phase mutator = .paused caller recorded since)
    (stepped : resumePaused generational statistics world mutator caller recorded =
      .next result) : Invariant result := by
  unfold resumePaused at stepped
  dsimp only at stepped
  split at stepped
  · cases stepped
    exact invariant
  next notStopping =>
    have calm : world.heap.collecting = false := by
      simpa [mutatorsAreStopping] using notStopping
    cases caller with
    | safepoint =>
        cases stepped
        exact invariant.plain free mutator .running trivial rfl rfl id rfl
    | trigger requested =>
        have waiting := invariant.waiting mutator requested recorded since was
        have ended : since < world.heap.count := by
          refine lt_of_le_of_ne waiting.since_le ?_
          intro equal
          have asked := waiting.stopping equal
          rw [calm] at asked
          cases asked
        let heap :=
          { world.heap with pausedMutatorCount := sizeSub world.heap.pausedMutatorCount 1 }
        have alike : Alike world { world with heap := heap } := ⟨rfl, rfl, rfl⟩
        exact triggerAfterPausing_invariant invariant free alike rfl (waiting.served ended) stepped

theorem triggerLocked_invariant (invariant : Invariant world) (free : world.lock = none)
    (was : world.phase mutator = .requesting requested)
    (stepped : triggerLocked generational statistics world mutator requested = .next result) :
    Invariant result := by
  have pending := invariant.requesting mutator requested was
  unfold triggerLocked at stepped
  split at stepped
  · exact pauseForTrigger_invariant invariant free pending stepped
  · refine triggerAfterPausing_invariant invariant free ⟨rfl, rfl, rfl⟩ rfl ?_ stepped
    intro covers
    have nonnegative := requested.toInt_nonneg
    omega

@[simp] theorem resizeHeap_count (heap : Heap) (newSize : ℕ) :
    (resizeHeap heap newSize).count = heap.count := by
  unfold resizeHeap
  split_ifs <;> rfl

@[simp] theorem resizeHeap_collecting (heap : Heap) (newSize : ℕ) :
    (resizeHeap heap newSize).collecting = heap.collecting := by
  unfold resizeHeap
  split_ifs <;> rfl

theorem foldl_resizeHeap_count (heap : Heap) (newSizes : List ℕ) :
    (newSizes.foldl resizeHeap heap).count = heap.count := by
  induction newSizes generalizing heap with
  | nil => rfl
  | cons newSize newSizes inductionHypothesis =>
      rw [List.foldl_cons, inductionHypothesis, resizeHeap_count]

theorem maybeGrowHeapInsteadOfCollecting_kept (heap : Heap) (targetSize : ℕ) :
    (maybeGrowHeapInsteadOfCollecting heap targetSize).1.count = heap.count ∧
      (maybeGrowHeapInsteadOfCollecting heap targetSize).1.collecting = heap.collecting := by
  unfold maybeGrowHeapInsteadOfCollecting
  split_ifs
  · exact ⟨resizeHeap_count _ _, resizeHeap_collecting _ _⟩
  · exact ⟨rfl, rfl⟩

/-- A call is pending until the mutator finds itself in `pause_mutator_for_collection` or
`collect`. -/
theorem called_invariant (invariant : Invariant world) (heap : Heap)
    (countEq : heap.count = world.heap.count)
    (collecting : heap.collecting = world.heap.collecting) :
    Invariant { (world.record (.called mutator requested)).setPhase mutator
      (.requesting requested) with heap := heap } := by
  refine invariant.change mutator
    { phase_other := ?_, count_eq := countEq, collecting := collecting.trans,
      history := ⟨[.called mutator requested], rfl, by simp [Event.mutator]⟩ }
    (Or.inr ⟨rfl, ?_⟩) ?_ ?_ ?_ ?_ (invariant.honoured.cons fun _ => by simp)
  · intro other different
    simp [World.record, World.setPhase, different]
  · simp [Relies, World.record, World.setPhase]
  · simp [World.record, World.setPhase]
  · intro other isRequesting
    simp only [World.record, World.setPhase, update_self, Phase.requesting.injEq] at isRequesting
    subst isRequesting
    exact Pending.called _ _ _
  · simp [World.record, World.setPhase]
  · simp [World.record, World.setPhase]

theorem grew_invariant (invariant : Invariant world) (heap : Heap)
    (was : world.phase mutator = .running) (countEq : heap.count = world.heap.count)
    (collecting : heap.collecting = world.heap.collecting) :
    Invariant { (world.record (.called mutator requested)).record (.grew mutator) with
      heap := heap } := by
  refine invariant.change mutator
    { phase_other := fun _ _ => rfl, count_eq := countEq, collecting := collecting.trans,
      history := ⟨[.grew mutator, .called mutator requested], rfl, by simp [Event.mutator]⟩ }
    (Or.inr ⟨rfl, ?_⟩) ?_ ?_ ?_ ?_
    ((invariant.honoured.cons fun _ => by simp).cons fun _ => by simp)
  · simp [Relies, World.record, was]
  · simp [World.record, was]
  · simp [World.record, was]
  · simp [World.record, was]
  · simp [World.record, was]

theorem triggerCollection_invariant (invariant : Invariant world)
    (was : world.phase mutator = .running) (targetSize : Option ℕ) :
    Invariant (triggerCollection world mutator requested targetSize) := by
  unfold triggerCollection
  cases targetSize with
  | none => exact called_invariant invariant world.heap rfl rfl
  | some targetSize =>
      dsimp only
      obtain ⟨countEq, collecting⟩ :=
        maybeGrowHeapInsteadOfCollecting_kept world.heap targetSize
      split
      · exact grew_invariant invariant _ was countEq collecting
      · exact called_invariant invariant _ countEq collecting

/-- The end of a collection serves everyone who relied on it. -/
theorem finishCollection_invariant {kind : CollectionKind} {newSizes : List ℕ}
    (invariant : Invariant world) (was : world.phase mutator = .collecting kind)
    (stepped : finishCollection world mutator kind newSizes = .next result) :
    Invariant result := by
  simp only [finishCollection, Outcome.bind_eq_next, allowMutatorsToContinue_eq_next] at stepped
  obtain ⟨heap, ⟨-, -, rfl⟩, equal⟩ := stepped
  cases equal
  have held := invariant.lock_of_collecting mutator kind was
  have phaseOther : ∀ other phase, phase ≠ .running →
      update world.phase mutator .running other = phase →
        other ≠ mutator ∧ world.phase other = phase := by
    intro other phase notRunning equal
    by_cases same : other = mutator
    · subst same
      rw [update_self] at equal
      exact absurd equal.symm notRunning
    · rw [update_of_ne same] at equal
      exact ⟨same, equal⟩
  have noneCollecting : ∀ other otherKind,
      update world.phase mutator .running other ≠ .collecting otherKind := by
    intro other otherKind isCollecting
    obtain ⟨different, wasCollecting⟩ := phaseOther other _ (by simp) isCollecting
    have otherHeld := invariant.lock_of_collecting other otherKind wasCollecting
    rw [held] at otherHeld
    exact different (Option.some.inj otherHeld).symm
  refine
    { lock_of_collecting := ?_, requesting := ?_, waiting := ?_, covered := ?_, honoured := ?_ }
  · intro other otherKind isCollecting
    exact absurd isCollecting (noneCollecting other otherKind)
  · intro other requested isRequesting
    obtain ⟨different, wasRequesting⟩ := phaseOther other _ (by simp) isRequesting
    exact (invariant.requesting other requested wasRequesting).cons different.symm
  · intro other requested recorded since isPaused
    obtain ⟨different, wasPaused⟩ := phaseOther other _ (by simp) isPaused
    have waiting := invariant.waiting other requested recorded since wasPaused
    have countEq := foldl_resizeHeap_count
      { world.heap with count := world.heap.count + 1 } newSizes
    have sinceLe := waiting.since_le
    refine
      { pending := waiting.pending.cons different.symm, since_le := ?_, stopping := ?_,
        served := ?_ }
    · simp only [countEq]
      omega
    · simp only [countEq]
      omega
    · intro _ covers
      by_cases current : since = world.heap.count
      · subst current
        exact waiting.pending.serve different.symm
          (invariant.covered mutator kind was other requested ⟨recorded, wasPaused, covers⟩)
      · exact (waiting.served (by omega) covers).cons different.symm
  · intro collector otherKind isCollecting
    exact absurd isCollecting (noneCollecting collector otherKind)
  · exact invariant.honoured.cons fun _ => by simp

/-- The actions that the code handles: a collection chooses a kind that covers the request of
every mutator that paused for it and that took the kind of the collection before for its own. -/
def Action.Covering (generational : Bool) (world : World) : Action → Prop
  | .wake mutator statistics => ∀ requested, world.phase mutator = .stopping requested →
      ∀ heap kind,
        determineCollectionKind generational statistics world.heap requested =
          .next (heap, kind) →
        ∀ other awaited, Relies world other awaited → awaited.toInt ≤ kind.toInt
  | _ => True

theorem wake_invariant (invariant : Invariant world) (free : world.lock = none)
    (covering : (Action.wake mutator statistics).Covering generational world)
    (stepped : wake generational statistics world mutator = .next result) :
    Invariant result := by
  unfold wake at stepped
  split at stepped
  next was =>
    cases stepped
    exact addMutator_invariant invariant free
  next caller recorded since was => exact resumePaused_invariant invariant free was stepped
  next requested was =>
    exact waitForMutatorsToStop_invariant invariant free ⟨rfl, rfl, rfl⟩ id
      (covering requested was) stepped
  next was =>
    split at stepped
    · cases stepped
      exact invariant
    · cases stepped
      exact reactivateMutatorLocked_invariant invariant free
  next => cases stepped

/-- Every covering action keeps the invariant. -/
theorem step_invariant {action : Action} (invariant : Invariant world)
    (covering : action.Covering generational world)
    (stepped : step generational world action = .next result) : Invariant result := by
  cases action with
  | initForThread mutator =>
      simp only [step, Outcome.require_bind_eq_next] at stepped
      obtain ⟨-, free, equal⟩ := stepped
      cases equal
      exact addMutator_invariant invariant free
  | finishForThread mutator =>
      simp only [step, Outcome.require_bind_eq_next] at stepped
      obtain ⟨-, free, equal⟩ := stepped
      cases equal
      exact invariant.plain free mutator .absent trivial rfl rfl id rfl
  | deactivate mutator =>
      simp only [step, deactivateMutator, Outcome.require_bind_eq_next,
        Outcome.check_bind_eq_next] at stepped
      obtain ⟨-, -, free, equal⟩ := stepped
      cases equal
      exact invariant.plain free mutator .inactive trivial rfl rfl id rfl
  | reactivate mutator =>
      simp only [step, reactivateMutator, Outcome.require_bind_eq_next,
        Outcome.check_bind_eq_next] at stepped
      obtain ⟨-, -, free, reactivated⟩ := stepped
      split at reactivated
      · cases reactivated
        exact invariant.plain free mutator .reactivating trivial rfl rfl id rfl
      · cases reactivated
        exact reactivateMutatorLocked_invariant invariant free
  | safepoint mutator =>
      simp only [step, Outcome.require_bind_eq_next] at stepped
      obtain ⟨-, free, stopped⟩ := stepped
      exact gcSafepointSlow_invariant invariant free stopped
  | triggerCollection mutator requested targetSize =>
      simp only [step, Outcome.require_bind_eq_next] at stepped
      obtain ⟨was, -, equal⟩ := stepped
      cases equal
      exact triggerCollection_invariant invariant was targetSize
  | triggerLocked mutator statistics =>
      simp only [step, Outcome.require_bind_eq_next] at stepped
      obtain ⟨free, triggered⟩ := stepped
      split at triggered
      next requested was => exact triggerLocked_invariant invariant free was triggered
      next => cases triggered
  | wake mutator statistics =>
      simp only [step, Outcome.require_bind_eq_next] at stepped
      exact wake_invariant invariant stepped.1 covering stepped.2
  | finishCollection mutator newSizes =>
      simp only [step, Outcome.require_bind_eq_next] at stepped
      obtain ⟨-, finished⟩ := stepped
      split at finished
      next kind was => exact finishCollection_invariant invariant was finished
      next => cases finished
  | setHeapSizeFromThread newSize =>
      simp only [step, Outcome.require_bind_eq_next] at stepped
      obtain ⟨free, equal⟩ := stepped
      cases equal
      exact
        { lock_of_collecting := invariant.lock_of_collecting
          requesting := invariant.requesting
          waiting := by
            intro other requested recorded since was
            have waiting := invariant.waiting other requested recorded since was
            exact
              { pending := waiting.pending
                since_le := by simpa using waiting.since_le
                stopping := by simpa using waiting.stopping
                served := by simpa using waiting.served }
          covered := by simpa [Relies] using invariant.covered
          honoured := invariant.honoured }

end Steps

/-! ## Whole runs -/

theorem initialWorld_invariant (size : ℕ) : Invariant (initialWorld size) where
  lock_of_collecting := by simp [initialWorld]
  requesting := by simp [initialWorld]
  waiting := by simp [initialWorld]
  covered := by simp [initialWorld]
  honoured := honoured_nil

/-- In every run whose collections choose kinds that cover the requests relying on them, every
request that returns without collecting or growing the heap was honoured. -/
theorem requests_honoured (generational : Bool) (world : World)
    (reached : (system generational).ReachableBy
      (fun state action => action.Covering generational state) world) :
    Honoured world.history := by
  have invariant : Invariant world := by
    refine reached.invariant _ ?_ ?_
    · rintro state ⟨size, rfl⟩
      exact initialWorld_invariant size
    · intro before action after invariant covering stepped
      exact step_invariant invariant covering stepped
  exact invariant.honoured

/-- The action is a return of the asking mutator from its wait. -/
def Action.resumesCollector (world : World) : Action → Bool
  | .wake mutator _ =>
      match world.phase mutator with
      | .stopping _ => true
      | _ => false
  | _ => false

/-- Only the return of the asking mutator chooses a kind that others may rely on. -/
theorem covering_of_not_resumesCollector {generational : Bool} {world : World} {action : Action}
    (other : action.resumesCollector world = false) : action.Covering generational world := by
  cases action with
  | wake mutator statistics =>
      intro requested was
      simp [Action.resumesCollector, was] at other
  | _ => trivial

private def calmStatistics : Statistics :=
  { yield := 1 / 2, fragmentation := 0, pending := 0, hasAmbiguousEdges := false }

/-- Mutator 1 asks for a major collection while mutator 0 stops the world for a compacting one. -/
theorem requests_honoured_compacting :
    ∃ world : World, world.history =
        [.waited 1, .collected 0 .compacting, .called 1 .major, .called 0 .compacting,
          .collected 0 .major, .called 0 .major] ∧ Honoured world.history := by
  refine ⟨_, ?_, requests_honoured true _ (System.ReachableBy.of_runBy (system true)
    (fun state action => action.resumesCollector state = false)
    (fun _ _ => covering_of_not_resumesCollector)
    (System.ReachableBy.afterAction (system true) (System.ReachableBy.of_runBy (system true)
      (fun state action => action.resumesCollector state = false)
      (fun _ _ => covering_of_not_resumesCollector) (.initial ⟨2 ^ 20, rfl⟩)
      [.initForThread 0, .triggerCollection 0 .major none, .triggerLocked 0 calmStatistics,
        .finishCollection 0 [], .initForThread 1, .triggerCollection 0 .compacting none,
        .triggerLocked 0 calmStatistics, .triggerCollection 1 .major none,
        .triggerLocked 1 calmStatistics] rfl) (.wake 0 calmStatistics) ?_ rfl)
    [.finishCollection 0 [], .wake 1 calmStatistics] rfl)⟩
  · rfl
  · rintro requested was heap kind determined other awaited -
    cases was
    cases determined
    exact awaited.toInt_le_compacting

/-- Mutator 1 asks for a major collection while mutator 0 stops the world for a minor one, and
takes the major collection before for its own. -/
theorem requests_honoured_fails :
    ¬∀ world, (system true).Reachable world → Honoured world.history := by
  intro holds
  have reached : ∃ world : World, (system true).Reachable world ∧ world.history =
      [.waited 1, .collected 0 .minor, .called 1 .major, .called 0 .minor,
        .collected 0 .major, .called 0 .major] :=
    ⟨_, System.ReachableBy.of_runBy (system true) (fun _ _ => True) (fun _ _ => id)
      (.initial ⟨2 ^ 20, rfl⟩)
      [.initForThread 0, .triggerCollection 0 .major none, .triggerLocked 0 calmStatistics,
        .finishCollection 0 [], .initForThread 1, .triggerCollection 0 .minor none,
        .triggerLocked 0 calmStatistics, .triggerCollection 1 .major none,
        .triggerLocked 1 calmStatistics, .wake 0 calmStatistics, .finishCollection 0 [],
        .wake 1 calmStatistics] rfl, rfl⟩
  obtain ⟨world, reachable, historyEq⟩ := reached
  obtain ⟨requested, between, before, split, others, collector, kind, member, covers⟩ :=
    holds world reachable [] 1 _ historyEq
  match between, split, others, member with
  | [], split, _, _ => simp at split
  | [event], split, _, member =>
      simp only [List.cons_append, List.nil_append, List.cons.injEq, Event.called.injEq,
        true_and] at split
      obtain ⟨rfl, rfl, -⟩ := split
      simp only [List.mem_singleton, Event.collected.injEq] at member
      obtain ⟨-, rfl⟩ := member
      simp [CollectionKind.toInt] at covers
  | _ :: event :: _, split, others, _ =>
      simp only [List.cons_append, List.cons.injEq] at split
      refine others event (by simp) ?_
      rw [← split.2.1]
      rfl

end Whippet.Mmc
