import Whippet.Finalizer.CallRuns

/-!
Finalizers of lower-numbered priorities take precedence.

A priority that has been resolved leaves the objects of its finalizers visited: what has not been
visited fires, and is traced before the next priority is resolved. So as long as a finalizer of one
priority waits for an object, no finalizer of a later priority fires for it.

Owns: the precedence of the priorities in a collection. Does not own: how tracing marks its roots.
-/

namespace Whippet.Finalizers

open Function
open Ephemerons (Ref)

/-- Tracing keeps what has been visited and visits the roots. -/
def Traces (graph : ObjectGraph) (trace : Marking → Marking) : Prop :=
  ∀ marking, marking.visited ⊆ (trace marking).visited ∧
    ∀ ref ∈ marking.roots, gcVisitEphemeronKey graph (trace marking) ref = true

section Marks

variable {collector : Collector} {graph : ObjectGraph} {objectOf : ℕ → Ref} {marking : Marking}
variable {order : List ℕ} {finalizer : ℕ} {trace : Marking → Marking} {ref : Ref}

theorem subset_marks (order : List ℕ) :
    marking.visited ⊆ (marks collector graph objectOf marking order).visited := by
  induction order generalizing marking with
  | nil => exact subset_rfl
  | cons first order inductionHypothesis =>
      unfold marks
      split
      · exact inductionHypothesis
      · exact (subset_visit graph marking _ collector).trans inductionHypothesis

theorem roots_subset_marks (order : List ℕ) (isRoot : ref ∈ marking.roots) :
    ref ∈ (marks collector graph objectOf marking order).roots := by
  induction order generalizing marking with
  | nil => exact isRoot
  | cons first order inductionHypothesis =>
      unfold marks
      split
      · exact inductionHypothesis isRoot
      · apply inductionHypothesis
        cases collector with
        | semi => exact isRoot
        | mmc => exact List.mem_append_left _ isRoot
        | pcc => exact List.mem_append_left _ isRoot

/-- Visiting an object marks it, or makes it a root. -/
theorem visit_or_root (collector : Collector) (graph : ObjectGraph) (marking : Marking)
    (ref : Ref) :
    gcVisitEphemeronKey graph (collector.visit graph marking ref) ref = true ∨
      ref ∈ (collector.visit graph marking ref).roots := by
  cases collector with
  | semi =>
      left
      by_contra notVisited
      rw [Bool.not_eq_true] at notVisited
      obtain ⟨addr, object, rfl, found, -, unmarked⟩ := (key_eq_false_iff graph).mp notVisited
      apply unmarked
      unfold Collector.visit
      dsimp only
      have isAddress : graph.addressOf (.object addr) = some addr := by
        simp [ObjectGraph.addressOf, found]
      rw [semiVisit_eq, isAddress]
      exact (DepthFirst.explored addr (fun _ => mem_addresses graph) (depth_enough graph _)).2
  | mmc => exact .inr (List.mem_append_right _ List.mem_cons_self)
  | pcc => exact .inr (List.mem_append_right _ List.mem_cons_self)

/-- When a priority has been resolved, the objects of its finalizers are visited or will be
traced. -/
theorem marked_or_root (member : finalizer ∈ order) :
    gcVisitEphemeronKey graph (marks collector graph objectOf marking order)
        (objectOf finalizer) = true ∨
      objectOf finalizer ∈ (marks collector graph objectOf marking order).roots := by
  induction order generalizing marking with
  | nil => cases member
  | cons first order inductionHypothesis =>
      unfold marks
      rcases List.mem_cons.mp member with rfl | later
      · split
        next isVisited => exact .inl (key_of_subset graph (subset_marks order) isVisited)
        next =>
          rcases visit_or_root collector graph marking (objectOf finalizer) with isMarked | isRoot
          · exact .inl (key_of_subset graph (subset_marks order) isMarked)
          · exact .inr (roots_subset_marks order isRoot)
      · split
        · exact inductionHypothesis later
        · exact inductionHypothesis later

theorem visited_of_not_mem_fires (member : finalizer ∈ order)
    (kept : finalizer ∉ fires collector graph objectOf marking order) :
    gcVisitEphemeronKey graph (marks collector graph objectOf marking order)
      (objectOf finalizer) = true := by
  induction order generalizing marking with
  | nil => cases member
  | cons first order inductionHypothesis =>
      unfold fires at kept
      unfold marks
      split
      next isVisited =>
        rw [if_pos isVisited] at kept
        rcases List.mem_cons.mp member with rfl | later
        · exact key_of_subset graph (subset_marks order) isVisited
        · exact inductionHypothesis later kept
      next fresh =>
        rw [if_neg fresh, List.mem_cons, not_or] at kept
        rcases List.mem_cons.mp member with rfl | later
        · exact absurd rfl kept.1
        · exact inductionHypothesis later kept.2

/-- When a priority has been resolved and what fired has been traced, the objects of its finalizers
are visited. -/
theorem visited_when_resolved (traces : Traces graph trace) (member : finalizer ∈ order) :
    gcVisitEphemeronKey graph
      (if (fires collector graph objectOf marking order).length ≠ 0 then
        trace (marks collector graph objectOf marking order)
      else marks collector graph objectOf marking order) (objectOf finalizer) = true := by
  split
  · rcases marked_or_root member with isMarked | isRoot
    · exact key_of_subset graph (traces _).1 isMarked
    · exact (traces _).2 _ isRoot
  next none =>
    have isNil := List.eq_nil_of_length_eq_zero (not_not.mp none)
    apply visited_of_not_mem_fires member
    rw [isNil]
    exact List.not_mem_nil

theorem subset_when_resolved (traces : Traces graph trace) :
    marking.visited ⊆ (if (fires collector graph objectOf marking order).length ≠ 0 then
        trace (marks collector graph objectOf marking order)
      else marks collector graph objectOf marking order).visited := by
  split
  · exact (subset_marks order).trans (traces _).1
  · exact subset_marks order

end Marks

section Priorities

variable {collector : Collector} {graph : ObjectGraph} {trace : Marking → Marking}
variable {world : FinalizerWorld} {listed : ℕ → Option ListName} {marking : Marking}
variable {priority later first second : ℕ} {index position : Fin BUCKET_COUNT}

/-- A finalizer whose object has been visited waits on. -/
theorem waits_when_visited (collector : Collector) (traces : Traces graph trace)
    (priorities : List ℕ)
    (inRange : ∀ priority ∈ priorities, priority < world.tableCount) (sound : world.Sound listed)
    (isWaiting : listed second = some (.bucket later position))
    (isVisited : gcVisitEphemeronKey graph marking (world.finalizers second).object = true) :
    ∃ after marks listedAfter other,
      FinalizerWorld.resolvePriorities collector graph trace priorities world marking =
        .next (after, marks) ∧
      after.Sound listedAfter ∧ listedAfter second = some (.bucket later other) := by
  induction priorities generalizing world listed marking position with
  | nil => exact ⟨world, marking, listed, position, rfl, sound, isWaiting⟩
  | cons priority priorities inductionHypothesis =>
      obtain ⟨order, ordered⟩ := sound.holds.exists_order priority
      obtain ⟨middle, listedMiddle, fired, ran, resolved⟩ :=
        sound.gcResolveFinalizers_spec collector
        graph marking (inRange priority List.mem_cons_self) ordered
      have stillInRange (other : ℕ) (member : other ∈ priorities) : other < middle.tableCount := by
        rw [resolved.tableCount_eq]
        exact inRange other (List.mem_cons_of_mem _ member)
      have stillWaiting : ∃ other, listedMiddle second = some (.bucket later other) := by
        by_cases member : second ∈ order
        · obtain ⟨here, isHere⟩ := (sound.holds.mem_iff ordered).mp member
          rw [isWaiting] at isHere
          cases isHere
          apply resolved.kept second member
          rw [resolved.fired_eq]
          exact not_mem_fires isVisited
        · exact ⟨position, (resolved.others second member).1.trans isWaiting⟩
      obtain ⟨other, isStillWaiting⟩ := stillWaiting
      have next := @inductionHypothesis middle listedMiddle
        (if fired.length ≠ 0 then trace (marks collector graph
          (fun finalizer => (world.finalizers finalizer).object) marking order)
        else marks collector graph (fun finalizer => (world.finalizers finalizer).object) marking
          order) other stillInRange resolved.sound isStillWaiting
      obtain ⟨after, marksAfter, listedAfter, finalPlace, looped, kept⟩ := next (by
        rw [resolved.object_eq]
        apply key_of_subset graph _ isVisited
        rw [resolved.fired_eq]
        exact subset_when_resolved traces)
      refine ⟨after, marksAfter, listedAfter, finalPlace, ?_, kept⟩
      rw [FinalizerWorld.resolvePriorities, ran]
      exact looped

/-- A finalizer waits on while one of an earlier priority waits for its object. -/
theorem waits_for_earlier (collector : Collector) (marking : Marking) (traces : Traces graph trace)
    (priorities : List ℕ)
    (increasing : priorities.Pairwise (· < ·))
    (inRange : ∀ priority ∈ priorities, priority < world.tableCount) (sound : world.Sound listed)
    (isPriority : priority ∈ priorities) (earlier : priority < later)
    (firstWaiting : listed first = some (.bucket priority index))
    (secondWaiting : listed second = some (.bucket later position))
    (sameObject : (world.finalizers first).object = (world.finalizers second).object) :
    ∃ after marks listedAfter other,
      FinalizerWorld.resolvePriorities collector graph trace priorities world marking =
        .next (after, marks) ∧
      after.Sound listedAfter ∧ listedAfter second = some (.bucket later other) := by
  induction priorities generalizing world listed marking with
  | nil => cases isPriority
  | cons current priorities inductionHypothesis =>
      obtain ⟨order, ordered⟩ := sound.holds.exists_order current
      obtain ⟨middle, listedMiddle, fired, ran, resolved⟩ :=
        sound.gcResolveFinalizers_spec collector
        graph marking (inRange current List.mem_cons_self) ordered
      obtain ⟨smallest, restIncreasing⟩ := List.pairwise_cons.mp increasing
      have stillInRange (other : ℕ) (member : other ∈ priorities) : other < middle.tableCount := by
        rw [resolved.tableCount_eq]
        exact inRange other (List.mem_cons_of_mem _ member)
      have atMost : current ≤ priority := by
        rcases List.mem_cons.mp isPriority with rfl | inRest
        · exact le_rfl
        · exact (smallest priority inRest).le
      have untouched {finalizer other : ℕ} {here : Fin BUCKET_COUNT}
          (isHere : listed finalizer = some (.bucket other here)) (different : current ≠ other) :
          listedMiddle finalizer = some (.bucket other here) := by
        have outside : finalizer ∉ order := by
          intro member
          obtain ⟨there, isThere⟩ := (sound.holds.mem_iff ordered).mp member
          rw [isHere] at isThere
          cases isThere
          exact different rfl
        exact (resolved.others finalizer outside).1.trans isHere
      have secondStill := untouched secondWaiting (atMost.trans_lt earlier).ne
      have stillSame : (middle.finalizers first).object = (middle.finalizers second).object := by
        rw [resolved.object_eq, resolved.object_eq, sameObject]
      have rest : ∃ after marksAfter listedAfter other,
          FinalizerWorld.resolvePriorities collector graph trace priorities middle
            (if fired.length ≠ 0 then trace (marks collector graph
              (fun finalizer => (world.finalizers finalizer).object) marking order)
            else marks collector graph (fun finalizer => (world.finalizers finalizer).object)
              marking
              order) = .next (after, marksAfter) ∧
          after.Sound listedAfter ∧ listedAfter second = some (.bucket later other) := by
        by_cases isCurrent : current = priority
        · subst isCurrent
          have member : first ∈ order := (sound.holds.mem_iff ordered).mpr ⟨index, firstWaiting⟩
          apply waits_when_visited collector traces priorities stillInRange resolved.sound
            secondStill
          rw [resolved.object_eq, ← sameObject, resolved.fired_eq]
          exact @visited_when_resolved collector graph
            (fun finalizer => (world.finalizers finalizer).object) marking order first trace traces
            member
        · have inRest : priority ∈ priorities :=
            (List.mem_cons.mp isPriority).resolve_left (Ne.symm isCurrent)
          exact inductionHypothesis _ restIncreasing stillInRange resolved.sound inRest
            (untouched firstWaiting isCurrent) secondStill stillSame
      obtain ⟨after, marksAfter, listedAfter, finalPlace, looped, kept⟩ := rest
      refine ⟨after, marksAfter, listedAfter, finalPlace, ?_, kept⟩
      rw [FinalizerWorld.resolvePriorities, ran]
      exact looped

end Priorities

section Collections

variable {machine after : FinalizerMachine} {collector : Collector} {graph : ObjectGraph}
variable {marking : Marking} {trace : Marking → Marking} {priority later first second : ℕ}

/-- While a finalizer of one priority waits for an object, a collection fires no finalizer of a
later priority for the object. -/
theorem earlier_priority_takes_precedence (reached : finalizerSystem.Reachable machine)
    (traces : Traces graph trace)
    (collected : machine.step (.collect collector graph marking trace) = .next after)
    (earlier : priority < later) {index position : Fin BUCKET_COUNT}
    (firstWaiting : machine.InPlace first (.waiting priority index))
    (secondWaiting : machine.InPlace second (.waiting later position))
    (sameObject : (machine.world.finalizers first).object =
      (machine.world.finalizers second).object) :
    ∃ other, after.InPlace second (.waiting later other) := by
  obtain ⟨place, invariant⟩ := exists_invariant reached
  have idle : ∀ call ∈ machine.calls, call = .idle := by
    change (Outcome.require _ >>= _) = _ at collected
    rw [Outcome.require_bind_eq_next] at collected
    exact collected.1
  have sound := invariant.sound idle
  have isFirst := (invariant.inPlace_iff.mp firstWaiting).1
  have isSecond := (invariant.inPlace_iff.mp secondWaiting).1
  have inRange := (invariant.waiting first priority index isFirst).2
  obtain ⟨world, marks, listed, other, ran, kept, isWaiting⟩ :=
    waits_for_earlier collector marking traces (List.range machine.world.tableCount)
      List.pairwise_lt_range
      (fun _ => List.mem_range.mp) sound (List.mem_range.mpr inRange) earlier
      (by rw [isFirst]; rfl) (by rw [isSecond]; rfl) sameObject
  refine ⟨other, ?_⟩
  change (Outcome.require _ >>= _) = _ at collected
  rw [Outcome.require_bind_eq_next] at collected
  unfold FinalizerMachine.resolveFinalizers at collected
  rw [ran] at collected
  obtain ⟨count, isListed⟩ := kept.holds
  obtain ⟨nodes, chain, -, -, members⟩ := isListed.chain (.bucket later other)
  have result : ({ machine with world := world } : FinalizerMachine).gcNotifyFinalizers =
      after := by
    exact Outcome.next.inj collected.2
  rw [← result]
  unfold FinalizerMachine.gcNotifyFinalizers
  split
  · exact ⟨nodes, chain, (members second).mpr isWaiting⟩
  · exact ⟨nodes, chain, (members second).mpr isWaiting⟩

/-- Tracing of objects without fields. -/
def traceRoots (graph : ObjectGraph) (marking : Marking) : Marking :=
  { marking with
    visited := marking.visited ∪ (marking.roots.filterMap graph.addressOf).toFinset }

theorem traces_traceRoots (graph : ObjectGraph) : Traces graph (traceRoots graph) := by
  intro marking
  refine ⟨Finset.subset_union_left, ?_⟩
  intro ref isRoot
  by_contra notVisited
  rw [Bool.not_eq_true] at notVisited
  obtain ⟨addr, object, rfl, found, -, unmarked⟩ := (key_eq_false_iff graph).mp notVisited
  apply unmarked
  apply Finset.mem_union_right
  rw [List.mem_toFinset, List.mem_filterMap]
  refine ⟨.object addr, isRoot, ?_⟩
  simp [ObjectGraph.addressOf, found]

/-- One object with finalizers of two priorities. -/
def attachTwice : List FinalizerAction :=
  [.start, .attach 0 1 0 (.object 8) .null, .access 0 false, .access 0 false, .access 0 false,
    .access 0 false, .attach 0 2 1 (.object 8) .null, .access 0 false, .access 0 false,
    .access 0 false, .access 0 false]

theorem earlier_priority_takes_precedence_twice :
    ∃ machine after, finalizerSystem.Reachable machine ∧
      machine.step (.collect .mmc { objects := [(8, { space := .small, fields := [] })] }
        { visited := ∅, roots := [] }
        (traceRoots { objects := [(8, { space := .small, fields := [] })] })) = .next after ∧
      ∃ other, after.InPlace 2 (.waiting 1 other) := by
  have leads : (System.runBy finalizerSystem.step (fun _ _ => True) (.initial 2)
      attachTwice).leadsTo (fun machine => decide (machine.calls = [.idle] ∧
        (machine.world.tables 0).buckets ⟨0, by decide⟩ = 1 ∧
        (machine.world.tables 1).buckets ⟨0, by decide⟩ = 2 ∧
        (machine.world.finalizers 1).next = 0 ∧ (machine.world.finalizers 2).next = 0 ∧
        (machine.world.finalizers 1).object = (machine.world.finalizers 2).object)) = true := by
    decide +kernel
  obtain ⟨machine, ran, test⟩ := Outcome.exists_next_of_leadsTo leads
  obtain ⟨areIdle, firstHead, secondHead, firstNext, secondNext, sameObject⟩ :=
    of_decide_eq_true test
  have reached := System.ReachableBy.of_runBy finalizerSystem (fun _ _ => True) (fun _ _ => id)
    (.initial ⟨2, rfl⟩) attachTwice ran
  have idle : ∀ call ∈ machine.calls, call = .idle := by
    rw [areIdle]
    exact fun _ => List.mem_singleton.mp
  have alone {head : ℕ} (proper : head ≠ 0) (isLast : (machine.world.finalizers head).next = 0) :
      Chained machine.world.atomicLists.next 0 head [head] := by
    apply Chained.cons proper
    change Chained _ 0 (machine.world.finalizers head).next []
    rw [isLast]
    exact .nil
  obtain ⟨after, collected⟩ := (finalizers_conserved reached).collects idle .mmc
    { objects := [(8, { space := .small, fields := [] })] } { visited := ∅, roots := [] }
    (traceRoots { objects := [(8, { space := .small, fields := [] })] })
  have firstWaiting : machine.InPlace 1 (.waiting 0 ⟨0, by decide⟩) := by
    refine ⟨[1], ?_, List.mem_cons_self⟩
    rw [firstHead]
    exact alone one_ne_zero firstNext
  have secondWaiting : machine.InPlace 2 (.waiting 1 ⟨0, by decide⟩) := by
    refine ⟨[2], ?_, List.mem_cons_self⟩
    rw [secondHead]
    exact alone two_ne_zero secondNext
  exact ⟨machine, after, reached, collected, earlier_priority_takes_precedence reached
    (traces_traceRoots _) collected Nat.zero_lt_one firstWaiting secondWaiting sameObject⟩

end Collections

end Whippet.Finalizers
