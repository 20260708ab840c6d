import Whippet.FieldSet.CollectorSteps

/-!
No remembered edge is lost, however writers, visits and the collector interleave.

Owns: that every step keeps the invariant and none fails, what every run conserves, and what the
roots hold when they have been added. Does not own: what a visit does with an edge.
-/

namespace Whippet.FieldSets

open Function

/-! ## Every step -/

/-- A step keeps each buffer in one place, and does not fail. -/
def Proceeds (outcome : Outcome FieldSetFailure FieldSet) : Prop :=
  (∀ after, outcome = .next after → ∃ place, after.Invariant place) ∧
    ∀ failure, outcome ≠ .failed failure

section Runs

variable {set after : FieldSet} {place : ℕ → BufferPlace} {index : ℕ} {writer : FieldSetWriter}
variable {outcome : Outcome FieldSetFailure FieldSet}

theorem Proceeds.of_exists (goesOn : ∃ after placeAfter, outcome = .next after ∧
    after.Invariant placeAfter) : Proceeds outcome := by
  obtain ⟨after, placeAfter, rfl, invariant⟩ := goesOn
  refine ⟨?_, by rintro _ ⟨⟩⟩
  rintro other ⟨⟩
  exact ⟨placeAfter, invariant⟩

theorem Proceeds.disabled : Proceeds .disabled := ⟨by rintro _ ⟨⟩, by rintro _ ⟨⟩⟩

theorem FieldSet.Invariant.proceeds_access (invariant : set.Invariant place)
    (found : set.writers[index]? = some writer) (spurious : Bool) (fresh : ℕ) :
    Proceeds (set.access index writer spurious fresh writer.call) := by
  cases isCall : writer.call with
  | idle => exact .disabled
  | popEmpty edge stage =>
      have call := (invariant.writers index writer found).call
      rw [isCall] at call
      cases stage with
      | reading => exact .of_exists (invariant.popEmptyReading spurious fresh found isCall)
      | popping => exact .of_exists (invariant.popEmptyPopping spurious fresh found isCall)
      | clearing => exact .of_exists (invariant.popEmptyClearing spurious fresh found isCall)
      | linking => cases call
      | pushing => cases call
      | pushed => cases call
      | popped => cases call
  | popPartlyFull edge =>
      exact .of_exists (invariant.takePartlyFull spurious fresh found isCall)
  | allocate edge =>
      refine ⟨fun after => invariant.allocate spurious fresh found isCall, ?_⟩
      intro failure failed
      simp only [FieldSet.access, Outcome.require_bind_eq_failed] at failed
      cases failed.2
  | store edge => exact .of_exists (invariant.store found isCall spurious fresh)
  | release buffer => exact .of_exists (invariant.release found isCall spurious fresh)
  | pushFull stage => exact .of_exists (invariant.pushFull found isCall spurious fresh)

/-- Every step keeps the invariant, and none fails. -/
theorem FieldSet.Invariant.proceeds (invariant : set.Invariant place) (action : FieldSetAction) :
    Proceeds (set.step action) := by
  cases action with
  | start => exact .of_exists ⟨_, place, rfl, invariant.start rfl⟩
  | addEdge index edge =>
      refine ⟨fun after stepped => ⟨place, invariant.addEdge stepped⟩, ?_⟩
      intro failure failed
      simp only [FieldSet.step, Outcome.require_bind_eq_failed] at failed
      obtain ⟨-, failed⟩ := failed
      split at failed <;> cases failed
  | releaseBuffer index =>
      refine ⟨fun after stepped => invariant.releaseBuffer stepped, ?_⟩
      intro failure failed
      simp only [FieldSet.step, Outcome.require_bind_eq_failed] at failed
      obtain ⟨-, failed⟩ := failed
      split at failed <;> cases failed
  | takeRoot index position =>
      refine ⟨fun after stepped => invariant.takeRoot stepped, ?_⟩
      intro failure failed
      simp only [FieldSet.step, Outcome.require_bind_eq_failed] at failed
      cases failed.2
  | visit index keep =>
      cases isVisiting : (set.writers.getD index freshWriter).visiting with
      | none =>
          simp only [FieldSet.step, isVisiting]
          constructor
          · intro after stepped
            rw [Outcome.require_bind_eq_next] at stepped
            cases stepped.2
          · intro failure failed
            rw [Outcome.require_bind_eq_failed] at failed
            cases failed.2
      | some visited =>
          obtain ⟨address, position⟩ := visited
          have found : set.writers[index]? = some (set.writers.getD index freshWriter) := by
            apply found_of_busy
            intro isFresh
            rw [isFresh] at isVisiting
            cases isVisiting
          simp only [FieldSet.step, isVisiting]
          constructor
          · intro after stepped
            rw [Outcome.require_bind_eq_next] at stepped
            obtain ⟨⟨isIdle, controller⟩, stepped⟩ := stepped
            cases stepped
            exact invariant.visits found isIdle controller isVisiting keep
          · intro failure failed
            rw [Outcome.require_bind_eq_failed] at failed
            cases failed.2
  | access index spurious fresh =>
      by_cases isFresh : set.writers.getD index freshWriter = freshWriter
      · dsimp only [FieldSet.step]
        rw [isFresh]
        exact .disabled
      · exact invariant.proceeds_access (found_of_busy isFresh) spurious fresh
  | addRoots =>
      refine ⟨fun after stepped => ⟨place, invariant.addRoots stepped⟩, ?_⟩
      intro failure failed
      simp only [FieldSet.step, Outcome.require_bind_eq_failed] at failed
      cases failed.2
  | clear =>
      refine ⟨fun after stepped => ⟨_, invariant.clear stepped⟩, ?_⟩
      intro failure failed
      simp only [FieldSet.step, Outcome.require_bind_eq_failed] at failed
      cases failed.2
  | control =>
      by_cases isIdle : set.controller = .idle
      · dsimp only [FieldSet.step]
        rw [isIdle]
        exact .disabled
      · exact .of_exists (invariant.control isIdle)

theorem invariant_initial : FieldSet.initial.Invariant fun _ => .unallocated where
  stacked list := by
    refine ⟨[], ?_, List.nodup_nil, fun _ => iff_of_false List.not_mem_nil (by rintro ⟨⟩)⟩
    cases list <;> exact .nil
  writers := by rintro _ _ ⟨⟩
  held := by rintro _ _ ⟨⟩
  roots _ := iff_of_false List.not_mem_nil (by rintro ⟨⟩)
  rootsOnce := List.nodup_nil
  allocated _ := iff_of_false (Finset.notMem_empty _) fun isAllocated => isAllocated rfl
  proper := rfl
  sized _ := Nat.zero_le _
  loose _ _ := rfl
  controlled notIdle := absurd rfl notIdle
  conserved := rfl

theorem exists_invariant (reached : fieldSetSystem.Reachable set) :
    ∃ place, set.Invariant place := by
  apply System.ReachableBy.invariant fieldSetSystem ?_ ?_ reached
  · rintro state rfl
    exact ⟨_, invariant_initial⟩
  · rintro before action after ⟨place, invariant⟩ - stepped
    exact (invariant.proceeds action).1 after stepped

/-! ## What runs conserve -/

/-- A call that moves a buffer knows that it does. -/
theorem WriterCall.Knows.place_moving {call : WriterCall} {index buf address : ℕ}
    (knows : call.Knows set place index buf) (moves : call.moving = some address) :
    place address = .moving index := by
  cases call with
  | popEmpty edge stage =>
      cases stage with
      | clearing buffer =>
          cases moves
          exact knows.2.1
      | _ => cases moves
  | release buffer =>
      cases moves
      exact knows.1
  | pushFull stage =>
      cases stage with
      | linking list buffer _ =>
          cases moves
          cases list with
          | full => exact knows.1
          | _ => exact knows.elim
      | pushing list buffer _ =>
          cases moves
          cases list with
          | full => exact knows.1
          | _ => exact knows.elim
      | _ => cases moves
  | _ => cases moves

/-- What a writer has is in no other place. -/
theorem FieldSetWriter.Knows.place_eq {writer : FieldSetWriter} {index address : ℕ}
    {its : BufferPlace} (knows : writer.Knows set place index) (isHeld : its.heldBy = some index)
    (proper : address ≠ 0) (has : writer.Has address its) : place address = its := by
  cases its with
  | inWriter holder =>
      cases isHeld
      subst has
      exact knows.buf proper
  | visiting holder =>
      cases isHeld
      obtain ⟨position, isVisiting⟩ := has
      exact (knows.visiting address position isVisiting).1
  | moving holder =>
      cases isHeld
      exact knows.call.place_moving has
  | _ => cases isHeld

/-- Each edge is in one buffer and each buffer in one place. -/
structure FieldSet.Conserved (set : FieldSet) : Prop where
  /-- What has been added is in the buffers, or a visit has dropped it, or it was forgotten. -/
  edges : set.added =
    (∑ address ∈ set.allocated, (set.buffers address).contents) + set.dropped + set.forgotten
  /-- The lists, the roots and the writers have exactly the buffers whose place they are. -/
  placed : ∃ place : ℕ → BufferPlace,
    (∀ address, address ∈ set.allocated ↔ place address ≠ .unallocated) ∧
      (set.lists.Stacked 0 fun address => (place address).loc) ∧
      (set.roots.Nodup ∧ ∀ address, address ∈ set.roots ↔ place address = .root) ∧
      (∀ address index, (place address).heldBy = some index →
        ∃ writer, set.writers[index]? = some writer ∧ writer.Has address (place address)) ∧
      (∀ (index : ℕ) (writer : FieldSetWriter) (address : ℕ) (its : BufferPlace),
        set.writers[index]? = some writer → its.heldBy = some index → address ≠ 0 →
          writer.Has address its → place address = its) ∧
      ∀ address, (place address).Sized (set.buffers address).size
  within : ∀ address, (set.buffers address).size ≤ GC_EDGE_BUFFER_CAPACITY
  proceeds : ∀ action failure, set.step action ≠ .failed failure

/-- However writers add edges and release buffers, workers visit them, and the collector adds roots
and clears the set, no edge is lost or duplicated, each buffer is in one place and none overflows,
and no assertion fails. -/
theorem edges_conserved (reached : fieldSetSystem.Reachable set) : set.Conserved := by
  obtain ⟨place, invariant⟩ := exists_invariant reached
  exact
    { edges := invariant.conserved
      placed := ⟨place, invariant.allocated, invariant.stacked,
        ⟨invariant.rootsOnce, invariant.roots⟩, invariant.held,
        fun index _ _ _ found isHeld => (invariant.writers index _ found).place_eq isHeld,
        invariant.sized⟩
      within := fun address => (invariant.sized address).le
      proceeds := fun action => (invariant.proceeds action).2 }

/-- Two writers take buffers and add edges. A worker keeps one edge and drops another, and clearing
forgets the rest; then both writers pop the same empty buffer, and one has to try again. -/
def contendedWriters : List FieldSetAction :=
  [.start, .start, .addEdge 0 16, .addEdge 1 24, .access 0 false 0, .access 1 false 0,
    .access 0 false 0, .access 1 false 0, .access 0 false 100, .access 1 false 200,
    .access 0 false 0, .access 1 false 0, .addEdge 0 32, .access 0 false 0, .releaseBuffer 0,
    .access 0 false 0, .addRoots, .control, .control, .takeRoot 1 0, .visit 1 true,
    .visit 1 false, .visit 1 false, .access 1 false 0, .releaseBuffer 1, .access 1 false 0,
    .clear, .control, .control, .control, .addEdge 0 40, .addEdge 1 48, .access 0 false 0,
    .access 1 false 0, .access 0 false 0, .access 1 false 0, .access 1 true 0]

theorem edges_conserved_contended :
    ∃ set, fieldSetSystem.Reachable set ∧ set.dropped = {32} ∧ set.forgotten = {16, 24} ∧
      set.Conserved := by
  have leads : (System.runBy fieldSetSystem.step (fun _ _ => True) FieldSet.initial
      contendedWriters).leadsTo
        (fun set => decide (set.dropped = {32} ∧ set.forgotten = {16, 24})) = true := by
    decide +kernel
  obtain ⟨set, ran, test⟩ := Outcome.exists_next_of_leadsTo leads
  have reached := System.ReachableBy.of_runBy fieldSetSystem (fun _ _ => True) (fun _ _ => id)
    (.initial rfl) contendedWriters ran
  obtain ⟨dropped, forgotten⟩ := of_decide_eq_true test
  exact ⟨set, reached, dropped, forgotten, edges_conserved reached⟩

/-! ## What the roots hold -/

/-- If no list but that of the empty buffers has any, the roots have the edges that writers do not
have. -/
theorem FieldSet.Invariant.sum_roots (invariant : set.Invariant place) (stopped : set.IsStopped)
    (released : ∀ writer ∈ set.writers, writer.buf = 0)
    (noHeads : ∀ list, list ≠ .empty → set.lists.head list = 0) :
    ∑ address ∈ set.allocated, (set.buffers address).contents =
      (set.roots.map fun address => (set.buffers address).contents).sum := by
  rw [← List.sum_toFinset _ invariant.rootsOnce]
  symm
  apply Finset.sum_subset
  · intro address isRoot
    rw [List.mem_toFinset, invariant.roots] at isRoot
    rw [invariant.allocated, isRoot]
    rintro ⟨⟩
  · intro address isAllocated notRoot
    rw [List.mem_toFinset, invariant.roots] at notRoot
    rw [invariant.allocated] at isAllocated
    have notListed {list : BufferList} (notEmpty : list ≠ .empty) :
        (place address).loc ≠ some list := invariant.loc_ne (noHeads list notEmpty) address
    have sized := invariant.sized address
    cases isPlace : place address with
    | unallocated => exact absurd isPlace isAllocated
    | root => exact absurd isPlace notRoot
    | empty =>
        rw [isPlace] at sized
        have isEmpty : (set.buffers address).size = 0 := sized
        rw [EdgeBuffer.contents, isEmpty, arrayBag.zero]
    | inWriter index =>
        obtain ⟨writer, found, has⟩ := invariant.held address index (by rw [isPlace]; rfl)
        rw [isPlace] at has
        have isZero : address = 0 := by
          rw [← released writer (List.mem_of_getElem? found)]
          exact has.symm
        exact absurd isZero (invariant.ne_zero isAllocated)
    | visiting index =>
        obtain ⟨writer, found, has⟩ := invariant.held address index (by rw [isPlace]; rfl)
        rw [isPlace] at has
        obtain ⟨position, isVisiting⟩ := has
        rw [(stopped writer (List.mem_of_getElem? found)).2] at isVisiting
        cases isVisiting
    | moving index =>
        obtain ⟨writer, found, has⟩ := invariant.held address index (by rw [isPlace]; rfl)
        rw [isPlace] at has
        have isMoving : writer.call.moving = some address := has
        rw [(stopped writer (List.mem_of_getElem? found)).1] at isMoving
        cases isMoving
    | full =>
        have onList : (place address).loc = some .full := by rw [isPlace]; rfl
        exact absurd onList (notListed (by rintro ⟨⟩))
    | partlyFull =>
        have onList : (place address).loc = some .partlyFull := by rw [isPlace]; rfl
        exact absurd onList (notListed (by rintro ⟨⟩))
    | clearingPartlyFull =>
        have onList : (place address).loc = some .clearingPartlyFull := by rw [isPlace]; rfl
        exact absurd onList (notListed (by rintro ⟨⟩))
    | clearingFull =>
        have onList : (place address).loc = some .clearingFull := by rw [isPlace]; rfl
        exact absurd onList (notListed (by rintro ⟨⟩))

/-- When `gc_field_set_add_roots` is done and the writers have released their buffers, the roots
have exactly the edges that have been added and neither dropped nor forgotten. -/
theorem roots_hold_edges (reached : fieldSetSystem.Reachable set)
    (adding : set.controller = .addingRoots) (stepped : set.step .control = .next after)
    (finished : after.controller = .idle) (released : ∀ writer ∈ set.writers, writer.buf = 0) :
    after.added =
      (after.roots.map fun address => (after.buffers address).contents).sum + after.dropped +
        after.forgotten := by
  obtain ⟨place, invariant⟩ := exists_invariant reached
  have stopped := invariant.controlled (adding.trans_ne (by rintro ⟨⟩))
  obtain ⟨placeAfter, kept⟩ := (invariant.proceeds .control).1 after stepped
  change set.control set.controller = .next after at stepped
  rw [adding] at stepped
  dsimp only [FieldSet.control] at stepped
  by_cases noPartlyFull : set.partlyFull = 0
  · by_cases noFull : set.full = 0
    · rw [if_neg (not_not.mpr noPartlyFull), if_neg (not_not.mpr noFull)] at stepped
      cases stepped
      rw [kept.conserved, kept.sum_roots stopped released]
      intro list notEmpty
      cases list with
      | full => exact noFull
      | partlyFull => exact noPartlyFull
      | empty => exact absurd rfl notEmpty
      | clearingPartlyFull => rfl
      | clearingFull => rfl
    · rw [if_neg (not_not.mpr noPartlyFull), if_pos noFull] at stepped
      cases stepped
      exact absurd (adding.symm.trans finished) (by rintro ⟨⟩)
  · rw [if_pos noPartlyFull] at stepped
    cases stepped
    exact absurd (adding.symm.trans finished) (by rintro ⟨⟩)

/-- Two writers add an edge each and release their buffers, and the collector makes both buffers
roots. -/
def addedRoots : List FieldSetAction :=
  [.start, .start, .addEdge 0 16, .addEdge 1 24, .access 0 false 0, .access 1 false 0,
    .access 0 false 0, .access 1 false 0, .access 0 false 100, .access 1 false 200,
    .access 1 false 0, .access 0 false 0, .releaseBuffer 0, .releaseBuffer 1, .access 0 false 0,
    .access 1 false 0, .addRoots, .control, .control]

/-- The set is about to end the adding of roots, and no writer has a buffer. -/
def addsLast (set : FieldSet) : Bool :=
  decide (set.controller = .addingRoots ∧ ∀ writer ∈ set.writers, writer.buf = 0) &&
    (set.step .control).leadsTo fun after =>
      decide (after.controller = .idle ∧ after.roots = [200, 100])

theorem roots_hold_edges_twice :
    ∃ after : FieldSet, fieldSetSystem.Reachable after ∧ after.roots = [200, 100] ∧
      after.added =
        (after.roots.map fun address => (after.buffers address).contents).sum + after.dropped +
          after.forgotten := by
  have leads : (System.runBy fieldSetSystem.step (fun _ _ => True) FieldSet.initial
      addedRoots).leadsTo addsLast = true := by
    decide +kernel
  obtain ⟨set, ran, test⟩ := Outcome.exists_next_of_leadsTo leads
  have reached := System.ReachableBy.of_runBy fieldSetSystem (fun _ _ => True) (fun _ _ => id)
    (.initial rfl) addedRoots ran
  obtain ⟨holds, goesOn⟩ := Bool.and_eq_true_iff.mp test
  obtain ⟨adding, released⟩ := of_decide_eq_true holds
  obtain ⟨after, stepped, finishedWith⟩ := Outcome.exists_next_of_leadsTo goesOn
  obtain ⟨finished, roots⟩ := of_decide_eq_true finishedWith
  have taken : fieldSetSystem.step set .control = .next after := stepped
  exact ⟨after, .step reached trivial taken, roots,
    roots_hold_edges reached adding stepped finished released⟩

end Runs

end Whippet.FieldSets
