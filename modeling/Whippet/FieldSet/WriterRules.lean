import Whippet.FieldSet.Invariant

/-!
What a step of a writer has to show.

A step of a writer changes that writer and at most one buffer, which the writer has or takes.

Owns: the rules for steps that move one buffer, that change one the writer keeps, and that change
the writer alone. Does not own: the steps.
-/

namespace Whippet.FieldSets

open Function

section Steps

variable {set after : FieldSet} {place placeAfter : ℕ → BufferPlace}
variable {address index : ℕ} {old new writer : FieldSetWriter}

/-- Changing one buffer changes its own edges alone. -/
theorem sum_update (buffers : ℕ → EdgeBuffer) (buffer : EdgeBuffer) {addresses : Finset ℕ}
    (member : address ∈ addresses) :
    ∃ rest : Multiset ℕ,
      ∑ node ∈ addresses, (buffers node).contents = (buffers address).contents + rest ∧
        ∑ node ∈ addresses, (update buffers address buffer node).contents =
          buffer.contents + rest := by
  refine ⟨∑ node ∈ addresses.erase address, (buffers node).contents, ?_, ?_⟩
  · exact (Finset.add_sum_erase addresses _ member).symm
  · rw [← Finset.add_sum_erase addresses _ member, update_self]
    congr 1
    apply Finset.sum_congr rfl
    intro _ inRest
    rw [update_of_ne (Finset.ne_of_mem_erase inRest)]

/-- The edges that a step has not touched are still there. -/
theorem FieldSet.Invariant.conserved_of_same (invariant : set.Invariant place)
    (same : ∀ node, (after.buffers node).contents = (set.buffers node).contents)
    (added : after.added = set.added) (dropped : after.dropped = set.dropped)
    (forgotten : after.forgotten = set.forgotten) :
    after.added = (∑ node ∈ set.allocated, (after.buffers node).contents) + after.dropped +
      after.forgotten := by
  rw [added, dropped, forgotten, invariant.conserved]
  congr 2
  exact Finset.sum_congr rfl fun node _ => (same node).symm

/-- A link is no edge. -/
theorem contents_relink (buffers : ℕ → EdgeBuffer) (address link node : ℕ) :
    (update buffers address { buffers address with next := link } node).contents =
      (buffers node).contents := by
  by_cases isIt : node = address
  · subst isIt
    rw [update_self]
    rfl
  · rw [update_of_ne isIt]

/-- The lists after the links of the buffers and one head have changed. -/
theorem next_relink (buffers : ℕ → EdgeBuffer) (address link node : ℕ) :
    (update buffers address { buffers address with next := link } node).next =
      update (fun node => (buffers node).next) address link node := by
  by_cases isIt : node = address
  · subst isIt
    rw [update_self, update_self]
  · rw [update_of_ne isIt, update_of_ne isIt]

theorem FieldSet.Invariant.popPartlyFull (invariant : set.Invariant place)
    (proper : set.partlyFull ≠ 0) :
    place set.partlyFull = .partlyFull ∧ set.popPartlyFull.lists.Stacked 0
      (update (fun node => (place node).loc) set.partlyFull none) := by
  have isHead : set.lists.head .partlyFull = set.partlyFull := rfl
  obtain ⟨onList, popped⟩ := invariant.stacked.pop proper isHead
  refine ⟨BufferPlace.loc_eq onList, ?_⟩
  have isFree : update (fun node => (place node).loc) set.partlyFull none set.partlyFull = none :=
    update_self _ _ _
  apply (popped.relink isFree 0).congr
  · intro list
    cases list <;> rfl
  · exact fun node _ => next_relink _ _ _ _
  · exact fun _ => rfl

theorem FieldSet.Invariant.popFull (invariant : set.Invariant place) (proper : set.full ≠ 0) :
    place set.full = .full ∧ set.popFull.lists.Stacked 0
      (update (fun node => (place node).loc) set.full none) := by
  have isHead : set.lists.head .full = set.full := rfl
  obtain ⟨onList, popped⟩ := invariant.stacked.pop proper isHead
  refine ⟨BufferPlace.loc_eq onList, ?_⟩
  have isFree : update (fun node => (place node).loc) set.full none set.full = none :=
    update_self _ _ _
  apply (popped.relink isFree 0).congr
  · intro list
    cases list <;> rfl
  · exact fun node _ => next_relink _ _ _ _
  · exact fun _ => rfl

/-- What a step of a writer that moves one buffer has to show. -/
theorem FieldSet.Invariant.moves (invariant : set.Invariant place)
    (found : set.writers[index]? = some old)
    (steps : StepsWriter set after place placeAfter index address new)
    (stacked : after.lists.Stacked 0 fun address => (placeAfter address).loc)
    (controller : after.controller = .idle)
    (roots : ∀ node, node ∈ after.roots ↔ placeAfter node = .root) (rootsOnce : after.roots.Nodup)
    (allocated : ∀ node, node ∈ after.allocated ↔ placeAfter node ≠ .unallocated)
    (proper : placeAfter 0 = .unallocated)
    (sized : (placeAfter address).Sized (after.buffers address).size)
    (loose : (placeAfter address).IsLoose → (after.buffers address).next = 0)
    (conserved : after.added =
      (∑ node ∈ after.allocated, (after.buffers node).contents) + after.dropped +
        after.forgotten) : after.Invariant placeAfter := by
  obtain ⟨writers, held⟩ := steps.writers invariant found
  refine
    { stacked := stacked
      writers := writers
      held := held
      roots := roots
      rootsOnce := rootsOnce
      allocated := allocated
      proper := proper
      sized := ?_
      loose := ?_
      controlled := fun notIdle => absurd controller notIdle
      conserved := conserved }
  · intro node
    by_cases isIt : node = address
    · rw [isIt]
      exact sized
    · rw [steps.changes.places node isIt, steps.changes.buffers node isIt]
      exact invariant.sized node
  · intro node isLoose
    by_cases isIt : node = address
    · rw [isIt] at isLoose ⊢
      exact loose isLoose
    · rw [steps.changes.places node isIt] at isLoose
      rw [steps.changes.buffers node isIt]
      exact invariant.loose node isLoose

theorem FieldSet.Invariant.allocated_of_changes (invariant : set.Invariant place)
    (changes : Changes set after place placeAfter address) (before : place address ≠ .unallocated)
    (now : placeAfter address ≠ .unallocated) (node : ℕ) :
    node ∈ set.allocated ↔ placeAfter node ≠ .unallocated := by
  rw [invariant.allocated]
  by_cases isIt : node = address
  · rw [isIt]
    exact iff_of_true before now
  · rw [changes.places node isIt]

/-- The same if the buffer is allocated and not a root, before and after. -/
theorem FieldSet.Invariant.movesKept (invariant : set.Invariant place)
    (found : set.writers[index]? = some old)
    (steps : StepsWriter set after place placeAfter index address new)
    (stacked : after.lists.Stacked 0 fun address => (placeAfter address).loc)
    (controller : after.controller = .idle) (roots : after.roots = set.roots)
    (allocated : after.allocated = set.allocated)
    (before : place address ≠ .root ∧ place address ≠ .unallocated)
    (now : placeAfter address ≠ .root ∧ placeAfter address ≠ .unallocated)
    (sized : (placeAfter address).Sized (after.buffers address).size)
    (loose : (placeAfter address).IsLoose → (after.buffers address).next = 0)
    (conserved : after.added =
      (∑ node ∈ set.allocated, (after.buffers node).contents) + after.dropped +
        after.forgotten) : after.Invariant placeAfter := by
  apply invariant.moves found steps stacked controller
  · intro node
    rw [roots, invariant.roots]
    by_cases isIt : node = address
    · rw [isIt]
      exact iff_of_false before.1 now.1
    · rw [steps.changes.places node isIt]
  · rw [roots]
    exact invariant.rootsOnce
  · rw [allocated]
    exact invariant.allocated_of_changes steps.changes before.2 now.2
  · have different : (0 : ℕ) ≠ address := by
      rintro rfl
      exact before.2 invariant.proper
    rw [steps.changes.places 0 different, invariant.proper]
  · exact sized
  · exact loose
  · rw [allocated]
    exact conserved

/-- The other writers know where their pushes and pops are, if the buffer does not become an empty
one. -/
theorem StepsWriter.of_changes (invariant : set.Invariant place)
    (changes : Changes set after place placeAfter address)
    (writers_eq : after.writers = set.writers.set index new)
    (mine : ∀ other, other ≠ index →
      (place address).heldBy ≠ some other ∧ (placeAfter address).heldBy ≠ some other)
    (notEmpty : placeAfter address ≠ .empty) (own : new.Knows after placeAfter index)
    (has : ∀ node, (placeAfter node).heldBy = some index → new.Has node (placeAfter node)) :
    StepsWriter set after place placeAfter index address new where
  changes := changes
  writers_eq := writers_eq
  mine := mine
  stages := by
    intro other writer stage different atOther isStage
    have knows := invariant.writers other writer atOther
    refine stage_frame (knows.stage stage isStage) isStage knows.call ?_ changes.places
      (mine other different).1 notEmpty
    intro node elsewhere
    rw [changes.buffers node elsewhere]
  own := own
  has := has

/-- A writer keeps what it has of the other buffers. -/
structure Keeps (old new : FieldSetWriter) (address : ℕ) : Prop where
  buf : new.buf = old.buf ∨ old.buf = 0 ∨ old.buf = address
  visiting : ∀ node position, node ≠ address → old.visiting = some (node, position) →
    ∃ other, new.visiting = some (node, other)
  moving : ∀ node, node ≠ address → old.call.moving = some node → new.call.moving = some node

/-- Only the call may let go of a buffer, of the one that the step is about. -/
theorem Keeps.of_visiting_eq (buf : new.buf = old.buf ∨ old.buf = 0 ∨ old.buf = address)
    (visiting : new.visiting = old.visiting)
    (moving : ∀ node, old.call.moving = some node → node = address) : Keeps old new address where
  buf := buf
  visiting _ position _ isVisiting := ⟨position, visiting.trans isVisiting⟩
  moving node elsewhere isMoving := absurd (moving node isMoving) elsewhere

/-- A call goes on and lets go of no buffer. -/
theorem Keeps.call (notMoving : old.call.moving = none) (call : WriterCall) (address : ℕ) :
    Keeps old { old with call := call } address := by
  refine .of_visiting_eq (.inl rfl) rfl ?_
  rw [notMoving]
  exact nofun

theorem Keeps.has (keeps : Keeps old new address) (invariant : set.Invariant place)
    (found : set.writers[index]? = some old)
    (places : ∀ node, node ≠ address → placeAfter node = place node)
    (atAddress : (placeAfter address).heldBy = some index →
      new.Has address (placeAfter address)) (node : ℕ)
    (isHeld : (placeAfter node).heldBy = some index) : new.Has node (placeAfter node) := by
  by_cases isIt : node = address
  · subst isIt
    exact atAddress isHeld
  · rw [places node isIt] at isHeld ⊢
    obtain ⟨writer, atIndex, has⟩ := invariant.held node index isHeld
    rw [found] at atIndex
    cases atIndex
    cases isPlace : place node with
    | inWriter =>
        rw [isPlace] at has
        have proper : node ≠ 0 := by
          rintro rfl
          rw [invariant.proper] at isPlace
          cases isPlace
        have isBuf : old.buf = node := has
        rcases keeps.buf with same | isZero | isAddress
        · exact same.trans isBuf
        · exact absurd (isBuf.symm.trans isZero) proper
        · exact absurd (isBuf.symm.trans isAddress) isIt
    | visiting =>
        rw [isPlace] at has
        obtain ⟨position, isVisiting⟩ := has
        exact keeps.visiting node position isIt isVisiting
    | moving =>
        rw [isPlace] at has
        exact keeps.moving node isIt has
    | unallocated =>
        rw [isPlace] at isHeld
        cases isHeld
    | root =>
        rw [isPlace] at isHeld
        cases isHeld
    | full =>
        rw [isPlace] at isHeld
        cases isHeld
    | partlyFull =>
        rw [isPlace] at isHeld
        cases isHeld
    | empty =>
        rw [isPlace] at isHeld
        cases isHeld
    | clearingPartlyFull =>
        rw [isPlace] at isHeld
        cases isHeld
    | clearingFull =>
        rw [isPlace] at isHeld
        cases isHeld

/-- What a writer visits stays so, if the step changes another buffer. -/
theorem FieldSetWriter.Knows.visiting_of_ne (knows : old.Knows set place index)
    (changes : Changes set after place placeAfter address)
    (different : place address ≠ .visiting index) (node position : ℕ)
    (isVisiting : old.visiting = some (node, position)) :
    placeAfter node = .visiting index ∧ position ≤ (after.buffers node).size := by
  obtain ⟨isHere, inside⟩ := knows.visiting node position isVisiting
  have elsewhere : node ≠ address := by
    rintro rfl
    exact different isHere
  rw [changes.places node elsewhere, changes.buffers node elsewhere]
  exact ⟨isHere, inside⟩

/-- The same for the buffer that it adds to. -/
theorem FieldSetWriter.Knows.buf_of_ne (knows : old.Knows set place index)
    (places : ∀ node, node ≠ address → placeAfter node = place node)
    (different : place address ≠ .inWriter index) (proper : old.buf ≠ 0) :
    placeAfter old.buf = .inWriter index := by
  have isHere := knows.buf proper
  have elsewhere : old.buf ≠ address := by
    intro same
    rw [same] at isHere
    exact different isHere
  rw [places old.buf elsewhere]
  exact isHere

/-- A step that changes nothing but a writer. -/
theorem FieldSet.Invariant.quiet (invariant : set.Invariant place)
    (found : set.writers[index]? = some old) (isIdle : set.controller = .idle)
    (own : new.Knows set place index) (keeps : Keeps old new 0) :
    (set.setWriter index new).Invariant place := by
  have unheld (other : ℕ) : (place 0).heldBy ≠ some other := by
    rw [invariant.proper]
    exact nofun
  have sameBuffers : (set.setWriter index new).buffers = set.buffers := rfl
  have changes : Changes set (set.setWriter index new) place place 0 := .refl sameBuffers 0
  have steps : StepsWriter set (set.setWriter index new) place place index 0 new := by
    refine .of_changes invariant changes rfl ?_ ?_ ?_ ?_
    · intro other _
      exact ⟨unheld other, unheld other⟩
    · rw [invariant.proper]
      exact nofun
    · exact own.frame changes (unheld index) own.stage
    · exact keeps.has invariant found changes.places fun isHeld => absurd isHeld (unheld index)
  exact invariant.moves found steps invariant.stacked isIdle invariant.roots invariant.rootsOnce
    invariant.allocated invariant.proper (invariant.sized 0) (invariant.loose 0)
    invariant.conserved

theorem BufferPlace.loc_of_held {here : BufferPlace} (isHeld : here.heldBy = some index) :
    here.loc = none := by
  cases here <;> first | rfl | cases isHeld

theorem BufferPlace.ne_of_held {here : BufferPlace} (isHeld : here.heldBy = some index) :
    here ≠ .root ∧ here ≠ .unallocated ∧ here ≠ .empty := by
  refine ⟨?_, ?_, ?_⟩ <;> rintro rfl <;> cases isHeld

/-- A step of a writer that moves an allocated buffer. -/
theorem FieldSet.Invariant.transfers (invariant : set.Invariant place)
    (found : set.writers[index]? = some old) (here : BufferPlace)
    (heldBefore : ∀ other, other ≠ index → (place address).heldBy ≠ some other)
    (heldNow : ∀ other, other ≠ index → here.heldBy ≠ some other)
    (before : place address ≠ .root ∧ place address ≠ .unallocated)
    (now : here ≠ .root ∧ here ≠ .unallocated ∧ here ≠ .empty)
    (buffers : ∀ node, node ≠ address → after.buffers node = set.buffers node)
    (writers_eq : after.writers = set.writers.set index new)
    (stacked : after.lists.Stacked 0 (update (fun node => (place node).loc) address here.loc))
    (controller : after.controller = .idle) (roots : after.roots = set.roots)
    (allocated : after.allocated = set.allocated)
    (own : new.Knows after (update place address here) index) (keeps : Keeps old new address)
    (has : here.heldBy = some index → new.Has address here)
    (sized : here.Sized (after.buffers address).size)
    (loose : here.IsLoose → (after.buffers address).next = 0)
    (conserved : after.added =
      (∑ node ∈ set.allocated, (after.buffers node).contents) + after.dropped +
        after.forgotten) : after.Invariant (update place address here) := by
  have isHere : update place address here address = here := update_self _ _ _
  have changes : Changes set after place (update place address here) address :=
    { buffers := buffers
      places := fun node elsewhere => update_of_ne elsewhere _ _ }
  have steps : StepsWriter set after place (update place address here) index address new := by
    refine .of_changes invariant changes writers_eq ?_ ?_ own ?_
    · intro other different
      rw [isHere]
      exact ⟨heldBefore other different, heldNow other different⟩
    · rw [isHere]
      exact now.2.2
    · apply keeps.has invariant found changes.places
      rw [isHere]
      exact has
  apply invariant.movesKept found steps _ controller roots allocated before
  · rw [isHere]
    exact ⟨now.1, now.2.1⟩
  · rw [isHere]
    exact sized
  · rw [isHere]
    exact loose
  · exact conserved
  · apply stacked.congr (fun _ => rfl) (fun _ _ => rfl)
    intro node
    by_cases isIt : node = address
    · rw [isIt, update_self, update_self]
    · rw [update_of_ne isIt, update_of_ne isIt]

/-- A step that changes nothing but a writer and a buffer that it has and keeps. -/
theorem FieldSet.Invariant.passes (invariant : set.Invariant place)
    (found : set.writers[index]? = some old) (here : BufferPlace)
    (heldBefore : (place address).heldBy = some index) (heldNow : here.heldBy = some index)
    (buffers : ∀ node, node ≠ address → after.buffers node = set.buffers node)
    (writers_eq : after.writers = set.writers.set index new)
    (heads : ∀ list, after.lists.head list = set.lists.head list)
    (controller : after.controller = .idle) (roots : after.roots = set.roots)
    (allocated : after.allocated = set.allocated)
    (own : new.Knows after (update place address here) index) (keeps : Keeps old new address)
    (has : new.Has address here) (sized : here.Sized (after.buffers address).size)
    (loose : here.IsLoose → (after.buffers address).next = 0)
    (conserved : after.added =
      (∑ node ∈ set.allocated, (after.buffers node).contents) + after.dropped +
        after.forgotten) : after.Invariant (update place address here) := by
  have onlyIts {there : BufferPlace} (isHeld : there.heldBy = some index) (other : ℕ)
      (different : other ≠ index) : there.heldBy ≠ some other := by
    rw [isHeld, Ne, Option.some.injEq]
    exact Ne.symm different
  have before := BufferPlace.ne_of_held heldBefore
  apply invariant.transfers found here (onlyIts heldBefore) (onlyIts heldNow)
    ⟨before.1, before.2.1⟩ (BufferPlace.ne_of_held heldNow) buffers writers_eq _ controller roots
    allocated own keeps (fun _ => has) sized loose conserved
  apply invariant.stacked.congr heads
  · intro node isListed
    have elsewhere : node ≠ address := by
      rintro rfl
      exact isListed (BufferPlace.loc_of_held heldBefore)
    exact congrArg EdgeBuffer.next (buffers node elsewhere)
  · intro node
    by_cases isIt : node = address
    · rw [isIt, update_self, BufferPlace.loc_of_held heldBefore, BufferPlace.loc_of_held heldNow]
    · rw [update_of_ne isIt]

/-- When the collector is at work, no writer is inside a call. -/
theorem FieldSet.Invariant.idle_of_call (invariant : set.Invariant place)
    (found : set.writers[index]? = some writer)
    (inside : writer.call ≠ .idle ∨ writer.visiting ≠ none) : set.controller = .idle := by
  by_contra atWork
  obtain ⟨isIdle, notVisiting⟩ := invariant.controlled atWork writer (List.mem_of_getElem? found)
  rcases inside with inCall | inVisit
  · exact inCall isIdle
  · exact inVisit notVisiting

end Steps

end Whippet.FieldSets
