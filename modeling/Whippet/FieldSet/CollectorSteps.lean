import Whippet.FieldSet.WriterAccesses

/-!
The collector moves buffers from the lists to the roots, and clears them.

While it is at work no writer is inside a call or a visit, so that it pops and pushes as if it were
alone.

Owns: the steps of the collector. Does not own: runs.
-/

namespace Whippet.FieldSets

open Function

section Controls

variable {set after : FieldSet} {place placeAfter : ℕ → BufferPlace} {address : ℕ}

/-- What a step of the collector has to show. -/
theorem FieldSet.Invariant.controls (invariant : set.Invariant place) (stopped : set.IsStopped)
    (writers_eq : after.writers = set.writers)
    (held : ∀ node index, (placeAfter node).heldBy = some index → placeAfter node = place node)
    (inWriter : ∀ node index, place node = .inWriter index → placeAfter node = .inWriter index)
    (stacked : after.lists.Stacked 0 fun address => (placeAfter address).loc)
    (roots : ∀ node, node ∈ after.roots ↔ placeAfter node = .root) (rootsOnce : after.roots.Nodup)
    (allocated : ∀ node, node ∈ after.allocated ↔ placeAfter node ≠ .unallocated)
    (proper : placeAfter 0 = .unallocated)
    (sized : ∀ node, (placeAfter node).Sized (after.buffers node).size)
    (loose : ∀ node, (placeAfter node).IsLoose → (after.buffers node).next = 0)
    (conserved : after.added =
      (∑ node ∈ after.allocated, (after.buffers node).contents) + after.dropped +
        after.forgotten) : after.Invariant placeAfter where
  stacked := stacked
  writers := by
    intro index writer found
    rw [writers_eq] at found
    obtain ⟨isIdle, notVisiting⟩ := stopped writer (List.mem_of_getElem? found)
    have knows := invariant.writers index writer found
    refine ⟨fun hasBuf => inWriter _ _ (knows.buf hasBuf), ?_, ?_, ?_⟩
    · rw [notVisiting]
      rintro _ _ ⟨⟩
    · rw [isIdle]
      exact trivial
    · rw [isIdle]
      rintro _ ⟨⟩
  held := by
    intro node index isHeld
    have same := held node index isHeld
    rw [same] at isHeld ⊢
    rw [writers_eq]
    exact invariant.held node index isHeld
  roots := roots
  rootsOnce := rootsOnce
  allocated := allocated
  proper := proper
  sized := sized
  loose := loose
  controlled _ := by
    unfold FieldSet.IsStopped
    rw [writers_eq]
    exact stopped
  conserved := conserved

theorem BufferPlace.of_loc {here : BufferPlace} {list : BufferList} (isLoc : here.loc = some list) :
    here.heldBy = none ∧ here ≠ .unallocated ∧ here ≠ .root := by
  rw [BufferPlace.loc_eq isLoc]
  cases list <;> exact ⟨rfl, by rintro ⟨⟩, by rintro ⟨⟩⟩

/-- The same for a step that takes one buffer off a list. -/
theorem FieldSet.Invariant.controlsOne (invariant : set.Invariant place) (stopped : set.IsStopped)
    {list : BufferList} (onList : (place address).loc = some list) (here : BufferPlace)
    (unheld : here.heldBy = none) (allocatedHere : here ≠ .unallocated)
    (writers_eq : after.writers = set.writers) (allocated : after.allocated = set.allocated)
    (buffers : ∀ node, node ≠ address → after.buffers node = set.buffers node)
    (stacked : after.lists.Stacked 0 (update (fun node => (place node).loc) address here.loc))
    (roots : ∀ node, node ∈ after.roots ↔ update place address here node = .root)
    (rootsOnce : after.roots.Nodup) (sized : here.Sized (after.buffers address).size)
    (loose : here.IsLoose → (after.buffers address).next = 0)
    (conserved : after.added =
      (∑ node ∈ set.allocated, (after.buffers node).contents) + after.dropped +
        after.forgotten) : after.Invariant (update place address here) := by
  obtain ⟨notHeld, wasAllocated, -⟩ := BufferPlace.of_loc onList
  have isHere : update place address here address = here := update_self _ _ _
  have changes : Changes set after place (update place address here) address :=
    { buffers := buffers
      places := fun node elsewhere => update_of_ne elsewhere _ _ }
  have different : (0 : ℕ) ≠ address := by
    rintro rfl
    exact wasAllocated invariant.proper
  refine invariant.controls stopped writers_eq ?_ ?_ ?_ roots rootsOnce ?_ ?_ ?_ ?_ ?_
  · intro node index isHeld
    by_cases isIt : node = address
    · rw [isIt, isHere, unheld] at isHeld
      cases isHeld
    · exact update_of_ne isIt _ _
  · intro node index isHeld
    have elsewhere : node ≠ address := by
      rintro rfl
      rw [isHeld] at notHeld
      cases notHeld
    exact (update_of_ne elsewhere _ _).trans isHeld
  · apply stacked.congr (fun _ => rfl) (fun _ _ => rfl)
    intro node
    by_cases isIt : node = address
    · rw [isIt, update_self, update_self]
    · rw [update_of_ne isIt, update_of_ne isIt]
  · rw [allocated]
    apply invariant.allocated_of_changes changes wasAllocated
    rw [isHere]
    exact allocatedHere
  · rw [changes.places 0 different, invariant.proper]
  · intro node
    by_cases isIt : node = address
    · rw [isIt, isHere]
      exact sized
    · rw [changes.places node isIt, changes.buffers node isIt]
      exact invariant.sized node
  · intro node isLoose
    by_cases isIt : node = address
    · rw [isIt] at isLoose ⊢
      rw [isHere] at isLoose
      exact loose isLoose
    · rw [changes.places node isIt] at isLoose
      rw [changes.buffers node isIt]
      exact invariant.loose node isLoose
  · rw [allocated]
    exact conserved

/-! ## Adding roots -/

/-- A buffer that has been taken off a list is another root. -/
theorem FieldSet.Invariant.addsRoot (invariant : set.Invariant place) (stopped : set.IsStopped)
    {list : BufferList} (onList : (place address).loc = some list)
    (writers_eq : after.writers = set.writers) (allocated : after.allocated = set.allocated)
    (buffers : after.buffers =
      update set.buffers address { set.buffers address with next := 0 })
    (stacked : after.lists.Stacked 0 (update (fun node => (place node).loc) address none))
    (roots : after.roots = set.roots ++ [address]) (added : after.added = set.added)
    (dropped : after.dropped = set.dropped) (forgotten : after.forgotten = set.forgotten) :
    after.Invariant (update place address .root) := by
  obtain ⟨-, -, notRoot⟩ := BufferPlace.of_loc onList
  have isNew : address ∉ set.roots := by
    rw [invariant.roots]
    exact notRoot
  refine invariant.controlsOne stopped onList .root rfl (by rintro ⟨⟩) writers_eq allocated ?_
    stacked ?_ ?_
    ?_ ?_ (invariant.conserved_of_same ?_ added dropped forgotten)
  · intro node elsewhere
    rw [buffers, update_of_ne elsewhere]
  · intro node
    rw [roots, List.mem_append, List.mem_singleton, invariant.roots]
    by_cases isIt : node = address
    · rw [isIt, update_self]
      exact iff_of_true (.inr rfl) rfl
    · rw [update_of_ne isIt]
      exact or_iff_left isIt
  · rw [roots]
    exact invariant.rootsOnce.append (List.nodup_singleton _)
      (List.disjoint_singleton.mpr isNew)
  · rw [buffers, update_self]
    exact (invariant.sized address).le
  · intro _
    rw [buffers, update_self]
  · intro node
    rw [buffers]
    exact contents_relink _ _ _ _

/-- The collector begins or ends its work, or goes on to the next list. -/
theorem FieldSet.Invariant.setController (invariant : set.Invariant place)
    (stopped : set.IsStopped) {controller : Controller}
    (heads : ∀ list,
      ({ set with controller := controller } : FieldSet).lists.head list = set.lists.head list) :
    ({ set with controller := controller } : FieldSet).Invariant place := by
  refine invariant.controls stopped rfl (fun _ _ _ => rfl) (fun _ _ => id) ?_ invariant.roots
    invariant.rootsOnce invariant.allocated invariant.proper invariant.sized invariant.loose
    invariant.conserved
  exact invariant.stacked.congr heads (fun _ _ => rfl) (fun _ => rfl)

theorem FieldSet.Invariant.addRoots (invariant : set.Invariant place)
    (stepped : set.step .addRoots = .next after) : after.Invariant place := by
  simp only [FieldSet.step, Outcome.require_bind_eq_next] at stepped
  obtain ⟨⟨stopped, isIdle⟩, stepped⟩ := stepped
  cases stepped
  apply invariant.setController stopped
  intro list
  cases list with
  | clearingPartlyFull =>
      dsimp only [FieldSet.lists]
      rw [isIdle]
  | clearingFull =>
      dsimp only [FieldSet.lists]
      rw [isIdle]
  | full => rfl
  | partlyFull => rfl
  | empty => rfl

/-! ## Clearing -/

/-- Where a buffer is when the full and the partly full ones are to be cleared. -/
def BufferPlace.toClear : BufferPlace → BufferPlace
  | .full => .clearingFull
  | .partlyFull => .clearingPartlyFull
  | here => here

/-- What is to be cleared has been full or partly full, if nothing was to be cleared before. -/
theorem BufferPlace.toClear_loc {here : BufferPlace}
    (notClearing : here.loc ≠ some .clearingPartlyFull ∧ here.loc ≠ some .clearingFull)
    (list : BufferList) :
    here.toClear.loc = some list ↔
      match list with
      | .full | .partlyFull => False
      | .empty => here.loc = some .empty
      | .clearingPartlyFull => here.loc = some .partlyFull
      | .clearingFull => here.loc = some .full := by
  obtain ⟨notPartlyFull, notFull⟩ := notClearing
  cases here <;> cases list <;> simp_all [BufferPlace.toClear, BufferPlace.loc]

theorem BufferPlace.toClear_sized {here : BufferPlace} {size : ℕ} :
    here.toClear.Sized size ↔ here.Sized size := by
  cases here <;> exact Iff.rfl

theorem BufferPlace.toClear_isLoose {here : BufferPlace} :
    here.toClear.IsLoose ↔ here.IsLoose := by
  cases here <;> exact Iff.rfl

theorem BufferPlace.toClear_eq_root {here : BufferPlace} :
    here.toClear = .root ↔ here = .root := by
  cases here <;> simp [BufferPlace.toClear]

theorem BufferPlace.toClear_eq_unallocated {here : BufferPlace} :
    here.toClear = .unallocated ↔ here = .unallocated := by
  cases here <;> simp [BufferPlace.toClear]

theorem BufferPlace.toClear_of_held {here : BufferPlace} {index : ℕ}
    (isHeld : here.toClear.heldBy = some index) : here.toClear = here := by
  cases here <;> first | rfl | cases isHeld

/-- Nothing is on a list without a head. -/
theorem FieldSet.Invariant.loc_ne (invariant : set.Invariant place) {list : BufferList}
    (noHead : set.lists.head list = 0) (node : ℕ) : (place node).loc ≠ some list := by
  obtain ⟨nodes, chain, -, members⟩ := invariant.stacked list
  rw [chain.eq_nil_iff.mpr noHead] at members
  intro onList
  exact absurd ((members node).mpr onList) List.not_mem_nil

theorem FieldSet.Invariant.clear (invariant : set.Invariant place)
    (stepped : set.step .clear = .next after) :
    after.Invariant fun node => (place node).toClear := by
  simp only [FieldSet.step, Outcome.require_bind_eq_next] at stepped
  obtain ⟨⟨stopped, isIdle⟩, stepped⟩ := stepped
  cases stepped
  have notClearing {list : BufferList} (isClearing : list = .clearingPartlyFull ∨
      list = .clearingFull) (node : ℕ) : (place node).loc ≠ some list := by
    apply invariant.loc_ne
    rcases isClearing with rfl | rfl
    · dsimp only [FieldSet.lists]
      rw [isIdle]
    · dsimp only [FieldSet.lists]
      rw [isIdle]
  have places (node : ℕ) := BufferPlace.toClear_loc
    ⟨notClearing (.inl rfl) node, notClearing (.inr rfl) node⟩
  refine invariant.controls stopped rfl (fun node index => BufferPlace.toClear_of_held) ?_ ?_ ?_
    invariant.rootsOnce ?_ ?_ ?_ ?_ invariant.conserved
  · intro node index isHeld
    rw [isHeld]
    rfl
  · intro list
    cases list with
    | full => exact ⟨[], .nil, List.nodup_nil, fun node =>
        iff_of_false List.not_mem_nil (places node .full).mp⟩
    | partlyFull => exact ⟨[], .nil, List.nodup_nil, fun node =>
        iff_of_false List.not_mem_nil (places node .partlyFull).mp⟩
    | empty =>
        obtain ⟨nodes, chain, nodup, members⟩ := invariant.stacked .empty
        exact ⟨nodes, chain, nodup, fun node => (members node).trans (places node .empty).symm⟩
    | clearingPartlyFull =>
        obtain ⟨nodes, chain, nodup, members⟩ := invariant.stacked .partlyFull
        exact ⟨nodes, chain, nodup,
          fun node => (members node).trans (places node .clearingPartlyFull).symm⟩
    | clearingFull =>
        obtain ⟨nodes, chain, nodup, members⟩ := invariant.stacked .full
        exact ⟨nodes, chain, nodup,
          fun node => (members node).trans (places node .clearingFull).symm⟩
  · exact fun node => (invariant.roots node).trans BufferPlace.toClear_eq_root.symm
  · intro node
    exact (invariant.allocated node).trans (not_congr BufferPlace.toClear_eq_unallocated.symm)
  · exact BufferPlace.toClear_eq_unallocated.mpr invariant.proper
  · exact fun node => BufferPlace.toClear_sized.mpr (invariant.sized node)
  · exact fun node isLoose => invariant.loose node (BufferPlace.toClear_isLoose.mp isLoose)

/-- A buffer that is to be cleared becomes an empty one, and its edges are forgotten. -/
theorem FieldSet.Invariant.clearBuffer (invariant : set.Invariant place)
    (stopped : set.IsStopped) {list : BufferList} {controller : Controller} (proper : address ≠ 0)
    (isHead : set.lists.head list = address) (notEmpty : list ≠ .empty)
    (heads : ∀ other, (set.clearBuffer address controller).lists.head other =
      update (update set.lists.head list (set.lists.next address)) .empty address other) :
    (set.clearBuffer address controller).Invariant (update place address .empty) := by
  obtain ⟨onList, popped⟩ := invariant.stacked.pop proper isHead
  obtain ⟨-, wasAllocated, notRoot⟩ := BufferPlace.of_loc onList
  have member : address ∈ set.allocated := (invariant.allocated address).mpr wasAllocated
  refine invariant.controlsOne stopped onList .empty rfl (by rintro ⟨⟩) rfl rfl
    (fun node elsewhere => update_of_ne elsewhere _ _) ?_ ?_ invariant.rootsOnce ?_ (by rintro ⟨⟩)
      ?_
  · have isFree : update (fun node => (place node).loc) address none address = none :=
      update_self _ _ _
    have linked : update set.lists.next address set.empty address =
        update set.lists.head list (set.lists.next address) .empty := by
      rw [update_self, update_of_ne (Ne.symm notEmpty)]
      rfl
    apply ((popped.relink isFree set.empty).push .empty proper isFree linked).congr heads
    · intro node _
      by_cases isIt : node = address
      · subst isIt
        dsimp only [FieldSet.clearBuffer, FieldSet.setBuffer, FieldSet.lists]
        rw [update_self, update_self]
      · dsimp only [FieldSet.clearBuffer, FieldSet.setBuffer, FieldSet.lists]
        rw [update_of_ne isIt, update_of_ne isIt]
    · intro node
      rw [update_idem]
      rfl
  · intro node
    refine (invariant.roots node).trans ?_
    by_cases isIt : node = address
    · rw [isIt, update_self]
      exact iff_of_false notRoot (by rintro ⟨⟩)
    · rw [update_of_ne isIt]
  · dsimp only [FieldSet.clearBuffer, FieldSet.setBuffer]
    rw [update_self]
    rfl
  · obtain ⟨rest, before, now⟩ := sum_update set.buffers
      { set.buffers address with next := set.empty, size := 0 } member
    dsimp only [FieldSet.clearBuffer, FieldSet.setBuffer]
    rw [now, invariant.conserved, before]
    change _ = 0 + rest + set.dropped + ((set.buffers address).contents + set.forgotten)
    abel

/-! ## The steps -/

theorem FieldSet.Invariant.control (invariant : set.Invariant place)
    (atWork : set.controller ≠ .idle) :
    ∃ after placeAfter, set.control set.controller = .next after ∧ after.Invariant placeAfter := by
  have stopped := invariant.controlled atWork
  cases isController : set.controller with
  | idle => exact absurd isController atWork
  | addingRoots =>
      by_cases partlyFull : set.partlyFull = 0
      · by_cases full : set.full = 0
        · refine ⟨{ set with controller := .idle }, place, ?_, invariant.setController stopped ?_⟩
          · dsimp only [FieldSet.control]
            rw [if_neg (not_not.mpr partlyFull), if_neg (not_not.mpr full)]
          · intro list
            dsimp only [FieldSet.lists]
            rw [isController]
        · obtain ⟨isHere, popped⟩ := invariant.popFull full
          have onList : (place set.full).loc = some .full := by rw [isHere]; rfl
          refine ⟨{ set.popFull with roots := set.roots ++ [set.full] }, _, ?_,
            invariant.addsRoot stopped onList rfl rfl rfl popped rfl rfl rfl rfl⟩
          dsimp only [FieldSet.control]
          rw [if_neg (not_not.mpr partlyFull), if_pos full]
      · obtain ⟨isHere, popped⟩ := invariant.popPartlyFull partlyFull
        have onList : (place set.partlyFull).loc = some .partlyFull := by rw [isHere]; rfl
        refine ⟨{ set.popPartlyFull with roots := set.roots ++ [set.partlyFull] }, _, ?_,
          invariant.addsRoot stopped onList rfl rfl rfl popped rfl rfl rfl rfl⟩
        dsimp only [FieldSet.control]
        rw [if_pos partlyFull]
  | clearing partlyFull full =>
      have headPartlyFull : set.lists.head .clearingPartlyFull = partlyFull := by
        dsimp only [FieldSet.lists]
        rw [isController]
      have headFull : set.lists.head .clearingFull = full := by
        dsimp only [FieldSet.lists]
        rw [isController]
      by_cases noPartlyFull : partlyFull = 0
      · by_cases noFull : full = 0
        · refine ⟨{ set with controller := .idle }, place, ?_, invariant.setController stopped ?_⟩
          · dsimp only [FieldSet.control]
            rw [if_neg (not_not.mpr noPartlyFull), if_neg (not_not.mpr noFull)]
          · intro list
            cases list with
            | clearingPartlyFull => exact (headPartlyFull.trans noPartlyFull).symm
            | clearingFull => exact (headFull.trans noFull).symm
            | full => rfl
            | partlyFull => rfl
            | empty => rfl
        · refine ⟨set.clearBuffer full (.clearing partlyFull (set.buffers full).next), _, ?_,
            invariant.clearBuffer stopped noFull headFull (by rintro ⟨⟩) ?_⟩
          · dsimp only [FieldSet.control]
            rw [if_neg (not_not.mpr noPartlyFull), if_pos noFull]
          · intro list
            cases list with
            | clearingPartlyFull => exact headPartlyFull.symm
            | clearingFull => rfl
            | full => rfl
            | partlyFull => rfl
            | empty => rfl
      · refine ⟨set.clearBuffer partlyFull (.clearing (set.buffers partlyFull).next full), _, ?_,
          invariant.clearBuffer stopped noPartlyFull headPartlyFull (by rintro ⟨⟩) ?_⟩
        · dsimp only [FieldSet.control]
          rw [if_pos noPartlyFull]
        · intro list
          cases list with
          | clearingPartlyFull => rfl
          | clearingFull => exact headFull.symm
          | full => rfl
          | partlyFull => rfl
          | empty => rfl

end Controls

end Whippet.FieldSets
