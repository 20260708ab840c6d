import Whippet.Lospace.Runs

/-!
Minor collections of large objects.

A minor collection sweeps the nursery, which gets the objects that are allocated from quarantine.
Those that get fresh pages are not put there, so that they stay live until the next major
collection.

Owns: what the end of a minor collection does to each node. Does not own: what it marks.
-/

namespace Whippet.Lospace

open Function Tables SplayTree Outcome

variable {config : Config}

namespace LargeObjectSpace

/-- The node is on one of the lists of the quarantine. -/
def InQuarantine (space : LargeObjectSpace) (node : NodePointer) : Prop :=
  ∃ idx nodes, space.links.Chain 0 (.head idx) nodes ∧ node ∈ nodes

theorem Structured.inQuarantine {space : LargeObjectSpace} (structured : space.Structured)
    {node : NodePointer} (isDead : space.deadData? node ≠ none) : space.InQuarantine node := by
  obtain ⟨idx, isClass⟩ := Option.ne_none_iff_exists'.mp (quarantineClass_ne_none_iff.mpr isDead)
  obtain ⟨nodes, chain, -, mem_iff⟩ := structured.quarantined idx
  exact ⟨idx, nodes, chain, (mem_iff node).mpr isClass⟩

end LargeObjectSpace

namespace LospaceState

variable {state before after : LospaceState} {isMinorGc : Bool} {middle : LargeObjectSpace}

namespace Collected

/-- A live node that is marked or not swept stays live. -/
theorem isLive_of_kept {node : NodePointer}
    (collected : Collected config state after isMinorGc middle)
    (isLive : state.space.isLive node = true)
    (kept : LargeObjectSpace.SweptBy config isMinorGc
      (fun node => config.generational = true ∧ (node, true) ∈ state.allocated) state.space node →
        state.space.isMarked node = true) : after.space.isLive node = true := by
  have sameNode := collected.swept.kept node isLive kept
  have sweptLive := (LargeObjectSpace.isLive_congr sameNode).trans isLive
  exact (LargeObjectSpace.isLive_congr (collected.ticked.live node sweptLive)).trans sweptLive

/-- A live node that is swept and not marked goes into quarantine, and is still there after the tick
that may follow. -/
theorem quarantined_of_dropped {node : NodePointer}
    (collected : Collected config state after isMinorGc middle)
    (isLive : state.space.isLive node = true)
    (isSwept : LargeObjectSpace.SweptBy config isMinorGc
      (fun node => config.generational = true ∧ (node, true) ∈ state.allocated) state.space node)
    (notMarked : state.space.isMarked node = false) :
    after.space.isLive node = false ∧ after.space.InQuarantine node := by
  have isFresh := collected.swept.dropped node isLive isSwept notMarked
  have isDead := collected.ticked.fresh node trivial isFresh
  have isNode : after.space.nodes node ≠ none := by
    intro isNone
    rw [LargeObjectSpace.deadData?, isNone] at isDead
    exact isDead rfl
  exact ⟨(LargeObjectSpace.isLive_eq_false_iff isNode).mpr isDead,
    collected.structured.inQuarantine isDead⟩

/-- A node that is not live does not become so. -/
theorem notLive {node : NodePointer} (collected : Collected config state after isMinorGc middle)
    (notLive : state.space.isLive node = false) : after.space.isLive node = false := by
  apply collected.ticked.notLive
  have sameKey := collected.swept.keys node
  by_cases isNode : state.space.nodes node = none
  · rw [isNode, Option.map_none, Option.map_eq_none_iff] at sameKey
    rw [LargeObjectSpace.isLive, sameKey]
  · have isDead := (LargeObjectSpace.isLive_eq_false_iff isNode).mp notLive
    have sameAge := collected.swept.dead node isDead
    have stillDead : middle.deadData? node ≠ none := by
      rw [ne_eq, ← Option.map_eq_none_iff, sameAge, Option.map_eq_none_iff]
      exact isDead
    apply (LargeObjectSpace.isLive_eq_false_iff _).mpr stillDead
    rw [ne_eq, ← Option.map_eq_none_iff, sameKey, Option.map_eq_none_iff]
    exact isNode

end Collected

/-! ## Minor collections -/

/-- The node was allocated since the last collection, and this one has not marked it. -/
def IsNewGarbage (state : LospaceState) (node : NodePointer) : Prop :=
  node ∈ state.allocated.map Prod.fst ∧ state.space.isMarked node = false

/-- What a minor collection should do: the objects that were allocated since the last collection and
that it has not marked go into quarantine, and everything else stays as live as it was. -/
structure SweepsNewGarbage (before after : LospaceState) : Prop where
  swept : ∀ node, before.IsNewGarbage node →
    after.space.isLive node = false ∧ after.space.InQuarantine node
  kept : ∀ node, ¬before.IsNewGarbage node → after.space.isLive node = before.space.isLive node

/-- In a minor collection the new objects in the nursery are swept. -/
theorem sweptBy_minor_iff {young : NodePointer → Prop} {space : LargeObjectSpace}
    (generational : config.generational = true) (node : NodePointer) :
    LargeObjectSpace.SweptBy config true (fun node => config.generational = true ∧ young node) space
      node ↔ young node := by
  rw [LargeObjectSpace.SweptBy, if_pos ⟨generational, rfl⟩]
  exact and_iff_right generational

theorem Collected.kept_of_not_newGarbage (collected : Collected config before after true middle)
    (generational : config.generational = true) {node : NodePointer}
    (notGarbage : ¬before.IsNewGarbage node) :
    after.space.isLive node = before.space.isLive node := by
  cases isLive : before.space.isLive node with
  | false => exact collected.notLive isLive
  | true =>
      apply collected.isLive_of_kept isLive
      intro isSwept
      have isNew := (sweptBy_minor_iff generational node).mp isSwept
      by_contra notMarked
      exact notGarbage ⟨List.mem_map_of_mem isNew, Bool.eq_false_iff.mpr notMarked⟩

/-- At the end of a minor collection, exactly the new objects that came out of quarantine and are
not marked are swept. So the collection does what it should if and only if there are no others. -/
theorem minor_collection_sweeps_new_garbage {memory : ℕ → Bool}
    (generational : config.generational = true)
    (reached : (lospaceSystem config).ReachableBy
      (fun state action => action.IsServable config state) before)
    (minor : before.collecting = some true)
    (stepped : (lospaceSystem config).step before (.finishGc memory) = .next after) :
    SweepsNewGarbage before after ↔
      ∀ node reused, (node, reused) ∈ before.allocated → before.space.isMarked node = false →
        reused = true := by
  have sound := sound_of_reachable reached
  obtain ⟨isMinorGc, middle, isCollecting, collected⟩ :=
    (finishGc_spec sound memory).post_of_next stepped
  obtain rfl : isMinorGc = true := Option.some.inj (isCollecting.symm.trans minor)
  constructor
  · intro sweeps node reused isNew notMarked
    by_contra isFresh
    have notSwept : (node, true) ∉ before.allocated := by
      intro again
      have equal := List.inj_on_of_nodup_map sound.distinct isNew again rfl
      exact isFresh (Prod.mk.inj equal).2
    have staysLive : after.space.isLive node = true := by
      apply collected.isLive_of_kept (sound.live _ isNew)
      intro isSwept
      exact absurd ((sweptBy_minor_iff generational node).mp isSwept) notSwept
    have isGarbage : before.IsNewGarbage node := ⟨List.mem_map_of_mem isNew, notMarked⟩
    rw [(sweeps.swept node isGarbage).1] at staysLive
    cases staysLive
  · intro allReused
    refine ⟨?_, fun node => collected.kept_of_not_newGarbage generational⟩
    rintro node ⟨isNew, notMarked⟩
    obtain ⟨⟨node, reused⟩, member, rfl⟩ := List.mem_map.mp isNew
    obtain rfl := allReused node reused member notMarked
    apply collected.quarantined_of_dropped (sound.live _ member) _ notMarked
    exact (sweptBy_minor_iff generational node).mpr member

/-- The first page of a dead object is allocated again, and that object is not marked by a minor
collection. -/
def reusedGarbageActions : List LospaceAction := reuseActions ++ [.startGc true]

/-- An object gets fresh pages, and is not marked by a minor collection. -/
def freshGarbageActions : List LospaceAction :=
  [.alloc 0x1000 .precisely (roomyEnvironment 1 0x10000), .startGc true]

/-- The reused object goes into quarantine. -/
theorem minor_collection_sweeps_new_garbage_after_reuse :
    ∃ before after : LospaceState, before.IsNewGarbage 1 ∧
      (lospaceSystem pagedConfig).step before (.finishGc fun _ => true) = .next after ∧
      SweepsNewGarbage before after := by
  have ran : (runFromInit pagedConfig (fun _ action => action.IsRoundable pagedConfig)
      reusedGarbageActions).leadsTo (fun before => before.collecting = some true ∧
        before.allocated = [(1, true)] ∧ before.space.isMarked 1 = false ∧
        ((lospaceSystem pagedConfig).step before (.finishGc fun _ => true)).leadsTo
          fun _ => true) = true := by
    decide +kernel
  obtain ⟨before, ran, facts⟩ := Outcome.exists_next_of_leadsTo ran
  obtain ⟨minor, isNew, notMarked, finishes⟩ := of_decide_eq_true facts
  obtain ⟨after, stepped, -⟩ := Outcome.exists_next_of_leadsTo finishes
  have reached := reachable_of_runFromInit _
    (fun state action => LospaceAction.IsRoundable.isServable state action) ran
  have isGarbage : before.IsNewGarbage 1 := by
    refine ⟨?_, notMarked⟩
    rw [isNew]
    exact List.mem_singleton_self _
  refine ⟨before, after, isGarbage, stepped,
    (minor_collection_sweeps_new_garbage rfl reached minor stepped).mpr ?_⟩
  intro node reused member _
  rw [isNew] at member
  exact (Prod.mk.inj (List.mem_singleton.mp member)).2

/-- The object with the fresh pages stays live. -/
theorem minor_collection_sweeps_new_garbage_fails :
    ¬∀ (config : Config) (before after : LospaceState) (memory : ℕ → Bool),
      config.generational = true →
      (lospaceSystem config).Reachable before → before.collecting = some true →
      (lospaceSystem config).step before (.finishGc memory) = .next after →
      SweepsNewGarbage before after := by
  intro holds
  have ran : (runFromInit pagedConfig (fun _ _ => True) freshGarbageActions).leadsTo
      (fun before => (before.collecting = some true ∧
        before.allocated.map Prod.fst = [1] ∧ before.space.isMarked 1 = false) ∧
        ((lospaceSystem pagedConfig).step before (.finishGc fun _ => true)).leadsTo
          fun after => after.space.isLive 1 = true) = true := by
    decide +kernel
  obtain ⟨before, ran, facts⟩ := Outcome.exists_next_of_leadsTo ran
  obtain ⟨⟨minor, isNew, notMarked⟩, finishes⟩ := of_decide_eq_true facts
  obtain ⟨after, stepped, staysLive⟩ := Outcome.exists_next_of_leadsTo finishes
  have reached := reachable_of_runFromInit (fun _ _ => True) (fun _ _ => id) ran
  have isGarbage : before.IsNewGarbage 1 := by
    refine ⟨?_, notMarked⟩
    rw [isNew]
    exact List.mem_singleton_self _
  have sweeps := holds pagedConfig before after _ rfl reached minor stepped
  rw [(sweeps.swept 1 isGarbage).1] at staysLive
  exact absurd staysLive (by decide)

end LospaceState

end Whippet.Lospace
