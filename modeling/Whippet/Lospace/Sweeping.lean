import Whippet.Lospace.Allocation

/-!
Marking and sweeping large objects.

Owns: that marking and sweeping keep the structure of the space, and which objects a sweep takes.
Does not own: which objects a collection sweeps.
-/

namespace Whippet.Lospace

open Function Tables SplayTree Outcome

namespace LargeObjectSpace

variable {space middle result : LargeObjectSpace} {node other : NodePointer} {config : Config}
variable {holds : NodePointer → Prop}

/-! ## Marking -/

/-- The object was marked by this collection, or is old and this is a minor collection. -/
def isMarked (space : LargeObjectSpace) (node : NodePointer) : Bool :=
  match space.nodes node with
  | some { key := _, value := .live data } => decide (data.mark = space.marked)
  | _ => false

theorem isMarked_congr (same : result.nodes node = space.nodes node)
    (sameMarked : result.marked = space.marked) : result.isMarked node = space.isMarked node := by
  rw [isMarked, isMarked, same, sameMarked]

/-- Two spaces have the same nodes, and the same of them are live. -/
structure SameStatus (space result : LargeObjectSpace) : Prop where
  keys : ∀ node, result.keyOf node = space.keyOf node
  isLive : ∀ node, result.isLive node = space.isLive node
  nursery : result.nursery = space.nursery
  marked : result.marked = space.marked

theorem SameStatus.refl (space : LargeObjectSpace) : SameStatus space space :=
  ⟨fun _ => rfl, fun _ => rfl, rfl, rfl⟩

/-- Changing the live data of a live node keeps the structure. -/
theorem Structured.withValue_live {key : LargeObject} {old : LargeObjectLiveData}
    (structured : Structured space)
    (isNode : space.nodes node = some { key := key, value := .live old })
    (live : LargeObjectLiveData) :
    Structured (space.withValue node (.live live)) ∧
      SameStatus space (space.withValue node (.live live)) := by
  have notDead : space.deadData? node = none := by
    rw [deadData?, isNode]
  have sameDead : (space.withValue node (.live live)).deadData? = space.deadData? := by
    rw [deadData?_withValue_live isNode, ← notDead, update_eq_self]
  have same : SameSpans space (space.withValue node (.live live)) := sameSpans_withValue
  have sameClass : (space.withValue node (.live live)).quarantineClass = space.quarantineClass := by
    funext other
    rw [quarantineClass, quarantineClass, sameDead, same.keyOf_eq]
  constructor
  · apply structured_of_sameSpans structured.toTreed structured.mapped same
    rw [Quarantined, sameClass, links_congr sameDead rfl]
    exact structured.quarantined
  · refine ⟨same.keyOf_eq, ?_, same.nursery, same.marked⟩
    intro other
    by_cases isOther : other = node
    · subst isOther
      rw [LargeObjectSpace.isLive, LargeObjectSpace.isLive, withValue, isNode]
      simp
    · exact isLive_congr (update_of_ne isOther _ _)

theorem mark_spec (structured : Structured space) (config : Config) (ref : Word) :
    (space.mark config ref).Ensures LospaceFailure.IsExternal fun after =>
      Structured after ∧ SameStatus space after := by
  obtain ⟨node, found, spec⟩ := structured.mapped.lookup_spec ref
  rw [mark, found, Outcome.bind_next]
  apply Ensures.ite
  · exact fun _ => ⟨structured, .refl space⟩
  · intro proper
    obtain ⟨⟨key, value⟩, isNode⟩ := structured.exists_node (spec proper).1
    rw [get_eq isNode, Outcome.bind_next]
    cases value with
    | dead data => trivial
    | live data =>
        apply Ensures.ite
        · exact fun _ => ⟨structured, .refl space⟩
        · intro _
          obtain ⟨marked, same⟩ :=
            structured.withValue_live isNode { data with mark := space.marked }
          rw [← set_eq_withValue isNode] at marked same
          exact ⟨marked.congr rfl rfl rfl rfl, same.keys, same.isLive, same.nursery, same.marked⟩

/-! ## Sweeping -/

/-- What a sweep of some of the nodes does to all of them: it takes those that are live and not
marked. -/
structure Swept (space result : LargeObjectSpace) (swept : NodePointer → Prop) : Prop where
  keys : ∀ node, (result.nodes node).map LargeObjectNode.key =
    (space.nodes node).map LargeObjectNode.key
  marked : result.marked = space.marked
  kept : ∀ node, space.isLive node = true → (swept node → space.isMarked node = true) →
    result.nodes node = space.nodes node
  dropped : ∀ node, space.isLive node = true → swept node → space.isMarked node = false →
    (result.deadData? node).map LargeObjectDeadData.age = some 0
  dead : ∀ node, space.deadData? node ≠ none →
    (result.deadData? node).map LargeObjectDeadData.age =
      (space.deadData? node).map LargeObjectDeadData.age

namespace Swept

variable {swept later : NodePointer → Prop}

theorem refl (space : LargeObjectSpace) : Swept space space fun _ => False :=
  ⟨fun _ => rfl, rfl, fun _ _ _ => rfl, nofun, fun _ _ => rfl⟩

theorem trans (first : Swept space middle swept) (second : Swept middle result later) :
    Swept space result fun node => swept node ∨ later node := by
  refine ⟨fun node => (second.keys node).trans (first.keys node),
    second.marked.trans first.marked, ?_, ?_, ?_⟩
  · intro node isLive marks
    have same := first.kept node isLive fun isSwept => marks (.inl isSwept)
    rw [second.kept node (by rw [isLive_congr same, isLive]), same]
    intro isLater
    rw [isMarked_congr same first.marked]
    exact marks (.inr isLater)
  · intro node isLive isSwept notMarked
    by_cases isFirst : swept node
    · have dropped := first.dropped node isLive isFirst notMarked
      rw [second.dead node _, dropped]
      intro isNone
      rw [isNone] at dropped
      cases dropped
    · have same := first.kept node isLive fun isSwept => absurd isSwept isFirst
      apply second.dropped node (by rw [isLive_congr same, isLive]) (isSwept.resolve_left isFirst)
      rw [isMarked_congr same first.marked, notMarked]
  · intro node isDead
    have sameAge := first.dead node isDead
    rw [second.dead node _, sameAge]
    rw [ne_eq, ← Option.map_eq_none_iff, sameAge, Option.map_eq_none_iff]
    exact isDead

theorem congr (isSwept : Swept space result swept) (same : ∀ node, later node ↔ swept node) :
    Swept space result later := by
  have equal : later = swept := funext fun node => propext (same node)
  rwa [equal]

end Swept

/-- Sweeping a node. -/
theorem sweepOne_spec (structured : Structured space) {entry : Word × Word}
    (member : entry.2 ∈ space.members) :
    ∃ after, space.sweepOne entry = .next after ∧ Structured after ∧ SameSpans space after ∧
      Swept space after fun node => node = entry.2 := by
  obtain ⟨addr, node⟩ := entry
  dsimp only at member ⊢
  obtain ⟨⟨key, value⟩, isNode⟩ := structured.exists_node member
  rw [sweepOne, get_eq isNode, Outcome.bind_next]
  cases value with
  | dead data =>
      have notLive : space.isLive node = false := by
        rw [LargeObjectSpace.isLive, isNode]
      refine ⟨space, rfl, structured, .refl space, fun _ => rfl, rfl, fun _ _ _ => rfl, ?_,
        fun _ _ => rfl⟩
      rintro other isLive rfl
      rw [notLive] at isLive
      cases isLive
  | live data =>
      by_cases isMarked : data.mark = space.marked
      · refine ⟨space, if_pos isMarked, structured, .refl space, fun _ => rfl, rfl,
          fun _ _ _ => rfl, ?_, fun _ _ => rfl⟩
        rintro other _ rfl notMarked
        rw [LargeObjectSpace.isMarked, isNode] at notMarked
        exact absurd isMarked (of_decide_eq_false notMarked)
      · have notDead : space.quarantineClass node = none := by
          rw [quarantineClass, deadData?, isNode]
          rfl
        have listed : space.links.Listed 0 (update space.quarantineClass node none) := by
          rw [← notDead, update_eq_self]
          exact structured.quarantined
        obtain ⟨after, added, quarantined, relinked⟩ :=
          addToFreelist_spec listed (structured.nonnull node member) isNode
        have same : SameSpans space after := sameSpans_withValue.trans relinked.toSameSpans
        have ages := relinked.ages
        rw [deadData?_withValue_dead isNode] at ages
        refine ⟨after, (if_neg isMarked).trans added,
          structured_of_sameSpans structured.toTreed structured.mapped same quarantined, same,
          same.keys, same.marked, ?_, ?_, ?_⟩
        · intro other isLive marks
          apply relinked.nodes_eq_of_ne isNode _ (deadData?_eq_none_of_isLive isLive)
          rintro rfl
          have isTrue := marks rfl
          rw [LargeObjectSpace.isMarked, isNode] at isTrue
          exact isMarked (of_decide_eq_true isTrue)
        · rintro other _ rfl _
          rw [ages, update_self]
          rfl
        · intro other isDead
          have different : other ≠ node := by
            rintro rfl
            rw [deadData?, isNode] at isDead
            exact isDead rfl
          rw [ages, update_of_ne different]

theorem sweep_spec (structured : Structured space) (entries : List (Word × Word))
    (members : ∀ entry ∈ entries, entry.2 ∈ space.members) :
    ∃ after, sweep entries space = .next after ∧ Structured after ∧ SameSpans space after ∧
      Swept space after fun node => node ∈ entries.map Prod.snd := by
  induction entries generalizing space with
  | nil => exact ⟨space, rfl, structured, .refl space, (Swept.refl space).congr (by simp)⟩
  | cons entry rest inductionHypothesis =>
      obtain ⟨middle, sweptOne, middleStructured, middleSame, first⟩ :=
        sweepOne_spec structured (members entry List.mem_cons_self)
      have sameMembers : middle.members = space.members := by
        rw [LargeObjectSpace.members, LargeObjectSpace.members, middleSame.objectTree]
      have later : ∀ entry ∈ rest, entry.2 ∈ middle.members := by
        intro other member
        rw [sameMembers]
        exact members other (List.mem_cons_of_mem _ member)
      obtain ⟨after, sweptRest, afterStructured, afterSame, second⟩ :=
        inductionHypothesis middleStructured later
      refine ⟨after, ?_, afterStructured, middleSame.trans afterSame, ?_⟩
      · rw [sweep, sweptOne, Outcome.bind_next, sweptRest]
      · apply (first.trans second).congr
        intro node
        rw [List.map_cons, List.mem_cons]

/-- The nodes that the end of a collection sweeps; `young` are those in the nursery. -/
def SweptBy (config : Config) (isMinorGc : Bool) (young : NodePointer → Prop)
    (space : LargeObjectSpace) (node : NodePointer) : Prop :=
  if config.generational = true ∧ isMinorGc = true then young node else node ∈ space.members

theorem mem_sweptEntries {young : NodePointer → Prop} {isMinorGc : Bool}
    (structured : Structured space) (nursery : space.Maps space.nursery young) :
    node ∈ (space.sweptEntries config isMinorGc).map Prod.snd ↔
      SweptBy config isMinorGc young space node := by
  have inObjects : node ∈ (AddressMap.forEach space.objectMap).map Prod.snd ↔
      node ∈ space.members := by
    rw [List.mem_map]
    constructor
    · rintro ⟨⟨addr, other⟩, member, rfl⟩
      exact ((structured.mapped.mem_forEach addr other).mp member).1
    · exact fun member => ⟨⟨_, node⟩, (structured.mapped.mem_forEach _ node).mpr ⟨member, rfl⟩, rfl⟩
  have inNursery : node ∈ (AddressMap.forEach space.nursery).map Prod.snd ↔ young node := by
    rw [List.mem_map]
    constructor
    · rintro ⟨⟨addr, other⟩, member, rfl⟩
      exact ((nursery.mem_forEach addr other).mp member).1
    · exact fun isYoung => ⟨⟨_, node⟩, (nursery.mem_forEach _ node).mpr ⟨isYoung, rfl⟩, rfl⟩
  rw [sweptEntries, SweptBy]
  cases config.generational <;> cases isMinorGc <;> simp [inObjects, inNursery]

theorem clearNursery_eq (config : Config) (space : LargeObjectSpace) :
    space.clearNursery config = { space with nursery := (space.clearNursery config).nursery } := by
  rw [clearNursery]
  split <;> rfl

theorem maps_clearNursery {young : NodePointer → Prop} (nursery : space.Maps space.nursery young)
    (generational : ∀ node, young node → config.generational = true) :
    space.Maps (space.clearNursery config).nursery fun _ => False := by
  rw [clearNursery]
  split
  · exact nursery.clear
  · rename_i notGenerational
    apply nursery.congr _ (fun _ _ => rfl)
    intro node
    rw [false_iff]
    exact fun isYoung => notGenerational (generational node isYoung)

/-- How the pages are counted at the end of a collection: those that are not live are free. -/
structure Recounted (space result : LargeObjectSpace) : Prop where
  totalPages : result.totalPages = space.totalPages
  freePages : result.freePages = space.totalPages - space.livePagesAtLastCollection
  livePages : result.livePagesAtLastCollection = space.livePagesAtLastCollection

/-- Finishing a collection sweeps and forgets the nursery. -/
theorem finishGc_spec {young : NodePointer → Prop} (isMinorGc : Bool)
    (structured : Structured space)
    (nursery : space.Maps space.nursery young)
    (youngLive : ∀ node, young node → config.generational = true ∧ space.isLive node = true) :
    ∃ after, space.finishGc config isMinorGc = .next after ∧ Structured after ∧
      Swept space after (SweptBy config isMinorGc young space) ∧
      after.Maps after.nursery (fun _ => False) ∧ Recounted space after := by
  have members : ∀ entry ∈ space.sweptEntries config isMinorGc, entry.2 ∈ space.members := by
    intro entry member
    have isSwept := (mem_sweptEntries structured nursery).mp (List.mem_map_of_mem member)
    rw [SweptBy] at isSwept
    split at isSwept
    · obtain ⟨_, _, isNode⟩ := exists_node_of_isLive (youngLive _ isSwept).2
      rw [structured.mem_iff, isNode]
      exact nofun
    · exact isSwept
  obtain ⟨marked, sweptAll, markedStructured, same, isSwept⟩ := sweep_spec structured _ members
  have youngThere : marked.Maps marked.nursery young := by
    rw [same.nursery]
    exact nursery.congr (fun _ => Iff.rfl) fun node _ => by rw [same.keyOf_eq]
  have cleared := maps_clearNursery youngThere fun node isYoung => (youngLive node isYoung).1
  have isSweptBy := isSwept.congr fun node => (mem_sweptEntries structured nursery).symm
  rw [finishGc, sweptAll, Outcome.bind_next, clearNursery_eq]
  refine ⟨_, rfl, markedStructured.congr rfl rfl rfl rfl, ?_, ?_, ?_⟩
  · exact ⟨isSweptBy.keys, isSweptBy.marked, isSweptBy.kept, isSweptBy.dropped, isSweptBy.dead⟩
  · exact cleared.congr (fun _ => Iff.rfl) fun _ _ => rfl
  · refine ⟨same.totalPages, ?_, same.livePages⟩
    dsimp only
    rw [same.totalPages, same.livePages]

end LargeObjectSpace

end Whippet.Lospace
