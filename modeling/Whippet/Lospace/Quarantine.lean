import Whippet.Lospace.Sweeping

/-!
The ticks of the quarantine.

A tick goes through the buckets and through the list of each. It makes every node older and gives
those that are old enough back to the system, so a node that was swept a moment ago stays.

Owns: that the loops end, that they keep the structure of the space, and what they do to nodes. Does
not own: when a tick happens.
-/

namespace Whippet.Lospace

open Function Tables SplayTree Outcome

namespace LargeObjectSpace

variable {space middle result : LargeObjectSpace} {node other : NodePointer}
variable {memory : ℕ → Bool}

/-- What ticks for some of the nodes do to all of them. -/
structure Ticked (space result : LargeObjectSpace) (ticked : NodePointer → Prop) : Prop where
  live : ∀ node, space.isLive node = true → result.nodes node = space.nodes node
  notLive : ∀ node, space.isLive node = false → result.isLive node = false
  outside : ∀ node, ¬ticked node → (result.deadData? node).map LargeObjectDeadData.age =
    (space.deadData? node).map LargeObjectDeadData.age
  fresh : ∀ node, ticked node → (space.deadData? node).map LargeObjectDeadData.age = some 0 →
    result.deadData? node ≠ none
  dead : ∀ node, result.deadData? node ≠ none →
    space.deadData? node ≠ none ∧ result.keyOf node = space.keyOf node
  marked : result.marked = space.marked
  nursery : result.nursery = space.nursery
  totalPages : result.totalPages = space.totalPages
  freePages : result.freePages = space.freePages
  livePages : result.livePagesAtLastCollection = space.livePagesAtLastCollection

namespace Ticked

variable {ticked later : NodePointer → Prop}

theorem refl (space : LargeObjectSpace) (ticked : NodePointer → Prop) :
    Ticked space space ticked := by
  refine ⟨fun _ _ => rfl, fun _ notLive => notLive, fun _ _ => rfl, ?_,
    fun _ isDead => ⟨isDead, rfl⟩,
    rfl, rfl, rfl, rfl, rfl⟩
  intro node _ age isNone
  rw [isNone] at age
  cases age

theorem quarantineClass_eq (first : Ticked space result ticked)
    (isDead : result.deadData? node ≠ none) :
    result.quarantineClass node = space.quarantineClass node := by
  obtain ⟨wasDead, sameKey⟩ := first.dead node isDead
  obtain ⟨data, isData⟩ := Option.ne_none_iff_exists'.mp isDead
  obtain ⟨old, isOld⟩ := Option.ne_none_iff_exists'.mp wasDead
  rw [quarantineClass, quarantineClass, isData, isOld, sameKey]
  rfl

/-- Ticks for two sets of nodes that have none in common but old ones. -/
theorem trans (first : Ticked space middle ticked) (second : Ticked middle result later)
    (disjoint : ∀ node, ticked node →
      (space.deadData? node).map LargeObjectDeadData.age = some 0 → ¬later node) :
    Ticked space result fun node => ticked node ∨ later node := by
  refine ⟨?_, fun node notLive => second.notLive node (first.notLive node notLive), ?_, ?_, ?_,
    second.marked.trans first.marked, second.nursery.trans first.nursery,
    second.totalPages.trans first.totalPages, second.freePages.trans first.freePages,
    second.livePages.trans first.livePages⟩
  · intro node isLive
    have same := first.live node isLive
    rw [second.live node (by rw [isLive_congr same, isLive]), same]
  · intro node isOutside
    rw [second.outside node fun isLater => isOutside (.inr isLater),
      first.outside node fun isTicked => isOutside (.inl isTicked)]
  · intro node isTicked age
    by_cases isFirst : ticked node
    · have stays := first.fresh node isFirst age
      rw [ne_eq, ← Option.map_eq_none_iff, second.outside node (disjoint node isFirst age),
        Option.map_eq_none_iff]
      exact stays
    · rw [← first.outside node isFirst] at age
      exact second.fresh node (isTicked.resolve_left isFirst) age
  · intro node isDead
    obtain ⟨wasDead, sameKey⟩ := second.dead node isDead
    obtain ⟨wasDeadFirst, sameKeyFirst⟩ := first.dead node wasDead
    exact ⟨wasDeadFirst, sameKey.trans sameKeyFirst⟩

/-- Which nodes are ticked matters for those alone that are not live. -/
theorem congr (first : Ticked space result ticked)
    (same : ∀ node, space.deadData? node ≠ none → (later node ↔ ticked node)) :
    Ticked space result later := by
  refine ⟨first.live, first.notLive, ?_, ?_, first.dead, first.marked, first.nursery,
    first.totalPages, first.freePages, first.livePages⟩
  · intro node isOutside
    by_cases isDead : space.deadData? node = none
    · have staysNone : result.deadData? node = none := by
        by_contra becomesDead
        exact (first.dead node becomesDead).1 isDead
      rw [isDead, staysNone]
    · exact first.outside node fun isTicked => isOutside ((same node isDead).mpr isTicked)
  · intro node isLater age
    have isDead : space.deadData? node ≠ none := by
      intro isNone
      rw [isNone] at age
      cases age
    exact first.fresh node ((same node isDead).mp isLater) age

end Ticked

/-! ## Releasing a node -/

theorem Relinked.isLive_eq (relinked : Relinked space result) (node : NodePointer) :
    result.isLive node = space.isLive node := by
  by_cases isDead : space.deadData? node = none
  · exact isLive_congr (relinked.others node isDead)
  · have stillDead : result.deadData? node ≠ none := by
      rwa [ne_eq, relinked.deadData?_eq_none_iff]
    obtain ⟨old, isOld⟩ := Option.ne_none_iff_exists'.mp isDead
    obtain ⟨data, isData⟩ := Option.ne_none_iff_exists'.mp stillDead
    rw [isLive, isLive, exists_node_of_deadData? isOld, exists_node_of_deadData? isData]

/-- Freeing a node that is on no list, and whose links are null, leaves the links as they are. -/
theorem links_eq_of_freed (isUpdate : result.nodes = update space.nodes node none)
    (sameBuckets : result.quarantine = space.quarantine) (noNext : space.links.next node = 0)
    (noPrev : space.links.prev node = none) : result.links = space.links := by
  have sameOther : ∀ other, other ≠ node → result.deadData? other = space.deadData? other := by
    intro other different
    rw [deadData?, deadData?, isUpdate, update_of_ne different]
  have gone : result.deadData? node = none := by
    rw [deadData?, isUpdate, update_self]
  have sameNext : result.links.next = space.links.next := by
    funext other
    by_cases same : other = node
    · subst same
      rw [noNext]
      simp only [links, gone]
    · simp only [links, sameOther other same]
  have samePrev : result.links.prev = space.links.prev := by
    funext other
    by_cases same : other = node
    · subst same
      rw [noPrev]
      simp only [links, gone]
    · simp only [links, sameOther other same]
  calc result.links
      = { head := result.quarantine, next := result.links.next, prev := result.links.prev } := rfl
    _ = { head := space.quarantine, next := space.links.next, prev := space.links.prev } := by
        rw [sameBuckets, sameNext, samePrev]
    _ = space.links := rfl

/-- Giving a node back to the system. -/
theorem release_spec (structured : Structured space) {data : LargeObjectDeadData}
    (isDead : space.deadData? node = some data) (old : data.age ≠ 0) :
    (space.release memory node).Ensures LospaceFailure.IsExternal fun after =>
      Structured after ∧ Ticked space after (fun other => other = node) ∧
        ∃ link, space.links.prev node = some link ∧
          after.links = space.links.unlink 0 node link := by
  have isNode := exists_node_of_deadData? isDead
  have member := structured.mem_of_deadData? isDead
  obtain ⟨unlinked, link, removed, relinked, listed, isPrev, linksEq⟩ :=
    removeFromFreelist_spec structured.quarantined isDead
  have treed : Treed unlinked := structured.toTreed.of_sameSpans relinked.toSameSpans
  have sameMembers : unlinked.members = space.members := by
    rw [members, members, relinked.objectTree]
  have isMember : node ∈ unlinked.members := by rwa [sameMembers]
  have mapped : unlinked.Maps unlinked.objectMap (· ∈ unlinked.members) := by
    rw [relinked.objectMap, sameMembers]
    exact structured.mapped.congr (fun _ => Iff.rfl) fun node _ => by rw [relinked.keyOf_eq]
  have alone : ∀ other, other ∈ unlinked.members → BitVec.ofNat 64 (unlinked.keyOf other).addr =
      BitVec.ofNat 64 (unlinked.keyOf node).addr → other = node :=
    fun other otherMember same => treed.eq_of_ofNat_eq otherMember isMember same
  have unmaps : (unlinked.objectMapRemove memory (unlinked.keyOf node).addr).Ensures
      LospaceFailure.IsExternal fun unmapped =>
        unmapped = { unlinked with objectMap := unmapped.objectMap } ∧
          unlinked.Maps unmapped.objectMap fun other => other ≠ node ∧
              other ∈ unlinked.members := by
    apply (mapped.remove_spec isMember alone).bind
    exact fun map maps => ⟨rfl, maps⟩
  rw [release, get_eq isNode, Outcome.bind_next, removed, Outcome.bind_next, ← relinked.keyOf_eq]
  apply unmaps.bind
  rintro unmapped ⟨isUnmapped, maps⟩
  rw [isUnmapped]
  generalize unmapped.objectMap = map at maps
  have mapTreed : Treed { unlinked with objectMap := map } :=
    ⟨treed.mem_iff, treed.nonnull, treed.ordered, treed.proper⟩
  obtain ⟨tree, freed, freedTreed, mem_tree⟩ := treeRemove_spec mapTreed isMember
  have freedEq : treeRemove { unlinked with objectMap := map } (unlinked.keyOf node).addr =
      .next { unlinked with
        objectMap := map
        objectTree := tree
        nodes := update unlinked.nodes node none } := freed
  rw [freedEq]
  let after : LargeObjectSpace := { unlinked with
    objectMap := map
    objectTree := tree
    nodes := update unlinked.nodes node none }
  have keyOther : ∀ other, other ≠ node → after.keyOf other = space.keyOf other := by
    intro other different
    rw [← relinked.keyOf_eq]
    exact keyOf_update_of_ne rfl different
  have deadOther : ∀ other, other ≠ node → after.deadData? other = unlinked.deadData? other := by
    intro other different
    rw [deadData?, deadData?, show after.nodes other = _ from update_of_ne different _ _]
  have gone : after.deadData? node = none := by
    rw [deadData?, show after.nodes node = none from update_self _ _ _]
  have afterLinks : after.links = unlinked.links := by
    have sameBuckets : after.quarantine = unlinked.quarantine := rfl
    have isUpdate : after.nodes = update unlinked.nodes node none := rfl
    apply links_eq_of_freed isUpdate sameBuckets
    · rw [linksEq, BackLinkedLists.next_unlink]
      exact update_self _ _ _
    · rw [linksEq, BackLinkedLists.prev_unlink]
      exact update_self _ _ _
  have afterClass : after.quarantineClass = update space.quarantineClass node none := by
    funext other
    by_cases same : other = node
    · subst same
      rw [quarantineClass, gone, update_self]
      rfl
    · rw [update_of_ne same, ← relinked.quarantineClass_eq, quarantineClass, quarantineClass,
        deadOther other same, keyOther other same, relinked.keyOf_eq]
  have liveOther : ∀ other, other ≠ node → after.isLive other = space.isLive other := by
    intro other different
    rw [← relinked.isLive_eq]
    exact isLive_congr (update_of_ne different _ _)
  refine ⟨⟨freedTreed, ?_, ?_⟩, ⟨?_, ?_, ?_, ?_, ?_, relinked.marked, relinked.nursery,
    relinked.totalPages, relinked.freePages, relinked.livePages⟩, link, isPrev,
    afterLinks.trans linksEq⟩
  · apply maps.congr mem_tree
    rintro other ⟨different, -⟩
    exact congrArg LargeObject.addr (keyOf_update_of_ne rfl different)
  · change after.links.Listed 0 after.quarantineClass
    rw [afterLinks, afterClass]
    exact listed
  · intro other isLive
    have notDead := deadData?_eq_none_of_isLive isLive
    have different : other ≠ node := by
      rintro rfl
      rw [isDead] at notDead
      cases notDead
    rw [← relinked.others other notDead]
    exact update_of_ne different _ _
  · intro other notLive
    by_cases same : other = node
    · subst same
      change after.isLive other = false
      rw [isLive, show after.nodes other = none from update_self _ _ _]
    · exact (liveOther other same).trans notLive
  · intro other different
    rw [← relinked.ages]
    exact congrArg _ (deadOther other different)
  · rintro other rfl age
    rw [isDead, Option.map_some, Option.some.injEq] at age
    exact absurd age old
  · intro other stillDead
    have different : other ≠ node := by
      rintro rfl
      exact stillDead gone
    refine ⟨?_, keyOther other different⟩
    rw [ne_eq, ← relinked.deadData?_eq_none_iff, ← deadOther other different]
    exact stillDead

/-! ## The loops -/

/-- Making a node older. -/
theorem age_spec (structured : Structured space) {data : LargeObjectDeadData}
    (isDead : space.deadData? node = some data) (age : ℕ) :
    ∃ after, space.setDead node { data with age := age } = .next after ∧ Structured after ∧
      Ticked space after (fun other => other = node) ∧ after.links = space.links ∧
      after.quarantineClass = space.quarantineClass ∧ after.objectTree = space.objectTree ∧
      after.deadData? node = some { data with age := age } := by
  have isNode := exists_node_of_deadData? isDead
  have values := deadData?_withValue_dead isNode { data with age := age }
  have same : SameSpans space (space.withValue node (.dead { data with age := age })) :=
    sameSpans_withValue
  have sameLinks : (space.withValue node (.dead { data with age := age })).links = space.links := by
    rw [links_withValue isNode, ← next_links isDead, ← prev_links isDead, update_eq_self,
      update_eq_self]
  have isClass : space.quarantineClass node =
      some (largeObjectFreelistSizeClass (space.keyOf node).size) := by
    rw [quarantineClass, isDead]
    rfl
  have sameClass : (space.withValue node (.dead { data with age := age })).quarantineClass =
      space.quarantineClass := by
    rw [quarantineClass_withValue_dead isNode, ← isClass, update_eq_self]
  refine ⟨_, setDead_eq isDead, ?_, ⟨?_, ?_, ?_, ?_, ?_, rfl, rfl, rfl, rfl, rfl⟩, sameLinks,
    sameClass, rfl, ?_⟩
  · apply structured_of_sameSpans structured.toTreed structured.mapped same
    rw [Quarantined, sameLinks, sameClass]
    exact structured.quarantined
  · intro other isLive
    have notDead := deadData?_eq_none_of_isLive isLive
    have different : other ≠ node := by
      rintro rfl
      rw [isDead] at notDead
      cases notDead
    exact update_of_ne different _ _
  · intro other notLive
    by_cases isOther : other = node
    · subst isOther
      rw [isLive, withValue, isNode]
      simp
    · exact (isLive_congr (update_of_ne isOther _ _)).trans notLive
  · intro other different
    rw [values, update_of_ne different]
  · rintro other rfl _
    rw [values, update_self]
    rintro ⟨⟩
  · intro other stillDead
    refine ⟨?_, same.keyOf_eq other⟩
    by_cases isOther : other = node
    · subst isOther
      rw [isDead]
      rintro ⟨⟩
    · rwa [values, update_of_ne isOther] at stillDead
  · rw [values, update_self]

theorem readLink_eq {link : Link ℕ NodePointer}
    (isDead : ∀ before, link = .next before → space.deadData? before ≠ none) :
    space.readLink link = .next (space.links.read link) := by
  cases link with
  | head idx => rfl
  | next before =>
      obtain ⟨data, isData⟩ := Option.ne_none_iff_exists'.mp (isDead before rfl)
      rw [readLink, getDead_eq isData, Outcome.bind_next]
      exact congrArg Outcome.next (next_links isData).symm

theorem readLink_linkAfter {idx : ℕ} {stayed : List NodePointer}
    (inBucket : ∀ node ∈ stayed, space.quarantineClass node = some idx) :
    space.readLink (BackLinkedLists.linkAfter (.head idx) stayed) =
      .next (space.links.read (BackLinkedLists.linkAfter (.head idx) stayed)) := by
  apply readLink_eq
  intro before isLink
  rcases BackLinkedLists.linkAfter_eq (.head idx) stayed with atHead | ⟨last, member, isLast⟩
  · cases isLink.symm.trans atHead
  · obtain rfl := Link.next.inj (isLink.symm.trans isLast)
    apply quarantineClass_ne_none_iff.mp
    rw [inBucket _ member]
    rintro ⟨⟩

/-- The rest of a bucket, after the nodes that stayed. -/
theorem processBucket_spec {idx rounds : ℕ} {stayed rest : List NodePointer}
    (structured : Structured space)
    (chain : space.links.Chain 0 (.head idx) (stayed ++ rest)) (nodup : (stayed ++ rest).Nodup)
    (inBucket : ∀ node ∈ stayed ++ rest, space.quarantineClass node = some idx)
    (enough : rest.length < rounds) :
    (processBucket memory rounds (BackLinkedLists.linkAfter (.head idx) stayed) space).Ensures
      LospaceFailure.IsExternal fun after => Structured after ∧ Ticked space after (· ∈ rest) := by
  induction rest generalizing space stayed rounds with
  | nil =>
      obtain ⟨left, rfl⟩ : ∃ left, rounds = left + 1 := ⟨rounds - 1, by simp at enough; omega⟩
      have noNode : space.links.read (BackLinkedLists.linkAfter (.head idx) stayed) = 0 :=
        chain.drop
      rw [processBucket, readLink_linkAfter (fun node member => inBucket node (by simp [member])),
        noNode, Outcome.bind_next, if_pos rfl]
      exact ⟨structured, .refl space _⟩
  | cons node later inductionHypothesis =>
      obtain ⟨left, rfl⟩ : ∃ left, rounds = left + 1 := ⟨rounds - 1, by simp at enough; omega⟩
      obtain ⟨isFirst, proper, isPrev, -⟩ := chain.drop
      have notLater := (List.nodup_cons.mp (List.nodup_append.mp nodup).2.1).1
      obtain ⟨data, isDead⟩ := exists_deadData? (inBucket node (by simp))
      have notLive : space.isLive node = false := by
        rw [isLive, exists_node_of_deadData? isDead]
      obtain ⟨aged, agedEq, agedStructured, agedTick, sameLinks, sameClass, -, agedDead⟩ :=
        age_spec structured isDead ((data.age + 1) % 2 ^ 8)
      rw [processBucket, readLink_linkAfter (fun node member => inBucket node (by simp [member])),
        isFirst, Outcome.bind_next, if_neg proper]
      simp only [Outcome.check, if_pos notLive, Outcome.bind_next, getDead_eq isDead, agedEq]
      have joined : (fun other => other = node ∨ other ∈ later) = (· ∈ node :: later) := by
        funext other
        rw [List.mem_cons]
      have apart : ∀ other, other = node →
          (space.deadData? other).map LargeObjectDeadData.age = some 0 → other ∉ later := by
        rintro other rfl _
        exact notLater
      have shorter : later.length < left := by
        rw [List.length_cons] at enough
        omega
      apply Ensures.ite
      · intro _
        have regroup : stayed ++ [node] ++ later = stayed ++ node :: later := by simp
        rw [← regroup] at chain nodup inBucket
        rw [← sameLinks] at chain
        rw [← sameClass] at inBucket
        rw [← BackLinkedLists.linkAfter_append (.head idx) stayed node]
        apply (inductionHypothesis agedStructured chain nodup inBucket shorter).mono
        rintro after ⟨afterStructured, tick⟩
        rw [← joined]
        exact ⟨afterStructured, agedTick.trans tick apart⟩
      · intro isOld
        have notFresh : (data.age + 1) % 2 ^ 8 ≠ 0 := by omega
        apply (release_spec agedStructured agedDead notFresh).bind
        rintro released ⟨releasedStructured, releasedTick, link, linkPrev, linksEq⟩
        rw [sameLinks] at linkPrev linksEq
        obtain rfl := Option.some.inj (linkPrev.symm.trans isPrev)
        have releasedChain := chain.unlink nodup (by rintro _ _ ⟨⟩)
        rw [← linksEq] at releasedChain
        have releasedNodup : (stayed ++ later).Nodup :=
          nodup.sublist ((List.sublist_cons_self node later).append_left stayed)
        have releasedBucket : ∀ other ∈ stayed ++ later,
            released.quarantineClass other = some idx := by
          intro other member
          have different : other ≠ node := by
            rintro rfl
            have occurs := List.nodup_append.mp nodup
            rcases List.mem_append.mp member with inStayed | inLater
            · exact occurs.2.2 other inStayed other List.mem_cons_self rfl
            · exact notLater inLater
          have isClass : aged.quarantineClass other = some idx := by
            rw [sameClass]
            apply inBucket
            rcases List.mem_append.mp member with inStayed | inLater
            · exact List.mem_append_left _ inStayed
            · exact List.mem_append_right _ (List.mem_cons_of_mem _ inLater)
          rw [releasedTick.quarantineClass_eq _, isClass]
          rw [ne_eq, ← Option.map_eq_none_iff, releasedTick.outside other different,
            Option.map_eq_none_iff]
          apply quarantineClass_ne_none_iff.mp
          rw [isClass]
          rintro ⟨⟩
        have both : Ticked space released fun other => other = node := by
          apply (agedTick.trans releasedTick _).congr
          · intro other _
            rw [or_self]
          · rintro other rfl age
            rw [isDead, Option.map_some, Option.some.injEq] at age
            rw [age] at isOld
            exact absurd (by decide) isOld
        apply (inductionHypothesis releasedStructured releasedChain releasedNodup releasedBucket
          shorter).mono
        rintro after ⟨afterStructured, tick⟩
        rw [← joined]
        exact ⟨afterStructured, both.trans tick apart⟩

theorem processBuckets_spec (structured : Structured space) {buckets : List ℕ}
    (nodup : buckets.Nodup) :
    (processBuckets memory buckets space).Ensures LospaceFailure.IsExternal fun after =>
      Structured after ∧
        Ticked space after fun node => ∃ idx ∈ buckets, space.quarantineClass node = some idx := by
  induction buckets generalizing space with
  | nil => exact ⟨structured, .refl space _⟩
  | cons idx rest inductionHypothesis =>
      obtain ⟨notRest, nodupRest⟩ := List.nodup_cons.mp nodup
      obtain ⟨nodes, chain, nodesNodup, mem_nodes⟩ := structured.quarantined idx
      have inBucket : ∀ node ∈ nodes, space.quarantineClass node = some idx :=
        fun node member => (mem_nodes node).mp member
      have short : nodes.length < space.objectTree.numNodes + 1 := by
        apply Nat.lt_succ_of_le
        apply structured.length_le nodesNodup
        intro node member
        rw [inBucket node member]
        rintro ⟨⟩
      rw [processBuckets]
      have whole : space.links.Chain 0 (.head idx) ([] ++ nodes) := chain
      have processed :
        (processBucket memory (space.objectTree.numNodes + 1) (.head idx) space).Ensures
          LospaceFailure.IsExternal fun after => Structured after ∧
            Ticked space after (· ∈ nodes) :=
        processBucket_spec structured whole nodesNodup inBucket short
      apply processed.bind
      rintro middle ⟨middleStructured, first⟩
      apply (inductionHypothesis middleStructured nodupRest).mono
      rintro after ⟨afterStructured, second⟩
      refine ⟨afterStructured, ?_⟩
      have later : Ticked middle after fun node =>
          ∃ idx ∈ rest, space.quarantineClass node = some idx := by
        apply second.congr
        intro node isDead
        rw [first.quarantineClass_eq isDead]
      have apart : ∀ node, node ∈ nodes →
          (space.deadData? node).map LargeObjectDeadData.age = some 0 →
          ¬∃ idx ∈ rest, space.quarantineClass node = some idx := by
        rintro node member - ⟨other, inRest, isClass⟩
        obtain rfl := Option.some.inj (isClass.symm.trans (inBucket node member))
        exact notRest inRest
      apply (first.trans later apart).congr
      intro node _
      rw [List.exists_mem_cons_iff, mem_nodes]

/-- A tick. -/
theorem processQuarantine_spec (structured : Structured space) :
    (space.processQuarantine memory).Ensures LospaceFailure.IsExternal fun after =>
      Structured after ∧ Ticked space after fun _ => True := by
  apply (processBuckets_spec structured List.nodup_range).mono
  rintro after ⟨afterStructured, tick⟩
  refine ⟨afterStructured, tick.congr ?_⟩
  intro node isDead
  obtain ⟨idx, isClass⟩ := Option.ne_none_iff_exists'.mp (quarantineClass_ne_none_iff.mpr isDead)
  obtain ⟨_, _, sizeClass⟩ := Option.map_eq_some_iff.mp isClass
  rw [true_iff]
  refine ⟨idx, ?_, isClass⟩
  rw [List.mem_range, ← sizeClass]
  exact sizeClass_lt _

theorem releaseSynchronously_spec (config : Config) (structured : Structured space) :
    (space.releaseSynchronously config memory).Ensures LospaceFailure.IsExternal fun after =>
      Structured after ∧ Ticked space after fun _ => True := by
  rw [releaseSynchronously]
  apply Ensures.ite
  · exact fun _ => processQuarantine_spec structured
  · exact fun _ => ⟨structured, .refl space _⟩

end LargeObjectSpace

end Whippet.Lospace
