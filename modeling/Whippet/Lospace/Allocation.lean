import Whippet.Lospace.Structure

/-!
Allocation of large objects.

Owns: that the search for a hole ends, and that allocating from quarantine and from fresh pages keep
the structure of the space and leave live nodes alone. Does not own: collections.
-/

namespace Whippet.Lospace

open Function Tables SplayTree Outcome

namespace LargeObjectSpace

variable {space result : LargeObjectSpace} {node other fresh : NodePointer}
variable {found : LargeObjectNode} {key : LargeObject}

/-! ## The search -/

/-- A list without repetitions of nodes in quarantine is no longer than the tree. -/
theorem Structured.length_le (structured : Structured space) {nodes : List NodePointer}
    (nodup : nodes.Nodup) (quarantined : ∀ node ∈ nodes, space.quarantineClass node ≠ none) :
    nodes.length ≤ space.objectTree.numNodes := by
  rw [← length_inorder]
  apply (nodup.subperm _).length_le
  intro node member
  obtain ⟨idx, isClass⟩ := Option.ne_none_iff_exists'.mp (quarantined node member)
  obtain ⟨data, isDead⟩ := exists_deadData? isClass
  exact structured.mem_of_deadData? isDead

/-- The search through a bucket ends, with a node that is big enough or with none. -/
theorem findInBucket_spec (size : ℕ) {link : Link ℕ NodePointer} {nodes : List NodePointer}
    {rounds : ℕ} (chain : space.links.Chain 0 link nodes) (enough : nodes.length < rounds)
    (quarantined : ∀ node ∈ nodes, space.quarantineClass node ≠ none) :
    ∃ node, space.findInBucket size rounds (space.links.read link) = .next node ∧
      (node ≠ 0 → space.quarantineClass node ≠ none ∧ size ≤ (space.keyOf node).size) := by
  induction nodes generalizing link rounds with
  | nil =>
      obtain ⟨rest, rfl⟩ : ∃ rest, rounds = rest + 1 := ⟨rounds - 1, by simp at enough; omega⟩
      have noNode : space.links.read link = 0 := chain
      refine ⟨0, ?_, fun proper => absurd rfl proper⟩
      rw [findInBucket, noNode, if_pos rfl]
      rfl
  | cons first later inductionHypothesis =>
      obtain ⟨rest, rfl⟩ : ∃ rest, rounds = rest + 1 := ⟨rounds - 1, by simp at enough; omega⟩
      obtain ⟨reads, proper, -, tail⟩ := chain
      have isQuarantined := quarantined first List.mem_cons_self
      obtain ⟨data, isDead⟩ :=
        Option.ne_none_iff_exists'.mp (quarantineClass_ne_none_iff.mp isQuarantined)
      have isNode := exists_node_of_deadData? isDead
      rw [findInBucket, reads, if_neg proper, get_eq isNode, Outcome.bind_next]
      by_cases tooSmall : (space.keyOf first).size < size
      · have isNext : space.links.read (.next first) = data.next := next_links isDead
        simp only [tooSmall, ↓reduceIte, getDead_eq isDead, Outcome.bind_next]
        rw [← isNext]
        apply inductionHypothesis tail (by simp at enough; omega)
        exact fun node member => quarantined node (List.mem_cons_of_mem _ member)
      · simp only [tooSmall, ↓reduceIte, Outcome.pure_eq_next]
        exact ⟨first, rfl, fun _ => ⟨isQuarantined, Nat.le_of_not_lt tooSmall⟩⟩

/-- The search for a hole ends, with a node in quarantine that is big enough or with none. -/
theorem Structured.findHole_spec (structured : Structured space) (size : ℕ) (buckets : List ℕ) :
    ∃ node, space.findHole size buckets = .next node ∧
      (node ≠ 0 → space.quarantineClass node ≠ none ∧ size ≤ (space.keyOf node).size) := by
  induction buckets with
  | nil => exact ⟨0, rfl, fun proper => absurd rfl proper⟩
  | cons idx rest inductionHypothesis =>
      obtain ⟨nodes, chain, nodup, members⟩ := structured.quarantined idx
      have quarantined : ∀ node ∈ nodes, space.quarantineClass node ≠ none := by
        intro node member
        rw [(members node).mp member]
        rintro ⟨⟩
      have short := structured.length_le nodup quarantined
      obtain ⟨node, searched, spec⟩ :=
        findInBucket_spec size chain (Nat.lt_succ_of_le short) quarantined
      have ended : space.findInBucket size (space.objectTree.numNodes + 1) (space.quarantine idx) =
          .next node := searched
      rw [findHole, ended, Outcome.bind_next]
      by_cases noNode : node = 0
      · rw [if_pos noNode]
        exact inductionHypothesis
      · rw [if_neg noNode]
        exact ⟨node, rfl, spec⟩

/-! ## Liveness -/

theorem deadData?_eq_none_of_isLive (isLive : space.isLive node = true) :
    space.deadData? node = none := by
  rw [LargeObjectSpace.isLive] at isLive
  rw [deadData?]
  cases isNode : space.nodes node with
  | none => rfl
  | some found =>
      obtain ⟨key, value⟩ := found
      cases value with
      | live data => rfl
      | dead data => simp [isNode] at isLive

theorem exists_node_of_isLive (isLive : space.isLive node = true) :
    ∃ key data, space.nodes node = some { key := key, value := .live data } := by
  rw [LargeObjectSpace.isLive] at isLive
  cases isNode : space.nodes node with
  | none => simp [isNode] at isLive
  | some found =>
      obtain ⟨key, value⟩ := found
      cases value with
      | live data => exact ⟨key, data, rfl⟩
      | dead data => simp [isNode] at isLive

theorem isLive_congr (same : result.nodes node = space.nodes node) :
    result.isLive node = space.isLive node := by
  rw [isLive, isLive, same]

theorem quarantineClass_withValue_live (isNode : space.nodes node = some found)
    {live : LargeObjectLiveData} :
    (space.withValue node (.live live)).quarantineClass =
      update space.quarantineClass node none := by
  have same : SameSpans space (space.withValue node (.live live)) := sameSpans_withValue
  funext other
  rw [quarantineClass, deadData?_withValue_live isNode, same.keyOf_eq]
  by_cases isOther : other = node
  · subst isOther
    simp
  · rw [update_of_ne isOther, update_of_ne isOther]
    rfl

/-- Making a node live that is on no list. -/
theorem quarantined_withValue_live (isNode : space.nodes node = some found)
    (listed : space.links.Listed 0 (update space.quarantineClass node none))
    {live : LargeObjectLiveData} : (space.withValue node (.live live)).Quarantined := by
  rw [Quarantined, quarantineClass_withValue_live isNode]
  have notNode : ∀ other, update space.quarantineClass node none other ≠ none → other ≠ node := by
    rintro other onList rfl
    exact onList (update_self _ _ _)
  refine listed.congr (fun _ => rfl) rfl ?_ ?_
  · intro other onList
    simp only [links, deadData?_withValue_live isNode, update_of_ne (notNode other onList)]
  · intro other onList
    simp only [links, deadData?_withValue_live isNode, update_of_ne (notNode other onList)]

/-! ## Trimming -/

/-- Cutting the span of a node short. -/
theorem Treed.shrink {size : ℕ} (treed : Treed space) (isNode : space.nodes node = some found)
    (positive : 0 < size) (smaller : size ≤ found.key.size)
    (isUpdate : result.nodes = update space.nodes node
      (some { found with key := { found.key with size := size } }))
    (sameTree : result.objectTree = space.objectTree) : Treed result := by
  have members : result.members = space.members := by rw [members, members, sameTree]
  have keyNode : result.keyOf node = { found.key with size := size } :=
    keyOf_eq (by rw [isUpdate, update_self])
  have oldKey : space.keyOf node = found.key := keyOf_eq isNode
  have within : ∀ other, (result.keyOf other).addr = (space.keyOf other).addr ∧
      (result.keyOf other).size ≤ (space.keyOf other).size := by
    intro other
    by_cases same : other = node
    · subst same
      rw [keyNode, oldKey]
      exact ⟨rfl, smaller⟩
    · rw [keyOf_update_of_ne isUpdate same]
      exact ⟨rfl, Nat.le_refl _⟩
  refine ⟨?_, ?_, ?_, ?_⟩
  · intro other
    rw [members, treed.mem_iff, isUpdate]
    by_cases same : other = node
    · simp [same, isNode]
    · simp [same]
  · rw [members]
    exact treed.nonnull
  · rw [members]
    apply treed.ordered.imp
    intro first second before
    have firstWithin := within first
    have secondWithin := within second
    rw [LargeObject.Precedes] at before ⊢
    omega
  · intro other member
    rw [members] at member
    have otherWithin := within other
    have isProper := treed.proper other member
    rw [LargeObject.Proper] at isProper ⊢
    refine ⟨?_, by omega⟩
    by_cases same : other = node
    · subst same
      rw [keyNode]
      exact positive
    · rw [keyOf_update_of_ne isUpdate same]
      exact isProper.1

/-- Cutting the span of a live node short leaves the freelists. -/
theorem quarantined_shorten {size : ℕ} {data : LargeObjectLiveData}
    (quarantined : space.Quarantined)
    (isNode : space.nodes node = some { key := key, value := .live data }) :
    (space.set node { key := { key with size := size }, value := .live data }).Quarantined := by
  let short := space.set node { key := { key with size := size }, value := .live data }
  have shortNode : short.nodes node =
      some { key := { key with size := size }, value := .live data } := update_self _ _ _
  have shortDead : short.deadData? = space.deadData? := by
    funext other
    by_cases same : other = node
    · subst same
      rw [deadData?, deadData?, shortNode, isNode]
    · rw [deadData?, deadData?, show short.nodes other = _ from update_of_ne same _ _]
  have sameClass : short.quarantineClass = space.quarantineClass := by
    funext other
    rw [quarantineClass, quarantineClass, shortDead]
    by_cases same : other = node
    · subst same
      rw [deadData?, isNode]
      rfl
    · rw [show short.keyOf other = _ from keyOf_update_of_ne rfl same]
  change short.Quarantined
  rw [Quarantined, sameClass, links_congr shortDead rfl]
  exact quarantined

/-- Cutting the span of a live node short keeps the structure. -/
theorem Structured.shorten {size : ℕ} {data : LargeObjectLiveData} (structured : Structured space)
    (isNode : space.nodes node = some { key := key, value := .live data }) (positive : 0 < size)
    (smaller : size ≤ key.size) :
    Structured (space.set node { key := { key with size := size }, value := .live data }) := by
  let short := space.set node { key := { key with size := size }, value := .live data }
  have shortNode : short.nodes node =
      some { key := { key with size := size }, value := .live data } := update_self _ _ _
  have shortOther : ∀ other, other ≠ node → short.keyOf other = space.keyOf other :=
    fun other different => keyOf_update_of_ne rfl different
  change Structured short
  refine ⟨structured.shrink isNode positive smaller rfl rfl, ?_,
    quarantined_shorten structured.quarantined isNode⟩
  apply structured.mapped.congr (fun _ => Iff.rfl)
  intro other _
  by_cases same : other = node
  · subst same
    rw [keyOf_eq isNode, keyOf_eq shortNode]
  · rw [shortOther other same]

/-- A node gets a new mark and a size, and what is left over of its old size goes to a dead node. -/
def CutTo (before after : NodePointer → Option (ℕ × Option ℕ)) (node : NodePointer)
    (size mark : ℕ) : Prop :=
  ∃ old value, before node = some (old, value) ∧
    (size = old ∧ after = update before node (some (size, some mark)) ∨
      size < old ∧ ∃ tail, tail ≠ node ∧ before tail = none ∧
        after = update (update before node (some (size, some mark))) tail (some (old - size, none)))

/-- It does not matter whether the node had the mark already. -/
theorem CutTo.of_marked {before after : NodePointer → Option (ℕ × Option ℕ)} {size mark old : ℕ}
    {value : Option ℕ}
    (cut : CutTo (update before node (some (old, some mark))) after node size mark)
    (isNode : before node = some (old, value)) : CutTo before after node size mark := by
  obtain ⟨whole, _, isOld, cases⟩ := cut
  rw [update_self, Option.some.injEq, Prod.mk.injEq] at isOld
  obtain ⟨rfl, -⟩ := isOld
  refine ⟨old, value, isNode, ?_⟩
  rcases cases with ⟨same, isUpdate⟩ | ⟨smaller, tail, different, unused, isUpdate⟩
  · rw [update_idem] at isUpdate
    exact .inl ⟨same, isUpdate⟩
  · rw [update_of_ne different] at unused
    rw [update_idem] at isUpdate
    exact .inr ⟨smaller, tail, different, unused, isUpdate⟩

/-- What trimming a live node leaves. -/
structure Trimmed (space result : LargeObjectSpace) (node : NodePointer) (addr size : ℕ)
    (data : LargeObjectLiveData) : Prop extends Structured result where
  node_eq : ∃ size, result.nodes node =
    some { key := { addr := addr, size := size }, value := .live data }
  others : ∀ other, other ≠ node → space.isLive other = true →
    result.nodes other = space.nodes other
  status : CutTo space.status result.status node size data.mark
  marked : result.marked = space.marked
  nursery : result.nursery = space.nursery
  totalPages : result.totalPages = space.totalPages
  freePages : result.freePages = space.freePages
  livePages : result.livePagesAtLastCollection = space.livePagesAtLastCollection

theorem trimTail_spec {size : ℕ} {data : LargeObjectLiveData} {environment : Environment}
    (structured : Structured space)
    (isNode : space.nodes node = some { key := key, value := .live data })
    (positive : 0 < size) (bigEnough : size ≤ key.size) :
    (space.trimTail node { key := key, value := .live data } size environment).Ensures
      LospaceFailure.IsExternal fun after => Trimmed space after node key.addr size data := by
  have oldKey : space.keyOf node = key := keyOf_eq isNode
  have member : node ∈ space.members := by
    rw [structured.mem_iff, isNode]
    rintro ⟨⟩
  rw [trimTail]
  apply Ensures.ite
  · intro larger
    have short := structured.shorten isNode positive bigEnough
    let tail : LargeObject := { addr := key.addr + size, size := key.size - size }
    have oldProper := structured.proper node member
    rw [oldKey, LargeObject.Proper] at oldProper
    have tailProper : tail.Proper := by
      constructor
      · exact Nat.sub_pos_of_lt larger
      · dsimp only [tail]
        omega
    have disjoint : ∀ other ∈ members
        (space.set node { key := { key with size := size }, value := .live data }),
        tail.Precedes (keyOf
          (space.set node { key := { key with size := size }, value := .live data }) other) ∨
        (keyOf (space.set node { key := { key with size := size }, value := .live data })
          other).Precedes tail := by
      intro other isMember
      by_cases same : other = node
      · subst same
        right
        rw [keyOf_eq (update_self _ _ _)]
        exact Nat.le_refl _
      · rw [keyOf_update_of_ne rfl same]
        have apart := (structured.apart member isMember).resolve_left (Ne.symm same)
        rw [oldKey, LargeObject.Precedes, LargeObject.Precedes] at apart
        rw [LargeObject.Precedes, LargeObject.Precedes]
        dsimp only [tail]
        omega
    apply (treeInsert_spec short.toTreed tailProper disjoint).bind
    rintro ⟨tree, tailNode⟩ ⟨rfl, inserted, sameMap⟩
    dsimp only at inserted sameMap ⊢
    rw [get_eq (by rw [inserted.nodes, update_self]), Outcome.bind_next]
    apply (inserted.objectMapAdd_spec short.toTreed short.mapped sameMap).bind
    rintro mapped ⟨insertedNow, isMapped⟩
    have isTail := congrFun insertedNow.nodes environment.node
    rw [update_self] at isTail
    obtain ⟨after, added, quarantined, relinked⟩ :=
      addToFreelist_spec (insertedNow.listed short.quarantined) insertedNow.nonnull_fresh isTail
    rw [added]
    have same : SameSpans mapped after := sameSpans_withValue.trans relinked.toSameSpans
    let short := space.set node { key := { key with size := size }, value := .live data }
    have kept : ∀ other, short.isLive other = true → after.nodes other = short.nodes other := by
      intro other isLive
      have notTail : other ≠ environment.node := by
        rintro rfl
        obtain ⟨_, _, isNode⟩ := exists_node_of_isLive isLive
        exact Option.some_ne_none _ (isNode.symm.trans insertedNow.unused)
      have sameNode : mapped.nodes other = short.nodes other := by
        rw [insertedNow.nodes, update_of_ne notTail]
      rw [relinked.nodes_eq_of_ne isTail notTail, sameNode]
      rw [deadData?_eq_none_of_isLive]
      rw [isLive_congr sameNode, isLive]
    have shortLive : short.isLive node = true := by
      rw [LargeObjectSpace.isLive, show short.nodes node = _ from update_self _ _ _]
    refine ⟨structured_of_sameSpans insertedNow.toTreed isMapped same quarantined, ?_, ?_, ?_,
      same.marked.trans insertedNow.marked, same.nursery.trans insertedNow.nursery,
      same.totalPages.trans insertedNow.totalPages, same.freePages.trans insertedNow.freePages,
      same.livePages.trans insertedNow.livePages⟩
    · exact ⟨size, (kept node shortLive).trans (update_self _ _ _)⟩
    · intro other different isLive
      have sameOther : short.nodes other = space.nodes other := update_of_ne different _ _
      rw [kept other (by rw [isLive_congr sameOther, isLive]), sameOther]
    · have notNode : environment.node ≠ node := by
        intro same
        have unused := insertedNow.unused
        rw [same] at unused
        rw [LargeObjectSpace.isLive, unused] at shortLive
        cases shortLive
      have wasUnused : space.nodes environment.node = none := by
        rw [← insertedNow.unused]
        exact (update_of_ne notNode _ _).symm
      refine ⟨key.size, some data.mark, status_eq isNode,
        .inr ⟨larger, environment.node, notNode, ?_, ?_⟩⟩
      · rw [status, wasUnused, Option.map_none]
      · rw [relinked.status_eq, status_withValue isTail, status_update insertedNow.nodes,
          update_idem]
        have isCut : short.nodes = update space.nodes node (short.nodes node) := by
          rw [show short.nodes node = _ from update_self _ _ _]
          rfl
        change update short.status _ _ = _
        rw [status_update isCut, show short.nodes node = _ from update_self _ _ _]
        rfl
  · intro notLarger
    have whole : size = key.size := Nat.le_antisymm bigEnough (Nat.le_of_not_lt notLarger)
    refine ⟨structured, ⟨key.size, isNode⟩, fun _ _ _ => rfl, ?_, rfl, rfl, rfl, rfl, rfl⟩
    refine ⟨key.size, some data.mark, status_eq isNode, .inl ⟨whole, ?_⟩⟩
    rw [whole, ← show space.status node = some (key.size, some data.mark) from status_eq isNode,
      update_eq_self]

/-! ## Allocating -/

variable {config : Config} {young : NodePointer → Prop} {environment : Environment}

/-- How the pages are counted when a node gets fresh ones. -/
structure CountsFresh (config : Config) (npages : ℕ) (space result : LargeObjectSpace)
    (node : NodePointer) : Prop where
  unused : space.status node = none
  status : result.status = update space.status node
    (some (npages <<< config.pageSizeLog2, some LARGE_OBJECT_NURSERY))
  totalPages : result.totalPages = space.totalPages + BitVec.ofNat 64 npages
  freePages : result.freePages = space.freePages
  livePages : result.livePagesAtLastCollection = space.livePagesAtLastCollection

/-- How they are counted when it comes out of quarantine. -/
structure CountsReused (config : Config) (npages : ℕ) (space result : LargeObjectSpace)
    (node : NodePointer) : Prop where
  wasDead : ∃ old, space.status node = some (old, none)
  status : CutTo space.status result.status node (npages <<< config.pageSizeLog2)
    LARGE_OBJECT_NURSERY
  totalPages : result.totalPages = space.totalPages
  freePages : result.freePages = space.freePages - BitVec.ofNat 64 npages
  livePages : result.livePagesAtLastCollection = space.livePagesAtLastCollection

/-- What allocating an object leaves; `young` are the nodes in the nursery before. -/
structure Allocated (config : Config) (young : NodePointer → Prop) (npages : ℕ) (reused : Bool)
    (space result : LargeObjectSpace) (node : NodePointer) : Prop extends Structured result where
  pages : if reused = true then CountsReused config npages space result node
    else CountsFresh config npages space result node
  node_eq : ∃ key trace, result.nodes node =
    some { key := key, value := .live { mark := LARGE_OBJECT_NURSERY, trace := trace } }
  wasNotLive : space.isLive node = false
  others : ∀ other, space.isLive other = true → result.nodes other = space.nodes other
  nursery : result.Maps result.nursery fun other =>
    other = node ∧ config.generational = true ∧ reused = true ∨ young other
  marked : result.marked = space.marked

theorem remember_spec {addr : ℕ} {memory : ℕ → Bool} (treed : Treed space)
    (nursery : space.Maps space.nursery young)
    (isYoung : ∀ other, young other → other ∈ space.members)
    (member : node ∈ space.members) (atKey : (space.keyOf node).addr = addr) :
    (space.remember config node memory addr).Ensures LospaceFailure.IsExternal fun after =>
      after = { space with nursery := after.nursery } ∧ space.Maps after.nursery fun other =>
        other = node ∧ config.generational = true ∨ young other := by
  rw [remember]
  apply Ensures.ite
  · intro generational
    rw [nurseryAdd]
    apply (nursery.add_spec atKey ?_).bind
    · intro map maps
      refine ⟨rfl, maps.congr ?_ fun _ _ => rfl⟩
      intro other
      rw [generational]
      simp
    · intro other otherYoung same
      apply treed.eq_of_ofNat_eq (isYoung other otherYoung) member
      rwa [atKey]
  · intro notGenerational
    refine ⟨rfl, nursery.congr ?_ fun _ _ => rfl⟩
    intro other
    simp [notGenerational]

/-- A node that was taken out of quarantine has its range still. -/
theorem removeFromFreelist_unlinked {data : LargeObjectDeadData}
    (quarantined : space.Quarantined) (isDead : space.deadData? node = some data) :
    ∃ unlinked unlinkedData, space.removeFromFreelist node = .next unlinked ∧
      Relinked space unlinked ∧
      unlinked.links.Listed 0 (update unlinked.quarantineClass node none) ∧
      unlinked.nodes node = some { key := space.keyOf node, value := .dead unlinkedData } := by
  obtain ⟨unlinked, _, removed, relinked, listed, -⟩ := removeFromFreelist_spec quarantined isDead
  rw [← relinked.quarantineClass_eq] at listed
  have unlinkedDead : unlinked.deadData? node ≠ none := by
    rw [ne_eq, relinked.deadData?_eq_none_iff, isDead]
    rintro ⟨⟩
  obtain ⟨unlinkedData, isUnlinkedDead⟩ := Option.ne_none_iff_exists'.mp unlinkedDead
  have isUnlinked := exists_node_of_deadData? isUnlinkedDead
  rw [relinked.keyOf_eq] at isUnlinked
  exact ⟨unlinked, unlinkedData, removed, relinked, listed, isUnlinked⟩

/-- Allocating from quarantine. -/
theorem allocFromQuarantine_spec {npages size : ℕ} {trace : TraceKind}
    (structured : Structured space)
    (isQuarantined : space.quarantineClass node ≠ none) (positive : 0 < size)
    (isSize : size = npages <<< config.pageSizeLog2)
    (bigEnough : size ≤ (space.keyOf node).size) (nursery : space.Maps space.nursery young)
    (youngLive : ∀ other, young other → space.isLive other = true) :
    (space.allocFromQuarantine config node npages size trace environment).Ensures
      LospaceFailure.IsExternal fun after =>
        Allocated config young npages true space after.1 after.2 := by
  obtain ⟨data, isDead⟩ :=
    Option.ne_none_iff_exists'.mp (quarantineClass_ne_none_iff.mp isQuarantined)
  obtain ⟨unlinked, _, removed, relinked, listed, isUnlinked⟩ :=
    removeFromFreelist_unlinked structured.quarantined isDead
  have wasNotLive : space.isLive node = false := by
    apply (isLive_eq_false_iff _).mpr (quarantineClass_ne_none_iff.mp isQuarantined)
    rw [exists_node_of_deadData? isDead]
    rintro ⟨⟩
  let fresh : LargeObjectLiveData := { mark := LARGE_OBJECT_NURSERY, trace := trace }
  let live := unlinked.withValue node (.live fresh)
  have liveStructured : Structured live :=
    structured_of_sameSpans structured.toTreed structured.mapped
      (relinked.toSameSpans.trans sameSpans_withValue)
      (quarantined_withValue_live isUnlinked listed)
  have liveNode : live.nodes node = some { key := space.keyOf node, value := .live fresh } := by
    rw [show live = unlinked.withValue node (.live fresh) from rfl, withValue, isUnlinked]
    exact update_self _ _ _
  have notNode : ∀ other, space.isLive other = true → other ≠ node := by
    rintro other isLive rfl
    rw [wasNotLive] at isLive
    cases isLive
  have liveOther : ∀ other, space.isLive other = true → live.nodes other = space.nodes other := by
    intro other isLive
    rw [← relinked.others other (deadData?_eq_none_of_isLive isLive)]
    exact update_of_ne (notNode other isLive) _ _
  have isSet : unlinked.set node { key := space.keyOf node, value := .live fresh } = live :=
    set_eq_withValue isUnlinked
  rw [allocFromQuarantine, removed, Outcome.bind_next, get_eq isUnlinked, Outcome.bind_next]
  dsimp only
  rw [isSet]
  apply (trimTail_spec liveStructured liveNode positive bigEnough).bind
  intro trimmed isTrimmed
  have kept : ∀ other, space.isLive other = true → trimmed.nodes other = space.nodes other := by
    intro other isLive
    rw [isTrimmed.others other (notNode other isLive), liveOther other isLive]
    rw [isLive_congr (liveOther other isLive), isLive]
  obtain ⟨newSize, trimmedNode⟩ := isTrimmed.node_eq
  have member : node ∈ trimmed.members := by
    rw [isTrimmed.mem_iff, trimmedNode]
    rintro ⟨⟩
  have sameNursery : trimmed.nursery = space.nursery := isTrimmed.nursery.trans relinked.nursery
  have youngThere : trimmed.Maps trimmed.nursery young := by
    rw [sameNursery]
    apply nursery.congr (fun _ => Iff.rfl)
    intro other isYoung
    rw [keyOf, keyOf, kept other (youngLive other isYoung)]
  have youngMember : ∀ other, young other → other ∈ trimmed.members := by
    intro other isYoung
    obtain ⟨_, _, isNode⟩ := exists_node_of_isLive (youngLive other isYoung)
    rw [isTrimmed.mem_iff, kept other (youngLive other isYoung), isNode]
    rintro ⟨⟩
  have atKey := congrArg LargeObject.addr (keyOf_eq trimmedNode)
  apply (remember_spec isTrimmed.toTreed youngThere youngMember member atKey).bind
  rintro remembered ⟨isRemembered, maps⟩
  rw [isRemembered] at maps ⊢
  refine ⟨isTrimmed.toStructured.congr rfl rfl rfl rfl, ?_, ⟨_, _, trimmedNode⟩, wasNotLive, kept,
    ?_, isTrimmed.marked.trans relinked.marked⟩
  · have wasDead : space.status node = some ((space.keyOf node).size, none) :=
      status_eq (exists_node_of_deadData? isDead)
    have liveStatus : live.status = update space.status node
        (some ((space.keyOf node).size, some LARGE_OBJECT_NURSERY)) := by
      rw [← relinked.status_eq]
      exact status_withValue isUnlinked
    have cut := isTrimmed.status
    rw [liveStatus] at cut
    refine ⟨⟨_, wasDead⟩, ?_, isTrimmed.totalPages.trans relinked.totalPages, ?_,
      isTrimmed.livePages.trans relinked.livePages⟩
    · rw [← isSize]
      exact cut.of_marked wasDead
    · dsimp only
      rw [isTrimmed.freePages]
      exact congrArg (· - _) relinked.freePages
  · apply maps.congr _ (fun _ _ => rfl)
    simp

/-- Allocating fresh pages. -/
theorem allocFresh_spec {npages size : ℕ} {trace : TraceKind} (structured : Structured space)
    (isSize : size = npages <<< config.pageSizeLog2)
    (nursery : space.Maps space.nursery young)
    (youngLive : ∀ other, young other → space.isLive other = true) :
    (space.allocFresh npages size trace environment).Ensures LospaceFailure.IsExternal fun after =>
      Allocated config young npages false space after.1 after.2 := by
  rw [allocFresh]
  apply (Ensures.check fun _ => trivial).bind
  rintro _ ⟨positive, -⟩
  apply Ensures.require.bind
  rintro _ ⟨inRange, unmapped⟩
  have proper : LargeObject.Proper { addr := environment.address, size := size } :=
    ⟨Nat.pos_of_ne_zero positive, inRange⟩
  apply (treeInsert_spec structured.toTreed proper unmapped).bind
  rintro ⟨tree, node⟩ ⟨rfl, inserted, sameMap⟩
  apply (inserted.objectMapAdd_spec structured.toTreed structured.mapped sameMap).bind
  rintro mapped ⟨insertedNow, isMapped⟩
  have isNode := congrFun insertedNow.nodes environment.node
  rw [update_self] at isNode
  have kept : ∀ other, space.isLive other = true → mapped.nodes other = space.nodes other := by
    intro other isLive
    have different : other ≠ environment.node := by
      rintro rfl
      obtain ⟨_, _, isNode⟩ := exists_node_of_isLive isLive
      exact Option.some_ne_none _ (isNode.symm.trans insertedNow.unused)
    rw [insertedNow.nodes, update_of_ne different]
  have listed := insertedNow.listed structured.quarantined
  have notDead : mapped.quarantineClass environment.node = none := by
    rw [quarantineClass, deadData?, isNode]
    rfl
  have quarantined : mapped.Quarantined := by
    rw [← notDead, update_eq_self] at listed
    exact listed
  have mappedStructured : Structured mapped := ⟨insertedNow.toTreed, isMapped, quarantined⟩
  refine ⟨mappedStructured.congr rfl rfl rfl rfl, ?_, ⟨_, _, isNode⟩, ?_, kept, ?_,
    insertedNow.marked⟩
  · refine ⟨?_, ?_, congrArg (· + _) insertedNow.totalPages, insertedNow.freePages,
      insertedNow.livePages⟩
    · rw [status, insertedNow.unused, Option.map_none]
    · rw [← isSize]
      exact status_update insertedNow.nodes
  · rw [isLive, insertedNow.unused]
  · dsimp only
    rw [insertedNow.nursery]
    apply nursery.congr (by simp)
    intro other isYoung
    have same := kept other (youngLive other isYoung)
    rw [keyOf, keyOf, same]

/-- Allocating a number of bytes that takes a page at least, or while nothing is in quarantine. -/
theorem alloc_spec {bytes : Word} {trace : TraceKind} (structured : Structured space)
    (nursery : space.Maps space.nursery young)
    (youngLive : ∀ other, young other → space.isLive other = true)
    (positive : ∀ node, space.quarantineClass node ≠ none →
      0 < largeObjectSpaceNpages config bytes) :
    (space.alloc config bytes trace environment).Ensures LospaceFailure.IsExternal fun after =>
      Allocated config young (largeObjectSpaceNpages config bytes) after.2.2 space after.1
        after.2.1 := by
  obtain ⟨hole, searched, spec⟩ := structured.findHole_spec
    (largeObjectSpaceNpages config bytes <<< config.pageSizeLog2)
    (bucketsFrom (largeObjectSpaceNpages config bytes <<< config.pageSizeLog2))
  rw [alloc, searched, Outcome.bind_next]
  apply Ensures.ite
  · intro _
    apply (allocFresh_spec structured rfl nursery youngLive).bind
    exact fun _ allocated => allocated
  · intro someHole
    obtain ⟨isQuarantined, bigEnough⟩ := spec someHole
    have sizePositive : 0 < largeObjectSpaceNpages config bytes <<< config.pageSizeLog2 := by
      rw [Nat.shiftLeft_eq]
      exact Nat.mul_pos (positive hole isQuarantined) (Nat.two_pow_pos _)
    apply (allocFromQuarantine_spec structured isQuarantined sizePositive rfl bigEnough nursery
      youngLive).bind
    exact fun _ allocated => allocated

end LargeObjectSpace

end Whippet.Lospace
