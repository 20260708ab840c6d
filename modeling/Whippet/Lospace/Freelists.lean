import Whippet.Library.Contracts
import Whippet.Lospace.Space

/-!
The freelists of the large object space.

The links of the nodes in quarantine make a family of doubly linked lists, one for each size class;
adding a node and removing it are pushing and unlinking.

Owns: the freelists as lists, and what adding and removing a node does to them and to the space.
Does not own: which nodes there are.
-/

namespace Whippet.Lospace

open Function

theorem gcHistogramBucket_le (maxValueBits precision val : ℕ) :
    gcHistogramBucket maxValueBits precision val ≤ maxValueBits <<< precision := by
  rw [gcHistogramBucket]
  refine iteInduction (motive := (· ≤ maxValueBits <<< precision)) ?_ ?_
  · exact fun _ => Nat.le_refl _
  · exact fun small => Nat.le_of_not_le small

/-- There is a bucket for every size. -/
theorem sizeClass_lt (size : ℕ) :
    largeObjectFreelistSizeClass size < largeObjectFreelistNumSizeClasses :=
  Nat.lt_succ_of_le (gcHistogramBucket_le 63 2 size)

namespace LargeObjectSpace

variable {space result : LargeObjectSpace} {node other : NodePointer} {found : LargeObjectNode}
variable {data : LargeObjectDeadData} {value : LargeObjectData}

/-- The same space with another value of a node. -/
def withValue (space : LargeObjectSpace) (node : NodePointer) (value : LargeObjectData) :
    LargeObjectSpace :=
  { space with
    nodes := update space.nodes node
      ((space.nodes node).map fun found => { found with value := value }) }

/-- Two spaces differ in the values of nodes and in the buckets at most. -/
structure SameSpans (space result : LargeObjectSpace) : Prop where
  keys : ∀ node, (result.nodes node).map LargeObjectNode.key =
    (space.nodes node).map LargeObjectNode.key
  marked : result.marked = space.marked
  objectTree : result.objectTree = space.objectTree
  objectMap : result.objectMap = space.objectMap
  nursery : result.nursery = space.nursery
  totalPages : result.totalPages = space.totalPages
  freePages : result.freePages = space.freePages
  livePages : result.livePagesAtLastCollection = space.livePagesAtLastCollection

namespace SameSpans

theorem refl (space : LargeObjectSpace) : SameSpans space space :=
  ⟨fun _ => rfl, rfl, rfl, rfl, rfl, rfl, rfl, rfl⟩

theorem trans {middle : LargeObjectSpace} (first : SameSpans space middle)
    (second : SameSpans middle result) : SameSpans space result :=
  ⟨fun node => (second.keys node).trans (first.keys node), second.marked.trans first.marked,
    second.objectTree.trans first.objectTree, second.objectMap.trans first.objectMap,
    second.nursery.trans first.nursery, second.totalPages.trans first.totalPages,
    second.freePages.trans first.freePages, second.livePages.trans first.livePages⟩

theorem keyOf_eq (same : SameSpans space result) (node : NodePointer) :
    result.keyOf node = space.keyOf node := by
  have keys := same.keys node
  rw [keyOf, keyOf]
  cases old : space.nodes node <;> cases new : result.nodes node <;> simp_all

theorem nodes_eq_none_iff (same : SameSpans space result) (node : NodePointer) :
    result.nodes node = none ↔ space.nodes node = none := by
  have keys := same.keys node
  rw [← Option.map_eq_none_iff, keys, Option.map_eq_none_iff]

end SameSpans

theorem sameSpans_withValue : SameSpans space (space.withValue node value) := by
  refine ⟨?_, rfl, rfl, rfl, rfl, rfl, rfl, rfl⟩
  intro other
  rw [withValue]
  by_cases same : other = node
  · subst same
    simp only [update_self, Option.map_map]
    rfl
  · simp only [update_of_ne same]

theorem set_eq_withValue (isNode : space.nodes node = some found) :
    space.set node { found with value := value } = space.withValue node value := by
  rw [set, withValue, isNode]
  rfl

theorem exists_node_of_deadData? (isDead : space.deadData? node = some data) :
    space.nodes node = some { key := space.keyOf node, value := .dead data } := by
  rw [deadData?] at isDead
  rw [keyOf]
  cases isNode : space.nodes node with
  | none => simp [isNode] at isDead
  | some found =>
      obtain ⟨key, value⟩ := found
      cases value with
      | live live => simp [isNode] at isDead
      | dead dead =>
          simp only [isNode, Option.some.injEq] at isDead
          rw [isDead]

theorem deadData?_withValue_dead (isNode : space.nodes node = some found)
    (data : LargeObjectDeadData) :
    (space.withValue node (.dead data)).deadData? = update space.deadData? node (some data) := by
  funext other
  by_cases same : other = node
  · subst same
    rw [deadData?, withValue, isNode]
    simp
  · rw [deadData?, withValue, update_of_ne same]
    simp only [update_of_ne same]
    rfl

theorem deadData?_withValue_live (isNode : space.nodes node = some found)
    {live : LargeObjectLiveData} :
    (space.withValue node (.live live)).deadData? = update space.deadData? node none := by
  funext other
  by_cases same : other = node
  · subst same
    rw [deadData?, withValue, isNode]
    simp
  · rw [deadData?, withValue, update_of_ne same]
    simp only [update_of_ne same]
    rfl

theorem isLive_eq_false_iff (isNode : space.nodes node ≠ none) :
    space.isLive node = false ↔ space.deadData? node ≠ none := by
  rw [isLive, deadData?]
  cases known : space.nodes node with
  | none => exact absurd known isNode
  | some found =>
      obtain ⟨key, value⟩ := found
      cases value <;> simp

/-! ## Status -/

/-- The size of a node, with its mark if it is live. -/
def status (space : LargeObjectSpace) (node : NodePointer) : Option (ℕ × Option ℕ) :=
  (space.nodes node).map fun found => (found.key.size, found.value.mark?)

theorem status_eq (isNode : space.nodes node = some found) :
    space.status node = some (found.key.size, found.value.mark?) := by
  rw [status, isNode]
  rfl

theorem status_congr (same : result.nodes node = space.nodes node) :
    result.status node = space.status node := by
  rw [status, status, same]

theorem status_update {entry : Option LargeObjectNode}
    (isUpdate : result.nodes = update space.nodes node entry) :
    result.status = update space.status node
      (entry.map fun found => (found.key.size, found.value.mark?)) := by
  funext other
  by_cases same : other = node
  · subst same
    rw [status, isUpdate, update_self, update_self]
  · rw [update_of_ne same]
    apply status_congr
    rw [isUpdate, update_of_ne same]

theorem status_withValue (isNode : space.nodes node = some found) :
    (space.withValue node value).status =
      update space.status node (some (found.key.size, value.mark?)) := by
  have isUpdate : (space.withValue node value).nodes =
      update space.nodes node ((space.nodes node).map fun found => { found with value := value }) :=
    rfl
  rw [status_update isUpdate, isNode]
  rfl

/-! ## The family of lists -/

/-- The freelists as a family of lists. -/
def links (space : LargeObjectSpace) : BackLinkedLists ℕ NodePointer :=
  { head := space.quarantine
    next := fun node => match space.deadData? node with
      | some data => data.next
      | none => 0
    prev := fun node => match space.deadData? node with
      | some data => data.prev
      | none => none }

theorem links_congr (sameDead : result.deadData? = space.deadData?)
    (sameBuckets : result.quarantine = space.quarantine) : result.links = space.links := by
  rw [links, links, sameDead, sameBuckets]

/-- The bucket that a node belongs in: that of its size class if it is not live. -/
def quarantineClass (space : LargeObjectSpace) (node : NodePointer) : Option ℕ :=
  (space.deadData? node).map fun _ => largeObjectFreelistSizeClass (space.keyOf node).size

/-- The freelists have exactly the nodes that are not live, each once in the bucket of its size
class and with the right back pointer. -/
def Quarantined (space : LargeObjectSpace) : Prop :=
  space.links.Listed 0 space.quarantineClass

theorem quarantineClass_ne_none_iff :
    space.quarantineClass node ≠ none ↔ space.deadData? node ≠ none := by
  rw [quarantineClass, ne_eq, Option.map_eq_none_iff]

theorem exists_deadData? {idx : ℕ} (isQuarantined : space.quarantineClass node = some idx) :
    ∃ data, space.deadData? node = some data := by
  obtain ⟨data, isDead, -⟩ := Option.map_eq_some_iff.mp isQuarantined
  exact ⟨data, isDead⟩

theorem next_links (isDead : space.deadData? node = some data) :
    space.links.next node = data.next := by
  simp only [links, isDead]

theorem prev_links (isDead : space.deadData? node = some data) :
    space.links.prev node = data.prev := by
  simp only [links, isDead]

theorem links_withValue (isNode : space.nodes node = some found) :
    (space.withValue node (.dead data)).links =
      { space.links with
        next := update space.links.next node data.next
        prev := update space.links.prev node data.prev } := by
  have values := deadData?_withValue_dead isNode data
  rw [links, values]
  congr 1
  · funext other
    by_cases same : other = node
    · subst same
      simp
    · simp [links, same]
  · funext other
    by_cases same : other = node
    · subst same
      simp
    · simp [links, same]

/-! ## Setting links -/

/-- Two spaces differ in the links of nodes that are not live and in the buckets at most. -/
structure Relinked (space result : LargeObjectSpace) : Prop extends SameSpans space result where
  ages : ∀ node, (result.deadData? node).map LargeObjectDeadData.age =
    (space.deadData? node).map LargeObjectDeadData.age
  others : ∀ node, space.deadData? node = none → result.nodes node = space.nodes node

namespace Relinked

theorem refl (space : LargeObjectSpace) : Relinked space space :=
  ⟨.refl space, fun _ => rfl, fun _ _ => rfl⟩

theorem deadData?_eq_none_iff (relinked : Relinked space result) (node : NodePointer) :
    result.deadData? node = none ↔ space.deadData? node = none := by
  have ages := relinked.ages node
  rw [← Option.map_eq_none_iff, ages, Option.map_eq_none_iff]

theorem status_eq (relinked : Relinked space result) : result.status = space.status := by
  funext node
  cases isDead : space.deadData? node with
  | none => exact status_congr (relinked.others node isDead)
  | some data =>
      obtain ⟨other, isOther⟩ : ∃ other, result.deadData? node = some other := by
        apply Option.ne_none_iff_exists'.mp
        rw [ne_eq, relinked.deadData?_eq_none_iff, isDead]
        exact nofun
      rw [LargeObjectSpace.status_eq (exists_node_of_deadData? isDead),
        LargeObjectSpace.status_eq (exists_node_of_deadData? isOther), relinked.keyOf_eq]
      rfl

theorem trans {middle : LargeObjectSpace} (first : Relinked space middle)
    (second : Relinked middle result) : Relinked space result := by
  refine ⟨first.toSameSpans.trans second.toSameSpans, ?_, ?_⟩
  · exact fun node => (second.ages node).trans (first.ages node)
  · intro node isNone
    rw [second.others node ((first.deadData?_eq_none_iff node).mpr isNone),
      first.others node isNone]

theorem quarantineClass_eq (relinked : Relinked space result) :
    result.quarantineClass = space.quarantineClass := by
  funext node
  have same := relinked.deadData?_eq_none_iff node
  rw [quarantineClass, quarantineClass, relinked.keyOf_eq]
  cases old : space.deadData? node <;> cases new : result.deadData? node <;> simp_all

end Relinked

theorem relinked_withValue {old : LargeObjectDeadData} (isDead : space.deadData? node = some old)
    (data : LargeObjectDeadData) (sameAge : data.age = old.age) :
    Relinked space (space.withValue node (.dead data)) := by
  have isNode := exists_node_of_deadData? isDead
  refine ⟨sameSpans_withValue, ?_, ?_⟩
  · intro other
    rw [deadData?_withValue_dead isNode data]
    by_cases same : other = node
    · subst same
      rw [update_self, isDead, Option.map_some, Option.map_some, sameAge]
    · rw [update_of_ne same]
  · intro other isNone
    have different : other ≠ node := by
      rintro rfl
      rw [isDead] at isNone
      cases isNone
    exact update_of_ne different _ _

theorem get_eq (isNode : space.nodes node = some found) : space.get node = .next found := by
  rw [get, isNode]
  rfl

theorem getDead_eq (isDead : space.deadData? node = some data) :
    space.getDead node = .next data := by
  rw [getDead, isDead]
  rfl

theorem setDead_eq {old : LargeObjectDeadData} (isDead : space.deadData? node = some old) :
    space.setDead node data = .next (space.withValue node (.dead data)) := by
  have isNode := exists_node_of_deadData? isDead
  rw [setDead, get, isNode]
  exact congrArg Outcome.next (set_eq_withValue isNode)

theorem setPrev_spec (isDead : space.deadData? node ≠ none) (prev : Option (Link ℕ NodePointer)) :
    ∃ result, space.setPrev node prev = .next result ∧ Relinked space result ∧
      result.links = { space.links with prev := update space.links.prev node prev } := by
  obtain ⟨data, isData⟩ := Option.ne_none_iff_exists'.mp isDead
  have isNode := exists_node_of_deadData? isData
  refine ⟨space.withValue node (.dead { data with prev := prev }), ?_,
    relinked_withValue isData _ rfl, ?_⟩
  · rw [setPrev, getDead_eq isData, Outcome.bind_next, setDead_eq isData]
  · rw [links_withValue isNode, ← next_links isData, update_eq_self]

theorem setNext_spec (isDead : space.deadData? node ≠ none) (next : NodePointer) :
    ∃ result, space.setNext node next = .next result ∧ Relinked space result ∧
      result.links = { space.links with next := update space.links.next node next } := by
  obtain ⟨data, isData⟩ := Option.ne_none_iff_exists'.mp isDead
  have isNode := exists_node_of_deadData? isData
  refine ⟨space.withValue node (.dead { data with next := next }), ?_,
    relinked_withValue isData _ rfl, ?_⟩
  · rw [setNext, getDead_eq isData, Outcome.bind_next, setDead_eq isData]
  · rw [links_withValue isNode, ← prev_links isData, update_eq_self]

theorem writeLink_spec (space : LargeObjectSpace) (node : NodePointer) {link : Link ℕ NodePointer}
    (isDead : ∀ before, link = .next before → space.deadData? before ≠ none) :
    ∃ result, space.writeLink node link = .next result ∧ Relinked space result ∧
      result.links = space.links.write node link := by
  cases link with
  | head idx =>
      refine ⟨_, rfl, ⟨⟨fun _ => rfl, rfl, rfl, rfl, rfl, rfl, rfl, rfl⟩, ?_, ?_⟩, rfl⟩
      · exact fun _ => rfl
      · exact fun _ _ => rfl
  | next before => exact setNext_spec (isDead before rfl) node

/-- The node at a link gets to know the link, if there is one. -/
theorem linkBack_spec {target : NodePointer} (isDead : target ≠ 0 → space.deadData? target ≠ none)
    (prev : Option (Link ℕ NodePointer)) :
    ∃ result, space.linkBack target prev = .next result ∧
      Relinked space result ∧ result.links = space.links.linkBack 0 target prev := by
  by_cases noTarget : target = 0
  · refine ⟨space, if_pos noTarget, .refl space, ?_⟩
    rw [BackLinkedLists.linkBack, if_pos noTarget]
  · obtain ⟨result, resultEq, same, links⟩ := setPrev_spec (isDead noTarget) prev
    refine ⟨result, (if_neg noTarget).trans resultEq, same, ?_⟩
    rw [links, BackLinkedLists.linkBack, if_neg noTarget]

/-! ## Adding and removing -/

theorem withValue_withValue {first second : LargeObjectData} :
    (space.withValue node first).withValue node second = space.withValue node second := by
  simp only [withValue, update_self, update_idem, Option.map_map]
  rfl

theorem quarantineClass_withValue_dead (isNode : space.nodes node = some found) :
    (space.withValue node (.dead data)).quarantineClass = update space.quarantineClass node
      (some (largeObjectFreelistSizeClass (space.keyOf node).size)) := by
  have same : SameSpans space (space.withValue node (.dead data)) := sameSpans_withValue
  funext other
  rw [quarantineClass, deadData?_withValue_dead isNode, same.keyOf_eq]
  by_cases isOther : other = node
  · subst isOther
    simp
  · rw [update_of_ne isOther, update_of_ne isOther]
    rfl

/-- Pushing as the source does it: the links of the node are set one after the other. -/
theorem push_eq {lists : BackLinkedLists ℕ NodePointer} {bucket : ℕ}
    (different : lists.head bucket ≠ node) :
    let first := { lists with
      next := update lists.next node (lists.head bucket)
      prev := update lists.prev node none }
    let linked := first.linkBack 0 (lists.head bucket) (some (.next node))
    let back := { linked with prev := update linked.prev node (some (.head bucket)) }
    back.write node (.head bucket) = lists.push 0 bucket node := by
  simp only [BackLinkedLists.push, BackLinkedLists.linkBack, BackLinkedLists.write]
  split
  · rw [update_idem]
  · simp only [update_comm different, update_idem]

/-- Adding a node that is on no list puts it into quarantine. -/
theorem addToFreelist_spec (listed : space.links.Listed 0 (update space.quarantineClass node none))
    (proper : node ≠ 0) (isNode : space.nodes node = some found) :
    ∃ result, space.addToFreelist node = .next result ∧ result.Quarantined ∧
      Relinked (space.withValue node (.dead { age := 0, prev := none, next := 0 })) result := by
  have isKey : found.key = space.keyOf node := by rw [keyOf, isNode]
  let bucket := largeObjectFreelistSizeClass found.key.size
  let head := space.quarantine bucket
  let first := space.withValue node (.dead { age := 0, prev := none, next := head })
  have started : Relinked (space.withValue node (.dead { age := 0, prev := none, next := 0 }))
      first := by
    have dead := congrFun (deadData?_withValue_dead isNode { age := 0, prev := none, next := 0 })
      node
    rw [update_self] at dead
    have again := relinked_withValue dead { age := 0, prev := none, next := head } rfl
    rwa [withValue_withValue] at again
  have firstDead : first.deadData? =
      update space.deadData? node (some { age := 0, prev := none, next := head }) :=
    deadData?_withValue_dead isNode _
  have headCases : head = 0 ∨ update space.quarantineClass node none head = some bucket :=
    listed.head_cases bucket
  have headOff : head ≠ node := by
    intro same
    rcases headCases with isNull | onList
    · exact proper (same.symm.trans isNull)
    · rw [same, update_self] at onList
      cases onList
  have headDead : head ≠ 0 → first.deadData? head ≠ none := by
    intro someHead
    have onList := headCases.resolve_left someHead
    rw [update_of_ne headOff] at onList
    obtain ⟨data, isDead⟩ := exists_deadData? onList
    rw [firstDead, update_of_ne headOff, isDead]
    exact nofun
  obtain ⟨linked, linkedEq, linkedSame, linkedLinks⟩ :=
    linkBack_spec headDead (some (.next node))
  have nodeDead : linked.deadData? node ≠ none := by
    rw [ne_eq, linkedSame.deadData?_eq_none_iff, firstDead, update_self]
    exact nofun
  obtain ⟨back, backEq, backSame, backLinks⟩ := setPrev_spec nodeDead (some (.head bucket))
  obtain ⟨result, resultEq, resultSame, resultLinks⟩ :=
    writeLink_spec back node
      (fun before (isNext : Link.head bucket = .next before) => nomatch isNext)
  have same := started.trans (linkedSame.trans (backSame.trans resultSame))
  refine ⟨result, ?_, ?_, same⟩
  · simp only [addToFreelist, get_eq isNode, Outcome.bind_next, set_eq_withValue isNode]
    exact Outcome.bind_eq_next.mpr ⟨linked, linkedEq,
      Outcome.bind_eq_next.mpr ⟨back, backEq, resultEq⟩⟩
  · rw [Quarantined, resultLinks, backLinks, linkedLinks, links_withValue isNode]
    rw [same.quarantineClass_eq, quarantineClass_withValue_dead isNode, ← isKey]
    have pushed := listed.push bucket proper (update_self _ _ _)
    rw [update_idem] at pushed
    have different : space.links.head bucket ≠ node := headOff
    rw [← push_eq different] at pushed
    exact pushed

/-- Putting a node into quarantine leaves the nodes alone that are not. -/
theorem Relinked.nodes_eq_of_ne (relinked : Relinked (space.withValue node (.dead data)) result)
    (isNode : space.nodes node = some found) (different : other ≠ node)
    (notDead : space.deadData? other = none) : result.nodes other = space.nodes other := by
  have notDeadNow : (space.withValue node (.dead data)).deadData? other = none := by
    rw [deadData?_withValue_dead isNode, update_of_ne different, notDead]
  rw [relinked.others other notDeadNow]
  exact update_of_ne different _ _

/-- Removing a node from quarantine leaves it on no list. -/
theorem removeFromFreelist_spec (quarantined : space.Quarantined)
    (isDead : space.deadData? node = some data) :
    ∃ result link, space.removeFromFreelist node = .next result ∧ Relinked space result ∧
      result.links.Listed 0 (update space.quarantineClass node none) ∧
      space.links.prev node = some link ∧ result.links = space.links.unlink 0 node link := by
  have onList : space.quarantineClass node =
      some (largeObjectFreelistSizeClass (space.keyOf node).size) := by
    rw [quarantineClass, isDead]
    rfl
  have isNode := exists_node_of_deadData? isDead
  obtain ⟨link, isPrev, -, linkCases⟩ := quarantined.exists_prev onList
  have isNext := next_links isDead
  have prevEq : data.prev = some link := by rw [← prev_links isDead, isPrev]
  have nextDead : data.next ≠ 0 → space.deadData? data.next ≠ none := by
    intro someNext
    rw [← isNext] at someNext ⊢
    have nextOn := ((quarantined.next_cases onList).resolve_left someNext).1
    obtain ⟨other, isOther⟩ := exists_deadData? nextOn
    rw [isOther]
    exact nofun
  obtain ⟨back, backEq, backSame, backLinks⟩ := linkBack_spec nextDead data.prev
  have linkDead : ∀ before, link = .next before → back.deadData? before ≠ none := by
    rintro before rfl
    rcases linkCases with atHead | ⟨other, isOther, otherOn, -⟩
    · cases atHead
    · obtain rfl := Link.next.inj isOther
      obtain ⟨beforeData, isBefore⟩ := exists_deadData? otherOn
      rw [ne_eq, backSame.deadData?_eq_none_iff, isBefore]
      exact nofun
  obtain ⟨written, writtenEq, writtenSame, writtenLinks⟩ := writeLink_spec back data.next linkDead
  have toWritten := backSame.trans writtenSame
  have nodeDead : written.deadData? node ≠ none := by
    rw [ne_eq, toWritten.deadData?_eq_none_iff, isDead]
    exact nofun
  obtain ⟨unlinked, unlinkedEq, unlinkedSame, unlinkedLinks⟩ := setPrev_spec nodeDead none
  have toUnlinked := toWritten.trans unlinkedSame
  have nodeDeadAgain : unlinked.deadData? node ≠ none := by
    rw [ne_eq, toUnlinked.deadData?_eq_none_iff, isDead]
    exact nofun
  obtain ⟨result, resultEq, resultSame, resultLinks⟩ := setNext_spec nodeDeadAgain 0
  have linksEq : result.links = space.links.unlink 0 node link := by
    rw [resultLinks, unlinkedLinks, writtenLinks, backLinks, prevEq, ← isNext, ← isPrev]
    rfl
  refine ⟨result, link, ?_, toUnlinked.trans resultSame, ?_, isPrev, linksEq⟩
  · have notLive : space.isLive node = false := by
      rw [isLive_eq_false_iff (by rw [isNode]; exact nofun), isDead]
      exact nofun
    rw [prevEq] at backEq
    simp only [removeFromFreelist, Outcome.check, if_pos notLive, Outcome.bind_next,
      getDead_eq isDead, prevEq]
    exact Outcome.bind_eq_next.mpr ⟨back, backEq, Outcome.bind_eq_next.mpr ⟨written, writtenEq,
      Outcome.bind_eq_next.mpr ⟨unlinked, unlinkedEq, resultEq⟩⟩⟩
  · rw [linksEq]
    exact quarantined.unlink onList isPrev

end LargeObjectSpace

end Whippet.Lospace
