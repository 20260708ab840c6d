import Mathlib.Algebra.BigOperators.Ring.Finset
import Whippet.Lospace.Counters

/-!
Whether the page counters agree with the nodes.

A release of quarantined memory takes nodes from the tree and leaves the counters alone. Everything
else that is done to the space counts the pages exactly.

Owns: that the counters are exact in runs in which no node is released. Does not own: what the
counters are used for.
-/

namespace Whippet.Lospace

open Function Tables SplayTree Outcome

namespace LargeObjectSpace

variable {space middle result : LargeObjectSpace} {node : NodePointer} {config : Config}
variable {counts : Option ℕ → Bool}

/-! ## Pages -/

/-- The pages of the nodes whose marks count. -/
def pagesWhere (config : Config) (space : LargeObjectSpace) (counts : Option ℕ → Bool) : ℕ :=
  ∑ node ∈ space.members.toFinset, weigh counts (space.status node) / config.pageSize

/-- The bytes of a node. -/
def bytesOf (space : LargeObjectSpace) (node : NodePointer) : ℕ :=
  weigh (fun _ => true) (space.status node)

/-- All nodes are whole pages. -/
def Whole (config : Config) (space : LargeObjectSpace) : Prop :=
  ∀ node, config.pageSize ∣ space.bytesOf node

theorem Whole.pagesWhere_mul (whole : Whole config space) (counts : Option ℕ → Bool) :
    space.pagesWhere config counts * config.pageSize = space.bytesWhere counts := by
  rw [pagesWhere, bytesWhere, totalWeight, Finset.sum_mul]
  apply Finset.sum_congr rfl
  intro node _
  apply Nat.div_mul_cancel
  have isWhole := whole node
  rw [bytesOf] at isWhole
  cases isStatus : space.status node with
  | none => exact Nat.dvd_zero _
  | some entry =>
      rw [isStatus] at isWhole
      rw [weigh]
      split
      · exact isWhole
      · exact Nat.dvd_zero _

theorem pagesWhere_eq (whole : Whole config space) (counts : Option ℕ → Bool) {pages : ℕ}
    (bytes : space.bytesWhere counts = pages * config.pageSize) :
    space.pagesWhere config counts = pages := by
  rw [← whole.pagesWhere_mul] at bytes
  exact Nat.eq_of_mul_eq_mul_right (pageSize_pos config) bytes

theorem pagesWhere_congr (whole : Whole config space) (resultWhole : Whole config result)
    {otherCounts : Option ℕ → Bool}
    (bytes : result.bytesWhere counts = space.bytesWhere otherCounts) :
    result.pagesWhere config counts = space.pagesWhere config otherCounts := by
  apply pagesWhere_eq resultWhole
  rw [bytes, whole.pagesWhere_mul]

theorem bytesOf_eq (space : LargeObjectSpace) (node : NodePointer) :
    space.bytesOf node = ((space.nodes node).map LargeObjectNode.key).elim 0 LargeObject.size :=
  weigh_all_status space node

/-- Spans in order do not take more than what there is from the first address on. -/
theorem sum_sizes_le {nodes : List NodePointer} {keyOf : NodePointer → LargeObject} {low : ℕ}
    (ordered : nodes.Pairwise fun first second => (keyOf first).Precedes (keyOf second))
    (proper : ∀ node ∈ nodes, (keyOf node).Proper) (above : ∀ node ∈ nodes, low ≤ (keyOf node).addr)
    (inRange : low ≤ 2 ^ 64) : low + (nodes.map fun node => (keyOf node).size).sum ≤ 2 ^ 64 := by
  induction nodes generalizing low with
  | nil => exact inRange
  | cons first rest inductionHypothesis =>
      rw [List.pairwise_cons] at ordered
      have firstProper := proper first List.mem_cons_self
      have firstAbove := above first List.mem_cons_self
      rw [LargeObject.Proper] at firstProper
      have restLe := inductionHypothesis ordered.2
        (fun node member => proper node (List.mem_cons_of_mem _ member))
        (fun node member => ordered.1 node member) firstProper.2
      rw [List.map_cons, List.sum_cons]
      omega

/-- The nodes fit in the address space. -/
theorem Treed.bytesWhere_le (treed : Treed space) : space.bytesWhere (fun _ => true) ≤ 2 ^ 64 := by
  have sizes := sum_sizes_le treed.ordered treed.proper (fun _ _ => Nat.zero_le _) (Nat.zero_le _)
  have isSum : space.bytesWhere (fun _ => true) =
      (space.members.map fun node => (space.keyOf node).size).sum := by
    rw [bytesWhere, totalWeight, List.sum_toFinset _ treed.nodup]
    congr 1
    apply List.map_congr_left
    intro node member
    obtain ⟨found, isNode⟩ := Option.ne_none_iff_exists'.mp ((treed.mem_iff node).mp member)
    rw [weigh_all_status, isNode, keyOf_eq isNode]
    rfl
  rw [isSum]
  omega

/-- Sums over what two spaces have of each node. -/
theorem bytesWhere_add {otherCounts : Option ℕ → Bool} (treed : Treed space)
    (resultTreed : Treed result)
    (parts : ∀ node, weigh counts (result.status node) + weigh otherCounts (space.status node) =
      space.bytesOf node) :
    result.bytesWhere counts + space.bytesWhere otherCounts = space.bytesWhere fun _ => true := by
  have contains : result.members.toFinset ⊆ space.members.toFinset ∪ result.members.toFinset :=
    Finset.subset_union_right
  rw [resultTreed.bytesWhere_eq contains, treed.bytesWhere_eq Finset.subset_union_left,
    treed.bytesWhere_eq Finset.subset_union_left, totalWeight, totalWeight, totalWeight,
    ← Finset.sum_add_distrib]
  exact Finset.sum_congr rfl fun node _ => parts node

/-! ## What the counters say -/

/-- Nodes are whole pages, and `total_pages` is their number. -/
structure Accounted (config : Config) (space : LargeObjectSpace) : Prop where
  whole : Whole config space
  total : space.totalPages = BitVec.ofNat 64 (space.pagesWhere config fun _ => true)

theorem Accounted.congr (accounted : Accounted config space) (treed : Treed space)
    (resultTreed : Treed result) (sameBytes : ∀ node, result.bytesOf node = space.bytesOf node)
    (sameTotal : result.totalPages = space.totalPages) : Accounted config result := by
  have whole : Whole config result := by
    intro node
    rw [sameBytes]
    exact accounted.whole node
  refine ⟨whole, ?_⟩
  rw [sameTotal, accounted.total]
  congr 1
  exact (pagesWhere_congr accounted.whole whole (bytesWhere_congr treed resultTreed sameBytes)).symm

theorem CountsFresh.accounted {npages : ℕ} (fresh : CountsFresh config npages space result node)
    (accounted : Accounted config space) (treed : Treed space) (resultTreed : Treed result) :
    Accounted config result := by
  have whole : Whole config result := by
    intro other
    rw [bytesOf, fresh.status, size_eq]
    by_cases same : other = node
    · subst same
      rw [update_self]
      exact Nat.dvd_mul_left _ _
    · rw [update_of_ne same]
      exact accounted.whole other
  have bytes := bytesWhere_update (fun _ => true) treed resultTreed fresh.status
  rw [fresh.unused, weigh_none, weigh_all, Nat.add_zero, size_eq,
    ← accounted.whole.pagesWhere_mul, ← Nat.add_mul] at bytes
  refine ⟨whole, ?_⟩
  rw [pagesWhere_eq whole _ bytes, fresh.totalPages, accounted.total, BitVec.ofNat_add]

theorem CountsReused.accounted {npages : ℕ} (reused : CountsReused config npages space result node)
    (accounted : Accounted config space) (treed : Treed space) (resultTreed : Treed result) :
    Accounted config result := by
  have whole : Whole config result := by
    intro other
    obtain ⟨old, value, isNode, cases⟩ := reused.status
    have wasWhole := accounted.whole node
    rw [bytesOf, isNode, weigh_all] at wasWhole
    have size : config.pageSize ∣ npages <<< config.pageSizeLog2 := by
      rw [size_eq]
      exact Nat.dvd_mul_left _ _
    have isUpdate : ∀ other, config.pageSize ∣ weigh (fun _ => true) (update space.status node
        (some (npages <<< config.pageSizeLog2, some LARGE_OBJECT_NURSERY)) other) := by
      intro other
      by_cases same : other = node
      · subst same
        rw [update_self]
        exact size
      · rw [update_of_ne same]
        exact accounted.whole other
    rw [bytesOf]
    rcases cases with ⟨-, isStatus⟩ | ⟨-, tail, -, -, isStatus⟩
    · rw [isStatus]
      exact isUpdate other
    · rw [isStatus]
      by_cases same : other = tail
      · subst same
        rw [update_self]
        exact Nat.dvd_sub wasWhole size
      · rw [update_of_ne same]
        exact isUpdate other
  obtain ⟨old, value, isNode, bigEnough, changed⟩ :=
    bytesWhere_cutTo treed resultTreed reused.status
  have bytes := changed fun _ => true
  rw [weigh_all, weigh_all, weigh_all] at bytes
  refine ⟨whole, ?_⟩
  rw [reused.totalPages, accounted.total]
  congr 1
  exact (pagesWhere_congr accounted.whole whole (by omega)).symm

/-! ## Marks -/

/-- What is live has no mark yet, or the mark of the last major collection. -/
def MarksSettled (space : LargeObjectSpace) : Prop :=
  ∀ node size mark, space.status node = some (size, some mark) →
    mark = LARGE_OBJECT_NURSERY ∨ mark = space.marked

/-- The pages that were marked are counted. -/
def CountsMarked (config : Config) (space : LargeObjectSpace) : Prop :=
  space.livePagesAtLastCollection =
    BitVec.ofNat 64 (space.pagesWhere config (hasMark space.marked))

theorem exists_node_of_status {size mark : ℕ}
    (isStatus : space.status node = some (size, some mark)) :
    ∃ key data, space.nodes node = some { key := key, value := .live data } ∧ key.size = size ∧
      data.mark = mark := by
  rw [status] at isStatus
  rcases isNode : space.nodes node with _ | ⟨key, data | data⟩
  · rw [isNode] at isStatus
    cases isStatus
  · rw [isNode, Option.map_some, LargeObjectData.mark?, Option.some.injEq, Prod.mk.injEq,
      Option.some.injEq] at isStatus
    exact ⟨key, data, rfl, isStatus.1, isStatus.2⟩
  · rw [isNode, Option.map_some, LargeObjectData.mark?, Option.some.injEq,
      Prod.mk.injEq] at isStatus
    cases isStatus.2

theorem MarksSettled.congr (settled : MarksSettled space)
    (same : ∀ node size mark, result.status node = some (size, some mark) →
      mark = LARGE_OBJECT_NURSERY ∨ ∃ size, space.status node = some (size, some mark))
    (sameMarked : result.marked = space.marked) : MarksSettled result := by
  intro node size mark isStatus
  rw [sameMarked]
  rcases same node size mark isStatus with isNursery | ⟨oldSize, wasStatus⟩
  · exact .inl isNursery
  · exact settled node oldSize mark wasStatus

/-- At the start of a major collection no node has its mark. -/
theorem MarksSettled.countsMarked_startGc (settled : MarksSettled space) (config : Config)
    (marks : space.marked = 1 ∨ space.marked = 3) : CountsMarked config (space.startGc false) := by
  have noneMarked : ∀ node, weigh (hasMark (space.startGc false).marked)
      ((space.startGc false).status node) = 0 := by
    intro node
    have sameStatus : (space.startGc false).status node = space.status node := rfl
    rw [sameStatus]
    rcases isStatus : space.status node with _ | ⟨size, _ | mark⟩
    · rfl
    · rfl
    · apply weigh_hasMark_of_ne
      have isToggled : (space.startGc false).marked =
        space.marked ^^^ LARGE_OBJECT_MARK_TOGGLE_BIT :=
        rfl
      rw [isToggled]
      rcases settled node size mark isStatus with rfl | rfl <;>
        rcases marks with isMark | isMark <;>
        rw [isMark] <;> decide
  have noPages : (space.startGc false).pagesWhere config (hasMark (space.startGc false).marked) =
      0 := by
    apply Finset.sum_eq_zero
    intro node _
    rw [noneMarked, Nat.zero_div]
  rw [CountsMarked, noPages]
  rfl

/-- What marking does to the counters. -/
theorem mark_status {ref : Word} (marked : space.mark config ref = .next result) :
    result = space ∨ ∃ node size old, space.status node = some (size, some old) ∧
      old ≠ space.marked ∧ result.marked = space.marked ∧ result.totalPages = space.totalPages ∧
      result.status = update space.status node (some (size, some space.marked)) ∧
      result.livePagesAtLastCollection =
        space.livePagesAtLastCollection + BitVec.ofNat 64 (size >>> config.pageSizeLog2) := by
  rcases mark_counts marked with same | ⟨node, key, data, isNode, notMarked, isMarked⟩
  · exact .inl same
  · have isUpdate : result.nodes = update space.nodes node
        (some { key := key, value := .live { data with mark := space.marked } }) := by
      rw [isMarked]
      rfl
    refine .inr ⟨node, key.size, data.mark, status_eq isNode, notMarked, ?_, ?_,
      status_update isUpdate, ?_⟩
    · rw [isMarked]
      rfl
    · rw [isMarked]
      rfl
    · rw [isMarked]

theorem Accounted.mark {ref : Word} (accounted : Accounted config space) (treed : Treed space)
    (resultTreed : Treed result) (marked : space.mark config ref = .next result) :
    Accounted config result := by
  rcases mark_status marked with rfl | ⟨node, size, old, isNode, -, -, sameTotal, isStatus, -⟩
  · exact accounted
  · apply accounted.congr treed resultTreed _ sameTotal
    intro other
    rw [bytesOf, bytesOf, isStatus]
    by_cases same : other = node
    · subst same
      rw [update_self, isNode]
      rfl
    · rw [update_of_ne same]

theorem MarksSettled.mark {ref : Word} (settled : MarksSettled space)
    (marked : space.mark config ref = .next result) : MarksSettled result := by
  rcases mark_status marked with rfl | ⟨node, size, old, -, -, sameMarked, -, isStatus, -⟩
  · exact settled
  · intro other otherSize mark otherStatus
    rw [isStatus] at otherStatus
    rw [sameMarked]
    by_cases same : other = node
    · subst same
      rw [update_self, Option.some.injEq, Prod.mk.injEq, Option.some.injEq] at otherStatus
      exact .inr otherStatus.2.symm
    · rw [update_of_ne same] at otherStatus
      exact settled other otherSize mark otherStatus

/-- Marking counts the pages that it marks. -/
theorem CountsMarked.mark {ref : Word} (counted : CountsMarked config space)
    (accounted : Accounted config space) (treed : Treed space) (resultTreed : Treed result)
    (marked : space.mark config ref = .next result) : CountsMarked config result := by
  have nowAccounted := accounted.mark treed resultTreed marked
  rcases mark_status marked with rfl | ⟨node, size, old, isNode, notMarked, sameMarked, -,
    isStatus, live⟩
  · exact counted
  · have bytes := bytesWhere_update (hasMark space.marked) treed resultTreed isStatus
    rw [isNode, weigh_hasMark_of_ne _ notMarked, weigh_hasMark_self, Nat.add_zero] at bytes
    have isWhole := accounted.whole node
    rw [bytesOf, isNode, weigh_all] at isWhole
    obtain ⟨pages, isPages⟩ := isWhole
    rw [isPages, Nat.mul_comm, ← accounted.whole.pagesWhere_mul, ← Nat.add_mul] at bytes
    rw [CountsMarked, sameMarked, pagesWhere_eq nowAccounted.whole _ bytes, live, counted,
      BitVec.ofNat_add]
    congr 2
    rw [isPages, Nat.shiftRight_eq_div_pow]
    exact Nat.mul_div_cancel_left _ (pageSize_pos config)

theorem CountsMarked.congr (counted : CountsMarked config space)
    (accounted : Accounted config space)
    (treed : Treed space) (resultTreed : Treed result) (sameStatus : result.status = space.status)
    (sameMarked : result.marked = space.marked)
    (sameLive : result.livePagesAtLastCollection = space.livePagesAtLastCollection) :
    CountsMarked config result := by
  have resultWhole : Whole config result := by
    intro node
    rw [bytesOf, sameStatus]
    exact accounted.whole node
  have bytes : result.bytesWhere (hasMark space.marked) = space.bytesWhere (hasMark space.marked) :=
    bytesWhere_congr treed resultTreed fun node => by rw [sameStatus]
  rw [CountsMarked, sameMarked, sameLive, counted,
    pagesWhere_congr accounted.whole resultWhole bytes]

/-! ## The end of a collection -/

/-- No node in quarantine went through a tick yet. -/
def AllFresh (space : LargeObjectSpace) : Prop :=
  ∀ node data, space.deadData? node = some data → data.age = 0

theorem nodes_eq_none (notLive : space.isLive node = false)
    (notDead : space.deadData? node = none) :
    space.nodes node = none := by
  by_contra isNode
  exact (isLive_eq_false_iff isNode).mp notLive notDead

theorem Swept.notDead_of_none {isSwept : NodePointer → Prop} (swept : Swept space result isSwept)
    (unused : space.nodes node = none) : result.nodes node = none := by
  have keys := swept.keys node
  rwa [unused, Option.map_none, Option.map_eq_none_iff] at keys

/-- What is live after a sweep was live before, and marked if it was swept. -/
theorem Swept.of_isLive {isSwept : NodePointer → Prop} (swept : Swept space result isSwept)
    (isLive : result.isLive node = true) : space.isLive node = true ∧
      result.nodes node = space.nodes node ∧ (isSwept node → space.isMarked node = true) := by
  have notDead := deadData?_eq_none_of_isLive isLive
  have wasLive : space.isLive node = true := by
    by_contra notLive
    rw [Bool.not_eq_true] at notLive
    have wasDead : space.deadData? node ≠ none := by
      intro wasNotDead
      have unused := swept.notDead_of_none (nodes_eq_none notLive wasNotDead)
      rw [LargeObjectSpace.isLive, unused] at isLive
      cases isLive
    have sameAge := swept.dead node wasDead
    rw [notDead, Option.map_none, eq_comm, Option.map_eq_none_iff] at sameAge
    exact wasDead sameAge
  have isMarked : isSwept node → space.isMarked node = true := by
    intro isSweptNode
    by_contra notMarked
    rw [Bool.not_eq_true] at notMarked
    have dropped := swept.dropped node wasLive isSweptNode notMarked
    rw [notDead] at dropped
    cases dropped
  exact ⟨wasLive, swept.kept node wasLive isMarked, isMarked⟩

/-- What a sweep puts into quarantine is fresh there. -/
theorem Swept.allFresh {isSwept : NodePointer → Prop} (swept : Swept space result isSwept)
    (allFresh : AllFresh space) : AllFresh result := by
  intro node data isDead
  by_cases wasLive : space.isLive node = true
  · by_cases isDropped : isSwept node ∧ space.isMarked node = false
    · have dropped := swept.dropped node wasLive isDropped.1 isDropped.2
      rw [isDead] at dropped
      exact Option.some.inj dropped
    · rw [not_and, Bool.not_eq_false] at isDropped
      have same := swept.kept node wasLive isDropped
      rw [deadData?_eq_none_of_isLive (by rw [isLive_congr same, wasLive])] at isDead
      cases isDead
  · rw [Bool.not_eq_true] at wasLive
    by_cases wasDead : space.deadData? node = none
    · have unused := swept.notDead_of_none (nodes_eq_none wasLive wasDead)
      rw [deadData?, unused] at isDead
      cases isDead
    · have sameAge := swept.dead node wasDead
      obtain ⟨old, isOld⟩ := Option.ne_none_iff_exists'.mp wasDead
      rw [isDead, isOld] at sameAge
      rw [Option.some.inj sameAge]
      exact allFresh node old isOld

/-- A tick that finds fresh nodes alone releases none. -/
theorem Ticked.status_eq (ticked : Ticked space result fun _ => True) (allFresh : AllFresh space) :
    result.status = space.status := by
  funext node
  by_cases wasLive : space.isLive node = true
  · exact status_congr (ticked.live node wasLive)
  · rw [Bool.not_eq_true] at wasLive
    by_cases wasDead : space.deadData? node = none
    · have notDead : result.deadData? node = none := by
        by_contra isDead
        exact (ticked.dead node isDead).1 wasDead
      rw [status, status, nodes_eq_none (ticked.notLive node wasLive) notDead,
        nodes_eq_none wasLive wasDead]
    · obtain ⟨old, isOld⟩ := Option.ne_none_iff_exists'.mp wasDead
      have stays :=
        ticked.fresh node trivial (by rw [isOld, Option.map_some, allFresh node old isOld])
      obtain ⟨data, isData⟩ := Option.ne_none_iff_exists'.mp stays
      rw [LargeObjectSpace.status_eq (exists_node_of_deadData? isData),
        LargeObjectSpace.status_eq (exists_node_of_deadData? isOld), (ticked.dead node stays).2]
      rfl

theorem Swept.bytesOf_eq {isSwept : NodePointer → Prop} (swept : Swept space result isSwept)
    (node : NodePointer) : result.bytesOf node = space.bytesOf node := by
  rw [LargeObjectSpace.bytesOf_eq, LargeObjectSpace.bytesOf_eq, swept.keys]

/-- After a sweep of everything a node is marked or dead. -/
theorem Swept.parts {isSwept : NodePointer → Prop} (swept : Swept space result isSwept)
    (all : ∀ node, space.isLive node = true → isSwept node) (node : NodePointer) :
    weigh isDead (result.status node) + weigh (hasMark space.marked) (space.status node) =
      space.bytesOf node := by
  by_cases wasLive : space.isLive node = true
  · obtain ⟨key, data, isNode⟩ := exists_node_of_isLive wasLive
    by_cases isMarked : data.mark = space.marked
    · have same := swept.kept node wasLive fun _ => by
        rw [LargeObjectSpace.isMarked, isNode, decide_eq_true_eq]
        exact isMarked
      rw [status_congr same, bytesOf, status_eq isNode, LargeObjectData.mark?, isMarked]
      simp
    · have notMarked : space.isMarked node = false := by
        rw [LargeObjectSpace.isMarked, isNode, decide_eq_false_iff_not]
        exact isMarked
      have dropped := swept.dropped node wasLive (all node wasLive) notMarked
      obtain ⟨dead, isDead, -⟩ := Option.map_eq_some_iff.mp dropped
      have keys := swept.keys node
      have isResult := exists_node_of_deadData? isDead
      rw [isNode, isResult, Option.map_some, Option.map_some, Option.some.injEq] at keys
      rw [bytesOf, status_eq isNode, status_eq isResult, keys, LargeObjectData.mark?,
        LargeObjectData.mark?, weigh_hasMark_of_ne _ isMarked]
      rfl
  · rw [Bool.not_eq_true] at wasLive
    by_cases wasDead : space.deadData? node = none
    · have unused := nodes_eq_none wasLive wasDead
      have staysUnused := swept.notDead_of_none unused
      rw [bytesOf, status, status, unused, staysUnused]
      rfl
    · have sameAge := swept.dead node wasDead
      obtain ⟨old, isOld⟩ := Option.ne_none_iff_exists'.mp wasDead
      rw [isOld] at sameAge
      obtain ⟨dead, isDead, -⟩ := Option.map_eq_some_iff.mp sameAge
      have keys := swept.keys node
      have wasNode := exists_node_of_deadData? isOld
      have isResult := exists_node_of_deadData? isDead
      rw [wasNode, isResult, Option.map_some, Option.map_some, Option.some.injEq] at keys
      rw [bytesOf, status_eq wasNode, status_eq isResult, keys]
      rfl

/-- A major collection sweeps everything. -/
theorem Structured.sweptBy_major {young : NodePointer → Prop} (structured : Structured space)
    (node : NodePointer) (isLive : space.isLive node = true) :
    SweptBy config false young space node := by
  obtain ⟨_, _, isNode⟩ := exists_node_of_isLive isLive
  rw [SweptBy, if_neg (fun both => Bool.false_ne_true both.2), structured.mem_iff, isNode]
  rintro ⟨⟩

/-- `free_pages` are the pages of the nodes that are not live. -/
def CountsFree (config : Config) (space : LargeObjectSpace) : Prop :=
  space.freePages = BitVec.ofNat 64 (space.pagesWhere config isDead)

/-- A sweep of everything leaves free what is not marked. -/
theorem Swept.countsFree {isSwept : NodePointer → Prop} (swept : Swept space result isSwept)
    (all : ∀ node, space.isLive node = true → isSwept node) (recounted : Recounted space result)
    (accounted : Accounted config space) (counted : CountsMarked config space)
    (treed : Treed space) (resultTreed : Treed result) : CountsFree config result := by
  have whole : Whole config result := by
    intro node
    rw [swept.bytesOf_eq]
    exact accounted.whole node
  have bytes := bytesWhere_add treed resultTreed (swept.parts all)
  rw [← whole.pagesWhere_mul, ← accounted.whole.pagesWhere_mul, ← Nat.add_mul] at bytes
  have pages := pagesWhere_eq accounted.whole _ bytes.symm
  rw [CountsFree, recounted.freePages, accounted.total, counted, pages, BitVec.ofNat_add,
    BitVec.add_sub_cancel]

/-- The counters do not depend on anything but the status of the nodes. -/
theorem CountsFree.congr (counted : CountsFree config space) (whole : Whole config space)
    (treed : Treed space) (resultTreed : Treed result) (sameStatus : result.status = space.status)
    (sameFree : result.freePages = space.freePages) : CountsFree config result := by
  have resultWhole : Whole config result := by
    intro node
    rw [bytesOf, sameStatus]
    exact whole node
  have bytes : result.bytesWhere isDead = space.bytesWhere isDead :=
    bytesWhere_congr treed resultTreed fun node => by rw [sameStatus]
  rw [CountsFree, sameFree, counted, pagesWhere_congr whole resultWhole bytes]

theorem releaseSynchronously_eq {memory : ℕ → Bool} (structured : Structured space)
    (allFresh : config.synchronousRelease = true → AllFresh space)
    (released : space.releaseSynchronously config memory = .next result) :
    result.status = space.status ∧ result.totalPages = space.totalPages ∧
      result.freePages = space.freePages ∧ result.marked = space.marked := by
  rw [releaseSynchronously] at released
  by_cases synchronous : config.synchronousRelease = true
  · rw [if_pos synchronous] at released
    obtain ⟨-, ticked⟩ := (processQuarantine_spec structured).post_of_next released
    exact ⟨ticked.status_eq (allFresh synchronous), ticked.totalPages, ticked.freePages,
      ticked.marked⟩
  · rw [if_neg synchronous, Outcome.pure_eq_next, Outcome.next.injEq] at released
    rw [released]
    exact ⟨rfl, rfl, rfl, rfl⟩

/-- After a sweep what is live is settled, if it was before or if everything was swept. -/
theorem Swept.settled {isSwept : NodePointer → Prop} (swept : Swept space result isSwept)
    (settled : MarksSettled space ∨ ∀ node, space.isLive node = true → isSwept node) :
    MarksSettled result := by
  intro node size mark isStatus
  rw [swept.marked]
  obtain ⟨key, data, isNode, rfl, rfl⟩ := exists_node_of_status isStatus
  have isLive : result.isLive node = true := by rw [LargeObjectSpace.isLive, isNode]
  obtain ⟨wasLive, same, isMarked⟩ := swept.of_isLive isLive
  rcases settled with settled | all
  · rw [status_congr same] at isStatus
    exact settled node _ _ isStatus
  · have nowMarked := isMarked (all node wasLive)
    rw [LargeObjectSpace.isMarked, ← same, isNode, decide_eq_true_eq] at nowMarked
    exact .inr nowMarked

theorem CountsFresh.settled {npages : ℕ} (fresh : CountsFresh config npages space result node)
    (settled : MarksSettled space) (sameMarked : result.marked = space.marked) :
    MarksSettled result := by
  apply settled.congr _ sameMarked
  intro other size mark isStatus
  rw [fresh.status] at isStatus
  by_cases same : other = node
  · subst same
    rw [update_self, Option.some.injEq, Prod.mk.injEq, Option.some.injEq] at isStatus
    exact .inl isStatus.2.symm
  · rw [update_of_ne same] at isStatus
    exact .inr ⟨size, isStatus⟩

theorem CountsReused.settled {npages : ℕ} (reused : CountsReused config npages space result node)
    (settled : MarksSettled space) (sameMarked : result.marked = space.marked) :
    MarksSettled result := by
  have isUpdate : ∀ other size mark, update space.status node
      (some (npages <<< config.pageSizeLog2, some LARGE_OBJECT_NURSERY)) other =
        some (size, some mark) →
      mark = LARGE_OBJECT_NURSERY ∨ ∃ size, space.status other = some (size, some mark) := by
    intro other size mark isStatus
    by_cases same : other = node
    · subst same
      rw [update_self, Option.some.injEq, Prod.mk.injEq, Option.some.injEq] at isStatus
      exact .inl isStatus.2.symm
    · rw [update_of_ne same] at isStatus
      exact .inr ⟨size, isStatus⟩
  apply settled.congr _ sameMarked
  intro other size mark isStatus
  obtain ⟨old, value, -, ⟨-, isUpdated⟩ | ⟨-, tail, -, -, isUpdated⟩⟩ := reused.status
  · rw [isUpdated] at isStatus
    exact isUpdate other size mark isStatus
  · rw [isUpdated] at isStatus
    by_cases same : other = tail
    · subst same
      rw [update_self, Option.some.injEq, Prod.mk.injEq] at isStatus
      cases isStatus.2
    · rw [update_of_ne same] at isStatus
      exact isUpdate other size mark isStatus

end LargeObjectSpace

/-! ## Runs -/

/-- The action gives no quarantined node back to the system: it does not go through the quarantine,
or each node there is new. -/
def LospaceAction.ReleasesNothing (config : Config) (state : LospaceState) : LospaceAction → Prop
  | .processQuarantine _ => state.space.AllFresh
  | .finishGc _ => config.synchronousRelease = true → state.space.AllFresh
  | _ => True

namespace LospaceState

variable {config : Config} {state before after : LospaceState} {action : LospaceAction}

/-- The counters are exact. -/
structure Exact (config : Config) (state : LospaceState) : Prop extends Sound config state where
  accounted : state.space.Accounted config
  settled : state.collecting ≠ some false → state.space.MarksSettled
  marked : state.collecting = some false → state.space.CountsMarked config

theorem exact_initial (initial : (lospaceSystem config).initial state) : Exact config state := by
  have sound := sound_initial initial
  obtain ⟨space, collecting, allocated⟩ := state
  obtain ⟨memory, created, isIdle, -⟩ := initial
  simp only [largeObjectSpaceInit, Outcome.bind_eq_next, Outcome.pure_eq_next,
    Outcome.next.injEq] at created isIdle
  obtain ⟨objectMap, -, nursery, -, rfl⟩ := created
  refine ⟨sound, ⟨?_, rfl⟩, ?_, ?_⟩
  · exact fun _ => Nat.dvd_zero _
  · rintro _ _ _ _ ⟨⟩
  · rw [isIdle]
    rintro ⟨⟩

/-- What an allocation leaves is counted. -/
theorem exact_alloc {bytes : Word} {trace : TraceKind} {environment : Environment}
    (exact : Exact config before)
    (servable : (LospaceAction.alloc bytes trace environment).IsServable config before)
    (sound : Sound config after)
    (stepped : before.step config (.alloc bytes trace environment) = .next after) :
    Exact config after := by
  simp only [step, Outcome.require_eq_next, Outcome.bind_eq_next, Outcome.pure_eq_next,
    Outcome.next.injEq] at stepped
  obtain ⟨_, idle, ⟨space, node, reused⟩, allocated, rfl⟩ := stepped
  have spec := (LargeObjectSpace.alloc_spec exact.structured exact.remembered exact.young_live
    (LospaceAction.npages_pos_of_isServable servable)).post_of_next allocated
  dsimp only at spec sound ⊢
  have treed := exact.structured.toTreed
  have resultTreed := spec.toStructured.toTreed
  have pages := spec.pages
  have settled := exact.settled (by rw [idle]; exact (by rintro ⟨⟩))
  have notMajor : before.collecting ≠ some false := by
    rw [idle]
    rintro ⟨⟩
  cases reused with
  | true =>
      rw [if_pos rfl] at pages
      refine ⟨sound, pages.accounted exact.accounted treed resultTreed, ?_,
        fun isMajor => absurd isMajor notMajor⟩
      exact fun _ => pages.settled settled spec.marked
  | false =>
      rw [if_neg Bool.false_ne_true] at pages
      refine ⟨sound, pages.accounted exact.accounted treed resultTreed, ?_,
        fun isMajor => absurd isMajor notMajor⟩
      exact fun _ => pages.settled settled spec.marked

/-- The end of a collection that releases no node. -/
theorem exact_finishGc {memory : ℕ → Bool} (exact : Exact config before)
    (nothing : (LospaceAction.finishGc memory).ReleasesNothing config before)
    (sound : Sound config after)
    (stepped : before.step config (.finishGc memory) = .next after) :
    Exact config after ∧ (before.collecting = some false → after.space.CountsFree config) := by
  rw [step] at stepped
  cases isCollecting : before.collecting with
  | none =>
      rw [isCollecting] at stepped
      cases stepped
  | some isMinorGc =>
      rw [isCollecting] at stepped
      obtain ⟨middle, finished, structured, swept, -, recounted⟩ :=
        LargeObjectSpace.finishGc_spec isMinorGc exact.structured exact.remembered
          fun node isYoung => ⟨isYoung.1, exact.young_live node isYoung⟩
      dsimp only at stepped
      rw [finished, Outcome.bind_next, Outcome.bind_eq_next] at stepped
      obtain ⟨released, isReleased, stepped⟩ := stepped
      obtain rfl := Outcome.next.inj stepped
      have treed := exact.structured.toTreed
      have releasedTreed : released.Treed := sound.structured.toTreed
      have middleAccounted : middle.Accounted config :=
        exact.accounted.congr treed structured.toTreed swept.bytesOf_eq recounted.totalPages
      obtain ⟨sameStatus, sameTotal, sameFree, sameMarked⟩ :=
        LargeObjectSpace.releaseSynchronously_eq structured
          (fun synchronous => swept.allFresh (nothing synchronous)) isReleased
      refine ⟨⟨sound, ?_, ?_, by rintro ⟨⟩⟩, ?_⟩
      · apply middleAccounted.congr structured.toTreed releasedTreed _ sameTotal
        intro node
        rw [LargeObjectSpace.bytesOf, sameStatus]
        rfl
      · intro _ node size mark isStatus
        rw [sameStatus] at isStatus
        rw [sameMarked]
        apply swept.settled _ node size mark isStatus
        cases isMinorGc with
        | true => exact .inl (exact.settled (by rw [isCollecting]; exact (by rintro ⟨⟩)))
        | false => exact .inr fun node => exact.structured.sweptBy_major node
      · intro isMajor
        obtain rfl : isMinorGc = false := Option.some.inj isMajor
        have counted := swept.countsFree (fun node => exact.structured.sweptBy_major node)
          recounted exact.accounted (exact.marked isCollecting) treed structured.toTreed
        exact counted.congr middleAccounted.whole structured.toTreed releasedTreed sameStatus
          sameFree

theorem exact_of_step (exact : Exact config before) (servable : action.IsServable config before)
    (nothing : action.ReleasesNothing config before)
    (stepped : before.step config action = .next after) : Exact config after := by
  have sound := (step_spec exact.toSound servable).post_of_next stepped
  have treed := exact.structured.toTreed
  have resultTreed := sound.structured.toTreed
  cases action with
  | alloc bytes trace environment => exact exact_alloc exact servable sound stepped
  | finishGc memory => exact (exact_finishGc exact nothing sound stepped).1
  | treeLookup addr =>
      obtain rfl := Outcome.next.inj stepped
      refine ⟨sound, exact.accounted.congr treed resultTreed (fun _ => rfl) rfl, exact.settled, ?_⟩
      exact fun isMajor =>
        (exact.marked isMajor).congr exact.accounted treed resultTreed rfl rfl rfl
  | startGc isMinorGc =>
      simp only [step, Outcome.require_eq_next, Outcome.bind_eq_next, Outcome.pure_eq_next,
        Outcome.next.injEq] at stepped
      obtain ⟨_, idle, rfl⟩ := stepped
      have settled := exact.settled (by rw [idle]; exact (by rintro ⟨⟩))
      cases isMinorGc with
      | true => exact ⟨sound, exact.accounted, fun _ => settled, by rintro ⟨⟩⟩
      | false =>
          refine ⟨sound, exact.accounted.congr treed resultTreed (fun _ => rfl) rfl, ?_, ?_⟩
          · exact fun notMajor => absurd rfl notMajor
          · exact fun _ => settled.countsMarked_startGc config exact.marks
  | mark ref =>
      simp only [step, Outcome.require_eq_next, Outcome.bind_eq_next, Outcome.pure_eq_next,
        Outcome.next.injEq] at stepped
      obtain ⟨_, collecting, space, marked, rfl⟩ := stepped
      refine ⟨sound, exact.accounted.mark treed resultTreed marked, ?_, ?_⟩
      · exact fun notMajor => (exact.settled notMajor).mark marked
      · exact fun isMajor => (exact.marked isMajor).mark exact.accounted treed resultTreed marked
  | processQuarantine memory =>
      simp only [step, Outcome.require_eq_next, Outcome.bind_eq_next, Outcome.pure_eq_next,
        Outcome.next.injEq] at stepped
      obtain ⟨_, idle, space, processed, rfl⟩ := stepped
      obtain ⟨-, ticked⟩ :=
        (LargeObjectSpace.processQuarantine_spec exact.structured).post_of_next processed
      have sameStatus := ticked.status_eq nothing
      have notMajor : before.collecting ≠ some false := by
        rw [idle]
        rintro ⟨⟩
      refine ⟨sound, ?_, ?_, fun isMajor => absurd isMajor notMajor⟩
      · apply exact.accounted.congr treed resultTreed _ ticked.totalPages
        intro node
        rw [LargeObjectSpace.bytesOf, sameStatus]
        rfl
      · intro _ node size mark isStatus
        rw [sameStatus] at isStatus
        rw [ticked.marked]
        exact exact.settled notMajor node size mark isStatus

/-- The end of every major collection of a run in which no node is released. -/
def CountsFreeAfterMajor (config : Config) (state : LospaceState) : Prop :=
  ∀ memory after, (LospaceAction.finishGc memory).ReleasesNothing config state →
    state.collecting = some false → state.step config (.finishGc memory) = .next after →
      after.space.CountsFree config

end LospaceState

/-- In a run in which no quarantined node is given back to the system, `total_pages` is the number
of pages of all nodes, which fit in the address space, and at the end of a major collection
`free_pages` is the number of pages of those that are not live. -/
theorem large_object_page_accounting {config : Config} {state : LospaceState}
    (reached : (lospaceSystem config).ReachableBy (fun state action =>
      action.IsServable config state ∧ action.ReleasesNothing config state) state) :
    state.space.totalPages = BitVec.ofNat 64 (state.space.pagesWhere config fun _ => true) ∧
      state.space.pagesWhere config (fun _ => true) * config.pageSize ≤ 2 ^ 64 ∧
      state.CountsFreeAfterMajor config := by
  have exact : state.Exact config := by
    apply reached.invariant
    · exact fun state => LospaceState.exact_initial
    · intro before action after exact permitted stepped
      exact LospaceState.exact_of_step exact permitted.1 permitted.2 stepped
  refine ⟨exact.accounted.total, ?_, ?_⟩
  · rw [exact.accounted.whole.pagesWhere_mul]
    exact exact.structured.toTreed.bytesWhere_le
  · intro memory after nothing isMajor stepped
    have servable : (LospaceAction.finishGc memory).IsServable config state := trivial
    have sound := (LospaceState.step_spec exact.toSound servable).post_of_next stepped
    exact (LospaceState.exact_finishGc exact nothing sound stepped).2 isMajor

/-- The action does not go through the quarantine. -/
def LospaceAction.isTick : LospaceAction → Bool
  | .processQuarantine _ => true
  | _ => false

theorem LospaceAction.permitted_of_not_isTick (state : LospaceState) (action : LospaceAction)
    (permitted : action.IsRoundable pagedConfig ∧ action.isTick = false) :
    action.IsServable pagedConfig state ∧ action.ReleasesNothing pagedConfig state := by
  refine ⟨LospaceAction.IsRoundable.isServable state action permitted.1, ?_⟩
  cases action with
  | processQuarantine memory => cases permitted.2
  | finishGc memory => rintro ⟨⟩
  | _ => trivial

/-- After a page of a dead object of two pages was allocated again. -/
theorem large_object_page_accounting_after_reuse :
    ∃ state : LospaceState, state.space.totalPages = 2 ∧
      state.space.totalPages =
        BitVec.ofNat 64 (state.space.pagesWhere pagedConfig fun _ => true) := by
  have ran : (runFromInit pagedConfig (fun _ action => action.IsRoundable pagedConfig ∧
      action.isTick = false) reuseActions).leadsTo (fun state => state.space.totalPages = 2) =
          true := by
    decide +kernel
  obtain ⟨state, ran, total⟩ := Outcome.exists_next_of_leadsTo ran
  have reached := reachable_of_runFromInit _ LospaceAction.permitted_of_not_isTick ran
  exact ⟨state, of_decide_eq_true total, (large_object_page_accounting reached).1⟩

/-- An object of a page dies and goes through the quarantine. -/
def releaseActions : List LospaceAction :=
  [.alloc 0x1000 .precisely (roomyEnvironment 1 0x10000), .startGc false, .finishGc fun _ => true,
    .processQuarantine fun _ => true, .processQuarantine fun _ => true]

/-- The page is still counted when the tree is empty. -/
theorem large_object_page_accounting_fails :
    ¬∀ (config : Config) (state : LospaceState), (lospaceSystem config).ReachableBy
      (fun state action => action.IsServable config state) state → state.collecting = none →
        state.space.totalPages =
          BitVec.ofNat 64 (state.space.pagesWhere config fun _ => true) := by
  intro holds
  have ran : (runFromInit pagedConfig (fun _ action => action.IsRoundable pagedConfig)
      releaseActions).leadsTo (fun state => state.collecting = none ∧
        state.space.totalPages = 1 ∧ inorder state.space.objectTree = []) = true := by
    decide +kernel
  obtain ⟨state, ran, facts⟩ := Outcome.exists_next_of_leadsTo ran
  obtain ⟨idle, total, isEmpty⟩ := of_decide_eq_true facts
  have reached := reachable_of_runFromInit _
    (fun state action => LospaceAction.IsRoundable.isServable state action) ran
  have counted := holds pagedConfig state reached idle
  have noPages : state.space.pagesWhere pagedConfig (fun _ => true) = 0 := by
    rw [LargeObjectSpace.pagesWhere, LargeObjectSpace.members, isEmpty]
    rfl
  rw [total, noPages] at counted
  exact absurd counted (by decide)

end Whippet.Lospace
