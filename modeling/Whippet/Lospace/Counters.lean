import Mathlib.Algebra.BigOperators.Group.Finset.Piecewise
import Mathlib.Algebra.Order.BigOperators.Group.Finset
import Whippet.Lospace.Nursery

/-!
The page counters of the large object space.

`total_pages` grows with every fresh page and never shrinks. `free_pages` are those of them that are
not in use, and `live_pages_at_last_collection` those that the last collections marked. What is left
was allocated since.

Owns: that the counters are large enough for the nodes they count, so that no difference of them
underflows, and what each action does to the pages allocated since the last collection. Does not
own: the allocation counters of the collectors.
-/

namespace Whippet.Lospace

open Function Tables SplayTree Outcome

/-! ## Sums over nodes -/

section Sums

variable {counts : Option ℕ → Bool} {nodes : Finset NodePointer} {node : NodePointer}
variable {status : NodePointer → Option (ℕ × Option ℕ)} {entry : Option (ℕ × Option ℕ)}

/-- The bytes of a node, if its mark counts. -/
def weigh (counts : Option ℕ → Bool) : Option (ℕ × Option ℕ) → ℕ
  | none => 0
  | some (size, mark) => if counts mark then size else 0

/-- The bytes of some nodes whose marks count. -/
def totalWeight (counts : Option ℕ → Bool) (nodes : Finset NodePointer)
    (status : NodePointer → Option (ℕ × Option ℕ)) : ℕ :=
  ∑ node ∈ nodes, weigh counts (status node)

theorem totalWeight_update (counts : Option ℕ → Bool)
    (status : NodePointer → Option (ℕ × Option ℕ)) (entry : Option (ℕ × Option ℕ))
    (member : node ∈ nodes) :
    totalWeight counts nodes (update status node entry) + weigh counts (status node) =
      totalWeight counts nodes status + weigh counts entry := by
  have pointwise : ∀ other, weigh counts (update status node entry other) =
      update (fun other => weigh counts (status other)) node (weigh counts entry) other := by
    intro other
    by_cases same : other = node
    · subst same
      rw [update_self, update_self]
    · rw [update_of_ne same, update_of_ne same]
  rw [totalWeight, totalWeight, Finset.sum_congr rfl fun other _ => pointwise other,
    Finset.sum_update_of_mem member, ← Finset.add_sum_erase _ _ member,
    Finset.sdiff_singleton_eq_erase]
  omega

/-- A sum over more nodes counts nothing twice if the rest do not weigh anything. -/
theorem totalWeight_of_subset {fewer : Finset NodePointer} (subset : fewer ⊆ nodes)
    (rest : ∀ node, node ∉ fewer → status node = none) :
    totalWeight counts nodes status = totalWeight counts fewer status := by
  apply (Finset.sum_subset subset _).symm
  intro node _ isRest
  rw [rest node isRest]
  rfl

end Sums

namespace LargeObjectSpace

variable {space result : LargeObjectSpace} {node : NodePointer} {config : Config}
variable {counts otherCounts : Option ℕ → Bool}

/-- The bytes of the nodes whose marks count. -/
def bytesWhere (space : LargeObjectSpace) (counts : Option ℕ → Bool) : ℕ :=
  totalWeight counts space.members.toFinset space.status

theorem Treed.status_eq_none (treed : Treed space) (outside : node ∉ space.members.toFinset) :
    space.status node = none := by
  rw [List.mem_toFinset, treed.mem_iff, not_not] at outside
  rw [status, outside, Option.map_none]

/-- The sum over any set of nodes that contains those of the tree. -/
theorem Treed.bytesWhere_eq (treed : Treed space) {nodes : Finset NodePointer}
    (contains : space.members.toFinset ⊆ nodes) :
    space.bytesWhere counts = totalWeight counts nodes space.status :=
  (totalWeight_of_subset contains fun _ => treed.status_eq_none).symm

theorem bytesWhere_le (treed : Treed space) (resultTreed : Treed result)
    (lighter : ∀ node, weigh counts (space.status node) ≤ weigh otherCounts (result.status node)) :
    space.bytesWhere counts ≤ result.bytesWhere otherCounts := by
  have contains : result.members.toFinset ⊆ space.members.toFinset ∪ result.members.toFinset :=
    Finset.subset_union_right
  rw [treed.bytesWhere_eq Finset.subset_union_left, resultTreed.bytesWhere_eq contains]
  exact Finset.sum_le_sum fun node _ => lighter node

theorem bytesWhere_congr (treed : Treed space) (resultTreed : Treed result)
    (same : ∀ node, weigh counts (result.status node) = weigh counts (space.status node)) :
    result.bytesWhere counts = space.bytesWhere counts :=
  Nat.le_antisymm (bytesWhere_le resultTreed treed fun node => (same node).le)
    (bytesWhere_le treed resultTreed fun node => (same node).ge)

/-- What a change of one node does to a sum. -/
theorem bytesWhere_update (counts : Option ℕ → Bool) {entry : Option (ℕ × Option ℕ)}
    (treed : Treed space) (resultTreed : Treed result)
    (isUpdate : result.status = update space.status node entry) :
    result.bytesWhere counts + weigh counts (space.status node) =
      space.bytesWhere counts + weigh counts entry := by
  let nodes := insert node (space.members.toFinset ∪ result.members.toFinset)
  have contains : space.members.toFinset ⊆ nodes :=
    Finset.subset_union_left.trans (Finset.subset_insert _ _)
  have containsResult : result.members.toFinset ⊆ nodes :=
    Finset.subset_union_right.trans (Finset.subset_insert _ _)
  rw [treed.bytesWhere_eq contains, resultTreed.bytesWhere_eq containsResult, isUpdate]
  exact totalWeight_update counts space.status entry (Finset.mem_insert_self _ _)

/-- What cutting a node does to a sum. -/
theorem bytesWhere_cutTo {size mark : ℕ} (treed : Treed space) (resultTreed : Treed result)
    (cut : CutTo space.status result.status node size mark) :
    ∃ old value, space.status node = some (old, value) ∧ size ≤ old ∧
      ∀ counts, result.bytesWhere counts + weigh counts (some (old, value)) =
        space.bytesWhere counts + weigh counts (some (size, some mark)) +
          weigh counts (some (old - size, none)) := by
  obtain ⟨old, value, isNode, ⟨rfl, isUpdate⟩ | ⟨smaller, tail, different, unused, isUpdate⟩⟩ := cut
  · refine ⟨size, value, isNode, le_refl _, ?_⟩
    intro counts
    have updated := bytesWhere_update counts treed resultTreed isUpdate
    rw [isNode] at updated
    rw [updated, Nat.sub_self, weigh, weigh]
    simp
  · refine ⟨old, value, isNode, smaller.le, ?_⟩
    intro counts
    obtain ⟨nodes, contains, containsResult, hasNode, hasTail⟩ : ∃ nodes : Finset NodePointer,
        space.members.toFinset ⊆ nodes ∧ result.members.toFinset ⊆ nodes ∧ node ∈ nodes ∧
          tail ∈ nodes := by
      refine ⟨(space.members.toFinset ∪ result.members.toFinset) ∪ {node, tail},
        Finset.subset_union_left.trans Finset.subset_union_left,
        Finset.subset_union_right.trans Finset.subset_union_left, ?_, ?_⟩ <;> simp
    have first := totalWeight_update counts space.status (some (size, some mark)) hasNode
    have second := totalWeight_update counts
      (update space.status node (some (size, some mark))) (some (old - size, none)) hasTail
    rw [isNode] at first
    rw [update_of_ne different, unused, weigh.eq_1] at second
    rw [treed.bytesWhere_eq contains, resultTreed.bytesWhere_eq containsResult, isUpdate]
    omega

/-! ## The counters -/

def isDead (mark : Option ℕ) : Bool := mark.isNone

def hasMark (marked : ℕ) (mark : Option ℕ) : Bool := mark == some marked

@[simp] theorem weigh_none : weigh counts none = 0 := rfl

@[simp] theorem weigh_all (size : ℕ) (mark : Option ℕ) :
    weigh (fun _ => true) (some (size, mark)) = size := rfl

@[simp] theorem weigh_isDead_dead (size : ℕ) : weigh isDead (some (size, none)) = size := rfl

@[simp] theorem weigh_isDead_live (size mark : ℕ) : weigh isDead (some (size, some mark)) = 0 := rfl

@[simp] theorem weigh_hasMark_dead (marked size : ℕ) :
    weigh (hasMark marked) (some (size, none)) = 0 := rfl

theorem weigh_all_status (space : LargeObjectSpace) (node : NodePointer) :
    weigh (fun _ => true) (space.status node) =
      ((space.nodes node).map LargeObjectNode.key).elim 0 LargeObject.size := by
  rw [status]
  cases space.nodes node <;> rfl

theorem weigh_hasMark_of_ne {marked mark : ℕ} (size : ℕ) (different : mark ≠ marked) :
    weigh (hasMark marked) (some (size, some mark)) = 0 := by
  simp [weigh, hasMark, different]

@[simp] theorem weigh_hasMark_self (marked size : ℕ) :
    weigh (hasMark marked) (some (size, some marked)) = size := by
  simp [weigh, hasMark]

/-- The counters are large enough for the nodes they count. -/
structure Paged (config : Config) (space : LargeObjectSpace) : Prop where
  dead_le : space.bytesWhere isDead ≤ space.freePages.toNat * config.pageSize
  live_le : space.livePagesAtLastCollection.toNat * config.pageSize ≤
    space.bytesWhere (hasMark space.marked)
  total_le : space.bytesWhere (fun _ => true) ≤ space.totalPages.toNat * config.pageSize

/-- What is dead and what is marked are two parts of the whole. -/
theorem bytesWhere_add_le (space : LargeObjectSpace) (marked : ℕ) :
    space.bytesWhere isDead + space.bytesWhere (hasMark marked) ≤ space.bytesWhere fun _ =>
        true := by
  rw [bytesWhere, bytesWhere, bytesWhere, totalWeight, totalWeight, totalWeight,
    ← Finset.sum_add_distrib]
  apply Finset.sum_le_sum
  intro node _
  rcases space.status node with _ | ⟨size, _ | mark⟩
  · exact le_refl _
  · simp
  · by_cases isMark : mark = marked
    · simp [isMark]
    · simp [weigh_hasMark_of_ne size isMark]

theorem pageSize_pos (config : Config) : 0 < config.pageSize := Nat.two_pow_pos _

namespace Paged

theorem live_le_total (paged : Paged config space) :
    space.livePagesAtLastCollection.toNat ≤ space.totalPages.toNat := by
  have parts := bytesWhere_add_le space space.marked
  have live := paged.live_le
  have total := paged.total_le
  exact Nat.le_of_mul_le_mul_right (by omega) (pageSize_pos config)

/-- The pages that a collection leaves free are enough for what is dead or not marked. -/
theorem unmarked_le (paged : Paged config space) :
    space.bytesWhere (fun _ => true) - space.bytesWhere (hasMark space.marked) ≤
      (space.totalPages.toNat - space.livePagesAtLastCollection.toNat) * config.pageSize := by
  have live := paged.live_le
  have total := paged.total_le
  rw [Nat.sub_mul]
  omega

end Paged

/-! ## Allocation -/

theorem size_eq (config : Config) (npages : ℕ) :
    npages <<< config.pageSizeLog2 = npages * config.pageSize := Nat.shiftLeft_eq _ _

theorem CountsFresh.paged {npages : ℕ} (fresh : CountsFresh config npages space result node)
    (paged : Paged config space) (treed : Treed space) (resultTreed : Treed result)
    (sameMarked : result.marked = space.marked) (notNursery : LARGE_OBJECT_NURSERY ≠ space.marked)
    (room : space.totalPages.toNat + npages < 2 ^ 64) :
    Paged config result ∧ result.totalPages.toNat = space.totalPages.toNat + npages := by
  have total : result.totalPages.toNat = space.totalPages.toNat + npages := by
    rw [fresh.totalPages, BitVec.toNat_add, BitVec.toNat_ofNat, Nat.mod_eq_of_lt (a := npages)]
    · exact Nat.mod_eq_of_lt room
    · omega
  have changed : ∀ counts, result.bytesWhere counts = space.bytesWhere counts +
      weigh counts (some (npages * config.pageSize, some LARGE_OBJECT_NURSERY)) := by
    intro counts
    have updated := bytesWhere_update counts treed resultTreed fresh.status
    rwa [fresh.unused, weigh_none, Nat.add_zero, size_eq] at updated
  refine ⟨⟨?_, ?_, ?_⟩, total⟩
  · rw [changed, weigh_isDead_live, fresh.freePages]
    exact paged.dead_le
  · rw [changed, fresh.livePages, sameMarked, weigh_hasMark_of_ne _ notNursery]
    exact paged.live_le
  · have before := paged.total_le
    rw [changed, weigh_all, total, Nat.add_mul]
    omega

theorem CountsReused.paged {npages : ℕ} (reused : CountsReused config npages space result node)
    (paged : Paged config space) (treed : Treed space) (resultTreed : Treed result)
    (sameMarked : result.marked = space.marked) (notNursery : LARGE_OBJECT_NURSERY ≠ space.marked) :
    Paged config result ∧ npages ≤ space.freePages.toNat ∧
      result.freePages.toNat = space.freePages.toNat - npages := by
  obtain ⟨old, value, isNode, bigEnough, changed⟩ :=
    bytesWhere_cutTo treed resultTreed reused.status
  obtain ⟨_, wasDead⟩ := reused.wasDead
  obtain rfl : value = none := (Prod.mk.inj (Option.some.inj (isNode.symm.trans wasDead))).2
  rw [size_eq] at bigEnough changed
  have dead := changed isDead
  have marked := changed (hasMark space.marked)
  have total := changed fun _ => true
  rw [weigh_isDead_dead, weigh_isDead_live, weigh_isDead_dead] at dead
  rw [weigh_hasMark_dead, weigh_hasMark_dead, weigh_hasMark_of_ne _ notNursery] at marked
  rw [weigh_all, weigh_all, weigh_all] at total
  have deadLe := paged.dead_le
  have enough : npages ≤ space.freePages.toNat :=
    Nat.le_of_mul_le_mul_right (by omega) (pageSize_pos config)
  have free : result.freePages.toNat = space.freePages.toNat - npages := by
    have inRange := space.freePages.isLt
    rw [reused.freePages]
    bv_omega
  refine ⟨⟨?_, ?_, ?_⟩, enough, free⟩
  · rw [free, Nat.sub_mul]
    omega
  · rw [reused.livePages, sameMarked]
    have live := paged.live_le
    omega
  · rw [reused.totalPages]
    have before := paged.total_le
    omega

/-! ## Collections -/

/-- Marking a node counts its pages. -/
theorem mark_counts {ref : Word} (marked : space.mark config ref = .next result) :
    result = space ∨ ∃ node key data,
      space.nodes node = some { key := key, value := .live data } ∧ data.mark ≠ space.marked ∧
        result = { space.set node
            { key := key, value := .live { data with mark := space.marked } } with
          livePagesAtLastCollection := space.livePagesAtLastCollection +
            BitVec.ofNat 64 (key.size >>> config.pageSizeLog2) } := by
  rw [mark, Outcome.bind_eq_next] at marked
  obtain ⟨node, -, marked⟩ := marked
  by_cases isNull : node = 0
  · rw [if_pos isNull, Outcome.pure_eq_next, Outcome.next.injEq] at marked
    exact .inl marked.symm
  · rw [if_neg isNull, Outcome.bind_eq_next] at marked
    obtain ⟨⟨key, value⟩, found, marked⟩ := marked
    have isNode : space.nodes node = some { key := key, value := value } := by
      rw [get] at found
      cases known : space.nodes node with
      | none =>
          rw [known] at found
          cases found
      | some other =>
          rw [known] at found
          exact congrArg some (Outcome.next.inj found)
    cases value with
    | dead data => cases marked
    | live data =>
        dsimp only at marked
        by_cases isMarked : data.mark = space.marked
        · rw [if_pos isMarked, Outcome.pure_eq_next, Outcome.next.injEq] at marked
          exact .inl marked.symm
        · rw [if_neg isMarked, Outcome.pure_eq_next, Outcome.next.injEq] at marked
          exact .inr ⟨node, key, data, isNode, isMarked, marked.symm⟩

theorem Paged.mark {ref : Word} (paged : Paged config space) (treed : Treed space)
    (resultTreed : Treed result) (marked : space.mark config ref = .next result) :
    Paged config result ∧ result.totalPages = space.totalPages := by
  rcases mark_counts marked with rfl | ⟨node, key, data, isNode, notMarked, rfl⟩
  · exact ⟨paged, rfl⟩
  · have isStatus : space.status node = some (key.size, some data.mark) := status_eq isNode
    have changed := fun counts => bytesWhere_update counts treed resultTreed
      (status_update rfl)
    have dead := changed isDead
    have live := changed (hasMark space.marked)
    have total := changed fun _ => true
    rw [isStatus] at dead live total
    rw [Option.map_some, LargeObjectData.mark?] at dead live total
    rw [weigh_isDead_live, weigh_isDead_live] at dead
    rw [weigh_hasMark_of_ne _ notMarked, weigh_hasMark_self] at live
    rw [weigh_all, weigh_all] at total
    have deadLe := paged.dead_le
    have liveLe := paged.live_le
    have totalLe := paged.total_le
    have pages : key.size >>> config.pageSizeLog2 * config.pageSize ≤ key.size := by
      rw [Nat.shiftRight_eq_div_pow]
      exact Nat.div_mul_le_self _ _
    refine ⟨⟨?_, ?_, ?_⟩, rfl⟩
    · dsimp only at dead ⊢
      exact le_trans (by omega) deadLe
    · have grown : (space.livePagesAtLastCollection +
          BitVec.ofNat 64 (key.size >>> config.pageSizeLog2)).toNat ≤
          space.livePagesAtLastCollection.toNat + key.size >>> config.pageSizeLog2 := by
        rw [BitVec.toNat_add, BitVec.toNat_ofNat]
        exact (Nat.mod_le _ _).trans (Nat.add_le_add_left (Nat.mod_le _ _) _)
      have grownBytes := Nat.mul_le_mul_right config.pageSize grown
      rw [Nat.add_mul] at grownBytes
      dsimp only at live ⊢
      exact le_trans (by omega) live.ge
    · dsimp only at total ⊢
      exact le_trans (by omega) totalLe

theorem Paged.startGc (paged : Paged config space) (isMinorGc : Bool) :
    Paged config (space.startGc isMinorGc) := by
  cases isMinorGc with
  | true => exact paged
  | false => exact ⟨paged.dead_le, (Nat.zero_mul _).trans_le (Nat.zero_le _), paged.total_le⟩

/-- The live nodes stay as they are. -/
theorem weigh_hasMark_le {marked : ℕ}
    (kept : ∀ node, space.isLive node = true → weigh (hasMark marked) (space.status node) ≠ 0 →
      result.nodes node = space.nodes node) (node : NodePointer) :
    weigh (hasMark marked) (space.status node) ≤ weigh (hasMark marked) (result.status node) := by
  by_cases isZero : weigh (hasMark marked) (space.status node) = 0
  · rw [isZero]
    exact Nat.zero_le _
  · have isLive : space.isLive node = true := by
      rw [LargeObjectSpace.isLive]
      rw [status] at isZero
      rcases isNode : space.nodes node with _ | ⟨key, data | data⟩
      · simp [isNode] at isZero
      · rfl
      · simp [isNode, LargeObjectData.mark?] at isZero
    rw [status_congr (kept node isLive isZero)]

/-- The end of a collection counts what is not marked as free. -/
theorem Paged.swept {isSwept : NodePointer → Prop} (paged : Paged config space)
    (treed : Treed space)
    (resultTreed : Treed result) (swept : Swept space result isSwept)
    (recounted : Recounted space result) :
    Paged config result ∧ result.freePages.toNat + result.livePagesAtLastCollection.toNat =
      result.totalPages.toNat := by
  have liveLe := paged.live_le_total
  have free : result.freePages.toNat =
      space.totalPages.toNat - space.livePagesAtLastCollection.toNat := by
    have inRange := space.totalPages.isLt
    rw [recounted.freePages]
    bv_omega
  have total : result.bytesWhere (fun _ => true) = space.bytesWhere fun _ => true := by
    apply bytesWhere_congr treed resultTreed
    intro node
    rw [weigh_all_status, weigh_all_status, swept.keys]
  have marked : space.bytesWhere (hasMark space.marked) ≤
      result.bytesWhere (hasMark space.marked) := by
    apply bytesWhere_le treed resultTreed
    apply weigh_hasMark_le
    intro node isLive isMarked
    apply swept.kept node isLive
    intro _
    obtain ⟨key, data, isNode⟩ := exists_node_of_isLive isLive
    rw [LargeObjectSpace.isMarked, isNode, decide_eq_true_eq]
    by_contra notMarked
    rw [status_eq isNode] at isMarked
    exact isMarked (weigh_hasMark_of_ne _ notMarked)
  have unmarked := paged.unmarked_le
  have parts := bytesWhere_add_le result space.marked
  have live := paged.live_le
  refine ⟨⟨?_, ?_, ?_⟩, ?_⟩
  · rw [free]
    omega
  · rw [recounted.livePages, swept.marked]
    exact live.trans marked
  · rw [recounted.totalPages, total]
    exact paged.total_le
  · rw [free, recounted.livePages, recounted.totalPages]
    omega

/-- The counters do not depend on the order of the nodes. -/
theorem Paged.congr (paged : Paged config space) (treed : Treed space) (resultTreed : Treed result)
    (sameStatus : result.status = space.status) (sameMarked : result.marked = space.marked)
    (total : result.totalPages = space.totalPages) (free : result.freePages = space.freePages)
    (live : result.livePagesAtLastCollection = space.livePagesAtLastCollection) :
    Paged config result := by
  have same : ∀ counts, result.bytesWhere counts = space.bytesWhere counts := fun counts =>
    bytesWhere_congr treed resultTreed fun node => by rw [sameStatus]
  refine ⟨?_, ?_, ?_⟩
  · rw [same, free]
    exact paged.dead_le
  · rw [same, live, sameMarked]
    exact paged.live_le
  · rw [same, total]
    exact paged.total_le

/-- A tick of the quarantine forgets nodes. -/
theorem Paged.ticked {isTicked : NodePointer → Prop} (paged : Paged config space)
    (treed : Treed space) (resultTreed : Treed result) (ticked : Ticked space result isTicked) :
    Paged config result := by
  have dead : result.bytesWhere isDead ≤ space.bytesWhere isDead := by
    apply bytesWhere_le resultTreed treed
    intro node
    cases isData : result.deadData? node with
    | none =>
        have isZero : weigh isDead (result.status node) = 0 := by
          rw [status]
          rw [deadData?] at isData
          rcases isNode : result.nodes node with _ | ⟨key, data | data⟩ <;>
            simp_all [LargeObjectData.mark?]
        rw [isZero]
        exact Nat.zero_le _
    | some data =>
        obtain ⟨wasDead, sameKey⟩ := ticked.dead node (by rw [isData]; exact (by rintro ⟨⟩))
        obtain ⟨old, isOld⟩ := Option.ne_none_iff_exists'.mp wasDead
        rw [status_eq (exists_node_of_deadData? isData), status_eq (exists_node_of_deadData? isOld),
          sameKey]
        rfl
  have marked : space.bytesWhere (hasMark space.marked) ≤
      result.bytesWhere (hasMark space.marked) := by
    apply bytesWhere_le treed resultTreed
    exact weigh_hasMark_le fun node isLive _ => ticked.live node isLive
  have total : result.bytesWhere (fun _ => true) ≤ space.bytesWhere fun _ => true := by
    apply bytesWhere_le resultTreed treed
    intro node
    rcases isNode : result.nodes node with _ | ⟨key, data | data⟩
    · rw [status, isNode]
      exact Nat.zero_le _
    · have isLive : result.isLive node = true := by
        rw [LargeObjectSpace.isLive, isNode]
      have wasLive : space.isLive node = true := by
        by_contra notLive
        rw [ticked.notLive node (Bool.eq_false_iff.mpr notLive)] at isLive
        cases isLive
      rw [status_congr (ticked.live node wasLive)]
    · have isData : result.deadData? node = some data := by
        rw [deadData?, isNode]
      obtain ⟨wasDead, sameKey⟩ := ticked.dead node (by rw [isData]; exact (by rintro ⟨⟩))
      obtain ⟨old, isOld⟩ := Option.ne_none_iff_exists'.mp wasDead
      rw [status_eq (exists_node_of_deadData? isData), status_eq (exists_node_of_deadData? isOld),
        sameKey]
      exact le_refl _
  refine ⟨?_, ?_, ?_⟩
  · rw [ticked.freePages]
    exact dead.trans paged.dead_le
  · rw [ticked.livePages, ticked.marked]
    exact paged.live_le.trans marked
  · rw [ticked.totalPages]
    exact total.trans paged.total_le

/-- The pages that were allocated since the last collection: the difference that the allocation
counters are made of. -/
def pagesSinceLastCollection (space : LargeObjectSpace) : ℕ :=
  space.totalPages.toNat - space.freePages.toNat - space.livePagesAtLastCollection.toNat

/-- Where the subtractions do not underflow, the counter gets the bytes of these pages. -/
theorem addToAllocationCounter_eq (counter : Word)
    (fits : space.freePages.toNat + space.livePagesAtLastCollection.toNat ≤
      space.totalPages.toNat) :
    space.addToAllocationCounter config counter =
      counter + BitVec.ofNat 64 (space.pagesSinceLastCollection * config.pageSize) := by
  have pages : (space.totalPages - space.freePages - space.livePagesAtLastCollection).toNat =
      space.pagesSinceLastCollection := by
    rw [pagesSinceLastCollection]
    bv_omega
  rw [addToAllocationCounter]
  congr 1
  apply BitVec.eq_of_toNat_eq
  rw [BitVec.toNat_shiftLeft, pages, BitVec.toNat_ofNat, size_eq]

end LargeObjectSpace

/-! ## Runs -/

/-- The pages that an action allocates. -/
def LospaceAction.pages (config : Config) : LospaceAction → ℕ
  | .alloc bytes _ _ => largeObjectSpaceNpages config bytes
  | _ => 0

/-- The bytes of the pages that a request takes, if they can be counted. -/
def Config.roundUp (config : Config) (bytes : ℕ) : ℕ :=
  (bytes + config.pageSize - 1) / config.pageSize * config.pageSize

namespace LospaceState

variable {config : Config} {state before after : LospaceState} {action : LospaceAction}

theorem npages_of_roundUp_lt {bytes : Word} (positive : 0 < bytes.toNat)
    (inRange : config.roundUp bytes.toNat < 2 ^ 64) :
    Roundable config bytes ∧
      largeObjectSpaceNpages config bytes * config.pageSize = config.roundUp bytes.toNat := by
  have pagePositive := LargeObjectSpace.pageSize_pos config
  have wholePages : 2 ^ (64 - config.pageSizeLog2) * config.pageSize = 2 ^ 64 := by
    rw [Config.pageSize, ← Nat.pow_add, Nat.sub_add_cancel config.pageSizeLog2_lt.le]
  rw [Config.roundUp] at inRange
  have atLeast : bytes.toNat ≤
      (bytes.toNat + config.pageSize - 1) / config.pageSize * config.pageSize := by
    have above := Nat.lt_div_mul_add (a := bytes.toNat + config.pageSize - 1) pagePositive
    omega
  have fewer : (bytes.toNat + config.pageSize - 1) / config.pageSize <
      2 ^ (64 - config.pageSizeLog2) :=
    Nat.lt_of_mul_lt_mul_right (a := config.pageSize) (by omega)
  have nextPage := Nat.mul_le_mul_right config.pageSize (Nat.succ_le_of_lt fewer)
  rw [Nat.succ_mul] at nextPage
  have roundable : Roundable config bytes := ⟨positive, by omega⟩
  refine ⟨roundable, ?_⟩
  rw [roundable.npages_eq, Config.roundUp]

/-- The counters are right, and between collections no difference of them underflows. -/
structure Counted (config : Config) (state : LospaceState) : Prop extends Sound config state where
  paged : state.space.Paged config
  fits : state.collecting = none →
    state.space.freePages.toNat + state.space.livePagesAtLastCollection.toNat ≤
      state.space.totalPages.toNat

/-- What an action does to the pages that are counted. -/
structure CountsStep (config : Config) (action : LospaceAction) (before after : LospaceState) :
    Prop where
  total : after.space.totalPages.toNat ≤ before.space.totalPages.toNat + action.pages config
  allocated : before.collecting = none → after.collecting = none →
    after.space.pagesSinceLastCollection =
      before.space.pagesSinceLastCollection + action.pages config
  finished : before.collecting ≠ none → after.collecting = none →
    after.space.pagesSinceLastCollection = 0

theorem Sound.not_nursery (sound : Sound config state) :
    LARGE_OBJECT_NURSERY ≠ state.space.marked := by
  rcases sound.marks with isMark | isMark <;> rw [isMark] <;> decide

theorem counted_initial (initial : (lospaceSystem config).initial state) :
    Counted config state := by
  have sound := sound_initial initial
  obtain ⟨space, collecting, allocated⟩ := state
  obtain ⟨memory, created, -, -⟩ := initial
  simp only [largeObjectSpaceInit, Outcome.bind_eq_next, Outcome.pure_eq_next,
    Outcome.next.injEq] at created
  obtain ⟨objectMap, -, nursery, -, rfl⟩ := created
  have noneLive : (0 : Word).toNat * config.pageSize ≤ 0 := (Nat.zero_mul _).le
  exact ⟨sound, ⟨Nat.zero_le _, noneLive, Nat.zero_le _⟩, fun _ => Nat.le_refl _⟩

theorem pagesSince_eq {space result : LargeObjectSpace}
    (total : result.totalPages = space.totalPages)
    (free : result.freePages = space.freePages)
    (live : result.livePagesAtLastCollection = space.livePagesAtLastCollection) :
    result.pagesSinceLastCollection = space.pagesSinceLastCollection := by
  rw [LargeObjectSpace.pagesSinceLastCollection, total, free, live]
  rfl

/-- An allocation adds its pages to those allocated since the last collection. -/
theorem counts_alloc {bytes : Word} {trace : TraceKind} {environment : Environment}
    (counted : Counted config before)
    (servable : (LospaceAction.alloc bytes trace environment).IsServable config before)
    (room : before.space.totalPages.toNat + largeObjectSpaceNpages config bytes < 2 ^ 64)
    (sound : Sound config after)
    (stepped : before.step config (.alloc bytes trace environment) = .next after) :
    Counted config after ∧ CountsStep config (.alloc bytes trace environment) before after := by
  simp only [step, Outcome.require_eq_next, Outcome.bind_eq_next, Outcome.pure_eq_next,
    Outcome.next.injEq] at stepped
  obtain ⟨_, idle, ⟨space, node, reused⟩, allocated, rfl⟩ := stepped
  have spec := (LargeObjectSpace.alloc_spec counted.structured counted.remembered
    counted.young_live (LospaceAction.npages_pos_of_isServable servable)).post_of_next allocated
  dsimp only at spec sound ⊢
  have treed := counted.structured.toTreed
  have resultTreed := spec.toStructured.toTreed
  have notNursery := counted.toSound.not_nursery
  have fits := counted.fits idle
  have pages := spec.pages
  cases reused with
  | true =>
      rw [if_pos rfl] at pages
      obtain ⟨paged, enough, free⟩ :=
        pages.paged counted.paged treed resultTreed spec.marked notNursery
      refine ⟨⟨sound, paged, ?_⟩, ?_, ?_, ?_⟩
      · intro _
        dsimp only
        rw [free, pages.livePages, pages.totalPages]
        omega
      · dsimp only
        rw [pages.totalPages]
        omega
      · intro _ _
        dsimp only [LospaceAction.pages]
        rw [LargeObjectSpace.pagesSinceLastCollection, LargeObjectSpace.pagesSinceLastCollection,
          free, pages.livePages, pages.totalPages]
        omega
      · exact fun collecting _ => absurd idle collecting
  | false =>
      rw [if_neg Bool.false_ne_true] at pages
      obtain ⟨paged, total⟩ :=
        pages.paged counted.paged treed resultTreed spec.marked notNursery room
      refine ⟨⟨sound, paged, ?_⟩, ?_, ?_, ?_⟩
      · intro _
        dsimp only
        rw [total, pages.livePages, pages.freePages]
        omega
      · exact total.le
      · intro _ _
        dsimp only [LospaceAction.pages]
        rw [LargeObjectSpace.pagesSinceLastCollection, LargeObjectSpace.pagesSinceLastCollection,
          total, pages.livePages, pages.freePages]
        omega
      · exact fun collecting _ => absurd idle collecting

/-- At the end of a collection nothing was allocated since. -/
theorem counts_finishGc {memory : ℕ → Bool} (counted : Counted config before)
    (sound : Sound config after)
    (stepped : before.step config (.finishGc memory) = .next after) :
    Counted config after ∧ CountsStep config (.finishGc memory) before after := by
  obtain ⟨isMinorGc, middle, isCollecting, collected⟩ :=
    (finishGc_spec counted.toSound memory).post_of_next stepped
  have treed := counted.structured.toTreed
  obtain ⟨paged, fits⟩ :=
    counted.paged.swept treed collected.middleTreed collected.swept collected.recounted
  have ticked := collected.ticked
  have total : after.space.totalPages = before.space.totalPages :=
    ticked.totalPages.trans collected.recounted.totalPages
  have since : after.space.pagesSinceLastCollection = middle.pagesSinceLastCollection :=
    pagesSince_eq ticked.totalPages ticked.freePages ticked.livePages
  refine ⟨⟨sound, paged.ticked collected.middleTreed collected.structured.toTreed ticked, ?_⟩,
    ?_, ?_, ?_⟩
  · intro _
    rw [ticked.freePages, ticked.livePages, ticked.totalPages]
    exact fits.le
  · rw [total]
    exact Nat.le_refl _
  · intro idle
    rw [idle] at isCollecting
    cases isCollecting
  · intro _ _
    rw [since, LargeObjectSpace.pagesSinceLastCollection]
    omega

theorem counted_of_step (counted : Counted config before)
    (servable : action.IsServable config before)
    (room : before.space.totalPages.toNat + action.pages config < 2 ^ 64)
    (stepped : before.step config action = .next after) :
    Counted config after ∧ CountsStep config action before after := by
  have sound := (step_spec counted.toSound servable).post_of_next stepped
  cases action with
  | alloc bytes trace environment => exact counts_alloc counted servable room sound stepped
  | finishGc memory => exact counts_finishGc counted sound stepped
  | treeLookup addr =>
      obtain rfl := Outcome.next.inj stepped
      refine ⟨⟨sound, ?_, counted.fits⟩, Nat.le_refl _, fun _ _ => rfl,
        fun collecting idle => absurd idle collecting⟩
      exact counted.paged.congr counted.structured.toTreed sound.structured.toTreed rfl rfl rfl rfl
        rfl
  | startGc isMinorGc =>
      simp only [step, Outcome.require_eq_next, Outcome.bind_eq_next, Outcome.pure_eq_next,
        Outcome.next.injEq] at stepped
      obtain ⟨_, idle, rfl⟩ := stepped
      refine ⟨⟨sound, counted.paged.startGc isMinorGc, by rintro ⟨⟩⟩, ?_, by rintro _ ⟨⟩,
        by rintro _ ⟨⟩⟩
      cases isMinorGc <;> exact Nat.le_refl _
  | mark ref =>
      simp only [step, Outcome.require_eq_next, Outcome.bind_eq_next, Outcome.pure_eq_next,
        Outcome.next.injEq] at stepped
      obtain ⟨_, collecting, space, marked, rfl⟩ := stepped
      obtain ⟨paged, total⟩ :=
        counted.paged.mark counted.structured.toTreed sound.structured.toTreed marked
      refine ⟨⟨sound, paged, fun idle => absurd idle collecting⟩, ?_, ?_, ?_⟩
      · dsimp only
        rw [total]
        exact Nat.le_refl _
      · exact fun idle => absurd idle collecting
      · exact fun _ idle => absurd idle collecting
  | processQuarantine memory =>
      simp only [step, Outcome.require_eq_next, Outcome.bind_eq_next, Outcome.pure_eq_next,
        Outcome.next.injEq] at stepped
      obtain ⟨_, idle, space, processed, rfl⟩ := stepped
      obtain ⟨-, ticked⟩ :=
        (LargeObjectSpace.processQuarantine_spec counted.structured).post_of_next processed
      have fits := counted.fits idle
      refine ⟨⟨sound,
        counted.paged.ticked counted.structured.toTreed sound.structured.toTreed ticked,
        ?_⟩, ?_, ?_, ?_⟩
      · intro _
        dsimp only
        rwa [ticked.totalPages, ticked.freePages, ticked.livePages]
      · dsimp only
        rw [ticked.totalPages]
        exact Nat.le_refl _
      · intro _ _
        exact pagesSince_eq ticked.totalPages ticked.freePages ticked.livePages
      · exact fun collecting _ => absurd idle collecting

end LospaceState

end Whippet.Lospace
