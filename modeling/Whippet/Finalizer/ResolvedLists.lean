import Mathlib.Data.List.FinRange
import Whippet.Finalizer.ResolutionOrder

/-!
What a resolution does to the lists of finalizers.

The lists of a table are taken apart one after the other. Where the loop is on one of them is a list
of its own, the cursor, so that each finalizer is on one list all the time: in a bucket that has not
been taken, at the cursor, in a bucket of the table that is being built, or among the fired ones.

Owns: that a resolution ends, which finalizers it fires and keeps, and that it loses none of them.
Does not own: attaching finalizers and popping the fired ones.
-/

namespace Whippet.Finalizers

open Function
open Ephemerons (Ref)

inductive ListName where
  | bucket (priority : ℕ) (index : Fin BUCKET_COUNT)
  | scratch (index : Fin BUCKET_COUNT)
  | cursor
  | fired
  deriving DecidableEq

/-- The lists when as many buckets of the table of a priority are taken as `taken` says. -/
def resolutionLists (priority taken cursor : ℕ) (state : Resolution) (count : ListName → ℕ) :
    LinkedLists ListName ℕ where
  head
    | .bucket other index =>
        if other = priority ∧ index.val < taken then 0 else (state.world.tables other).buckets index
    | .scratch index => state.scratch.buckets index
    | .cursor => cursor
    | .fired => state.world.fired
  count := count
  next finalizer := (state.world.finalizers finalizer).next

/-- Each finalizer is where `listed` says. -/
def Linked (priority taken cursor : ℕ) (state : Resolution) (listed : ℕ → Option ListName) : Prop :=
  ∃ count, (resolutionLists priority taken cursor state count).Listed 0 listed

/-- What resolving some finalizers, in an order, does. -/
structure Resolved (collector : Collector) (graph : ObjectGraph) (objectOf : ℕ → Ref)
    (order : List ℕ) (before after : Resolution) (listed listedAfter : ℕ → Option ListName) :
    Prop where
  marking_eq : after.marking = marks collector graph objectOf before.marking order
  fired : ∀ finalizer ∈ fires collector graph objectOf before.marking order,
    listedAfter finalizer = some .fired ∧ (after.world.finalizers finalizer).state = .fired
  kept : ∀ finalizer ∈ order,
    finalizer ∉ fires collector graph objectOf before.marking order →
      (∃ index, listedAfter finalizer = some (.scratch index)) ∧
        (after.world.finalizers finalizer).state = .active
  others : ∀ finalizer, finalizer ∉ order → listedAfter finalizer = listed finalizer ∧
    after.world.finalizers finalizer = before.world.finalizers finalizer
  object_eq : ∀ finalizer,
    (after.world.finalizers finalizer).object = (before.world.finalizers finalizer).object
  closure_eq : ∀ finalizer,
    (after.world.finalizers finalizer).closure = (before.world.finalizers finalizer).closure
  tables_eq : after.world.tables = before.world.tables
  tableCount_eq : after.world.tableCount = before.world.tableCount
  firedThisCycle_eq : after.world.firedThisCycle = before.world.firedThisCycle
  counted : after.scratch.finalizerCount +
    (fires collector graph objectOf before.marking order).length =
      before.scratch.finalizerCount + order.length
  firedCount : after.finalizersFired = before.finalizersFired +
    (fires collector graph objectOf before.marking order).length

section Steps

variable {collector : Collector} {graph : ObjectGraph} {objectOf : ℕ → Ref}
variable {state before middle after : Resolution}
variable {listed listedMiddle listedAfter : ℕ → Option ListName}
variable {priority taken finalizer : ℕ} {order rest : List ℕ}

theorem Resolved.refl (state : Resolution) (listed : ℕ → Option ListName) :
    Resolved collector graph objectOf [] state state listed listed where
  marking_eq := rfl
  fired := by rintro _ ⟨⟩
  kept := by rintro _ ⟨⟩
  others _ _ := ⟨rfl, rfl⟩
  object_eq _ := rfl
  closure_eq _ := rfl
  tables_eq := rfl
  tableCount_eq := rfl
  firedThisCycle_eq := rfl
  counted := rfl
  firedCount := rfl

theorem Resolved.trans (first : Resolved collector graph objectOf order before middle listed
      listedMiddle)
    (second : Resolved collector graph objectOf rest middle after listedMiddle listedAfter)
    (distinct : (order ++ rest).Nodup) :
    Resolved collector graph objectOf (order ++ rest) before after listed listedAfter := by
  have apart := (List.nodup_append.mp distinct).2.2
  have split : fires collector graph objectOf before.marking (order ++ rest) =
      fires collector graph objectOf before.marking order ++
        fires collector graph objectOf middle.marking rest := by
    rw [fires_append, first.marking_eq]
  have notRest {finalizer : ℕ} (member : finalizer ∈ order) : finalizer ∉ rest :=
    fun later => apart finalizer member finalizer later rfl
  have notOrder {finalizer : ℕ} (later : finalizer ∈ rest) : finalizer ∉ order :=
    fun member => apart finalizer member finalizer later rfl
  refine
    { marking_eq := by rw [marks_append, second.marking_eq, first.marking_eq]
      fired := ?_
      kept := ?_
      others := ?_
      object_eq := fun finalizer => (second.object_eq finalizer).trans (first.object_eq finalizer)
      closure_eq := fun finalizer =>
        (second.closure_eq finalizer).trans (first.closure_eq finalizer)
      tables_eq := second.tables_eq.trans first.tables_eq
      tableCount_eq := second.tableCount_eq.trans first.tableCount_eq
      firedThisCycle_eq := second.firedThisCycle_eq.trans first.firedThisCycle_eq
      counted := ?_
      firedCount := ?_ }
  · intro finalizer isFired
    rw [split] at isFired
    rcases List.mem_append.mp isFired with early | late
    · obtain ⟨place, same⟩ := second.others finalizer (notRest (mem_of_mem_fires early))
      rw [place, same]
      exact first.fired finalizer early
    · exact second.fired finalizer late
  · intro finalizer member notFired
    rw [split, List.mem_append, not_or] at notFired
    rcases List.mem_append.mp member with early | late
    · obtain ⟨place, same⟩ := second.others finalizer (notRest early)
      rw [place, same]
      exact first.kept finalizer early notFired.1
    · exact second.kept finalizer late notFired.2
  · intro finalizer outside
    rw [List.mem_append, not_or] at outside
    obtain ⟨firstPlace, firstSame⟩ := first.others finalizer outside.1
    obtain ⟨secondPlace, secondSame⟩ := second.others finalizer outside.2
    exact ⟨secondPlace.trans firstPlace, secondSame.trans firstSame⟩
  · have early := first.counted
    have late := second.counted
    rw [split, List.length_append, List.length_append]
    omega
  · have early := first.firedCount
    have late := second.firedCount
    rw [split, List.length_append]
    omega

/-- The finalizer at the cursor is pushed to a bucket of the next table. -/
theorem resolutionLists_addToScratch (priority taken finalizer : ℕ) (state : Resolution)
    (count : ListName → ℕ) :
    ∃ next, resolutionLists priority taken (state.world.finalizers finalizer).next
        ((state.unlink finalizer).addToScratch finalizer) next =
      ((resolutionLists priority taken finalizer state count).pop 0 .cursor).push
        (.scratch state.scratch.nextBucket) finalizer := by
  refine ⟨(((resolutionLists priority taken finalizer state count).pop 0 .cursor).push
    (.scratch state.scratch.nextBucket) finalizer).count, ?_⟩
  rw [LinkedLists.mk.injEq]
  refine ⟨?_, rfl, ?_⟩
  · funext name
    cases name with
    | bucket other index => rfl
    | scratch index =>
        by_cases same : index = state.scratch.nextBucket
        · rw [same]
          simp [resolutionLists, Resolution.addToScratch, Resolution.unlink, FinalizerTable.add,
            LinkedLists.head_push]
        · simp [resolutionLists, Resolution.addToScratch, Resolution.unlink, FinalizerTable.add,
            LinkedLists.head_push, LinkedLists.head_pop, same]
    | cursor => rfl
    | fired => rfl
  · funext other
    by_cases same : other = finalizer
    · rw [same]
      simp [resolutionLists, Resolution.addToScratch, Resolution.unlink, finalizerListPush,
        LinkedLists.next_push, LinkedLists.head_pop]
    · simp [resolutionLists, Resolution.addToScratch, Resolution.unlink, finalizerListPush,
        LinkedLists.next_push, LinkedLists.next_pop, same]

/-- The finalizer at the cursor is pushed to the fired ones. -/
theorem resolutionLists_pushFired (priority taken finalizer fired : ℕ) (state : Resolution)
    (marking : Marking) (count : ListName → ℕ) :
    ∃ next, resolutionLists priority taken (state.world.finalizers finalizer).next
        { state.unlink finalizer with
          world := (state.unlink finalizer).world.pushFired finalizer
          finalizersFired := fired
          marking := marking } next =
      ((resolutionLists priority taken finalizer state count).pop 0 .cursor).push
        .fired finalizer := by
  refine ⟨(((resolutionLists priority taken finalizer state count).pop 0 .cursor).push
    .fired finalizer).count, ?_⟩
  rw [LinkedLists.mk.injEq]
  refine ⟨?_, rfl, ?_⟩
  · funext name
    cases name with
    | bucket other index => rfl
    | scratch index => rfl
    | cursor => rfl
    | fired => rfl
  · funext other
    by_cases same : other = finalizer
    · rw [same]
      simp [resolutionLists, FinalizerWorld.pushFired, Resolution.unlink, finalizerListPush,
        LinkedLists.next_push, LinkedLists.head_pop]
    · simp [resolutionLists, FinalizerWorld.pushFired, Resolution.unlink, finalizerListPush,
        LinkedLists.next_push, LinkedLists.next_pop, same]

theorem finalizers_addToScratch (state : Resolution) (finalizer : ℕ) :
    ((state.unlink finalizer).addToScratch finalizer).world.finalizers =
      update state.world.finalizers finalizer { state.world.finalizers finalizer with
        next := state.scratch.buckets state.scratch.nextBucket } := by
  unfold Resolution.addToScratch Resolution.unlink finalizerListPush
  dsimp only
  rw [update_self, update_idem]

theorem finalizers_pushFired (state : Resolution) (finalizer : ℕ) :
    ((state.unlink finalizer).world.pushFired finalizer).finalizers =
      update state.world.finalizers finalizer { state.world.finalizers finalizer with
        state := .fired, next := state.world.fired } := by
  unfold FinalizerWorld.pushFired Resolution.unlink finalizerListPush
  dsimp only
  rw [update_self, update_self, update_idem, update_idem]

/-- An update that leaves a field of a finalizer as it is. -/
theorem update_field {Field : Type} (field : Finalizer → Field) {finalizers : ℕ → Finalizer}
    {changed : Finalizer} (same : field changed = field (finalizers finalizer)) (other : ℕ) :
    field (update finalizers finalizer changed other) = field (finalizers other) := by
  by_cases isIt : other = finalizer
  · rw [isIt, update_self, same]
  · rw [update_of_ne isIt]

/-- The finalizer at the cursor goes to the fired ones or to the next table. -/
theorem resolveOne_spec (collector : Collector) (graph : ObjectGraph)
    (linked : Linked priority taken finalizer state listed) (proper : finalizer ≠ 0)
    (objects : ∀ other, (state.world.finalizers other).object = objectOf other)
    (hasObject : objectOf finalizer ≠ .null)
    (isActive : (state.world.finalizers finalizer).state = .active) :
    ∃ after listedAfter, state.resolveOne collector graph finalizer = .next after ∧
      Linked priority taken (state.world.finalizers finalizer).next after listedAfter ∧
        Resolved collector graph objectOf [finalizer] state after listed listedAfter := by
  obtain ⟨count, holds⟩ := linked
  have atCursor : (resolutionLists priority taken finalizer state count).head .cursor ≠ 0 := proper
  have popped := holds.pop atCursor
  have free : update listed finalizer none finalizer = none := update_self _ _ _
  have notNull : (state.world.finalizers finalizer).object ≠ .null := by
    rw [objects]
    exact hasObject
  have elsewhere (name : ListName) (other : ℕ) (outside : other ∉ [finalizer]) :
      update (update listed finalizer none) finalizer (some name) other = listed other := by
    rw [update_of_ne (List.ne_of_not_mem_cons outside),
      update_of_ne (List.ne_of_not_mem_cons outside)]
  unfold Resolution.resolveOne
  rw [Outcome.check_bind notNull, objects]
  by_cases isVisited : gcVisitEphemeronKey graph state.marking (objectOf finalizer) = true
  · rw [if_pos isVisited]
    obtain ⟨next, equal⟩ := resolutionLists_addToScratch priority taken finalizer state count
    have pushed : (resolutionLists priority taken (state.world.finalizers finalizer).next
        ((state.unlink finalizer).addToScratch finalizer) next).Listed 0
          (update (update listed finalizer none) finalizer
            (some (.scratch state.scratch.nextBucket))) := by
      rw [equal]
      exact popped.push proper free
    have noneFire : fires collector graph objectOf state.marking [finalizer] = [] := by
      simp [fires, isVisited]
    have finalizersAfter := finalizers_addToScratch state finalizer
    refine ⟨_, _, rfl, ⟨next, pushed⟩, ?_⟩
    refine
      { marking_eq := by simp [marks, isVisited, Resolution.addToScratch, Resolution.unlink]
        fired := by
          rw [noneFire]
          rintro _ ⟨⟩
        kept := ?_
        others := ?_
        object_eq := ?_
        closure_eq := ?_
        tables_eq := rfl
        tableCount_eq := rfl
        firedThisCycle_eq := rfl
        counted := by
          rw [noneFire]
          rfl
        firedCount := by
          rw [noneFire]
          rfl }
    · intro other member _
      rw [List.mem_singleton] at member
      subst member
      refine ⟨⟨state.scratch.nextBucket, update_self _ _ _⟩, ?_⟩
      rw [finalizersAfter, update_self]
      exact isActive
    · intro other outside
      refine ⟨elsewhere _ other outside, ?_⟩
      rw [finalizersAfter, update_of_ne (List.ne_of_not_mem_cons outside)]
    · rw [finalizersAfter]
      exact update_field Finalizer.object rfl
    · rw [finalizersAfter]
      exact update_field Finalizer.closure rfl
  · rw [if_neg isVisited]
    have stillActive : ((state.unlink finalizer).world.finalizers finalizer).state = .active := by
      simpa [Resolution.unlink] using isActive
    unfold FinalizerWorld.addFired
    rw [Outcome.check_bind stillActive]
    obtain ⟨next, equal⟩ := resolutionLists_pushFired priority taken finalizer
      (state.finalizersFired + 1) state (collector.visit graph state.marking (objectOf finalizer))
      count
    have pushed : (resolutionLists priority taken (state.world.finalizers finalizer).next
        { state.unlink finalizer with
          world := (state.unlink finalizer).world.pushFired finalizer
          finalizersFired := state.finalizersFired + 1
          marking := collector.visit graph state.marking (objectOf finalizer) } next).Listed 0
          (update (update listed finalizer none) finalizer (some .fired)) := by
      rw [equal]
      exact popped.push proper free
    have oneFires : fires collector graph objectOf state.marking [finalizer] = [finalizer] := by
      simp [fires, isVisited]
    have finalizersAfter := finalizers_pushFired state finalizer
    refine ⟨_, _, rfl, ⟨next, pushed⟩, ?_⟩
    refine
      { marking_eq := by simp [marks, isVisited]
        fired := ?_
        kept := ?_
        others := ?_
        object_eq := ?_
        closure_eq := ?_
        tables_eq := rfl
        tableCount_eq := rfl
        firedThisCycle_eq := rfl
        counted := by
          rw [oneFires]
          rfl
        firedCount := by
          rw [oneFires]
          rfl }
    · intro other isFired
      rw [oneFires, List.mem_singleton] at isFired
      subst isFired
      refine ⟨update_self _ _ _, ?_⟩
      rw [finalizersAfter, update_self]
    · intro other member notFired
      rw [oneFires] at notFired
      exact absurd member notFired
    · intro other outside
      refine ⟨elsewhere _ other outside, ?_⟩
      rw [finalizersAfter, update_of_ne (List.ne_of_not_mem_cons outside)]
    · rw [finalizersAfter]
      exact update_field Finalizer.object rfl
    · rw [finalizersAfter]
      exact update_field Finalizer.closure rfl

/-- The loop over a bucket resolves the finalizers on it, in their order. -/
theorem resolveBucket_spec (collector : Collector) (graph : ObjectGraph) {nodes : List ℕ}
    {cursor rounds : ℕ}
    (linked : Linked priority taken cursor state listed)
    (chain : Chained (fun other => (state.world.finalizers other).next) 0 cursor nodes)
    (distinct : nodes.Nodup) (enough : nodes.length < rounds)
    (objects : ∀ other, (state.world.finalizers other).object = objectOf other)
    (ready : ∀ other ∈ nodes, objectOf other ≠ .null ∧
      (state.world.finalizers other).state = .active) :
    ∃ after listedAfter,
      Resolution.resolveBucket collector graph rounds cursor state = .next after ∧
        Linked priority taken 0 after listedAfter ∧
          Resolved collector graph objectOf nodes state after listed listedAfter := by
  induction nodes generalizing state listed cursor rounds with
  | nil =>
      have atEnd := chain.eq_nil_iff.mp rfl
      subst atEnd
      cases rounds with
      | zero => exact absurd enough (Nat.not_lt_zero _)
      | succ rounds => exact ⟨state, listed, if_pos rfl, linked, .refl state listed⟩
  | cons finalizer nodes inductionHypothesis =>
      cases rounds with
      | zero => exact absurd enough (Nat.not_lt_zero _)
      | succ rounds =>
          obtain ⟨outside, restDistinct⟩ := List.nodup_cons.mp distinct
          cases chain with
          | cons proper tail =>
              obtain ⟨hasObject, isActive⟩ := ready finalizer List.mem_cons_self
              obtain ⟨middle, listedMiddle, stepped, stillLinked, resolved⟩ :=
                resolveOne_spec collector graph linked proper objects hasObject isActive
              have kept {other : ℕ} (member : other ∈ nodes) :
                  middle.world.finalizers other = state.world.finalizers other := by
                apply (resolved.others other ?_).2
                rw [List.mem_singleton]
                rintro rfl
                exact outside member
              have restChain : Chained (fun other => (middle.world.finalizers other).next) 0
                  (state.world.finalizers finalizer).next nodes := by
                apply tail.frame
                intro other member
                rw [kept member]
              obtain ⟨after, listedAfter, looped, finallyLinked, rest⟩ :=
                inductionHypothesis stillLinked restChain restDistinct
                  (Nat.lt_of_succ_lt_succ enough)
                  (fun other => (resolved.object_eq other).trans (objects other))
                  (fun other member => by
                    rw [kept member]
                    exact ready other (List.mem_cons_of_mem _ member))
              refine ⟨after, listedAfter, ?_, finallyLinked, resolved.trans rest distinct⟩
              rw [Resolution.resolveBucket, if_neg proper]
              exact Outcome.bind_eq_next.mpr ⟨middle, stepped, looped⟩

/-- Taking the next bucket puts the cursor on its list. -/
theorem Linked.take {index : Fin BUCKET_COUNT}
    (linked : Linked priority index.val 0 state listed) :
    Linked priority (index.val + 1) ((state.world.tables priority).buckets index) state
      fun finalizer => if listed finalizer = some (.bucket priority index) then some .cursor
        else listed finalizer := by
  obtain ⟨count, holds⟩ := linked
  have different : ListName.bucket priority index ≠ .cursor := by rintro ⟨⟩
  have moved := holds.moveAll different rfl
  refine ⟨((resolutionLists priority index.val 0 state count).moveAll 0
    (.bucket priority index) .cursor).count, ?_⟩
  convert moved using 1
  rw [LinkedLists.moveAll, resolutionLists, LinkedLists.mk.injEq]
  refine ⟨?_, rfl, rfl⟩
  funext name
  cases name with
  | bucket other position =>
      by_cases isThis : other = priority ∧ position = index
      · obtain ⟨rfl, rfl⟩ := isThis
        simp [resolutionLists]
      · have notThis : ListName.bucket other position ≠ .bucket priority index := by
          rintro ⟨⟩
          exact isThis ⟨rfl, rfl⟩
        have notCursor : ListName.bucket other position ≠ .cursor := by rintro ⟨⟩
        rw [update_of_ne notThis, update_of_ne notCursor]
        have same : (other = priority ∧ position.val < index.val + 1) ↔
            (other = priority ∧ position.val < index.val) := by
          constructor
          · rintro ⟨rfl, below⟩
            refine ⟨rfl, ?_⟩
            rcases Nat.lt_succ_iff_lt_or_eq.mp below with lower | equal
            · exact lower
            · exact absurd ⟨rfl, Fin.ext equal⟩ isThis
          · rintro ⟨rfl, below⟩
            exact ⟨rfl, Nat.lt_succ_of_lt below⟩
        simp only [resolutionLists, same]
  | scratch position => simp [resolutionLists]
  | cursor => simp [resolutionLists]
  | fired => simp [resolutionLists]

end Steps

end Whippet.Finalizers
