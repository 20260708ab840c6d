import Whippet.Finalizer.Resolution
import Whippet.Library.DepthFirst
import Whippet.Library.Links

/-!
Which finalizers a resolution fires.

A resolution goes through the finalizers of a table in the order of their lists. What it fires does
not depend on that order if visiting the object of one finalizer never visits that of another. The
visits of mmc and pcc mark nothing, so there this is always so.

Owns: what a resolution does with the lists that it takes apart, and when its order does not matter.
Does not own: the lists that it builds.
-/

namespace Whippet.Finalizers

open Function
open Ephemerons (Ref)

/-! ## Visits -/

section Visits

variable (graph : ObjectGraph)

/-- The address of an object of the heap. -/
def ObjectGraph.addressOf (ref : Ref) : Option ℕ :=
  match ref with
  | .object addr => if (graph.objectAt addr).isSome then some addr else none
  | _ => none

/-- The objects that a visit of the semi-space collector goes on to at once. -/
def ObjectGraph.tracedAtOnce (addr : ℕ) : List ℕ :=
  match graph.objectAt addr with
  | some { space := .small, fields := _ } => []
  | some { space := _, fields := fields } => fields.filterMap graph.addressOf
  | none => []

theorem semiVisit_eq (depth : ℕ) (visited : Finset ℕ) (ref : Ref) :
    semiVisit graph depth visited ref =
      match graph.addressOf ref with
      | some addr => DepthFirst.explore graph.tracedAtOnce depth visited addr
      | none => visited := by
  induction depth generalizing visited ref with
  | zero =>
      unfold semiVisit
      cases graph.addressOf ref <;> rfl
  | succ depth inductionHypothesis =>
      have fold (fields : List Ref) (marks : Finset ℕ) :
          fields.foldl (semiVisit graph depth) marks =
            (fields.filterMap graph.addressOf).foldl
              (DepthFirst.explore graph.tracedAtOnce depth) marks := by
        induction fields generalizing marks with
        | nil => rfl
        | cons first rest restHypothesis =>
            rw [List.foldl_cons, restHypothesis, inductionHypothesis]
            cases isAddress : graph.addressOf first with
            | none => rw [List.filterMap_cons_none isAddress]
            | some addr => rw [List.filterMap_cons_some isAddress, List.foldl_cons]
      cases ref with
      | null => rfl
      | immediate bits => rfl
      | object addr =>
          unfold semiVisit ObjectGraph.addressOf
          dsimp only
          cases found : graph.objectAt addr with
          | none => rfl
          | some object =>
              obtain ⟨space, fields⟩ := object
              have traced (notSmall : space ≠ .small) :
                  graph.tracedAtOnce addr = fields.filterMap graph.addressOf := by
                unfold ObjectGraph.tracedAtOnce
                rw [found]
                cases space with
                | small => exact absurd rfl notSmall
                | large => rfl
                | external => rfl
              cases space with
              | small =>
                  have none : graph.tracedAtOnce addr = [] := by
                    unfold ObjectGraph.tracedAtOnce
                    rw [found]
                  simp only [Option.isSome_some, if_true, DepthFirst.explore, none, List.foldl_nil]
                  split
                  next isVisited => exact Finset.insert_eq_of_mem isVisited
                  next => rfl
              | large =>
                  simp only [Option.isSome_some, if_true, DepthFirst.explore, traced nofun, fold]
              | external =>
                  simp only [Option.isSome_some, if_true, DepthFirst.explore, traced nofun, fold]

theorem mem_addresses {addr : ℕ} (traces : graph.tracedAtOnce addr ≠ []) :
    addr ∈ (graph.objects.map Prod.fst).toFinset := by
  rw [List.mem_toFinset]
  by_contra outside
  apply traces
  have notFound : graph.objectAt addr = none := by
    apply List.lookup_eq_none_iff.mpr
    intro entry member
    apply bne_iff_ne.mpr
    rintro rfl
    exact outside (List.mem_map_of_mem member)
  unfold ObjectGraph.tracedAtOnce
  rw [notFound]

theorem depth_enough (visited : Finset ℕ) :
    ((graph.objects.map Prod.fst).toFinset \ visited).card < graph.objects.length + 1 := by
  have fewer := Finset.card_le_card (Finset.sdiff_subset :
    (graph.objects.map Prod.fst).toFinset \ visited ⊆ (graph.objects.map Prod.fst).toFinset)
  have atMost := List.toFinset_card_le (graph.objects.map Prod.fst)
  rw [List.length_map] at atMost
  omega

variable {before after : Marking} {ref : Ref} {collector : Collector} {addr : ℕ}

theorem subset_visit (marking : Marking) (ref : Ref) (collector : Collector) :
    marking.visited ⊆ (collector.visit graph marking ref).visited := by
  cases collector with
  | semi =>
      unfold Collector.visit
      dsimp only
      rw [semiVisit_eq]
      split
      · exact DepthFirst.explore_subset _ _ _
      · exact subset_rfl
  | mmc => exact subset_rfl
  | pcc => exact subset_rfl

/-- A later visit visits nothing that an earlier one would not have visited. -/
theorem visit_of_subset (subset : before.visited ⊆ after.visited)
    (isVisited : addr ∈ (collector.visit graph after ref).visited) :
    addr ∈ after.visited ∨ addr ∈ (collector.visit graph before ref).visited := by
  cases collector with
  | semi =>
      unfold Collector.visit at isVisited ⊢
      dsimp only at isVisited ⊢
      rw [semiVisit_eq] at isVisited ⊢
      cases isAddress : graph.addressOf ref with
      | none =>
          rw [isAddress] at isVisited
          exact .inl isVisited
      | some start =>
          rw [isAddress] at isVisited
          exact DepthFirst.explore_of_subset (fun _ => mem_addresses graph)
            (depth_enough graph _) subset isVisited
  | mmc => exact .inl isVisited
  | pcc => exact .inl isVisited

/-- A key that has not been visited is an object without a mark. -/
theorem key_eq_false_iff {marking : Marking} :
    gcVisitEphemeronKey graph marking ref = false ↔
      ∃ addr object, ref = .object addr ∧ graph.objectAt addr = some object ∧
        object.space ≠ .external ∧ addr ∉ marking.visited := by
  cases ref with
  | null => simp [gcVisitEphemeronKey]
  | immediate bits => simp [gcVisitEphemeronKey]
  | object addr =>
      unfold gcVisitEphemeronKey
      dsimp only
      cases found : graph.objectAt addr with
      | none => simp [found]
      | some object =>
          obtain ⟨space, fields⟩ := object
          cases space <;> simp [found]

/-- What has been visited stays visited. -/
theorem key_of_subset (subset : before.visited ⊆ after.visited)
    (isVisited : gcVisitEphemeronKey graph before ref = true) :
    gcVisitEphemeronKey graph after ref = true := by
  by_contra notVisited
  rw [Bool.not_eq_true] at notVisited
  obtain ⟨addr, object, isObject, found, notExtern, unmarked⟩ :=
    (key_eq_false_iff graph).mp notVisited
  have wasFresh : gcVisitEphemeronKey graph before ref = false :=
    (key_eq_false_iff graph).mpr ⟨addr, object, isObject, found, notExtern,
      fun wasMarked => unmarked (subset wasMarked)⟩
  rw [isVisited] at wasFresh
  cases wasFresh

end Visits

/-! ## The order -/

section Order

variable (collector : Collector) (graph : ObjectGraph) (objectOf : ℕ → Ref)

/-- The finalizers that fire, if they are resolved one after the other. -/
def fires : Marking → List ℕ → List ℕ
  | _, [] => []
  | marking, finalizer :: rest =>
      if gcVisitEphemeronKey graph marking (objectOf finalizer) then fires marking rest
      else finalizer :: fires (collector.visit graph marking (objectOf finalizer)) rest

/-- What is marked after that. -/
def marks : Marking → List ℕ → Marking
  | marking, [] => marking
  | marking, finalizer :: rest =>
      if gcVisitEphemeronKey graph marking (objectOf finalizer) then marks marking rest
      else marks (collector.visit graph marking (objectOf finalizer)) rest

/-- No visit of the object of a finalizer visits that of another. -/
def Apart (marking : Marking) (members : List ℕ) : Prop :=
  ∀ first ∈ members, ∀ second ∈ members, first ≠ second →
    gcVisitEphemeronKey graph marking (objectOf first) = false →
      gcVisitEphemeronKey graph marking (objectOf second) = false →
        gcVisitEphemeronKey graph (collector.visit graph marking (objectOf first))
          (objectOf second) = false

variable {collector graph objectOf} {marking : Marking} {members : List ℕ}

theorem fires_append (before after : List ℕ) :
    fires collector graph objectOf marking (before ++ after) =
      fires collector graph objectOf marking before ++
        fires collector graph objectOf (marks collector graph objectOf marking before) after := by
  induction before generalizing marking with
  | nil => rfl
  | cons finalizer before inductionHypothesis =>
      rw [List.cons_append]
      by_cases isVisited : gcVisitEphemeronKey graph marking (objectOf finalizer) = true
      · simp only [fires, marks, isVisited, if_true]
        exact inductionHypothesis
      · simp only [fires, marks, if_neg isVisited]
        rw [inductionHypothesis, List.cons_append]

theorem marks_append (before after : List ℕ) :
    marks collector graph objectOf marking (before ++ after) =
      marks collector graph objectOf (marks collector graph objectOf marking before) after := by
  induction before generalizing marking with
  | nil => rfl
  | cons finalizer before inductionHypothesis =>
      rw [List.cons_append]
      by_cases isVisited : gcVisitEphemeronKey graph marking (objectOf finalizer) = true
      · simp only [marks, isVisited, if_true]
        exact inductionHypothesis
      · simp only [marks, if_neg isVisited]
        exact inductionHypothesis

theorem fires_sublist (order : List ℕ) :
    (fires collector graph objectOf marking order).Sublist order := by
  induction order generalizing marking with
  | nil => exact .slnil
  | cons first order inductionHypothesis =>
      unfold fires
      split
      · exact (inductionHypothesis).cons first
      · exact (inductionHypothesis).cons_cons first

theorem mem_of_mem_fires {finalizer : ℕ} {order : List ℕ}
    (isFired : finalizer ∈ fires collector graph objectOf marking order) : finalizer ∈ order :=
  (fires_sublist order).subset isFired

/-- What the finalizers that are done with have visited. -/
structure Grown (collector : Collector) (graph : ObjectGraph) (objectOf : ℕ → Ref)
    (entry : Marking) (done : List ℕ) (marking : Marking) : Prop where
  subset : entry.visited ⊆ marking.visited
  sound : ∀ addr ∈ marking.visited, addr ∈ entry.visited ∨ ∃ finalizer ∈ done,
    gcVisitEphemeronKey graph entry (objectOf finalizer) = false ∧
      addr ∈ (collector.visit graph entry (objectOf finalizer)).visited

theorem Grown.visit {entry : Marking} {done : List ℕ} {finalizer : ℕ}
    (grown : Grown collector graph objectOf entry done marking)
    (fresh : gcVisitEphemeronKey graph entry (objectOf finalizer) = false) :
    Grown collector graph objectOf entry (finalizer :: done)
      (collector.visit graph marking (objectOf finalizer)) where
  subset := grown.subset.trans (subset_visit graph marking (objectOf finalizer) collector)
  sound addr isVisited := by
    rcases visit_of_subset graph grown.subset isVisited with already | onEntry
    · rcases grown.sound addr already with before | ⟨other, isDone, wasFresh, visits⟩
      · exact .inl before
      · exact .inr ⟨other, List.mem_cons_of_mem _ isDone, wasFresh, visits⟩
    · exact .inr ⟨finalizer, List.mem_cons_self, fresh, onEntry⟩

/-- If the objects are apart, a finalizer that is still to be resolved sees what it would have seen
on entry. -/
theorem Grown.key_eq {entry : Marking} {done : List ℕ} {finalizer : ℕ}
    (grown : Grown collector graph objectOf entry done marking)
    (apart : Apart collector graph objectOf entry members) (member : finalizer ∈ members)
    (notDone : finalizer ∉ done) (doneMembers : ∀ other ∈ done, other ∈ members) :
    gcVisitEphemeronKey graph marking (objectOf finalizer) =
      gcVisitEphemeronKey graph entry (objectOf finalizer) := by
  cases onEntry : gcVisitEphemeronKey graph entry (objectOf finalizer) with
  | true =>
      exact key_of_subset graph grown.subset onEntry
  | false =>
      obtain ⟨addr, object, isObject, found, notExtern, unmarked⟩ :=
        (key_eq_false_iff graph).mp onEntry
      refine (key_eq_false_iff graph).mpr ⟨addr, object, isObject, found, notExtern, ?_⟩
      intro isVisited
      rcases grown.sound addr isVisited with before | ⟨other, isDone, wasFresh, visits⟩
      · exact unmarked before
      · have different : other ≠ finalizer := by
          rintro rfl
          exact notDone isDone
        have keptFresh := apart other (doneMembers other isDone) finalizer member different wasFresh
          onEntry
        obtain ⟨same, -, isSame, -, -, stillUnmarked⟩ := (key_eq_false_iff graph).mp keptFresh
        rw [isObject] at isSame
        cases isSame
        exact stillUnmarked visits

/-- If the objects are apart, those fire that were not visited on entry. -/
theorem mem_fires_iff {entry : Marking} {done order : List ℕ} {finalizer : ℕ}
    (grown : Grown collector graph objectOf entry done marking)
    (apart : Apart collector graph objectOf entry members) (distinct : order.Nodup)
    (disjoint : ∀ other ∈ order, other ∉ done) (orderMembers : ∀ other ∈ order, other ∈ members)
    (doneMembers : ∀ other ∈ done, other ∈ members) :
    finalizer ∈ fires collector graph objectOf marking order ↔
      finalizer ∈ order ∧ gcVisitEphemeronKey graph entry (objectOf finalizer) = false := by
  induction order generalizing marking done with
  | nil => simp [fires]
  | cons first order inductionHypothesis =>
      obtain ⟨outside, distinct⟩ := List.nodup_cons.mp distinct
      have sees := grown.key_eq apart (orderMembers first List.mem_cons_self)
        (disjoint first List.mem_cons_self) doneMembers
      have restMembers (other : ℕ) (member : other ∈ order) : other ∈ members :=
        orderMembers other (List.mem_cons_of_mem _ member)
      unfold fires
      rw [sees]
      cases onEntry : gcVisitEphemeronKey graph entry (objectOf first) with
      | true =>
          rw [if_pos rfl, inductionHypothesis grown distinct (fun other member =>
            disjoint other (List.mem_cons_of_mem _ member)) restMembers doneMembers,
            List.mem_cons]
          constructor
          · rintro ⟨member, fresh⟩
            exact ⟨.inr member, fresh⟩
          · rintro ⟨rfl | member, fresh⟩
            · rw [onEntry] at fresh
              cases fresh
            · exact ⟨member, fresh⟩
      | false =>
          have nextDisjoint (other : ℕ) (member : other ∈ order) : other ∉ first :: done := by
            intro isDone
            rcases List.mem_cons.mp isDone with rfl | before
            · exact outside member
            · exact disjoint other (List.mem_cons_of_mem _ member) before
          have nextMembers (other : ℕ) (isDone : other ∈ first :: done) : other ∈ members := by
            rcases List.mem_cons.mp isDone with rfl | before
            · exact orderMembers other List.mem_cons_self
            · exact doneMembers other before
          rw [if_neg Bool.false_ne_true, List.mem_cons, inductionHypothesis (grown.visit onEntry)
            distinct nextDisjoint restMembers nextMembers, List.mem_cons]
          constructor
          · rintro (rfl | ⟨member, fresh⟩)
            · exact ⟨.inl rfl, onEntry⟩
            · exact ⟨.inr member, fresh⟩
          · rintro ⟨rfl | member, fresh⟩
            · exact .inl rfl
            · exact .inr ⟨member, fresh⟩

/-- A finalizer whose object has been visited does not fire. -/
theorem not_mem_fires {finalizer : ℕ} {order : List ℕ}
    (isVisited : gcVisitEphemeronKey graph marking (objectOf finalizer) = true) :
    finalizer ∉ fires collector graph objectOf marking order := by
  induction order generalizing marking with
  | nil => exact nofun
  | cons first order inductionHypothesis =>
      unfold fires
      split
      · exact inductionHypothesis isVisited
      next fresh =>
        rw [List.mem_cons, not_or]
        constructor
        · rintro rfl
          exact fresh isVisited
        · exact inductionHypothesis
            (key_of_subset graph (subset_visit graph marking _ collector) isVisited)

/-- The visits of mmc and pcc mark nothing. -/
theorem apart_of_ne_semi (notSemi : collector ≠ .semi) :
    Apart collector graph objectOf marking members := by
  intro first _ second _ _ _ fresh
  cases collector with
  | semi => exact absurd rfl notSemi
  | mmc => exact fresh
  | pcc => exact fresh

/-- If the objects are apart, those fire that were not visited, in any order. -/
theorem Apart.mem_fires_iff {finalizer : ℕ} {order : List ℕ}
    (apart : Apart collector graph objectOf marking members) (distinct : order.Nodup)
    (orderMembers : ∀ other ∈ order, other ∈ members) :
    finalizer ∈ fires collector graph objectOf marking order ↔
      finalizer ∈ order ∧ gcVisitEphemeronKey graph marking (objectOf finalizer) = false := by
  have initially : Grown collector graph objectOf marking [] marking :=
    ⟨subset_rfl, fun _ => .inl⟩
  apply Finalizers.mem_fires_iff initially apart distinct
  · intro other _
    exact List.not_mem_nil
  · exact orderMembers
  · intro other isDone
    cases isDone

end Order

end Whippet.Finalizers
