import Mathlib.Data.Finset.Card
import Mathlib.Data.Finset.Insert

/-!
Depth-first visits of a graph.

A visit of a node that has not been visited marks it and goes on to its successors, one after the
other. The depth of the recursion is limited by a number that is big enough if it exceeds the nodes
that have successors and are not visited yet.

Owns: the visit and that it marks what can be reached through nodes that were not visited before.
Does not own: the order of the marks.
-/

namespace Whippet.DepthFirst

variable {Node : Type*}

/-- Paths through nodes that are not visited. -/
inductive Reaches (successors : Node → List Node) (visited : Finset Node) (start : Node) :
    Node → Prop where
  | refl : Reaches successors visited start start
  | step {node next : Node} (path : Reaches successors visited start node)
      (fresh : node ∉ visited) (edge : next ∈ successors node) :
      Reaches successors visited start next

variable {successors : Node → List Node} {visited before middle after whole : Finset Node}
variable {depth : ℕ} {start node next : Node} {nodes : List Node}

namespace Reaches

/-- The more is visited, the fewer paths are left. -/
theorem mono (subset : before ⊆ after) (path : Reaches successors after start node) :
    Reaches successors before start node := by
  induction path with
  | refl => exact .refl
  | step path fresh edge inductionHypothesis =>
      exact .step inductionHypothesis (fun isVisited => fresh (subset isVisited)) edge

theorem trans (first : Reaches successors visited start node)
    (second : Reaches successors visited node next) : Reaches successors visited start next := by
  induction second with
  | refl => exact first
  | step path fresh edge inductionHypothesis => exact .step inductionHypothesis fresh edge

end Reaches

/-- What was visited in between has all its successors visited. -/
structure Explored (successors : Node → List Node) (before after : Finset Node) : Prop where
  subset : before ⊆ after
  closed : ∀ node ∈ after, node ∉ before → ∀ next ∈ successors node, next ∈ after

theorem Explored.refl (visited : Finset Node) : Explored successors visited visited where
  subset := subset_rfl
  closed _ isVisited fresh := absurd isVisited fresh

theorem Explored.trans (first : Explored successors before middle)
    (second : Explored successors middle after) : Explored successors before after where
  subset := first.subset.trans second.subset
  closed node isAfter fresh next edge := by
    by_cases isMiddle : node ∈ middle
    · exact second.subset (first.closed node isMiddle fresh next edge)
    · exact second.closed node isAfter isMiddle next edge

variable [DecidableEq Node]

/-- Visits a node, at a depth of at most the first argument. -/
def explore (successors : Node → List Node) : ℕ → Finset Node → Node → Finset Node
  | 0, visited, _ => visited
  | depth + 1, visited, node =>
      if node ∈ visited then visited
      else (successors node).foldl (explore successors depth) (insert node visited)

theorem explore_subset (depth : ℕ) (visited : Finset Node) (node : Node) :
    visited ⊆ explore successors depth visited node := by
  induction depth generalizing visited node with
  | zero => exact subset_rfl
  | succ depth inductionHypothesis =>
      unfold explore
      split
      · exact subset_rfl
      · apply List.foldlRecOn (motive := fun marks => visited ⊆ marks)
        · exact Finset.subset_insert node visited
        · intro marks subset next _
          exact subset.trans (inductionHypothesis marks next)

/-- Visits only mark what can be reached. -/
theorem reaches_of_mem_explore (isMarked : next ∈ explore successors depth visited node) :
    next ∈ visited ∨ Reaches successors visited node next := by
  induction depth generalizing visited node next with
  | zero => exact .inl isMarked
  | succ depth inductionHypothesis =>
      unfold explore at isMarked
      split at isMarked
      next => exact .inl isMarked
      next fresh =>
        have sound : visited ⊆ (successors node).foldl (explore successors depth)
              (insert node visited) ∧
            ∀ other ∈ (successors node).foldl (explore successors depth) (insert node visited),
              other ∈ visited ∨ Reaches successors visited node other := by
          apply List.foldlRecOn (motive := fun marks => visited ⊆ marks ∧ ∀ other ∈ marks,
            other ∈ visited ∨ Reaches successors visited node other)
          · refine ⟨Finset.subset_insert node visited, ?_⟩
            intro other inserted
            rcases Finset.mem_insert.mp inserted with rfl | before
            · exact .inr .refl
            · exact .inl before
          · rintro marks ⟨subset, sound⟩ successor edge
            refine ⟨subset.trans (explore_subset depth marks successor), ?_⟩
            intro other marked
            rcases inductionHypothesis marked with before | path
            · exact sound other before
            · exact .inr ((Reaches.refl.step fresh edge).trans (path.mono subset))
        exact sound.2 next isMarked

/-- What is still to be visited at a depth. -/
theorem card_lt_of_insert (inWhole : node ∈ whole) (fresh : node ∉ visited)
    (deep : (whole \ visited).card < depth + 1) :
    (whole \ insert node visited).card < depth := by
  have smaller : (whole \ insert node visited).card < (whole \ visited).card := by
    apply Finset.card_lt_card
    refine ⟨Finset.sdiff_subset_sdiff subset_rfl (Finset.subset_insert node visited), ?_⟩
    intro subset
    have kept := subset (Finset.mem_sdiff.mpr ⟨inWhole, fresh⟩)
    exact (Finset.mem_sdiff.mp kept).2 (Finset.mem_insert_self node visited)
  omega

/-- If the depth is big enough, a visit marks the node and leaves nothing half visited. -/
theorem explored (node : Node) (bounded : ∀ node, successors node ≠ [] → node ∈ whole)
    (deep : (whole \ visited).card < depth) :
    Explored successors visited (explore successors depth visited node) ∧
      node ∈ explore successors depth visited node := by
  induction depth generalizing visited node with
  | zero => exact absurd deep (Nat.not_lt_zero _)
  | succ depth inductionHypothesis =>
      unfold explore
      split
      next isVisited => exact ⟨.refl visited, isVisited⟩
      next fresh =>
        -- the successors that are left, one after the other
        have fold (rest : List Node) (marks : Finset Node) (subset : insert node visited ⊆ marks)
            (edges : ∀ other ∈ rest, other ∈ successors node) :
            Explored successors marks (rest.foldl (explore successors depth) marks) ∧
              ∀ other ∈ rest, other ∈ rest.foldl (explore successors depth) marks := by
          induction rest generalizing marks with
          | nil => exact ⟨.refl marks, nofun⟩
          | cons first rest restHypothesis =>
              have edge := edges first List.mem_cons_self
              have inWhole := bounded node (List.ne_nil_of_mem edge)
              have fewer : (whole \ marks).card ≤ (whole \ insert node visited).card :=
                Finset.card_le_card (Finset.sdiff_subset_sdiff subset_rfl subset)
              have deepEnough := card_lt_of_insert inWhole fresh deep
              obtain ⟨visit, isMarked⟩ : Explored successors marks
                  (explore successors depth marks first) ∧
                    first ∈ explore successors depth marks first :=
                inductionHypothesis first (lt_of_le_of_lt fewer deepEnough)
              obtain ⟨others, marked⟩ := restHypothesis (explore successors depth marks first)
                (subset.trans visit.subset) fun other member =>
                  edges other (List.mem_cons_of_mem _ member)
              refine ⟨visit.trans others, ?_⟩
              intro other member
              rcases List.mem_cons.mp member with rfl | later
              · exact others.subset isMarked
              · exact marked other later
        obtain ⟨others, marked⟩ := fold (successors node) (insert node visited) subset_rfl
          fun _ => id
        have isMarked := others.subset (Finset.mem_insert_self node visited)
        refine ⟨⟨(Finset.subset_insert node visited).trans others.subset, ?_⟩, isMarked⟩
        intro other isAfter wasFresh next edge
        by_cases same : other = node
        · subst same
          exact marked next edge
        · refine others.closed other isAfter ?_ next edge
          intro inserted
          rcases Finset.mem_insert.mp inserted with rfl | before
          · exact same rfl
          · exact wasFresh before

/-- If the depth is big enough, a visit marks just what can be reached. -/
theorem mem_explore_iff (bounded : ∀ node, successors node ≠ [] → node ∈ whole)
    (deep : (whole \ visited).card < depth) :
    next ∈ explore successors depth visited node ↔
      next ∈ visited ∨ Reaches successors visited node next := by
  obtain ⟨visit, isMarked⟩ := explored node bounded deep
  constructor
  · exact reaches_of_mem_explore
  · rintro (before | path)
    · exact visit.subset before
    · induction path with
      | refl => exact isMarked
      | step path fresh edge inductionHypothesis =>
          exact visit.closed _ inductionHypothesis fresh _ edge

/-- A later visit marks nothing that an earlier one would not have marked. -/
theorem explore_of_subset (bounded : ∀ node, successors node ≠ [] → node ∈ whole)
    (deep : (whole \ before).card < depth) (subset : before ⊆ after)
    (isMarked : next ∈ explore successors depth after node) :
    next ∈ after ∨ next ∈ explore successors depth before node := by
  rcases reaches_of_mem_explore isMarked with already | path
  · exact .inl already
  · right
    rw [mem_explore_iff bounded deep]
    exact .inr (path.mono subset)

end Whippet.DepthFirst
