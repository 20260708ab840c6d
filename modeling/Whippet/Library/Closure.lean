import Mathlib.Order.Bounds.Basic

/-!
Sets closed under rules with any number of premises.

A rule says that its conclusion is in the set if all of its premises are. A fact is a rule without
premises.

Owns: the derivable nodes, that they are the least closed set, and that a set which is closed and
has derivable nodes only is that set.
-/

namespace Whippet

variable {Node : Type*}

def ClosedUnder (rule : List Node → Node → Prop) (nodes : Set Node) : Prop :=
  ∀ premises conclusion, rule premises conclusion → (∀ premise ∈ premises, premise ∈ nodes) →
    conclusion ∈ nodes

inductive Derivable (rule : List Node → Node → Prop) : Node → Prop where
  | derive {premises : List Node} {conclusion : Node} (isRule : rule premises conclusion)
      (derived : ∀ premise ∈ premises, Derivable rule premise) : Derivable rule conclusion

variable {rule : List Node → Node → Prop} {nodes : Set Node}

theorem Derivable.mem_of_closedUnder {node : Node} (derivable : Derivable rule node)
    (closed : ClosedUnder rule nodes) : node ∈ nodes := by
  induction derivable with
  | derive isRule _ inductionHypothesis => exact closed _ _ isRule inductionHypothesis

/-- Marking is right when it marks derivable nodes only and stops at a closed set. -/
theorem isLeast_of_derivable (sound : ∀ node ∈ nodes, Derivable rule node)
    (closed : ClosedUnder rule nodes) : IsLeast {nodes | ClosedUnder rule nodes} nodes := by
  refine ⟨closed, ?_⟩
  intro other closedOther node isNode
  exact (sound node isNode).mem_of_closedUnder closedOther

end Whippet
