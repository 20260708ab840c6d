import Mathlib.Data.List.Nodup
import Mathlib.Data.List.TakeWhile

/-!
What is in front of an item of a list.

The front of an item that is not in the list is the whole list, so that a value that is in no list
can stand for the end of each.

Owns: fronts, how they change when the list grows at its head or is entered from its middle, and the
first item with a property. Does not own: what the items are.
-/

namespace Whippet.Fronts

variable {Item : Type} [DecidableEq Item] {list before after : List Item} {item other first : Item}

def front (list : List Item) (item : Item) : List Item := list.takeWhile fun other => other ≠ item

theorem ne_of_mem_front (inFront : other ∈ front list item) : other ≠ item := by
  rw [front] at inFront
  have differs := List.mem_takeWhile_imp inFront
  exact of_decide_eq_true differs

theorem mem_of_mem_front (inFront : other ∈ front list item) : other ∈ list :=
  (List.takeWhile_subset _) inFront

theorem front_cons_of_ne (different : first ≠ item) :
    front (first :: list) item = first :: front list item :=
  List.takeWhile_cons_of_pos (decide_eq_true different)

theorem front_append_of_not_mem (outside : item ∉ before) :
    front (before ++ after) item = before ++ front after item := by
  induction before with
  | nil => rfl
  | cons head tail inductionHypothesis =>
      rw [List.cons_append, front_cons_of_ne (List.ne_of_not_mem_cons outside).symm,
        inductionHypothesis (List.not_mem_of_not_mem_cons outside), List.cons_append]

theorem front_cons_self (item : Item) (list : List Item) : front (item :: list) item = [] :=
  List.takeWhile_cons_of_neg (by simp)

theorem front_of_not_mem (outside : item ∉ list) : front list item = list := by
  have whole : front (list ++ []) item = list ++ [] := front_append_of_not_mem outside
  rwa [List.append_nil] at whole

/-- An item divides a list into its front, itself and the rest. -/
theorem exists_split (member : item ∈ list) : ∃ rest, list = front list item ++ item :: rest := by
  induction list with
  | nil => cases member
  | cons head tail inductionHypothesis =>
      by_cases same : head = item
      · subst same
        exact ⟨tail, by rw [front_cons_self, List.nil_append]⟩
      · rcases List.mem_cons.mp member with isHead | inTail
        · exact absurd isHead.symm same
        · obtain ⟨rest, split⟩ := inductionHypothesis inTail
          refine ⟨rest, ?_⟩
          rw [front_cons_of_ne same, List.cons_append, ← split]

/-- The front of what is behind an item has all in front of that item, and the item. -/
theorem front_of_behind (distinct : list.Nodup) (split : list = before ++ first :: after)
    (behind : item ∈ after ∨ item ∉ list) :
    front list item = before ++ first :: front after item := by
  have outside : item ∉ before ++ [first] := by
    intro member
    rcases behind with inAfter | notThere
    · rw [split, ← List.singleton_append, ← List.append_assoc] at distinct
      exact (List.nodup_append.mp distinct).2.2 _ member _ inAfter rfl
    · apply notThere
      rw [split, ← List.singleton_append, ← List.append_assoc]
      exact List.mem_append_left _ member
  have regroup : list = (before ++ [first]) ++ after := by
    rw [split, List.append_assoc, List.singleton_append]
  rw [regroup, front_append_of_not_mem outside, List.append_assoc, List.singleton_append]

/-- The first item with a property, or `item` if that is in the list and has it, or is not in the
list and stands for its end, and none in front of it has it. -/
theorem find?_getD_eq {property : Item → Bool} {default : Item}
    (isFirst : item ∈ list ∧ property item = true ∨ item ∉ list ∧ item = default)
    (noneInFront : ∀ other ∈ front list item, property other = false) :
    (list.find? property).getD default = item := by
  induction list with
  | nil =>
      rcases isFirst with ⟨member, -⟩ | ⟨-, isDefault⟩
      · cases member
      · exact isDefault.symm
  | cons head tail inductionHypothesis =>
      by_cases same : head = item
      · subst same
        rcases isFirst with ⟨-, has⟩ | ⟨outside, -⟩
        · rw [List.find?_cons_of_pos has]
          rfl
        · exact absurd List.mem_cons_self outside
      · rw [front_cons_of_ne same] at noneInFront
        have without : ¬property head = true := by
          rw [noneInFront head List.mem_cons_self]
          exact Bool.false_ne_true
        rw [List.find?_cons_of_neg without]
        apply inductionHypothesis
        · rcases isFirst with ⟨member, has⟩ | ⟨outside, isDefault⟩
          · exact .inl ⟨(List.mem_cons.mp member).resolve_left (Ne.symm same), has⟩
          · exact .inr ⟨List.not_mem_of_not_mem_cons outside, isDefault⟩
        · intro other inFront
          exact noneInFront other (List.mem_cons_of_mem _ inFront)

end Whippet.Fronts
