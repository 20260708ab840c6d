import Mathlib.Algebra.BigOperators.Intervals
import Mathlib.Algebra.Order.BigOperators.Group.Finset
import Mathlib.Logic.Function.Basic

/-!
Choosing items by quotas for classes.

A first pass cuts the quotas of the classes, in their order, to what a budget allows. A second pass
goes through a list of items and chooses each one whose class has quota left.

Owns: both passes, that what is chosen stays within the budget, and that it is a prefix in the
order of classes and then of positions. Does not own: what the items are, or where the quotas come
from.
-/

namespace Whippet.Quotas

open Function

/-! ## Cutting quotas -/

section Cut

variable {weight quota : ℕ → ℕ} {rounds first budget class' : ℕ}

/-- Cuts the quotas of `rounds` classes from `first` on: in full while the budget lasts, what is
left of it to the first class that is too much, and nothing to those after it. -/
def cut (weight : ℕ → ℕ) : ℕ → ℕ → ℕ → (ℕ → ℕ) → ℕ → ℕ
  | 0, _, _, quota => quota
  | rounds + 1, first, budget, quota =>
      let cost := weight first * quota first
      if cost ≤ budget then cut weight rounds (first + 1) (budget - cost) quota
      else cut weight rounds (first + 1) 0 (update quota first (budget / weight first))

/-- Other classes keep their quotas. -/
theorem cut_of_outside (outside : class' < first ∨ first + rounds ≤ class') :
    cut weight rounds first budget quota class' = quota class' := by
  induction rounds generalizing first budget quota with
  | zero => rfl
  | succ rounds inductionHypothesis =>
      have stillOutside : class' < first + 1 ∨ first + 1 + rounds ≤ class' := by omega
      rw [cut]
      split
      · exact inductionHypothesis stillOutside
      · rw [inductionHypothesis stillOutside, update_of_ne (by omega)]

/-- The items that the quotas allow cost no more than the budget. -/
theorem sum_cut_le (weight quota : ℕ → ℕ) (rounds first budget : ℕ) :
    ∑ class' ∈ Finset.Ico first (first + rounds),
      weight class' * cut weight rounds first budget quota class' ≤ budget := by
  induction rounds generalizing quota first budget with
  | zero => simp
  | succ rounds inductionHypothesis =>
      have shifted : first + (rounds + 1) = first + 1 + rounds := by omega
      rw [Finset.sum_eq_sum_Ico_succ_bot (by omega), shifted, cut]
      split
      next within =>
        have rest := inductionHypothesis quota (first + 1) (budget - weight first * quota first)
        rw [cut_of_outside (.inl (Nat.lt_succ_self first))]
        omega
      next exceeded =>
        have rest := inductionHypothesis (update quota first (budget / weight first)) (first + 1) 0
        rw [cut_of_outside (.inl (Nat.lt_succ_self first)), update_self]
        have cost := Nat.mul_div_le budget (weight first)
        omega

/-- With no budget, classes that cost something get nothing. -/
theorem cut_eq_zero_of_no_budget (quota : ℕ → ℕ) (inside : first ≤ class')
    (below : class' < first + rounds) (costs : 0 < weight class') :
    cut weight rounds first 0 quota class' = 0 := by
  have none := Nat.le_zero.mp (sum_cut_le weight quota rounds first 0)
  have member : class' ∈ Finset.Ico first (first + rounds) := Finset.mem_Ico.mpr ⟨inside, below⟩
  have product := Finset.sum_eq_zero_iff.mp none class' member
  rcases Nat.mul_eq_zero.mp product with free | isZero
  · omega
  · exact isZero

/-- If a class gets something, all classes before it keep their quotas. -/
theorem cut_eq_of_lt {earlier : ℕ} (gets : 0 < cut weight rounds first budget quota class')
    (costs : 0 < weight class') (below : class' < first + rounds) (inside : first ≤ earlier)
    (isEarlier : earlier < class') :
    cut weight rounds first budget quota earlier = quota earlier := by
  induction rounds generalizing first budget quota with
  | zero => rfl
  | succ rounds inductionHypothesis =>
      rw [cut] at gets ⊢
      split at gets
      next within =>
        rw [if_pos within]
        rcases Nat.eq_or_lt_of_le inside with rfl | later
        · exact cut_of_outside (.inl (Nat.lt_succ_self _))
        · exact inductionHypothesis gets (by omega) later
      next exceeded =>
        have later : first + 1 ≤ class' := by omega
        have nothing := cut_eq_zero_of_no_budget (update quota first (budget / weight first)) later
          (by omega : class' < first + 1 + rounds) costs
        omega

end Cut

/-! ## Choosing items -/

section Choose

variable {Item : Type*} {classOf : Item → ℕ} {items : List Item} {quota : ℕ → ℕ}

/-- Goes through the items and chooses those whose class has quota left. -/
def choose (classOf : Item → ℕ) : List Item → (ℕ → ℕ) → List Bool
  | [], _ => []
  | item :: items, quota =>
      if quota (classOf item) ≠ 0 then
        true :: choose classOf items (update quota (classOf item) (quota (classOf item) - 1))
      else false :: choose classOf items quota

/-- The number of items of the same class before a position. -/
def rank (classOf : Item → ℕ) (items : List Item) (index : Fin items.length) : ℕ :=
  (items.take index).countP fun item => classOf item = classOf (items.get index)

/-- An item is chosen if its class still had quota when its turn came. -/
theorem choose_eq (classOf : Item → ℕ) (items : List Item) (quota : ℕ → ℕ)
    (index : Fin items.length) :
    (choose classOf items quota)[index]? =
      some (decide (rank classOf items index < quota (classOf (items.get index)))) := by
  induction items generalizing quota with
  | nil => exact index.elim0
  | cons item items inductionHypothesis =>
      obtain ⟨position, isPosition⟩ := index
      cases position with
      | zero =>
          rw [choose]
          split
          next positive => simp [rank, Nat.pos_of_ne_zero positive]
          next zero =>
            have none : quota (classOf item) = 0 := not_not.mp zero
            simp [rank, none]
      | succ position =>
          have isTail : position < items.length := by simpa using isPosition
          have counted : rank classOf (item :: items) ⟨position + 1, isPosition⟩ =
              rank classOf items ⟨position, isTail⟩ +
                if classOf item = classOf (items.get ⟨position, isTail⟩) then 1 else 0 := by
            simp [rank, List.countP_cons]
          have got : (item :: items).get ⟨position + 1, isPosition⟩ =
              items.get ⟨position, isTail⟩ := rfl
          rw [counted, got, choose]
          split
          next positive =>
            have tail := inductionHypothesis
              (update quota (classOf item) (quota (classOf item) - 1)) ⟨position, isTail⟩
            simp only [Fin.getElem?_fin, List.getElem?_cons_succ] at tail ⊢
            rw [tail]
            by_cases same : classOf item = classOf (items.get ⟨position, isTail⟩)
            · rw [if_pos same, ← same, update_self]
              congr 2
              apply propext
              omega
            · rw [if_neg same, update_of_ne (Ne.symm same), Nat.add_zero]
          next zero =>
            have none : quota (classOf item) = 0 := not_not.mp zero
            have tail := inductionHypothesis quota ⟨position, isTail⟩
            simp only [Fin.getElem?_fin, List.getElem?_cons_succ] at tail ⊢
            rw [tail]
            by_cases same : classOf item = classOf (items.get ⟨position, isTail⟩)
            · rw [if_pos same, ← same, none]
              simp
            · rw [if_neg same, Nat.add_zero]

theorem rank_le_rank {first second : Fin items.length} (inOrder : first ≤ second)
    (same : classOf (items.get first) = classOf (items.get second)) :
    rank classOf items first ≤ rank classOf items second := by
  rw [rank, rank, same]
  apply List.Sublist.countP_le
  exact List.take_sublist_take_left inOrder

/-- An item is one of those of its class. -/
theorem rank_lt_countP (index : Fin items.length) : rank classOf items index <
    items.countP fun item => classOf item = classOf (items.get index) := by
  have upTo : (items.take (index + 1)).countP
    (fun item => classOf item = classOf (items.get index)) =
      rank classOf items index + 1 := by
    rw [List.take_succ_eq_append_getElem index.isLt, List.countP_append, rank]
    simp
  have all := List.Sublist.countP_le (p := fun item => classOf item = classOf (items.get index))
    (List.take_sublist (index + 1) items)
  omega

/-- With quotas cut from the numbers of items to a budget, the chosen items are a prefix in the
order of classes and then of positions. -/
theorem chosen_of_chosen_later {weight : ℕ → ℕ} {rounds budget : ℕ}
    (costs : ∀ class', 0 < class' → 0 < weight class') (inClasses : ∀ item, classOf item < rounds)
    {first second : Fin items.length}
    (isQuota : cut weight rounds 0 budget
      (fun class' => items.countP fun item => classOf item = class') = quota)
    (isChosen : rank classOf items second < quota (classOf (items.get second)))
    (isBefore : classOf (items.get first) < classOf (items.get second) ∨
      classOf (items.get first) = classOf (items.get second) ∧ first ≤ second) :
    rank classOf items first < quota (classOf (items.get first)) := by
  rcases isBefore with lower | ⟨same, inOrder⟩
  · have gets : 0 < cut weight rounds 0 budget
        (fun class' => items.countP fun item => classOf item = class')
        (classOf (items.get second)) := by
      rw [isQuota]
      omega
    have kept := cut_eq_of_lt gets (costs _ (by omega)) (by simpa using inClasses _)
      (Nat.zero_le _) lower
    rw [isQuota] at kept
    rw [kept]
    exact rank_lt_countP first
  · rw [same]
    exact (rank_le_rank inOrder same).trans_lt isChosen

/-- What the chosen items cost. -/
def cost (classOf : Item → ℕ) (weight : ℕ → ℕ) : List Item → List Bool → ℕ
  | item :: items, true :: choices => weight (classOf item) + cost classOf weight items choices
  | _ :: items, false :: choices => cost classOf weight items choices
  | _, _ => 0

/-- The items that are chosen cost no more than all that the quotas allow. -/
theorem cost_choose_le (weight quota : ℕ → ℕ) {classes : Finset ℕ} (items : List Item)
    (inClasses : ∀ item ∈ items, classOf item ∈ classes) :
    cost classOf weight items (choose classOf items quota) ≤
      ∑ class' ∈ classes, weight class' * quota class' := by
  induction items generalizing quota with
  | nil => exact Nat.zero_le _
  | cons item items inductionHypothesis =>
      have ofTail : ∀ other ∈ items, classOf other ∈ classes :=
        fun other member => inClasses other (List.mem_cons_of_mem _ member)
      rw [choose]
      split
      next positive =>
        have tail := inductionHypothesis
          (update quota (classOf item) (quota (classOf item) - 1)) ofTail
        have isClass := inClasses item List.mem_cons_self
        have split := Finset.add_sum_erase classes
          (fun class' => weight class' * quota class') isClass
        have splitAfter := Finset.add_sum_erase classes (fun class' => weight class' *
          update quota (classOf item) (quota (classOf item) - 1) class') isClass
        have sameOthers : ∑ class' ∈ classes.erase (classOf item), weight class' *
              update quota (classOf item) (quota (classOf item) - 1) class' =
            ∑ class' ∈ classes.erase (classOf item), weight class' * quota class' := by
          apply Finset.sum_congr rfl
          intro class' member
          rw [update_of_ne (Finset.ne_of_mem_erase member)]
        have one : weight (classOf item) * quota (classOf item) =
            weight (classOf item) + weight (classOf item) * (quota (classOf item) - 1) := by
          obtain ⟨less, isLess⟩ := Nat.exists_eq_add_one_of_ne_zero positive
          rw [isLess, Nat.add_sub_cancel, Nat.mul_add, Nat.mul_one, Nat.add_comm]
        rw [update_self] at splitAfter
        rw [cost]
        omega
      next =>
        rw [cost]
        exact inductionHypothesis quota ofTail

end Choose

end Whippet.Quotas
