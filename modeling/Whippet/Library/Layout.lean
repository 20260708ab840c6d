import Mathlib

/-!
Items laid out one after another.

A layout is a list of items with their positions. The first item is at the start, each other item
begins where the one before it ends, and the layout ends with its last item.

Owns: what appending an item does, that items keep within the bounds and apart from each other, and
that items from disjoint places of a range take no more room than the range.
-/

namespace Whippet

variable {Item : Type*} (length : Item → ℕ)

/-- The items lie one after another from `start` to `finish`. -/
def LaidOut : ℕ → List (Item × ℕ) → ℕ → Prop
  | start, [], finish => finish = start
  | start, (item, position) :: rest, finish =>
      position = start ∧ LaidOut (start + length item) rest finish

namespace LaidOut

variable {length} {start finish : ℕ} {placed : List (Item × ℕ)} {item other : Item}
variable {position place : ℕ}

theorem nil : LaidOut length start [] start := rfl

theorem append (laidOut : LaidOut length start placed finish) (item : Item) :
    LaidOut length start (placed ++ [(item, finish)]) (finish + length item) := by
  induction placed generalizing start with
  | nil =>
      cases laidOut
      exact ⟨rfl, rfl⟩
  | cons head rest inductionHypothesis =>
      obtain ⟨atStart, laidOut⟩ := laidOut
      exact ⟨atStart, inductionHypothesis laidOut⟩

theorem finish_eq (laidOut : LaidOut length start placed finish) :
    finish = start + (placed.map fun pair => length pair.1).sum := by
  induction placed generalizing start with
  | nil =>
      cases laidOut
      simp
  | cons head rest inductionHypothesis =>
      obtain ⟨-, laidOut⟩ := laidOut
      rw [inductionHypothesis laidOut, List.map_cons, List.sum_cons]
      omega

theorem start_le_finish (laidOut : LaidOut length start placed finish) : start ≤ finish := by
  rw [laidOut.finish_eq]
  omega

/-- An item keeps within the bounds of the layout. -/
theorem bounds (laidOut : LaidOut length start placed finish) (member : (item, position) ∈ placed) :
    start ≤ position ∧ position + length item ≤ finish := by
  induction placed generalizing start with
  | nil => cases member
  | cons head rest inductionHypothesis =>
      obtain ⟨atStart, laidOut⟩ := laidOut
      rcases List.mem_cons.mp member with rfl | inRest
      · have below := laidOut.start_le_finish
        dsimp only at atStart below
        omega
      · have within := inductionHypothesis laidOut inRest
        omega

/-- Where one item ends, the layout ends or another item begins. -/
theorem next (laidOut : LaidOut length start placed finish) (member : (item, position) ∈ placed) :
    position + length item = finish ∨ ∃ other, (other, position + length item) ∈ placed := by
  induction placed generalizing start with
  | nil => cases member
  | cons head rest inductionHypothesis =>
      obtain ⟨atStart, laidOut⟩ := laidOut
      rcases List.mem_cons.mp member with rfl | inRest
      · dsimp only at atStart
        subst atStart
        cases rest with
        | nil => exact Or.inl laidOut.symm
        | cons second rest =>
            refine Or.inr ⟨second.1, List.mem_cons_of_mem _ ?_⟩
            rw [← laidOut.1]
            exact List.mem_cons_self
      · rcases inductionHypothesis laidOut inRest with atEnd | ⟨other, isNext⟩
        · exact Or.inl atEnd
        · exact Or.inr ⟨other, List.mem_cons_of_mem _ isNext⟩

/-- Two items are the same entry, or one ends before the other begins. -/
theorem apart (laidOut : LaidOut length start placed finish) (member : (item, position) ∈ placed)
    (otherMember : (other, place) ∈ placed) :
    (item, position) = (other, place) ∨ position + length item ≤ place ∨
      place + length other ≤ position := by
  induction placed generalizing start with
  | nil => cases member
  | cons head rest inductionHypothesis =>
      obtain ⟨atStart, laidOut⟩ := laidOut
      rcases List.mem_cons.mp member with rfl | inRest
      · rcases List.mem_cons.mp otherMember with same | otherInRest
        · exact Or.inl same.symm
        · have within := laidOut.bounds otherInRest
          dsimp only at atStart within
          omega
      · rcases List.mem_cons.mp otherMember with rfl | otherInRest
        · have within := laidOut.bounds inRest
          dsimp only at atStart within
          omega
        · exact inductionHypothesis laidOut inRest otherInRest

/-- Items of positive length are told apart by their positions. -/
theorem item_unique (laidOut : LaidOut length start placed finish)
    (member : (item, position) ∈ placed) (otherMember : (other, position) ∈ placed)
    (positive : 0 < length item) (otherPositive : 0 < length other) : item = other := by
  rcases laidOut.apart member otherMember with same | before | after
  · exact congrArg Prod.fst same
  · omega
  · omega

end LaidOut

/-- Items at disjoint places of a range take no more room than the range. -/
theorem sum_length_le {length : ℕ → ℕ} {low high : ℕ} (places : Finset ℕ)
    (within : ∀ place ∈ places, low ≤ place ∧ place + length place ≤ high)
    (apart : ∀ left ∈ places, ∀ right ∈ places, left < right → left + length left ≤ right) :
    ∑ place ∈ places, length place ≤ high - low := by
  have disjoint : (places : Set ℕ).PairwiseDisjoint
      fun place => Finset.Ico place (place + length place) := by
    intro left leftMember right rightMember different
    rw [Function.onFun, Finset.disjoint_left]
    intro point inLeft inRight
    rw [Finset.mem_Ico] at inLeft inRight
    rcases lt_or_gt_of_ne different with below | above
    · have before := apart left leftMember right rightMember below
      omega
    · have before := apart right rightMember left leftMember above
      omega
  calc ∑ place ∈ places, length place
      = ∑ place ∈ places, (Finset.Ico place (place + length place)).card := by simp
    _ = (places.biUnion fun place => Finset.Ico place (place + length place)).card :=
        (Finset.card_biUnion disjoint).symm
    _ ≤ (Finset.Ico low high).card := by
        apply Finset.card_le_card
        intro point inUnion
        rw [Finset.mem_biUnion] at inUnion
        obtain ⟨place, member, inPlace⟩ := inUnion
        have bounds := within place member
        rw [Finset.mem_Ico] at inPlace ⊢
        omega
    _ = high - low := Nat.card_Ico low high

/-- Distinct items from disjoint places of a range, laid out anew, take no more room than the
range. -/
theorem LaidOut.finish_le {length : ℕ → ℕ} {start finish low high : ℕ}
    {placed : List (ℕ × ℕ)} (laidOut : LaidOut length start placed finish)
    (distinct : (placed.map Prod.fst).Nodup)
    (within : ∀ place ∈ placed.map Prod.fst, low ≤ place ∧ place + length place ≤ high)
    (apart : ∀ left ∈ placed.map Prod.fst, ∀ right ∈ placed.map Prod.fst, left < right →
      left + length left ≤ right) :
    finish ≤ start + (high - low) := by
  have bounded : ∑ place ∈ (placed.map Prod.fst).toFinset, length place ≤ high - low :=
    sum_length_le _ (by simpa using within) (by simpa using apart)
  rw [List.sum_toFinset _ distinct, List.map_map] at bounded
  have whole : finish = start + (placed.map (length ∘ Prod.fst)).sum := laidOut.finish_eq
  have same : (fun place => length place) ∘ Prod.fst = (length ∘ Prod.fst : ℕ × ℕ → ℕ) := rfl
  rw [same] at bounded
  omega

end Whippet
