import Mathlib.Data.Multiset.Range
import Mathlib.Logic.Function.Basic

/-!
The first entries of an array as a multiset.

Owns: appending an entry, and taking one out by putting the last one in its place.
-/

namespace Whippet

open Function

/-- The first `size` entries. -/
def arrayBag {Entry : Type*} (entries : ℕ → Entry) (size : ℕ) : Multiset Entry :=
  (Multiset.range size).map entries

namespace arrayBag

variable {Entry : Type*} {entries : ℕ → Entry} {size index : ℕ} {entry : Entry}

@[simp] theorem zero (entries : ℕ → Entry) : arrayBag entries 0 = 0 := rfl

@[simp] theorem card (entries : ℕ → Entry) (size : ℕ) : (arrayBag entries size).card = size := by
  rw [arrayBag, Multiset.card_map, Multiset.card_range]

theorem succ (entries : ℕ → Entry) (size : ℕ) :
    arrayBag entries (size + 1) = entries size ::ₘ arrayBag entries size := by
  rw [arrayBag, Multiset.range_succ, Multiset.map_cons]
  rfl

/-- What lies behind the first entries does not matter. -/
theorem update_of_le (outside : size ≤ index) :
    arrayBag (update entries index entry) size = arrayBag entries size := by
  apply Multiset.map_congr rfl
  intro position member
  apply update_of_ne
  rintro rfl
  exact absurd (Multiset.mem_range.mp member) (not_lt.mpr outside)

theorem append (entries : ℕ → Entry) (size : ℕ) (entry : Entry) :
    arrayBag (update entries size entry) (size + 1) = entry ::ₘ arrayBag entries size := by
  rw [succ, update_self, update_of_le le_rfl]

/-- Overwriting an entry takes it out and puts the new one in. -/
theorem cons_update (inside : index < size) :
    entries index ::ₘ arrayBag (update entries index entry) size =
      entry ::ₘ arrayBag entries size := by
  obtain ⟨rest, isRange⟩ := Multiset.exists_cons_of_mem (Multiset.mem_range.mpr inside)
  have outside : index ∉ rest := by
    have distinct := Multiset.nodup_range size
    rw [isRange] at distinct
    exact (Multiset.nodup_cons.mp distinct).1
  have same : rest.map (update entries index entry) = rest.map entries := by
    apply Multiset.map_congr rfl
    intro position member
    apply update_of_ne
    rintro rfl
    exact outside member
  rw [arrayBag, arrayBag, isRange, Multiset.map_cons, Multiset.map_cons, update_self, same,
    Multiset.cons_swap]

/-- The last entry takes the place of the one that is taken out. -/
theorem swapRemove (inside : index < size) :
    arrayBag entries size =
      entries index ::ₘ arrayBag (update entries index (entries (size - 1))) (size - 1) := by
  obtain ⟨last, rfl⟩ := Nat.exists_eq_add_one_of_ne_zero (Nat.ne_zero_of_lt inside)
  rw [Nat.add_sub_cancel, succ]
  rcases Nat.lt_succ_iff_lt_or_eq.mp inside with before | rfl
  · exact (cons_update before).symm
  · rw [update_of_le le_rfl]

end arrayBag

end Whippet
