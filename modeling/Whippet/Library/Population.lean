import Mathlib.Algebra.BigOperators.Finprod
import Mathlib.Data.Set.Card
import Mathlib.Logic.Function.Basic

/-!
Populations: how many threads are in a class of roles.

`role : Thread → Role` says what each thread is doing and a class of roles is a predicate
`inClass`. Only finitely many threads are ever in a class, and one thread changes its role at a
time, so a counter that follows the population goes up by one, down by one, or stays.

Owns: the population of a class, how it changes when one thread changes its role, the counting
argument that makes a class exhaust another one, and the total of a weight over all threads.
-/

namespace Whippet

open Function

variable {Thread Role : Type*}

/-- The threads whose role is in the class. -/
def members (role : Thread → Role) (inClass : Role → Prop) : Set Thread :=
  {thread | inClass (role thread)}

/-- The number of threads whose role is in the class. -/
noncomputable def population (role : Thread → Role) (inClass : Role → Prop) : ℕ :=
  (members role inClass).ncard

@[simp] theorem mem_members {role : Thread → Role} {inClass : Role → Prop} {thread : Thread} :
    thread ∈ members role inClass ↔ inClass (role thread) := Iff.rfl

section Update

variable [DecidableEq Thread] {role : Thread → Role} {inClass : Role → Prop}
variable {thread : Thread} {new : Role}

theorem members_update_enter (inside : inClass new) :
    members (update role thread new) inClass = insert thread (members role inClass) := by
  ext other
  by_cases same : other = thread
  · subst same
    simp [members, inside]
  · simp [members, same]

theorem members_update_leave (outside : ¬inClass new) :
    members (update role thread new) inClass = members role inClass \ {thread} := by
  ext other
  by_cases same : other = thread
  · subst same
    simp [members, outside]
  · simp [members, same]

theorem members_update_stay (unchanged : inClass new ↔ inClass (role thread)) :
    members (update role thread new) inClass = members role inClass := by
  ext other
  by_cases same : other = thread
  · subst same
    simp [members, unchanged]
  · simp [members, same]

theorem finite_members_update (finite : (members role inClass).Finite) :
    (members (update role thread new) inClass).Finite := by
  refine (finite.insert thread).subset ?_
  intro other member
  by_cases same : other = thread
  · exact Or.inl same
  · refine Or.inr ?_
    simpa [members, same] using member

theorem population_enter (finite : (members role inClass).Finite)
    (outside : ¬inClass (role thread)) (inside : inClass new) :
    population (update role thread new) inClass = population role inClass + 1 := by
  rw [population, members_update_enter inside]
  exact Set.ncard_insert_of_notMem outside finite

theorem population_leave (finite : (members role inClass).Finite)
    (inside : inClass (role thread)) (outside : ¬inClass new) :
    population (update role thread new) inClass + 1 = population role inClass := by
  rw [population, members_update_leave outside]
  exact Set.ncard_sdiff_singleton_add_one inside finite

theorem population_stay (unchanged : inClass new ↔ inClass (role thread)) :
    population (update role thread new) inClass = population role inClass := by
  rw [population, members_update_stay unchanged, population]

end Update

theorem population_pos {role : Thread → Role} {inClass : Role → Prop}
    (finite : (members role inClass).Finite) {thread : Thread}
    (member : inClass (role thread)) : 0 < population role inClass :=
  (Set.ncard_pos finite).mpr ⟨thread, member⟩

/-- The population of a class that splits in two. -/
theorem population_eq_add {role : Thread → Role} {whole left right : Role → Prop}
    (finite : (members role whole).Finite)
    (splits : ∀ thread, whole (role thread) ↔ left (role thread) ∨ right (role thread))
    (disjoint : ∀ value, left value → ¬right value) :
    population role whole = population role left + population role right := by
  have union : members role whole = members role left ∪ members role right := by
    ext thread
    exact splits thread
  have apart : Disjoint (members role left) (members role right) :=
    Set.disjoint_left.mpr fun _ => disjoint _
  rw [union] at finite
  rw [population, union]
  exact Set.ncard_union_eq apart (finite.subset Set.subset_union_left)
    (finite.subset Set.subset_union_right)

/-- Two disjoint classes inside a third one that together have its population leave no other
thread in it. -/
theorem member_of_population_eq_add {role : Thread → Role} {whole left right : Role → Prop}
    (finite : (members role whole).Finite)
    (leftInside : ∀ value, left value → whole value)
    (rightInside : ∀ value, right value → whole value)
    (disjoint : ∀ value, left value → ¬right value)
    (exhausted : population role whole = population role left + population role right)
    {thread : Thread} (member : whole (role thread)) :
    left (role thread) ∨ right (role thread) := by
  have leftSubset : members role left ⊆ members role whole := fun _ => leftInside _
  have rightSubset : members role right ⊆ members role whole := fun _ => rightInside _
  have apart : Disjoint (members role left) (members role right) :=
    Set.disjoint_left.mpr fun _ => disjoint _
  have unionCard : (members role left ∪ members role right).ncard =
      population role left + population role right :=
    Set.ncard_union_eq apart (finite.subset leftSubset) (finite.subset rightSubset)
  have all : members role left ∪ members role right = members role whole := by
    refine Set.eq_of_subset_of_ncard_le (Set.union_subset leftSubset rightSubset) ?_ finite
    rw [unionCard, ← exhausted, population]
  have covered : thread ∈ members role left ∪ members role right := by
    rw [all]
    exact member
  exact covered

/-! ## Totals -/

/-- The sum of what each thread's role weighs. -/
noncomputable def total (role : Thread → Role) (weight : Role → ℕ) : ℕ :=
  finsum fun thread => weight (role thread)

section Total

variable {role : Thread → Role} {weight : Role → ℕ}

/-- The threads whose role weighs something. -/
abbrev weighing (role : Thread → Role) (weight : Role → ℕ) : Set Thread :=
  members role fun value => weight value ≠ 0

theorem total_eq_zero (weightless : ∀ thread, weight (role thread) = 0) :
    total role weight = 0 := by
  simp [total, weightless]

theorem total_le_total {OtherRole : Type*} {otherRole : Thread → OtherRole}
    {otherWeight : OtherRole → ℕ} (finite : (weighing role weight).Finite)
    (atMost : ∀ thread, otherWeight (otherRole thread) ≤ weight (role thread)) :
    total otherRole otherWeight ≤ total role weight := by
  refine finsum_le_finsum' (finite.subset ?_) finite atMost
  intro thread weighs
  have atMost := atMost thread
  simp only [Function.mem_support] at weighs
  show weight (role thread) ≠ 0
  omega

theorem weight_le_total (finite : (weighing role weight).Finite) (thread : Thread) :
    weight (role thread) ≤ total role weight :=
  single_le_finsum thread finite fun _ => Nat.zero_le _

theorem total_update [DecidableEq Thread] (finite : (weighing role weight).Finite)
    (thread : Thread) (new : Role) :
    total (update role thread new) weight + weight (role thread) =
      total role weight + weight new := by
  have support : ∀ other, weight (update role thread new other) =
      update (fun value => weight (role value)) thread (weight new) other := by
    intro other
    by_cases same : other = thread
    · subst same
      simp
    · simp [same]
  let threads := insert thread finite.toFinset
  have before : total role weight = threads.sum fun other => weight (role other) := by
    apply finsum_eq_sum_of_support_subset
    intro other weighs
    simpa [threads] using Or.inr weighs
  have after : total (update role thread new) weight =
      threads.sum (update (fun value => weight (role value)) thread (weight new)) := by
    rw [total, finsum_congr support]
    apply finsum_eq_sum_of_support_subset
    intro other weighs
    by_cases same : other = thread
    · simp [threads, same]
    · simp only [Function.mem_support, update_of_ne same] at weighs
      simpa [threads] using Or.inr weighs
  have isMember : thread ∈ threads := Finset.mem_insert_self _ _
  rw [before, after, Finset.sum_update_of_mem isMember, Finset.sdiff_singleton_eq_erase,
    ← Finset.add_sum_erase threads _ isMember]
  omega

end Total

end Whippet
