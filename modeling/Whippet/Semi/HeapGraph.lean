import Whippet.Library.Layout
import Whippet.Semi.Budget
import Whippet.Semi.Copying

/-!
The heap that a collection of the semi-space collector finds, and what it means to preserve it.

Owns: the objects of a heap, reachability from the roots, when a heap is well formed, and the
relation between the heap before a collection and the one after it. Does not own: why the
collection establishes it.
-/

namespace Whippet.Semi

open Nofl (alignUp)

variable {Contents : Type}

/-! ## The heap before the collection -/

namespace Memory

/-- A small object, allocated in the space that is about to become the from-space. -/
def SmallAt (heap : Memory Contents) (addr : ℕ) (object : Object Contents) : Prop :=
  heap.space.toSpace.base ≤ addr ∧ addr < heap.space.hp ∧
    heap.cells addr = some (.object object)

inductive ObjectAt (heap : Memory Contents) : ℕ → Object Contents → Prop where
  | small {addr : ℕ} {object : Object Contents} (isSmall : heap.SmallAt addr object) :
      ObjectAt heap addr object
  | large {addr : ℕ} {node : LargeObjectNode Contents}
      (isLarge : heap.large.objectMap addr = some node) : ObjectAt heap addr node.object

/-- The addresses of the objects that the roots lead to. -/
inductive Reachable (heap : Memory Contents) : ℕ → Prop where
  | root {addr : ℕ} (isRoot : .heap addr ∈ heap.roots) : Reachable heap addr
  | field {addr target : ℕ} {object : Object Contents} (reachable : Reachable heap addr)
      (isObject : heap.ObjectAt addr object) (isField : .heap target ∈ object.fields) :
      Reachable heap target

/-- Every reference of the list is to an object of the heap. -/
def RefsTo (heap : Memory Contents) (refs : List Ref) : Prop :=
  ∀ addr, .heap addr ∈ refs → ∃ object, heap.ObjectAt addr object

end Memory

def Region.Contains (region : Region) (addr : ℕ) : Prop :=
  region.base ≤ addr ∧ addr < region.base + region.activeSize

/-- A heap as the mutator leaves it. -/
structure WellFormed (heap : Memory Contents) : Prop where
  sized : heap.space.Sized
  toSpace_fits : heap.space.toSpace.base + heap.space.toSpace.activeSize ≤ 2 ^ 64
  fromSpace_fits : heap.space.fromSpace.base + heap.space.fromSpace.activeSize ≤ 2 ^ 64
  spaces_apart : ∀ addr, heap.space.toSpace.Contains addr → ¬heap.space.fromSpace.Contains addr
  small : ∀ addr object, heap.SmallAt addr object →
    0 < object.size ∧ addr + heap.extent addr ≤ heap.space.hp
  small_apart : ∀ left right leftObject rightObject, heap.SmallAt left leftObject →
    heap.SmallAt right rightObject → left < right → left + heap.extent left ≤ right
  large_outside : ∀ addr node, heap.large.objectMap addr = some node →
    ¬heap.space.toSpace.Contains addr ∧ ¬heap.space.fromSpace.Contains addr
  large_finite : {addr | (heap.large.objectMap addr).isSome = true}.Finite
  /-- An object has the mark of the last collection, or none yet. -/
  marks : ∀ addr node, heap.large.objectMap addr = some node →
    node.mark = heap.large.marked ∨ node.mark = 0
  marked : heap.large.marked = 1 ∨ heap.large.marked = 3
  roots_closed : heap.RefsTo heap.roots
  fields_closed : ∀ addr object, heap.ObjectAt addr object → heap.RefsTo object.fields

/-! ## The heap after the collection -/

/-- The new address of an object. A large object keeps its own. -/
def newAddress (moves : List (ℕ × ℕ)) (addr : ℕ) : ℕ := (moves.lookup addr).getD addr

def redirect (moves : List (ℕ × ℕ)) : Ref → Ref
  | .heap addr => .heap (newAddress moves addr)
  | ref => ref

/-- The object with its references redirected, and all else as it was. -/
def Object.redirected (moves : List (ℕ × ℕ)) (object : Object Contents) : Object Contents :=
  { object with fields := object.fields.map (redirect moves) }

/-- The collection took `heap` to `final`, moving objects as listed, in the order in which it copied
them. -/
structure PreservedBy (heap final : Memory Contents) (moves : List (ℕ × ℕ)) : Prop where
  flipped : final.space.toSpace = heap.space.fromSpace ∧
    final.space.fromSpace = heap.space.toSpace
  contiguous : LaidOut heap.extent final.space.toSpace.base moves final.space.hp
  once : (moves.map Prod.fst).Nodup
  exactly : ∀ addr, addr ∈ moves.map Prod.fst ↔
    heap.Reachable addr ∧ ∃ object, heap.SmallAt addr object
  injective : ∀ left right, heap.Reachable left → heap.Reachable right →
    newAddress moves left = newAddress moves right → left = right
  copies : ∀ old new object, (old, new) ∈ moves → heap.SmallAt old object →
    final.cells new = some (.object (object.redirected moves))
  roots : final.roots = heap.roots.map (redirect moves)
  large_reachable : ∀ addr node, heap.large.objectMap addr = some node → heap.Reachable addr →
    final.large.objectMap addr =
      some { node with mark := final.large.marked, object := node.object.redirected moves }
  large_unreachable : ∀ addr node, heap.large.objectMap addr = some node → ¬heap.Reachable addr →
    final.large.objectMap addr = some node ∧ node.mark ≠ final.large.marked
  large_none : ∀ addr, heap.large.objectMap addr = none → final.large.objectMap addr = none
  hp_le : final.space.hp ≤ final.space.limit
  limit_eq : final.space.limit = final.space.toSpace.base + final.space.toSpace.activeSize

/-! ## Facts about well-formed heaps -/

theorem regionContains_eq_true {region : Region} {addr : ℕ}
    (fits : region.base + region.activeSize ≤ 2 ^ 64) :
    regionContains region addr = true ↔ region.Contains addr := by
  rw [regionContains, decide_eq_true_iff, sizeSub, Region.Contains]
  split <;> omega

namespace Memory

variable {heap : Memory Contents}

theorem Reachable.object {addr : ℕ} (reachable : heap.Reachable addr)
    (wellFormed : WellFormed heap) : ∃ object, heap.ObjectAt addr object := by
  cases reachable with
  | root isRoot => exact wellFormed.roots_closed _ isRoot
  | field _ isObject isField => exact wellFormed.fields_closed _ _ isObject _ isField

theorem SmallAt.extent_eq {addr : ℕ} {object : Object Contents}
    (isSmall : heap.SmallAt addr object) : heap.extent addr = alignUp object.size GC_ALIGNMENT := by
  simp [extent, isSmall.2.2]

theorem SmallAt.unique {addr : ℕ} {object other : Object Contents}
    (isSmall : heap.SmallAt addr object) (otherSmall : heap.SmallAt addr other) :
    object = other := by
  have same := isSmall.2.2.symm.trans otherSmall.2.2
  simpa using same

theorem SmallAt.extent_pos {addr : ℕ} {object : Object Contents}
    (isSmall : heap.SmallAt addr object) (wellFormed : WellFormed heap) :
    0 < heap.extent addr := by
  rw [isSmall.extent_eq, alignUp, GC_ALIGNMENT]
  have positive := (wellFormed.small addr object isSmall).1
  omega

theorem SmallAt.contains {addr : ℕ} {object : Object Contents}
    (isSmall : heap.SmallAt addr object) (wellFormed : WellFormed heap) :
    heap.space.toSpace.Contains addr := by
  have hp_le := wellFormed.sized.hp_le
  rw [wellFormed.sized.toActive_eq] at hp_le
  exact ⟨isSmall.1, lt_of_lt_of_le isSmall.2.1 hp_le⟩

end Memory

/-- A small object is not a large one. -/
theorem WellFormed.not_large {heap : Memory Contents} (wellFormed : WellFormed heap) {addr : ℕ}
    {object : Object Contents} {node : LargeObjectNode Contents}
    (isSmall : heap.SmallAt addr object) (isLarge : heap.large.objectMap addr = some node) :
    False :=
  (wellFormed.large_outside addr node isLarge).1 (isSmall.contains wellFormed)

/-- The toggled mark is on no object. -/
theorem WellFormed.mark_ne_toggled {heap : Memory Contents} (wellFormed : WellFormed heap)
    {addr : ℕ} {node : LargeObjectNode Contents}
    (isLarge : heap.large.objectMap addr = some node) :
    node.mark ≠ heap.large.marked ^^^ LARGE_OBJECT_MARK_TOGGLE_BIT := by
  rcases wellFormed.marks addr node isLarge with same | none <;>
    rcases wellFormed.marked with one | three <;>
    simp_all [LARGE_OBJECT_MARK_TOGGLE_BIT]

section NewAddress

variable {moves : List (ℕ × ℕ)} {old new addr place : ℕ}

theorem newAddress_of_mem (once : (moves.map Prod.fst).Nodup) (member : (old, new) ∈ moves) :
    newAddress moves old = new := by
  have found : moves.lookup old = some new := by
    induction moves with
    | nil => cases member
    | cons head rest inductionHypothesis =>
        rw [List.map_cons, List.nodup_cons] at once
        rcases List.mem_cons.mp member with rfl | inRest
        · simp
        · have different : old ≠ head.1 := by
            rintro rfl
            exact once.1 (List.mem_map.mpr ⟨_, inRest, rfl⟩)
          rw [List.lookup_cons, beq_eq_false_iff_ne.mpr different]
          exact inductionHypothesis once.2 inRest
  simp [newAddress, found]

theorem newAddress_of_not_mem (notMember : addr ∉ moves.map Prod.fst) :
    newAddress moves addr = addr := by
  have missing : moves.lookup addr = none := by
    rw [List.lookup_eq_none_iff]
    intro pair member
    rw [bne_iff_ne]
    rintro rfl
    exact notMember (List.mem_map_of_mem member)
  simp [newAddress, missing]

theorem newAddress_append (different : addr ≠ old) :
    newAddress (moves ++ [(old, place)]) addr = newAddress moves addr := by
  have missing : [(old, place)].lookup addr = none := by
    rw [List.lookup_cons, beq_eq_false_iff_ne.mpr different, List.lookup_nil]
  simp only [newAddress, List.lookup_append, missing, Option.or_none]

end NewAddress

end Whippet.Semi
