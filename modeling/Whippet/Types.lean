import Mathlib

/-!
The types that both collectors share.

Owns: `enum gc_collection_kind` with its order as C compares it, subtraction of `size_t`, and the
doubly linked list of `struct gc_mutator` that hangs off the heap, with the insertion and the
removal that `add_mutator` and `remove_mutator` write in both collectors.
-/

namespace Whippet

open Function

/-- `enum gc_collection_kind`. -/
inductive CollectionKind where
  | any
  | minor
  | major
  | compacting
  deriving DecidableEq, Repr

namespace CollectionKind

/-- The value of the enumerator, as `(int) kind`. -/
def toInt : CollectionKind → ℤ
  | any => 0
  | minor => 1
  | major => 2
  | compacting => 3

/-- The greatest kind. -/
theorem toInt_le_compacting (kind : CollectionKind) : kind.toInt ≤ compacting.toInt := by
  cases kind <;> simp [toInt]

theorem toInt_nonneg (kind : CollectionKind) : 0 ≤ kind.toInt := by
  cases kind <;> simp [toInt]

end CollectionKind

/-- Who called `pause_mutator_for_collection`. -/
inductive PauseCaller where
  | safepoint
  | trigger (requested : CollectionKind)
  deriving DecidableEq, Repr

/-- `left - right` for operands of type `size_t`. -/
def sizeSub (left right : ℕ) : ℕ :=
  if right ≤ left then left - right else left + 2 ^ 64 - right

theorem sizeSub_of_le {left right : ℕ} (below : right ≤ left) :
    sizeSub left right = left - right := by
  rw [sizeSub, if_pos below]

/-! ## The list of mutators -/

/-- The address of a `struct gc_mutator`. -/
abbrev Mutator := ℕ

/-- The fields of `struct gc_mutator` that the list and the activity flag live in. -/
structure MutatorRecord where
  next : Option Mutator
  prev : Option Mutator
  active : Bool
  deriving DecidableEq, Repr

/-- `heap->mutators` and the records it leads to. -/
structure MutatorList where
  head : Option Mutator
  record : Mutator → MutatorRecord

namespace MutatorList

def setActive (list : MutatorList) (mutator : Mutator) (active : Bool) : MutatorList :=
  { list with
    record := update list.record mutator { list.record mutator with active := active } }

def setNext (list : MutatorList) (mutator : Mutator) (next : Option Mutator) : MutatorList :=
  { list with record := update list.record mutator { list.record mutator with next := next } }

def setPrev (list : MutatorList) (mutator : Mutator) (prev : Option Mutator) : MutatorList :=
  { list with record := update list.record mutator { list.record mutator with prev := prev } }

/-- The part of `add_mutator` that puts the mutator at the head of the list. -/
def link (list : MutatorList) (mutator : Mutator) : MutatorList :=
  let fresh : MutatorRecord := { next := list.head, prev := none, active := true }
  let linked : MutatorList := { head := some mutator, record := update list.record mutator fresh }
  match list.head with
  | some tail => linked.setPrev tail (some mutator)
  | none => linked

/-- The part of `remove_mutator` that takes the mutator out of the list. -/
def unlink (list : MutatorList) (mutator : Mutator) : MutatorList :=
  let removed := list.record mutator
  let inactive := list.setActive mutator false
  let forward :=
    match removed.next with
    | some next => inactive.setPrev next removed.prev
    | none => inactive
  match removed.prev with
  | some prev => forward.setNext prev removed.next
  | none => { forward with head := removed.next }

section Active

variable {list : MutatorList} {mutator other : Mutator}

@[simp] theorem setActive_active (active : Bool) :
    ((list.setActive mutator active).record other).active =
      if other = mutator then active else (list.record other).active := by
  by_cases same : other = mutator
  · subst same
    simp [setActive]
  · simp [setActive, same]

@[simp] theorem setNext_active (next : Option Mutator) :
    ((list.setNext mutator next).record other).active = (list.record other).active := by
  by_cases same : other = mutator
  · subst same
    simp [setNext]
  · simp [setNext, same]

@[simp] theorem setPrev_active (prev : Option Mutator) :
    ((list.setPrev mutator prev).record other).active = (list.record other).active := by
  by_cases same : other = mutator
  · subst same
    simp [setPrev]
  · simp [setPrev, same]

/-- Linking makes the new mutator active and leaves the activity of all others. -/
@[simp] theorem link_active :
    ((list.link mutator).record other).active =
      if other = mutator then true else (list.record other).active := by
  by_cases same : other = mutator
  · subst same
    cases headEq : list.head <;> simp [link, headEq]
  · cases headEq : list.head <;> simp [link, headEq, same]

/-- Unlinking makes the mutator inactive and leaves the activity of all others. -/
@[simp] theorem unlink_active :
    ((list.unlink mutator).record other).active =
      if other = mutator then false else (list.record other).active := by
  cases nextEq : (list.record mutator).next <;> cases prevEq : (list.record mutator).prev <;>
    simp [unlink, nextEq, prevEq]

end Active

end MutatorList

end Whippet
