import Whippet.Semi.HeapGraph

/-!
The invariant of a collection of the semi-space collector.

While a collection runs, a reference of the heap is in one of two states: visited, and then it is
redirected and its target copied or marked, or as it was before the collection. How far the visits
of a holder's fields have come is known: it is what the call that visits them says, all of them
below the scan pointer and for marked large objects, and none for the rest.

Owns: what holds of the memory whatever has been visited, what holds of the visits, and that
copying an object, marking one and updating an edge keep both. Does not own: that the collection
ends.
-/

namespace Whippet.Semi

open Function
open Nofl (alignUp)

variable {Contents : Type}

/-! ## The memory -/

/-- What holds of the memory during a collection of `heap` that has moved objects as listed. -/
structure MemoryInvariant (heap memory : Memory Contents) (moves : List (ℕ × ℕ)) : Prop where
  toSpace_eq : memory.space.toSpace = heap.space.fromSpace
  fromSpace_eq : memory.space.fromSpace = heap.space.toSpace
  limit_eq : memory.space.limit =
    heap.space.fromSpace.base + heap.space.fromSpace.activeSize
  laidOut : LaidOut heap.extent heap.space.fromSpace.base moves memory.space.hp
  once : (moves.map Prod.fst).Nodup
  sources : ∀ old ∈ moves.map Prod.fst, heap.Reachable old ∧ ∃ object, heap.SmallAt old object
  forwarded : ∀ old new, (old, new) ∈ moves → memory.cells old = some (.forwarded new)
  kept : ∀ addr object, heap.SmallAt addr object → addr ∉ moves.map Prod.fst →
    memory.cells addr = some (.object object)
  copied : ∀ old new object, (old, new) ∈ moves → heap.SmallAt old object →
    ∃ fields, memory.cells new = some (.object { object with fields := fields })
  marked_eq : memory.large.marked = heap.large.marked ^^^ LARGE_OBJECT_MARK_TOGGLE_BIT
  large : ∀ addr node, heap.large.objectMap addr = some node → ∃ mark fields,
    memory.large.objectMap addr =
      some { node with mark := mark, object := { node.object with fields := fields } }
  large_none : ∀ addr, heap.large.objectMap addr = none → memory.large.objectMap addr = none
  unmarked : ∀ addr node current, heap.large.objectMap addr = some node →
    memory.large.objectMap addr = some current → current.mark ≠ memory.large.marked →
      current = node
  reached : ∀ addr current, memory.large.objectMap addr = some current →
    current.mark = memory.large.marked → heap.Reachable addr

def Memory.Marked (memory : Memory Contents) (addr : ℕ) : Prop :=
  ∃ node, memory.large.objectMap addr = some node ∧ node.mark = memory.large.marked

/-- The holder is one whose edges may be visited. -/
def Holds (memory : Memory Contents) (moves : List (ℕ × ℕ)) : Holder → Prop
  | .roots => True
  | .small addr => ∃ old, (old, addr) ∈ moves
  | .large addr => memory.Marked addr

/-- The fields that the holder had before the collection. -/
def OriginalFields (heap : Memory Contents) (moves : List (ℕ × ℕ)) : Holder → List Ref → Prop
  | .roots, fields => fields = heap.roots
  | .small addr, fields => ∃ old object, (old, addr) ∈ moves ∧ heap.SmallAt old object ∧
      fields = object.fields
  | .large addr, fields => ∃ node, heap.large.objectMap addr = some node ∧
      fields = node.object.fields

section EdgeUpdate

variable {memory : Memory Contents} {edge : Frame} {ref : Ref} {holder : Holder}

theorem edgeUpdate_fields :
    (memory.edgeUpdate edge ref).fields holder =
      if holder = edge.holder then (memory.fields holder).set edge.index ref
      else memory.fields holder := by
  obtain ⟨edgeHolder, index⟩ := edge
  cases edgeHolder with
  | roots => cases holder <;> simp [Memory.edgeUpdate, Memory.fields]
  | small addr =>
      cases found : memory.cells addr with
      | none => cases holder <;> simp +contextual [Memory.edgeUpdate, Memory.fields, found]
      | some cell =>
          cases cell with
          | forwarded new =>
              cases holder <;> simp +contextual [Memory.edgeUpdate, Memory.fields, found]
          | object object =>
              cases holder with
              | small other =>
                  by_cases same : other = addr
                  · subst same
                    simp [Memory.edgeUpdate, Memory.fields, found]
                  · simp [Memory.edgeUpdate, Memory.fields, found, same]
              | _ => simp [Memory.edgeUpdate, Memory.fields, found]
  | large addr =>
      cases found : memory.large.objectMap addr with
      | none => cases holder <;> simp +contextual [Memory.edgeUpdate, Memory.fields, found]
      | some node =>
          cases holder with
          | large other =>
              by_cases same : other = addr
              · subst same
                simp [Memory.edgeUpdate, Memory.fields, found]
              · simp [Memory.edgeUpdate, Memory.fields, found, same]
          | _ => simp [Memory.edgeUpdate, Memory.fields, found]

@[simp] theorem edgeUpdate_space : (memory.edgeUpdate edge ref).space = memory.space := by
  unfold Memory.edgeUpdate
  split
  · rfl
  · split <;> rfl
  · split <;> rfl

@[simp] theorem edgeUpdate_marked :
    (memory.edgeUpdate edge ref).large.marked = memory.large.marked := by
  unfold Memory.edgeUpdate
  split
  · rfl
  · split <;> rfl
  · split <;> rfl

/-- A cell that is not the edge's stays. -/
theorem edgeUpdate_cells {addr : ℕ} (different : edge.holder ≠ .small addr) :
    (memory.edgeUpdate edge ref).cells addr = memory.cells addr := by
  unfold Memory.edgeUpdate
  split
  · rfl
  next other holderEq =>
    have apart : addr ≠ other := by
      rintro rfl
      exact different holderEq
    split
    · simp [apart]
    · rfl
  · split <;> rfl

/-- The edge's own cell gets new fields. -/
theorem edgeUpdate_cells_self {addr : ℕ} {object : Object Contents}
    (isHolder : edge.holder = .small addr)
    (found : memory.cells addr = some (.object object)) :
    ∃ fields, (memory.edgeUpdate edge ref).cells addr =
      some (.object { object with fields := fields }) := by
  refine ⟨object.fields.set edge.index ref, ?_⟩
  simp [Memory.edgeUpdate, isHolder, found]

theorem edgeUpdate_large {addr : ℕ} (different : edge.holder ≠ .large addr) :
    (memory.edgeUpdate edge ref).large.objectMap addr = memory.large.objectMap addr := by
  unfold Memory.edgeUpdate
  split
  · rfl
  · split <;> rfl
  next other holderEq =>
    have apart : addr ≠ other := by
      rintro rfl
      exact different holderEq
    split
    · simp [apart]
    · rfl

theorem edgeUpdate_large_self {addr : ℕ} {node : LargeObjectNode Contents} (ref : Ref)
    (isHolder : edge.holder = .large addr) (found : memory.large.objectMap addr = some node) :
    ∃ fields, (memory.edgeUpdate edge ref).large.objectMap addr =
      some { node with object := { node.object with fields := fields } } := by
  refine ⟨node.object.fields.set edge.index ref, ?_⟩
  simp [Memory.edgeUpdate, isHolder, found]

/-- Updating an edge moves no mark. -/
theorem edgeUpdate_mark {addr : ℕ} {node : LargeObjectNode Contents}
    (found : (memory.edgeUpdate edge ref).large.objectMap addr = some node) :
    ∃ before, memory.large.objectMap addr = some before ∧ before.mark = node.mark ∧
      (edge.holder ≠ .large addr → before = node) := by
  by_cases isHolder : edge.holder = .large addr
  · cases was : memory.large.objectMap addr with
    | none =>
        have same : memory.edgeUpdate edge ref = memory := by
          simp [Memory.edgeUpdate, isHolder, was]
        rw [same, was] at found
        cases found
    | some before =>
        obtain ⟨fields, updated⟩ := edgeUpdate_large_self ref isHolder was
        rw [updated] at found
        cases found
        exact ⟨before, rfl, rfl, fun different => absurd isHolder different⟩
  · rw [edgeUpdate_large isHolder] at found
    exact ⟨node, found, rfl, fun _ => rfl⟩

/-- Writing what is there changes nothing. -/
theorem edgeUpdate_same (found : (memory.fields edge.holder)[edge.index]? = some ref) :
    memory.edgeUpdate edge ref = memory := by
  have unchanged : ∀ fields : List Ref, fields[edge.index]? = some ref →
      fields.set edge.index ref = fields := by
    intro fields atIndex
    obtain ⟨inRange, rfl⟩ := List.getElem?_eq_some_iff.mp atIndex
    exact List.set_getElem_self inRange
  obtain ⟨space, cells, large, roots⟩ := memory
  unfold Memory.edgeUpdate
  split
  next isRoots =>
    simp only [isRoots, Memory.fields] at found
    rw [unchanged _ found]
  next addr isSmall =>
    split
    next object isObject =>
      have isCell : cells addr = some (.object object) := isObject
      have same : update cells addr (some (.object object)) = cells := by
        rw [← isCell, update_eq_self]
      simp only [isSmall, Memory.fields, isCell] at found
      rw [unchanged _ found]
      exact congrArg (fun cells => (⟨space, cells, large, roots⟩ : Memory Contents)) same
    next => rfl
  next addr isLarge =>
    split
    next node isNode =>
      have isEntry : large.objectMap addr = some node := isNode
      have same : update large.objectMap addr (some node) = large.objectMap := by
        rw [← isEntry, update_eq_self]
      simp only [isLarge, Memory.fields, isEntry] at found
      rw [unchanged _ found]
      exact congrArg (fun objectMap =>
        (⟨space, cells, { large with objectMap := objectMap }, roots⟩ : Memory Contents)) same
    next => rfl

end EdgeUpdate

/-! ## Where things are -/

section Places

variable {heap memory : Memory Contents} {moves : List (ℕ × ℕ)} {finish : ℕ}

/-- Copies of distinct small objects fit in the other space. -/
theorem copies_fit (wellFormed : WellFormed heap)
    (laidOut : LaidOut heap.extent heap.space.fromSpace.base moves finish)
    (once : (moves.map Prod.fst).Nodup)
    (small : ∀ old ∈ moves.map Prod.fst, ∃ object, heap.SmallAt old object) :
    finish ≤ heap.space.fromSpace.base + heap.space.fromSpace.activeSize := by
  have fits : finish ≤ heap.space.fromSpace.base + (heap.space.hp - heap.space.toSpace.base) := by
    apply laidOut.finish_le once
    · intro place member
      obtain ⟨object, isSmall⟩ := small place member
      exact ⟨isSmall.1, (wellFormed.small place object isSmall).2⟩
    · intro left leftMember right rightMember below
      obtain ⟨leftObject, leftSmall⟩ := small left leftMember
      obtain ⟨rightObject, rightSmall⟩ := small right rightMember
      exact wellFormed.small_apart left right leftObject rightObject leftSmall rightSmall below
  have sized := wellFormed.sized
  have hp_le := sized.hp_le
  rw [sized.toActive_eq] at hp_le
  rw [sized.fromActive_eq]
  omega

namespace MemoryInvariant

theorem hp_le (invariant : MemoryInvariant heap memory moves) (wellFormed : WellFormed heap) :
    memory.space.hp ≤ heap.space.fromSpace.base + heap.space.fromSpace.activeSize :=
  copies_fit wellFormed invariant.laidOut invariant.once
    fun old member => (invariant.sources old member).2

theorem smallAt (invariant : MemoryInvariant heap memory moves) {old new : ℕ}
    (member : (old, new) ∈ moves) : ∃ object, heap.SmallAt old object :=
  (invariant.sources old (List.mem_map.mpr ⟨_, member, rfl⟩)).2

theorem new_lt_hp (invariant : MemoryInvariant heap memory moves) (wellFormed : WellFormed heap)
    {old new : ℕ} (member : (old, new) ∈ moves) : new < memory.space.hp := by
  obtain ⟨object, isSmall⟩ := invariant.smallAt member
  have bounds := invariant.laidOut.bounds member
  have positive := isSmall.extent_pos wellFormed
  omega

theorem new_contains (invariant : MemoryInvariant heap memory moves)
    (wellFormed : WellFormed heap) {old new : ℕ} (member : (old, new) ∈ moves) :
    heap.space.fromSpace.Contains new := by
  have bounds := invariant.laidOut.bounds member
  have below := invariant.new_lt_hp wellFormed member
  have hp_le := invariant.hp_le wellFormed
  exact ⟨bounds.1, by omega⟩

/-- A copy is not where a small object was. -/
theorem new_ne_small (invariant : MemoryInvariant heap memory moves)
    (wellFormed : WellFormed heap) {old new addr : ℕ} {object : Object Contents}
    (member : (old, new) ∈ moves) (isSmall : heap.SmallAt addr object) : addr ≠ new := by
  rintro rfl
  exact wellFormed.spaces_apart addr (isSmall.contains wellFormed)
    (invariant.new_contains wellFormed member)

theorem old_unique (invariant : MemoryInvariant heap memory moves)
    (wellFormed : WellFormed heap) {old other new : ℕ} (member : (old, new) ∈ moves)
    (otherMember : (other, new) ∈ moves) : old = other := by
  obtain ⟨object, isSmall⟩ := invariant.smallAt member
  obtain ⟨otherObject, otherSmall⟩ := invariant.smallAt otherMember
  exact invariant.laidOut.item_unique member otherMember (isSmall.extent_pos wellFormed)
    (otherSmall.extent_pos wellFormed)

/-- The edge of a holder that is being visited is not in the from-space. -/
theorem holder_ne_small (invariant : MemoryInvariant heap memory moves)
    (wellFormed : WellFormed heap) {holder : Holder} (holds : Holds memory moves holder)
    {addr : ℕ} {object : Object Contents} (isSmall : heap.SmallAt addr object) :
    holder ≠ .small addr := by
  rintro rfl
  obtain ⟨old, member⟩ := holds
  exact invariant.new_ne_small wellFormed member isSmall rfl

end MemoryInvariant

end Places

/-! ## What the operations keep -/

section Operations

variable {heap memory : Memory Contents} {moves : List (ℕ × ℕ)}

namespace MemoryInvariant

theorem edgeUpdate (invariant : MemoryInvariant heap memory moves)
    (wellFormed : WellFormed heap) {edge : Frame} {ref : Ref}
    (holds : Holds memory moves edge.holder) :
    MemoryInvariant heap (memory.edgeUpdate edge ref) moves where
  toSpace_eq := by simpa using invariant.toSpace_eq
  fromSpace_eq := by simpa using invariant.fromSpace_eq
  limit_eq := by simpa using invariant.limit_eq
  laidOut := by simpa using invariant.laidOut
  once := invariant.once
  sources := invariant.sources
  forwarded := by
    intro old new member
    obtain ⟨object, isSmall⟩ := invariant.smallAt member
    rw [edgeUpdate_cells (invariant.holder_ne_small wellFormed holds isSmall)]
    exact invariant.forwarded old new member
  kept := by
    intro addr object isSmall notMember
    rw [edgeUpdate_cells (invariant.holder_ne_small wellFormed holds isSmall)]
    exact invariant.kept addr object isSmall notMember
  copied := by
    intro old new object member isSmall
    obtain ⟨fields, found⟩ := invariant.copied old new object member isSmall
    by_cases isHolder : edge.holder = .small new
    · obtain ⟨written, updated⟩ := edgeUpdate_cells_self isHolder found
      exact ⟨written, updated⟩
    · rw [edgeUpdate_cells isHolder]
      exact ⟨fields, found⟩
  marked_eq := by simpa using invariant.marked_eq
  large := by
    intro addr node isLarge
    obtain ⟨mark, fields, found⟩ := invariant.large addr node isLarge
    by_cases isHolder : edge.holder = .large addr
    · obtain ⟨written, updated⟩ := edgeUpdate_large_self ref isHolder found
      exact ⟨mark, written, updated⟩
    · rw [edgeUpdate_large isHolder]
      exact ⟨mark, fields, found⟩
  large_none := by
    intro addr isNone
    have different : edge.holder ≠ .large addr := by
      intro isHolder
      rw [isHolder] at holds
      obtain ⟨node, found, -⟩ := holds
      rw [invariant.large_none addr isNone] at found
      cases found
    rw [edgeUpdate_large different]
    exact invariant.large_none addr isNone
  unmarked := by
    intro addr node current isLarge found notMarked
    obtain ⟨before, was, sameMark, same⟩ := edgeUpdate_mark found
    rw [edgeUpdate_marked] at notMarked
    have different : edge.holder ≠ .large addr := by
      intro isHolder
      rw [isHolder] at holds
      obtain ⟨marked, foundMarked, isMarked⟩ := holds
      rw [was] at foundMarked
      cases foundMarked
      exact notMarked (sameMark ▸ isMarked)
    rw [← same different] at notMarked ⊢
    exact invariant.unmarked addr node before isLarge was notMarked
  reached := by
    intro addr current found isMarked
    obtain ⟨before, was, sameMark, -⟩ := edgeUpdate_mark found
    rw [edgeUpdate_marked] at isMarked
    exact invariant.reached addr before was (sameMark.trans isMarked)

/-- Copying an object that is not forwarded yet adds it to the moves. -/
theorem copy (invariant : MemoryInvariant heap memory moves) (wellFormed : WellFormed heap)
    {addr : ℕ} {object : Object Contents} (isSmall : heap.SmallAt addr object)
    (notMoved : addr ∉ moves.map Prod.fst) (reachable : heap.Reachable addr) :
    MemoryInvariant heap (copy memory addr object).1 (moves ++ [(addr, memory.space.hp)]) := by
  have once : ((moves ++ [(addr, memory.space.hp)]).map Prod.fst).Nodup := by
    rw [List.map_append, List.nodup_append]
    refine ⟨invariant.once, by simp, ?_⟩
    intro old member other isOther
    simp only [List.map_cons, List.map_nil, List.mem_singleton] at isOther
    rintro rfl
    exact notMoved (isOther ▸ member)
  have sources : ∀ old ∈ (moves ++ [(addr, memory.space.hp)]).map Prod.fst,
      heap.Reachable old ∧ ∃ object, heap.SmallAt old object := by
    intro old member
    rw [List.map_append, List.mem_append] at member
    rcases member with isOld | isNew
    · exact invariant.sources old isOld
    · simp only [List.map_cons, List.map_nil, List.mem_singleton] at isNew
      subst isNew
      exact ⟨reachable, object, isSmall⟩
  have laidOut := invariant.laidOut.append addr
  have fits := copies_fit wellFormed laidOut once fun old member => (sources old member).2
  have positive := isSmall.extent_pos wellFormed
  have start := invariant.laidOut.start_le_finish
  have smallOff : ∀ other otherObject, heap.SmallAt other otherObject →
      other ≠ memory.space.hp := by
    rintro other otherObject otherSmall rfl
    exact wellFormed.spaces_apart _ (otherSmall.contains wellFormed) ⟨start, by omega⟩
  refine
    { toSpace_eq := invariant.toSpace_eq
      fromSpace_eq := invariant.fromSpace_eq
      limit_eq := invariant.limit_eq
      laidOut := ?_
      once := once
      sources := sources
      forwarded := ?_
      kept := ?_
      copied := ?_
      marked_eq := invariant.marked_eq
      large := invariant.large
      large_none := invariant.large_none
      unmarked := invariant.unmarked
      reached := invariant.reached }
  · simpa only [Semi.copy, isSmall.extent_eq] using laidOut
  · intro old new member
    rcases List.mem_append.mp member with isOld | isNew
    · obtain ⟨oldObject, oldSmall⟩ := invariant.smallAt isOld
      have different : old ≠ addr := by
        rintro rfl
        exact notMoved (List.mem_map.mpr ⟨_, isOld, rfl⟩)
      simp only [Semi.copy, update_of_ne different, update_of_ne (smallOff old _ oldSmall)]
      exact invariant.forwarded old new isOld
    · simp only [List.mem_singleton, Prod.mk.injEq] at isNew
      obtain ⟨rfl, rfl⟩ := isNew
      simp [Semi.copy]
  · intro other otherObject otherSmall notMember
    simp only [List.map_append, List.map_cons, List.map_nil, List.mem_append,
      List.mem_singleton, not_or] at notMember
    simp only [Semi.copy, update_of_ne notMember.2, update_of_ne (smallOff other _ otherSmall)]
    exact invariant.kept other otherObject otherSmall notMember.1
  · intro old new oldObject member oldSmall
    rcases List.mem_append.mp member with isOld | isNew
    · have below := invariant.new_lt_hp wellFormed isOld
      have different := invariant.new_ne_small wellFormed isOld isSmall
      simp only [Semi.copy, update_of_ne different.symm, update_of_ne (Nat.ne_of_lt below)]
      exact invariant.copied old new oldObject isOld oldSmall
    · simp only [List.mem_singleton, Prod.mk.injEq] at isNew
      obtain ⟨rfl, rfl⟩ := isNew
      refine ⟨object.fields, ?_⟩
      rw [oldSmall.unique isSmall]
      simp [Semi.copy, (smallOff old object isSmall).symm]

end MemoryInvariant

/-- The memory with the large object marked. -/
def withMark (memory : Memory Contents) (addr : ℕ) : Memory Contents :=
  { memory with large := (largeObjectSpaceMark memory.large addr).1 }

section WithMark

variable {addr : ℕ} {node : LargeObjectNode Contents}

theorem visitLargeObjectSpace_unmarked (found : memory.large.objectMap addr = some node)
    (notMarked : node.mark ≠ memory.large.marked) :
    visitLargeObjectSpace memory addr = (withMark memory addr, some (.large addr)) := by
  simp [visitLargeObjectSpace, withMark, largeObjectSpaceMark, found, notMarked]

theorem visitLargeObjectSpace_marked (found : memory.large.objectMap addr = some node)
    (isMarked : node.mark = memory.large.marked) :
    visitLargeObjectSpace memory addr = (memory, none) := by
  simp [visitLargeObjectSpace, largeObjectSpaceMark, found, isMarked]

theorem withMark_objectMap (found : memory.large.objectMap addr = some node)
    (notMarked : node.mark ≠ memory.large.marked) :
    (withMark memory addr).large.objectMap =
      update memory.large.objectMap addr (some { node with mark := memory.large.marked }) := by
  simp [withMark, largeObjectSpaceMark, found, notMarked]

@[simp] theorem withMark_marked :
    (withMark memory addr).large.marked = memory.large.marked := by
  unfold withMark largeObjectSpaceMark
  split
  · rfl
  · split <;> rfl

theorem withMark_fields (found : memory.large.objectMap addr = some node)
    (notMarked : node.mark ≠ memory.large.marked) (holder : Holder) :
    (withMark memory addr).fields holder = memory.fields holder := by
  cases holder with
  | large other =>
      simp only [Memory.fields, withMark_objectMap found notMarked]
      by_cases same : other = addr
      · subst same
        simp [found]
      · simp [same]
  | _ => rfl

theorem MemoryInvariant.withMark (invariant : MemoryInvariant heap memory moves)
    (found : memory.large.objectMap addr = some node)
    (notMarked : node.mark ≠ memory.large.marked) (reachable : heap.Reachable addr) :
    MemoryInvariant heap (withMark memory addr) moves where
  toSpace_eq := invariant.toSpace_eq
  fromSpace_eq := invariant.fromSpace_eq
  limit_eq := invariant.limit_eq
  laidOut := invariant.laidOut
  once := invariant.once
  sources := invariant.sources
  forwarded := invariant.forwarded
  kept := invariant.kept
  copied := invariant.copied
  marked_eq := by simpa using invariant.marked_eq
  large := by
    intro other original isLarge
    obtain ⟨mark, fields, was⟩ := invariant.large other original isLarge
    rw [withMark_objectMap found notMarked]
    by_cases same : other = addr
    · subst same
      rw [was] at found
      cases found
      exact ⟨memory.large.marked, fields, by simp⟩
    · exact ⟨mark, fields, by simpa [same] using was⟩
  large_none := by
    intro other isNone
    have different : other ≠ addr := by
      rintro rfl
      rw [invariant.large_none other isNone] at found
      cases found
    rw [withMark_objectMap found notMarked, update_of_ne different]
    exact invariant.large_none other isNone
  unmarked := by
    intro other original current isLarge isCurrent currentUnmarked
    rw [withMark_marked] at currentUnmarked
    rw [withMark_objectMap found notMarked] at isCurrent
    by_cases same : other = addr
    · subst same
      rw [update_self] at isCurrent
      cases isCurrent
      exact absurd rfl currentUnmarked
    · rw [update_of_ne same] at isCurrent
      exact invariant.unmarked other original current isLarge isCurrent currentUnmarked
  reached := by
    intro other current isCurrent isMarked
    rw [withMark_marked] at isMarked
    rw [withMark_objectMap found notMarked] at isCurrent
    by_cases same : other = addr
    · exact same ▸ reachable
    · rw [update_of_ne same] at isCurrent
      exact invariant.reached other current isCurrent isMarked

end WithMark

/-- Copying leaves the fields of every holder alone, and the copy has the fields of the original. -/
theorem copy_fields {addr : ℕ} {object : Object Contents} {holder : Holder}
    (notOld : holder ≠ .small addr) (notNew : holder ≠ .small memory.space.hp) :
    (copy memory addr object).1.fields holder = memory.fields holder := by
  cases holder with
  | small other =>
      have apart : other ≠ addr := fun same => notOld (same ▸ rfl)
      have apartNew : other ≠ memory.space.hp := fun same => notNew (same ▸ rfl)
      simp [copy, Memory.fields, apart, apartNew]
  | _ => rfl

theorem copy_fields_new {addr : ℕ} {object : Object Contents} (apart : addr ≠ memory.space.hp) :
    (copy memory addr object).1.fields (.small memory.space.hp) = object.fields := by
  simp [copy, Memory.fields, apart.symm]

end Operations

end Whippet.Semi
