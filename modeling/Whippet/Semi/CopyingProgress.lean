import Whippet.Semi.CopyingInvariant

/-!
How far the visits of a collection of the semi-space collector have come.

Owns: fields of which a first part has been visited, the invariant that ties the visits to the calls
under way, the scan pointer and the marks, and that every step of the collection keeps it. Does
not own: what holds at the end.
-/

namespace Whippet.Semi

open Function

variable {Contents : Type}

/-! ## Partly visited fields -/

/-- The object has been copied or marked. -/
def Covered (memory : Memory Contents) (moves : List (ℕ × ℕ)) (addr : ℕ) : Prop :=
  addr ∈ moves.map Prod.fst ∨ memory.Marked addr

/-- The first `count` fields have been visited. -/
structure Visited (covered : ℕ → Prop) (moves : List (ℕ × ℕ)) (original current : List Ref)
    (count : ℕ) : Prop where
  getElem?_eq : ∀ index, current[index]? =
    original[index]?.map fun ref => if index < count then redirect moves ref else ref
  covers : ∀ index addr, index < count → original[index]? = some (.heap addr) → covered addr

namespace Visited

variable {covered wider : ℕ → Prop} {moves more : List (ℕ × ℕ)}
variable {original current : List Ref} {count : ℕ} {ref : Ref}

theorem none (covered : ℕ → Prop) (moves : List (ℕ × ℕ)) (original : List Ref) :
    Visited covered moves original original 0 where
  getElem?_eq := by simp
  covers := by simp

/-- The next field is as it was. -/
theorem next (visited : Visited covered moves original current count) :
    current[count]? = original[count]? := by
  rw [visited.getElem?_eq]
  simp

theorem visit (visited : Visited covered moves original current count)
    (atCount : original[count]? = some ref)
    (isCovered : ∀ addr, ref = .heap addr → covered addr) :
    Visited covered moves original (current.set count (redirect moves ref)) (count + 1) where
  getElem?_eq := by
    intro index
    have currentEq := visited.getElem?_eq index
    by_cases same : count = index
    · subst same
      have inRange : count < current.length := by
        have found : current[count]? = some ref := visited.next.trans atCount
        exact (List.getElem?_eq_some_iff.mp found).1
      rw [List.getElem?_set_self inRange, atCount]
      simp
    · rw [List.getElem?_set_ne same, currentEq]
      have sameSide : index < count ↔ index < count + 1 := by omega
      simp only [sameSide]
  covers := by
    intro index addr below found
    by_cases same : index = count
    · subst same
      rw [atCount] at found
      exact isCovered addr (Option.some.inj found)
    · exact visited.covers index addr (by omega) found

/-- Later copies and marks do not change what has been visited. -/
theorem mono (visited : Visited covered moves original current count)
    (implied : ∀ addr, covered addr → wider addr)
    (stable : ∀ addr, covered addr → newAddress more addr = newAddress moves addr) :
    Visited wider more original current count where
  getElem?_eq := by
    intro index
    rw [visited.getElem?_eq]
    cases found : original[index]? with
    | none => rfl
    | some ref =>
        simp only [Option.map_some]
        by_cases below : index < count
        · rw [if_pos below, if_pos below]
          cases ref with
          | heap addr =>
            rw [redirect, redirect, stable addr (visited.covers index addr below found)]
          | _ => rfl
        · rw [if_neg below, if_neg below]
  covers := fun index addr below found => implied addr (visited.covers index addr below found)

/-- When all fields have been visited, they are redirected. -/
theorem all (visited : Visited covered moves original current count)
    (complete : original.length ≤ count) : current = original.map (redirect moves) := by
  apply List.ext_getElem?
  intro index
  rw [visited.getElem?_eq, List.getElem?_map]
  cases found : original[index]? with
  | none => rfl
  | some ref =>
      have inRange := (List.getElem?_eq_some_iff.mp found).1
      rw [Option.map_some, Option.map_some, if_pos (by omega)]

end Visited

/-! ## The invariant -/

/-- The collection of `heap` has moved objects as listed, and visited the first `progress holder`
fields of each holder. -/
structure TracingInvariant (heap : Memory Contents) (moves : List (ℕ × ℕ))
    (progress : Holder → ℕ) (tracing : Tracing Contents) : Prop
    extends MemoryInvariant heap tracing.memory moves where
  visited : ∀ holder fields, OriginalFields heap moves holder fields →
    Visited (Covered tracing.memory moves) moves fields (tracing.memory.fields holder)
      (progress holder)
  at_index : ∀ frame ∈ tracing.frames, progress frame.holder = frame.index
  distinct : (tracing.frames.map Frame.holder).Nodup
  holds : ∀ frame ∈ tracing.frames, Holds tracing.memory moves frame.holder
  at_grey : ∀ frame ∈ tracing.frames, ∀ addr, frame.holder = .small addr → addr = tracing.grey
  scanned : ∀ new fields, OriginalFields heap moves (.small new) fields → new < tracing.grey →
    fields.length ≤ progress (.small new)
  unscanned : ∀ new, tracing.grey ≤ new →
    .small new ∉ tracing.frames.map Frame.holder → progress (.small new) = 0
  roots_done : .roots ∉ tracing.frames.map Frame.holder → heap.roots.length ≤ progress .roots
  large_done : ∀ addr fields, OriginalFields heap moves (.large addr) fields →
    tracing.memory.Marked addr → .large addr ∉ tracing.frames.map Frame.holder →
      fields.length ≤ progress (.large addr)
  large_untouched : ∀ addr, ¬tracing.memory.Marked addr → progress (.large addr) = 0
  boundary : tracing.grey = tracing.memory.space.hp ∨ ∃ old, (old, tracing.grey) ∈ moves

section Steps

variable {heap : Memory Contents} {moves : List (ℕ × ℕ)} {progress : Holder → ℕ}
variable {tracing : Tracing Contents}

/-- A holder that may be visited is a holder of the heap before the collection. -/
theorem MemoryInvariant.original {memory : Memory Contents}
    (invariant : MemoryInvariant heap memory moves) {holder : Holder}
    (holds : Holds memory moves holder) : ∃ fields, OriginalFields heap moves holder fields := by
  cases holder with
  | roots => exact ⟨_, rfl⟩
  | small addr =>
      obtain ⟨old, member⟩ := holds
      obtain ⟨object, isSmall⟩ := invariant.smallAt member
      exact ⟨_, old, object, member, isSmall, rfl⟩
  | large addr =>
      obtain ⟨current, found, -⟩ := holds
      cases isLarge : heap.large.objectMap addr with
      | none =>
          rw [invariant.large_none addr isLarge] at found
          cases found
      | some node => exact ⟨_, node, isLarge, rfl⟩

theorem MemoryInvariant.original_unique {memory : Memory Contents}
    (invariant : MemoryInvariant heap memory moves) (wellFormed : WellFormed heap)
    {holder : Holder} {fields others : List Ref}
    (original : OriginalFields heap moves holder fields)
    (otherOriginal : OriginalFields heap moves holder others) : fields = others := by
  cases holder with
  | roots => exact original.trans otherOriginal.symm
  | small addr =>
      obtain ⟨old, object, member, isSmall, rfl⟩ := original
      obtain ⟨other, otherObject, otherMember, otherSmall, rfl⟩ := otherOriginal
      obtain rfl := invariant.old_unique wellFormed member otherMember
      rw [isSmall.unique otherSmall]
  | large addr =>
      obtain ⟨node, isLarge, rfl⟩ := original
      obtain ⟨other, otherLarge, rfl⟩ := otherOriginal
      rw [isLarge] at otherLarge
      cases otherLarge
      rfl

theorem marked_edgeUpdate {memory : Memory Contents} {edge : Frame} {ref : Ref} {addr : ℕ} :
    (memory.edgeUpdate edge ref).Marked addr ↔ memory.Marked addr := by
  constructor
  · rintro ⟨node, found, isMarked⟩
    obtain ⟨before, was, sameMark, -⟩ := edgeUpdate_mark found
    exact ⟨before, was, sameMark.trans (by simpa using isMarked)⟩
  · rintro ⟨node, found, isMarked⟩
    by_cases isHolder : edge.holder = .large addr
    · obtain ⟨fields, updated⟩ := edgeUpdate_large_self ref isHolder found
      exact ⟨_, updated, by simpa using isMarked⟩
    · exact ⟨node, by rw [edgeUpdate_large isHolder]; exact found, by simpa using isMarked⟩

theorem covered_edgeUpdate {memory : Memory Contents} {edge : Frame} {ref : Ref} :
    Covered (memory.edgeUpdate edge ref) moves = Covered memory moves := by
  funext addr
  simp only [Covered, marked_edgeUpdate]

namespace TracingInvariant

/-- A call visits its next edge, whose target is covered by now. -/
theorem advance (invariant : TracingInvariant heap moves progress tracing)
    (wellFormed : WellFormed heap) {above rest : List Frame} {frame : Frame}
    (framesEq : tracing.frames = above ++ frame :: rest) {fields : List Ref} {ref : Ref}
    (original : OriginalFields heap moves frame.holder fields)
    (found : fields[frame.index]? = some ref)
    (covered : ∀ addr, ref = .heap addr → Covered tracing.memory moves addr) :
    TracingInvariant heap moves (update progress frame.holder (frame.index + 1))
      { tracing with
        memory := tracing.memory.edgeUpdate frame (redirect moves ref)
        frames := above ++ { frame with index := frame.index + 1 } :: rest } := by
  have isFrame : frame ∈ tracing.frames := by simp [framesEq]
  have index := invariant.at_index frame isFrame
  have holders : (above ++ { frame with index := frame.index + 1 } :: rest).map Frame.holder =
      tracing.frames.map Frame.holder := by simp [framesEq]
  have isHolder : frame.holder ∈ tracing.frames.map Frame.holder := List.mem_map_of_mem isFrame
  have others : ∀ other ∈ above ++ rest, other.holder ≠ frame.holder := by
    intro other member same
    have distinct := invariant.distinct
    rw [framesEq, List.map_append, List.map_cons, List.nodup_middle, List.nodup_cons] at distinct
    apply distinct.1
    rw [← List.map_append, ← same]
    exact List.mem_map_of_mem member
  have split : ∀ other ∈ above ++ { frame with index := frame.index + 1 } :: rest,
      other = { frame with index := frame.index + 1 } ∨
        (other ∈ tracing.frames ∧ other.holder ≠ frame.holder) := by
    intro other member
    rcases List.mem_append.mp member with inAbove | inRest
    · exact Or.inr ⟨by simp [framesEq, inAbove], others other (by simp [inAbove])⟩
    · rcases List.mem_cons.mp inRest with same | inRest
      · exact Or.inl same
      · exact Or.inr ⟨by simp [framesEq, inRest], others other (by simp [inRest])⟩
  have outside : ∀ holder, holder ∉ tracing.frames.map Frame.holder →
      update progress frame.holder (frame.index + 1) holder = progress holder := by
    intro holder notHolder
    apply update_of_ne
    rintro rfl
    exact notHolder isHolder
  refine
    { invariant.toMemoryInvariant.edgeUpdate wellFormed (invariant.holds frame isFrame) with
      visited := ?_, at_index := ?_, distinct := ?_, holds := ?_, at_grey := ?_, scanned := ?_
      unscanned := ?_, roots_done := ?_, large_done := ?_, large_untouched := ?_
      boundary := ?_ }
  · intro holder holderFields isOriginal
    have visited := invariant.visited holder holderFields isOriginal
    rw [covered_edgeUpdate, edgeUpdate_fields]
    by_cases same : holder = frame.holder
    · subst same
      have sameFields : holderFields = fields :=
        invariant.original_unique wellFormed isOriginal original
      subst sameFields
      rw [if_pos rfl, update_self]
      rw [index] at visited
      exact visited.visit found covered
    · rw [if_neg same, update_of_ne same]
      exact visited
  · intro other member
    rcases split other member with rfl | ⟨isOther, different⟩
    · simp
    · rw [update_of_ne different]
      exact invariant.at_index other isOther
  · rw [holders]
    exact invariant.distinct
  · intro other member
    have stillHolds : ∀ holder, Holds tracing.memory moves holder →
        Holds (tracing.memory.edgeUpdate frame (redirect moves ref)) moves holder := by
      intro holder holds
      cases holder with
      | large addr => exact marked_edgeUpdate.mpr holds
      | _ => exact holds
    rcases split other member with rfl | ⟨isOther, -⟩
    · exact stillHolds _ (invariant.holds frame isFrame)
    · exact stillHolds _ (invariant.holds other isOther)
  · intro other member addr isSmall
    rcases split other member with rfl | ⟨isOther, -⟩
    · exact invariant.at_grey frame isFrame addr isSmall
    · exact invariant.at_grey other isOther addr isSmall
  · intro new newFields isOriginal below
    have scanned := invariant.scanned new newFields isOriginal below
    by_cases same : .small new = frame.holder
    · have atGrey := invariant.at_grey frame isFrame new same.symm
      dsimp only at below
      omega
    · rw [update_of_ne same]
      exact scanned
  · intro new above notHolder
    rw [holders] at notHolder
    rw [outside _ notHolder]
    exact invariant.unscanned new above notHolder
  · intro notHolder
    rw [holders] at notHolder
    rw [outside _ notHolder]
    exact invariant.roots_done notHolder
  · intro addr addrFields isOriginal isMarked notHolder
    rw [holders] at notHolder
    rw [outside _ notHolder]
    exact invariant.large_done addr addrFields isOriginal (marked_edgeUpdate.mp isMarked) notHolder
  · intro addr notMarked
    have notMarkedBefore : ¬tracing.memory.Marked addr := fun isMarked =>
      notMarked (marked_edgeUpdate.mpr isMarked)
    rw [update_of_ne]
    · exact invariant.large_untouched addr notMarkedBefore
    · intro same
      have holds := invariant.holds frame isFrame
      rw [← same] at holds
      exact notMarkedBefore holds
  · simpa using invariant.boundary

theorem grey_le_hp (invariant : TracingInvariant heap moves progress tracing)
    (wellFormed : WellFormed heap) : tracing.grey ≤ tracing.memory.space.hp := by
  rcases invariant.boundary with atEnd | ⟨old, member⟩
  · exact atEnd.le
  · exact (invariant.new_lt_hp wellFormed member).le

/-- No call is visiting what lies at the allocation pointer. -/
theorem hp_not_visited (invariant : TracingInvariant heap moves progress tracing)
    (wellFormed : WellFormed heap) :
    .small tracing.memory.space.hp ∉ tracing.frames.map Frame.holder := by
  intro member
  obtain ⟨frame, isFrame, holderEq⟩ := List.mem_map.mp member
  have holds := invariant.holds frame isFrame
  rw [holderEq] at holds
  obtain ⟨old, moved⟩ := holds
  exact lt_irrefl _ (invariant.new_lt_hp wellFormed moved)

/-- The copy that `forward` makes waits for the scan pointer. -/
theorem copy (invariant : TracingInvariant heap moves progress tracing)
    (wellFormed : WellFormed heap) {addr : ℕ} {object : Object Contents}
    (isSmall : heap.SmallAt addr object) (notMoved : addr ∉ moves.map Prod.fst)
    (reachable : heap.Reachable addr) :
    TracingInvariant heap (moves ++ [(addr, tracing.memory.space.hp)]) progress
      { tracing with memory := (Semi.copy tracing.memory addr object).1 } := by
  have kept := invariant.toMemoryInvariant.copy wellFormed isSmall notMoved reachable
  have grey_le := invariant.grey_le_hp wellFormed
  have notVisited := invariant.hp_not_visited wellFormed
  have marked : ∀ other, (Semi.copy tracing.memory addr object).1.Marked other ↔
      tracing.memory.Marked other := fun other => Iff.rfl
  have notCovered : ¬Covered tracing.memory moves addr := by
    rintro (moved | ⟨current, found, -⟩)
    · exact notMoved moved
    · cases isLarge : heap.large.objectMap addr with
      | none =>
          rw [invariant.large_none addr isLarge] at found
          cases found
      | some node => exact wellFormed.not_large isSmall isLarge
  have widened : ∀ {fields current : List Ref} {count : ℕ},
      Visited (Covered tracing.memory moves) moves fields current count →
        Visited (Covered (Semi.copy tracing.memory addr object).1
          (moves ++ [(addr, tracing.memory.space.hp)]))
          (moves ++ [(addr, tracing.memory.space.hp)]) fields current count := by
    intro fields current count visited
    apply visited.mono
    · rintro other (moved | isMarked)
      · exact Or.inl (by simp [List.map_append, moved])
      · exact Or.inr isMarked
    · intro other isCovered
      apply newAddress_append
      rintro rfl
      exact notCovered isCovered
  have isMove : (addr, tracing.memory.space.hp) ∈
      moves ++ [(addr, tracing.memory.space.hp)] := by simp
  have hpContains := kept.new_contains wellFormed isMove
  have apart : addr ≠ tracing.memory.space.hp := by
    intro same
    rw [← same] at hpContains
    exact wellFormed.spaces_apart addr (isSmall.contains wellFormed) hpContains
  have ofMoves : ∀ new fields,
      OriginalFields heap (moves ++ [(addr, tracing.memory.space.hp)]) (.small new) fields →
        OriginalFields heap moves (.small new) fields ∨
          (new = tracing.memory.space.hp ∧ fields = object.fields) := by
    rintro new fields ⟨old, oldObject, member, oldSmall, rfl⟩
    rcases List.mem_append.mp member with isOld | isNew
    · exact Or.inl ⟨old, oldObject, isOld, oldSmall, rfl⟩
    · simp only [List.mem_singleton, Prod.mk.injEq] at isNew
      obtain ⟨rfl, rfl⟩ := isNew
      exact Or.inr ⟨rfl, by rw [oldSmall.unique isSmall]⟩
  refine
    { kept with
      visited := ?_, at_index := invariant.at_index, distinct := invariant.distinct, holds := ?_
      at_grey := invariant.at_grey, scanned := ?_, unscanned := invariant.unscanned
      roots_done := invariant.roots_done, large_done := invariant.large_done
      large_untouched := invariant.large_untouched, boundary := ?_ }
  · intro holder fields isOriginal
    cases holder with
    | roots =>
        rw [copy_fields (by simp) (by simp)]
        exact widened (invariant.visited .roots fields isOriginal)
    | large other =>
        rw [copy_fields (by simp) (by simp)]
        exact widened (invariant.visited (.large other) fields isOriginal)
    | small new =>
        rcases ofMoves new fields isOriginal with before | ⟨rfl, rfl⟩
        · have visited := invariant.visited (.small new) fields before
          obtain ⟨old, oldObject, member, -, -⟩ := before
          have notOld : (.small new : Holder) ≠ .small addr := by
            intro same
            exact invariant.new_ne_small wellFormed member isSmall (Holder.small.inj same).symm
          have notNew : (.small new : Holder) ≠ .small tracing.memory.space.hp := by
            intro same
            have below := invariant.new_lt_hp wellFormed member
            have equal := Holder.small.inj same
            omega
          rw [copy_fields notOld notNew]
          exact widened visited
        · rw [copy_fields_new apart, invariant.unscanned _ grey_le notVisited]
          exact Visited.none _ _ _
  · intro frame isFrame
    have holds := invariant.holds frame isFrame
    cases holderEq : frame.holder with
    | roots => trivial
    | small new =>
        rw [holderEq] at holds
        obtain ⟨old, member⟩ := holds
        exact ⟨old, List.mem_append_left _ member⟩
    | large other =>
        rw [holderEq] at holds
        exact holds
  · intro new fields isOriginal below
    rcases ofMoves new fields isOriginal with before | ⟨rfl, rfl⟩
    · exact invariant.scanned new fields before below
    · dsimp only at below
      omega
  · rcases invariant.boundary with atEnd | ⟨old, member⟩
    · refine Or.inr ⟨addr, ?_⟩
      simp [atEnd]
    · exact Or.inr ⟨old, List.mem_append_left _ member⟩

/-- A large object that is marked is traced at once. -/
theorem mark (invariant : TracingInvariant heap moves progress tracing) {addr : ℕ}
    {node : LargeObjectNode Contents} (found : tracing.memory.large.objectMap addr = some node)
    (notMarked : node.mark ≠ tracing.memory.large.marked) (reachable : heap.Reachable addr) :
    TracingInvariant heap moves progress
      { tracing with
        memory := withMark tracing.memory addr
        frames := { holder := .large addr, index := 0 } :: tracing.frames } := by
  have marked : ∀ other, (withMark tracing.memory addr).Marked other ↔
      other = addr ∨ tracing.memory.Marked other := by
    intro other
    simp only [Memory.Marked, withMark_marked, withMark_objectMap found notMarked]
    by_cases same : other = addr
    · subst same
      simp
    · simp [same]
  have notMarkedBefore : ¬tracing.memory.Marked addr := by
    rintro ⟨current, isCurrent, isMarked⟩
    rw [found] at isCurrent
    cases isCurrent
    exact notMarked isMarked
  refine
    { invariant.toMemoryInvariant.withMark found notMarked reachable with
      visited := ?_, at_index := ?_, distinct := ?_, holds := ?_, at_grey := ?_
      scanned := invariant.scanned, unscanned := ?_, roots_done := ?_, large_done := ?_
      large_untouched := ?_, boundary := invariant.boundary }
  · intro holder fields isOriginal
    rw [withMark_fields found notMarked]
    apply (invariant.visited holder fields isOriginal).mono
    · rintro other (moved | isMarked)
      · exact Or.inl moved
      · exact Or.inr ((marked other).mpr (Or.inr isMarked))
    · intro other _
      rfl
  · intro frame isFrame
    rcases List.mem_cons.mp isFrame with rfl | isFrame
    · exact invariant.large_untouched addr notMarkedBefore
    · exact invariant.at_index frame isFrame
  · rw [List.map_cons, List.nodup_cons]
    refine ⟨?_, invariant.distinct⟩
    intro member
    obtain ⟨frame, isFrame, holderEq⟩ := List.mem_map.mp member
    have holds := invariant.holds frame isFrame
    dsimp only at holderEq
    rw [holderEq] at holds
    exact notMarkedBefore holds
  · intro frame isFrame
    rcases List.mem_cons.mp isFrame with rfl | isFrame
    · exact (marked addr).mpr (Or.inl rfl)
    · have holds := invariant.holds frame isFrame
      cases holderEq : frame.holder with
      | large other =>
          rw [holderEq] at holds
          exact (marked other).mpr (Or.inr holds)
      | small new =>
          rw [holderEq] at holds
          exact holds
      | roots => trivial
  · intro frame isFrame other isSmall
    rcases List.mem_cons.mp isFrame with rfl | isFrame
    · cases isSmall
    · exact invariant.at_grey frame isFrame other isSmall
  · intro new above notHolder
    exact invariant.unscanned new above (by simpa using notHolder)
  · intro notHolder
    exact invariant.roots_done (by simpa using notHolder)
  · intro other fields isOriginal isMarked notHolder
    simp only [List.map_cons, List.mem_cons, Holder.large.injEq, not_or] at notHolder
    have wasMarked := ((marked other).mp isMarked).resolve_left notHolder.1
    exact invariant.large_done other fields isOriginal wasMarked notHolder.2
  · intro other stillNot
    exact invariant.large_untouched other fun isMarked =>
      stillNot ((marked other).mpr (Or.inr isMarked))

/-- `scan` begins with the object at the scan pointer. -/
theorem scan (invariant : TracingInvariant heap moves progress tracing)
    (noFrames : tracing.frames = []) (below : tracing.grey < tracing.memory.space.hp) :
    TracingInvariant heap moves progress
      { tracing with frames := [{ holder := .small tracing.grey, index := 0 }] } where
  toMemoryInvariant := invariant.toMemoryInvariant
  visited := invariant.visited
  at_index := by
    intro frame isFrame
    rw [List.mem_singleton] at isFrame
    subst isFrame
    exact invariant.unscanned _ le_rfl (by simp [noFrames])
  distinct := by simp
  holds := by
    intro frame isFrame
    rw [List.mem_singleton] at isFrame
    subst isFrame
    exact invariant.boundary.resolve_left (by omega)
  at_grey := by
    intro frame isFrame addr isSmall
    rw [List.mem_singleton] at isFrame
    subst isFrame
    exact (Holder.small.inj isSmall).symm
  scanned := invariant.scanned
  unscanned := fun new above _ => invariant.unscanned new above (by simp [noFrames])
  roots_done := fun _ => invariant.roots_done (by simp [noFrames])
  large_done := fun addr fields isOriginal isMarked _ =>
    invariant.large_done addr fields isOriginal isMarked (by simp [noFrames])
  large_untouched := invariant.large_untouched
  boundary := invariant.boundary

/-- A copy takes up as much as the original did. -/
theorem extent_eq (invariant : TracingInvariant heap moves progress tracing) {old new : ℕ}
    (member : (old, new) ∈ moves) : tracing.memory.extent new = heap.extent old := by
  obtain ⟨object, isSmall⟩ := invariant.smallAt member
  obtain ⟨fields, found⟩ := invariant.copied old new object member isSmall
  rw [isSmall.extent_eq]
  simp [Memory.extent, found]

/-- A call that has no edge left has visited them all. -/
theorem complete (invariant : TracingInvariant heap moves progress tracing) {frame : Frame}
    (isFrame : frame ∈ tracing.frames)
    (noEdge : (tracing.memory.fields frame.holder)[frame.index]? = none) {fields : List Ref}
    (original : OriginalFields heap moves frame.holder fields) :
    fields.length ≤ progress frame.holder := by
  have visited := invariant.visited frame.holder fields original
  rw [invariant.at_index frame isFrame] at visited ⊢
  rw [visited.next] at noEdge
  exact List.getElem?_eq_none_iff.mp noEdge

/-- A call returns. -/
theorem finishFrame (invariant : TracingInvariant heap moves progress tracing)
    (wellFormed : WellFormed heap) {frame : Frame} {rest : List Frame}
    (framesEq : tracing.frames = frame :: rest)
    (noEdge : (tracing.memory.fields frame.holder)[frame.index]? = none) :
    TracingInvariant heap moves progress (finishFrame tracing frame.holder rest) := by
  have isFrame : frame ∈ tracing.frames := by simp [framesEq]
  have inRest : ∀ other ∈ rest, other ∈ tracing.frames := by
    intro other member
    simp [framesEq, member]
  have distinct := invariant.distinct
  rw [framesEq, List.map_cons, List.nodup_cons] at distinct
  have outside : ∀ holder, holder ≠ frame.holder → holder ∉ rest.map Frame.holder →
      holder ∉ tracing.frames.map Frame.holder := by
    intro holder different notRest
    simp [framesEq, different, notRest]
  have complete : ∀ fields, OriginalFields heap moves frame.holder fields →
      fields.length ≤ progress frame.holder := fun fields original =>
    invariant.complete isFrame noEdge original
  cases holderEq : frame.holder with
  | small addr =>
      obtain rfl := invariant.at_grey frame isFrame addr holderEq
      rw [holderEq] at complete distinct outside
      have holds := invariant.holds frame isFrame
      rw [holderEq] at holds
      obtain ⟨old, member⟩ := holds
      obtain ⟨object, isSmall⟩ := invariant.smallAt member
      have positive := isSmall.extent_pos wellFormed
      have extentEq := invariant.extent_eq member
      exact
        { toMemoryInvariant := invariant.toMemoryInvariant
          visited := invariant.visited
          at_index := fun other isOther => invariant.at_index other (inRest other isOther)
          distinct := distinct.2
          holds := fun other isOther => invariant.holds other (inRest other isOther)
          at_grey := by
            intro other isOther otherAddr otherSmall
            obtain rfl := invariant.at_grey other (inRest other isOther) otherAddr otherSmall
            exact absurd (List.mem_map.mpr ⟨other, isOther, otherSmall⟩) distinct.1
          scanned := by
            intro new fields isOriginal below
            simp only [Semi.finishFrame, extentEq] at below
            by_cases before : new < tracing.grey
            · exact invariant.scanned new fields isOriginal before
            · have atGrey : new = tracing.grey := by
                obtain ⟨other, otherObject, otherMember, otherSmall, -⟩ := isOriginal
                have otherPositive := otherSmall.extent_pos wellFormed
                rcases invariant.laidOut.apart member otherMember with same | left | right
                · exact (congrArg Prod.snd same).symm
                · omega
                · omega
              subst atGrey
              exact complete fields isOriginal
          unscanned := by
            intro new above notRest
            simp only [Semi.finishFrame, extentEq] at above
            apply invariant.unscanned new (by omega)
            apply outside _ _ notRest
            intro same
            have equal := Holder.small.inj same
            omega
          roots_done := fun notRest => invariant.roots_done (outside _ (by simp) notRest)
          large_done := fun other fields isOriginal isMarked notRest =>
            invariant.large_done other fields isOriginal isMarked (outside _ (by simp) notRest)
          large_untouched := invariant.large_untouched
          boundary := by
            simp only [Semi.finishFrame, extentEq]
            exact invariant.laidOut.next member }
  | roots =>
      rw [holderEq] at complete distinct outside
      exact
        { toMemoryInvariant := invariant.toMemoryInvariant
          visited := invariant.visited
          at_index := fun other isOther => invariant.at_index other (inRest other isOther)
          distinct := distinct.2
          holds := fun other isOther => invariant.holds other (inRest other isOther)
          at_grey := fun other isOther => invariant.at_grey other (inRest other isOther)
          scanned := invariant.scanned
          unscanned := fun new above notRest =>
            invariant.unscanned new above (outside _ (by simp) notRest)
          roots_done := fun _ => complete _ rfl
          large_done := fun other fields isOriginal isMarked notRest =>
            invariant.large_done other fields isOriginal isMarked (outside _ (by simp) notRest)
          large_untouched := invariant.large_untouched
          boundary := invariant.boundary }
  | large addr =>
      rw [holderEq] at complete distinct outside
      exact
        { toMemoryInvariant := invariant.toMemoryInvariant
          visited := invariant.visited
          at_index := fun other isOther => invariant.at_index other (inRest other isOther)
          distinct := distinct.2
          holds := fun other isOther => invariant.holds other (inRest other isOther)
          at_grey := fun other isOther => invariant.at_grey other (inRest other isOther)
          scanned := invariant.scanned
          unscanned := fun new above notRest =>
            invariant.unscanned new above (outside _ (by simp) notRest)
          roots_done := fun notRest => invariant.roots_done (outside _ (by simp) notRest)
          large_done := by
            intro other fields isOriginal isMarked notRest
            by_cases same : other = addr
            · subst same
              exact complete fields isOriginal
            · exact invariant.large_done other fields isOriginal isMarked
                (outside _ (by simp [same]) notRest)
          large_untouched := invariant.large_untouched
          boundary := invariant.boundary }

end TracingInvariant

end Steps

end Whippet.Semi
