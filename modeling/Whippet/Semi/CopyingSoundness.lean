import Mathlib
import Whippet.Library.Processes
import Whippet.Semi.CopyingProgress

/-!
What a collection of the semi-space collector preserves.

Owns: that the collection goes on until the scan pointer has caught up with the allocation pointer,
that it does get there, and that the heap is then preserved.
-/

namespace Whippet.Semi

open Function
open Nofl (alignUp)

variable {Contents : Type}

/-! ## Visits -/

section Visits

variable {heap memory : Memory Contents} {moves : List (ℕ × ℕ)} {edge : Frame} {addr : ℕ}

theorem regionContains_eq_false {region : Region}
    (fits : region.base + region.activeSize ≤ 2 ^ 64) :
    regionContains region addr = false ↔ ¬region.Contains addr := by
  rw [← regionContains_eq_true fits, Bool.not_eq_true]

namespace MemoryInvariant

/-- What the visit of a reference to a small object does depends on what is in its header. -/
theorem visit_small (invariant : MemoryInvariant heap memory moves)
    (wellFormed : WellFormed heap) {object : Object Contents}
    (isSmall : heap.SmallAt addr object) :
    visit memory edge (.heap addr) =
      (visitSemiSpace memory edge addr >>= fun memory => pure (memory, none)) := by
  have inFrom := isSmall.contains wellFormed
  have notInTo := wellFormed.spaces_apart addr inFrom
  have notTo : regionContains memory.space.toSpace addr = false := by
    rw [invariant.toSpace_eq]
    exact (regionContains_eq_false wellFormed.fromSpace_fits).mpr notInTo
  have isFrom : regionContains memory.space.fromSpace addr = true := by
    rw [invariant.fromSpace_eq]
    exact (regionContains_eq_true wellFormed.toSpace_fits).mpr inFrom
  simp only [visit, notTo, isFrom, Outcome.check, if_true, Outcome.bind_next]

theorem visit_moved (invariant : MemoryInvariant heap memory moves)
    (wellFormed : WellFormed heap) {new : ℕ} (member : (addr, new) ∈ moves) :
    visit memory edge (.heap addr) = .next (memory.edgeUpdate edge (.heap new), none) := by
  obtain ⟨object, isSmall⟩ := invariant.smallAt member
  rw [invariant.visit_small wellFormed isSmall]
  simp [visitSemiSpace, forward, invariant.forwarded addr new member]

theorem visit_copy (invariant : MemoryInvariant heap memory moves)
    (wellFormed : WellFormed heap) {object : Object Contents}
    (isSmall : heap.SmallAt addr object) (notMoved : addr ∉ moves.map Prod.fst) :
    visit memory edge (.heap addr) =
      .next ((Semi.copy memory addr object).1.edgeUpdate edge (.heap memory.space.hp), none) := by
  rw [invariant.visit_small wellFormed isSmall]
  simp [visitSemiSpace, forward, invariant.kept addr object isSmall notMoved, Semi.copy]

theorem visit_large (invariant : MemoryInvariant heap memory moves)
    (wellFormed : WellFormed heap) {node current : LargeObjectNode Contents}
    (isLarge : heap.large.objectMap addr = some node)
    (found : memory.large.objectMap addr = some current) :
    visit memory edge (.heap addr) = .next (visitLargeObjectSpace memory addr) := by
  obtain ⟨notInFrom, notInTo⟩ := wellFormed.large_outside addr node isLarge
  have notTo : regionContains memory.space.toSpace addr = false := by
    rw [invariant.toSpace_eq]
    exact (regionContains_eq_false wellFormed.fromSpace_fits).mpr notInTo
  have notFrom : regionContains memory.space.fromSpace addr = false := by
    rw [invariant.fromSpace_eq]
    exact (regionContains_eq_false wellFormed.toSpace_fits).mpr notInFrom
  simp [visit, notTo, notFrom, found, Outcome.check]

end MemoryInvariant

end Visits

/-! ## A measure of what is left to do -/

/-- The objects that are neither copied nor marked. -/
def unvisited (heap : Memory Contents) (memory : Memory Contents) : Set ℕ :=
  {addr | (∃ object, heap.SmallAt addr object) ∧
      ∃ object, memory.cells addr = some (.object object)} ∪
    {addr | (heap.large.objectMap addr).isSome = true ∧ ¬memory.Marked addr}

def Holder.isSmall : Holder → Bool
  | .small _ => true
  | _ => false

/-- The edges that the calls under way have left, and their returns. -/
def edgesLeft (memory : Memory Contents) (frames : List Frame) : ℕ :=
  (frames.map fun frame => (memory.fields frame.holder).length - frame.index + 1).sum

/-- A copy or a mark makes fewer objects unvisited, the end of a scan moves the scan pointer, and
all else is a visit or a return. -/
noncomputable def workLeft (heap : Memory Contents) (tracing : Tracing Contents) :
    ℕ ×ₗ ℕ ×ₗ ℕ :=
  toLex ((unvisited heap tracing.memory).ncard,
    toLex (2 * (tracing.memory.space.limit - tracing.grey) +
        (if tracing.frames.any (fun frame => frame.holder.isSmall) then 0 else 1),
      edgesLeft tracing.memory tracing.frames))

section Measure

variable {heap : Memory Contents} {memory after : Memory Contents}

theorem unvisited_finite (wellFormed : WellFormed heap) : (unvisited heap memory).Finite := by
  have small : {addr | (∃ object, heap.SmallAt addr object) ∧
      ∃ object, memory.cells addr = some (.object object)}.Finite := by
    apply (Set.finite_Iio heap.space.hp).subset
    rintro addr ⟨⟨object, isSmall⟩, -⟩
    exact isSmall.2.1
  have large : {addr | (heap.large.objectMap addr).isSome = true ∧
      ¬memory.Marked addr}.Finite := by
    apply wellFormed.large_finite.subset
    rintro addr ⟨isLarge, -⟩
    exact isLarge
  exact small.union large

theorem workLeft_lt_of_unvisited {tracing result : Tracing Contents}
    (wellFormed : WellFormed heap)
    (fewer : unvisited heap result.memory ⊂ unvisited heap tracing.memory) :
    workLeft heap result < workLeft heap tracing := by
  rw [workLeft, workLeft, Prod.Lex.toLex_lt_toLex]
  exact Or.inl (Set.ncard_lt_ncard fewer (unvisited_finite wellFormed))

/-- With as many objects unvisited and the scan pointer where it is, fewer edges are less work. -/
theorem workLeft_lt_of_edges {tracing result : Tracing Contents}
    (sameUnvisited : unvisited heap result.memory = unvisited heap tracing.memory)
    (sameLimit : result.memory.space.limit = tracing.memory.space.limit)
    (sameGrey : result.grey = tracing.grey)
    (sameScan : result.frames.any (fun frame => frame.holder.isSmall) =
      tracing.frames.any (fun frame => frame.holder.isSmall))
    (fewer : edgesLeft result.memory result.frames < edgesLeft tracing.memory tracing.frames) :
    workLeft heap result < workLeft heap tracing := by
  rw [workLeft, workLeft, sameUnvisited, sameLimit, sameGrey, sameScan, Prod.Lex.toLex_lt_toLex,
    Prod.Lex.toLex_lt_toLex]
  exact Or.inr ⟨rfl, Or.inr ⟨rfl, fewer⟩⟩

/-- The scan pointer moves, or a scan begins. -/
theorem workLeft_lt_of_scan {tracing result : Tracing Contents}
    (sameMemory : result.memory = tracing.memory)
    (closer : 2 * (tracing.memory.space.limit - result.grey) +
        (if result.frames.any (fun frame => frame.holder.isSmall) then 0 else 1) <
      2 * (tracing.memory.space.limit - tracing.grey) +
        (if tracing.frames.any (fun frame => frame.holder.isSmall) then 0 else 1)) :
    workLeft heap result < workLeft heap tracing := by
  rw [workLeft, workLeft, sameMemory, Prod.Lex.toLex_lt_toLex, Prod.Lex.toLex_lt_toLex]
  exact Or.inr ⟨rfl, Or.inl closer⟩

/-- Updating an edge visits no object. -/
theorem unvisited_edgeUpdate {moves : List (ℕ × ℕ)} (invariant : MemoryInvariant heap memory moves)
    (wellFormed : WellFormed heap) {edge : Frame} {ref : Ref}
    (holds : Holds memory moves edge.holder) :
    unvisited heap (memory.edgeUpdate edge ref) = unvisited heap memory := by
  ext addr
  simp only [unvisited, Set.mem_union, Set.mem_ofPred_eq, marked_edgeUpdate]
  apply or_congr_left
  apply and_congr_right
  rintro ⟨object, isSmall⟩
  rw [edgeUpdate_cells (invariant.holder_ne_small wellFormed holds isSmall)]

/-- A visit leaves one edge less to its call, and as many to all others. -/
theorem edgesLeft_visit {frame : Frame} {above rest : List Frame} {ref : Ref}
    (inRange : frame.index < (memory.fields frame.holder).length) :
    edgesLeft (memory.edgeUpdate frame ref)
        (above ++ { frame with index := frame.index + 1 } :: rest) + 1 =
      edgesLeft memory (above ++ frame :: rest) := by
  have sameLength : ∀ holder, ((memory.edgeUpdate frame ref).fields holder).length =
      (memory.fields holder).length := by
    intro holder
    rw [edgeUpdate_fields]
    split
    · exact List.length_set
    · rfl
  simp only [edgesLeft, sameLength, List.map_append, List.map_cons, List.sum_append,
    List.sum_cons]
  omega

theorem any_isSmall_advance {frame : Frame} {above rest : List Frame} :
    (above ++ { frame with index := frame.index + 1 } :: rest).any
        (fun frame => frame.holder.isSmall) =
      (above ++ frame :: rest).any (fun frame => frame.holder.isSmall) := by
  simp

end Measure

/-! ## Steps -/

section Steps

variable {heap : Memory Contents} {moves : List (ℕ × ℕ)} {progress : Holder → ℕ}
variable {tracing : Tracing Contents}

/-- Some moves and some progress of the visits are as the invariant says. -/
def OnCourse (heap : Memory Contents) (tracing : Tracing Contents) : Prop :=
  ∃ moves progress, TracingInvariant heap moves progress tracing

/-- The collection takes a step and stays on course, with less work left. -/
def Proceeds (heap : Memory Contents) (tracing : Tracing Contents) : Prop :=
  ∃ after, traceStep tracing = .next after ∧ OnCourse heap after ∧
    workLeft heap after < workLeft heap tracing

namespace TracingInvariant

/-- A reference that has not been visited is reachable in the heap before the collection. -/
theorem reachable_of_field (invariant : TracingInvariant heap moves progress tracing)
    {holder : Holder} (holds : Holds tracing.memory moves holder) {fields : List Ref}
    (original : OriginalFields heap moves holder fields) {addr : ℕ}
    (isField : .heap addr ∈ fields) : heap.Reachable addr := by
  cases holder with
  | roots =>
      rw [original] at isField
      exact .root isField
  | small new =>
      obtain ⟨old, object, member, isSmall, rfl⟩ := original
      have reachable := (invariant.sources old (List.mem_map.mpr ⟨_, member, rfl⟩)).1
      exact .field reachable (.small isSmall) isField
  | large other =>
      obtain ⟨node, isLarge, rfl⟩ := original
      obtain ⟨current, found, isMarked⟩ := holds
      exact .field (invariant.reached other current found isMarked) (.large isLarge) isField

/-- A visit that does not find a new object: its edge is redirected, perhaps to where it was. -/
theorem proceeds_visit (invariant : TracingInvariant heap moves progress tracing)
    (wellFormed : WellFormed heap) {frame : Frame} {rest : List Frame}
    (framesEq : tracing.frames = frame :: rest) {fields : List Ref} {ref : Ref}
    (original : OriginalFields heap moves frame.holder fields)
    (atIndex : fields[frame.index]? = some ref)
    (found : (tracing.memory.fields frame.holder)[frame.index]? = some ref)
    (covered : ∀ addr, ref = .heap addr → Covered tracing.memory moves addr)
    (visited : visit tracing.memory frame ref =
      .next (tracing.memory.edgeUpdate frame (redirect moves ref), none)) :
    Proceeds heap tracing := by
  have holds := invariant.holds frame (by simp [framesEq])
  have inRange := (List.getElem?_eq_some_iff.mp found).1
  have framesSplit : tracing.frames = [] ++ frame :: rest := framesEq
  have advanced := invariant.advance wellFormed framesSplit original atIndex covered
  refine ⟨_, ?_, ⟨moves, _, advanced⟩, ?_⟩
  · unfold traceStep
    rw [framesEq]
    simp only [found, visited, Outcome.bind_next]
    rfl
  · apply workLeft_lt_of_edges
    · exact unvisited_edgeUpdate invariant.toMemoryInvariant wellFormed holds
    · simp
    · rfl
    · rw [framesEq]
      exact any_isSmall_advance
    · rw [framesEq]
      exact Nat.lt_of_succ_le (edgesLeft_visit inRange).le

/-- A visit that copies. -/
theorem proceeds_copy (invariant : TracingInvariant heap moves progress tracing)
    (wellFormed : WellFormed heap) {frame : Frame} {rest : List Frame}
    (framesEq : tracing.frames = frame :: rest) {fields : List Ref} {addr : ℕ}
    (original : OriginalFields heap moves frame.holder fields)
    (atIndex : fields[frame.index]? = some (.heap addr))
    (found : (tracing.memory.fields frame.holder)[frame.index]? = some (.heap addr))
    {object : Object Contents} (isSmall : heap.SmallAt addr object)
    (notMoved : addr ∉ moves.map Prod.fst) (reachable : heap.Reachable addr) :
    Proceeds heap tracing := by
  have copied := invariant.copy wellFormed isSmall notMoved reachable
  have isMove : (addr, tracing.memory.space.hp) ∈
      moves ++ [(addr, tracing.memory.space.hp)] := by simp
  have originalAfter : OriginalFields heap (moves ++ [(addr, tracing.memory.space.hp)])
      frame.holder fields := by
    cases holderEq : frame.holder with
    | small new =>
        rw [holderEq] at original
        obtain ⟨old, oldObject, member, oldSmall, rfl⟩ := original
        exact ⟨old, oldObject, List.mem_append_left _ member, oldSmall, rfl⟩
    | _ =>
        rw [holderEq] at original
        exact original
  have covered : ∀ other, Ref.heap addr = .heap other →
      Covered (Semi.copy tracing.memory addr object).1
        (moves ++ [(addr, tracing.memory.space.hp)]) other := by
    rintro other ⟨rfl⟩
    exact Or.inl (List.mem_map.mpr ⟨_, isMove, rfl⟩)
  have framesSplit : tracing.frames = [] ++ frame :: rest := framesEq
  have advanced := copied.advance wellFormed framesSplit originalAfter atIndex covered
  have holds := copied.holds frame (by simp [framesEq])
  have kept := copied.toMemoryInvariant
  have redirected : redirect (moves ++ [(addr, tracing.memory.space.hp)]) (.heap addr) =
      .heap tracing.memory.space.hp := by
    rw [redirect, newAddress_of_mem kept.once isMove]
  rw [redirected] at advanced
  refine ⟨_, ?_, ⟨_, _, advanced⟩, ?_⟩
  · unfold traceStep
    rw [framesEq]
    simp only [found, invariant.toMemoryInvariant.visit_copy wellFormed isSmall notMoved,
      Outcome.bind_next]
    rfl
  · apply workLeft_lt_of_unvisited wellFormed
    dsimp only
    rw [unvisited_edgeUpdate kept wellFormed holds]
    refine ⟨?_, ?_⟩
    · rintro other (⟨⟨otherObject, otherSmall⟩, isObject⟩ | isLarge)
      · refine Or.inl ⟨⟨otherObject, otherSmall⟩, otherObject, ?_⟩
        apply invariant.kept other otherObject otherSmall
        intro moved
        obtain ⟨pair, member, rfl⟩ := List.mem_map.mp moved
        obtain ⟨current, isCurrent⟩ := isObject
        rw [kept.forwarded pair.1 pair.2 (List.mem_append_left _ member)] at isCurrent
        cases isCurrent
      · exact Or.inr isLarge
    · intro subset
      have wasUnvisited : addr ∈ unvisited heap tracing.memory :=
        Or.inl ⟨⟨object, isSmall⟩, object, invariant.kept addr object isSmall notMoved⟩
      rcases subset wasUnvisited with ⟨-, current, isCurrent⟩ | ⟨isLarge, -⟩
      · rw [kept.forwarded addr _ isMove] at isCurrent
        cases isCurrent
      · obtain ⟨node, isNode⟩ := Option.isSome_iff_exists.mp isLarge
        exact wellFormed.not_large isSmall isNode

/-- A visit that marks, and so calls `gc_trace_object`. -/
theorem proceeds_mark (invariant : TracingInvariant heap moves progress tracing)
    (wellFormed : WellFormed heap) {frame : Frame} {rest : List Frame}
    (framesEq : tracing.frames = frame :: rest) {fields : List Ref} {addr : ℕ}
    (original : OriginalFields heap moves frame.holder fields)
    (atIndex : fields[frame.index]? = some (.heap addr))
    (found : (tracing.memory.fields frame.holder)[frame.index]? = some (.heap addr))
    {node current : LargeObjectNode Contents} (isLarge : heap.large.objectMap addr = some node)
    (isCurrent : tracing.memory.large.objectMap addr = some current)
    (notMarked : current.mark ≠ tracing.memory.large.marked)
    (redirected : redirect moves (.heap addr) = .heap addr)
    (reachable : heap.Reachable addr) : Proceeds heap tracing := by
  have marked := invariant.mark isCurrent notMarked reachable
  have isMarked : (withMark tracing.memory addr).Marked addr :=
    marked.holds { holder := .large addr, index := 0 } (by simp)
  have covered : ∀ other, Ref.heap addr = .heap other →
      Covered (withMark tracing.memory addr) moves other := by
    rintro other ⟨rfl⟩
    exact Or.inr isMarked
  have framesAfter : ({ holder := .large addr, index := 0 } :: tracing.frames : List Frame) =
      [{ holder := .large addr, index := 0 }] ++ frame :: rest := by rw [framesEq]; rfl
  have advanced := marked.advance wellFormed framesAfter original atIndex covered
  have same : (withMark tracing.memory addr).edgeUpdate frame (redirect moves (.heap addr)) =
      withMark tracing.memory addr := by
    rw [redirected]
    apply edgeUpdate_same
    rw [withMark_fields isCurrent notMarked]
    exact found
  dsimp only at advanced
  rw [same] at advanced
  refine ⟨_, ?_, ⟨_, _, advanced⟩, ?_⟩
  · unfold traceStep
    rw [framesEq]
    simp only [found, invariant.toMemoryInvariant.visit_large wellFormed isLarge isCurrent,
      visitLargeObjectSpace_unmarked isCurrent notMarked, Outcome.bind_next]
    rfl
  · apply workLeft_lt_of_unvisited wellFormed
    refine ⟨?_, ?_⟩
    · rintro other (isSmall | ⟨otherLarge, otherUnmarked⟩)
      · exact Or.inl isSmall
      · refine Or.inr ⟨otherLarge, ?_⟩
        rintro ⟨otherNode, otherFound, otherMarked⟩
        apply otherUnmarked
        by_cases same : other = addr
        · exact same ▸ isMarked
        · refine ⟨otherNode, ?_, by simpa using otherMarked⟩
          rw [withMark_objectMap isCurrent notMarked, update_of_ne same]
          exact otherFound
    · intro subset
      have wasUnvisited : addr ∈ unvisited heap tracing.memory := by
        refine Or.inr ⟨by simp [isLarge], ?_⟩
        rintro ⟨again, isAgain, againMarked⟩
        rw [isCurrent] at isAgain
        cases isAgain
        exact notMarked againMarked
      rcases subset wasUnvisited with ⟨⟨object, isSmall⟩, -⟩ | ⟨-, stillUnmarked⟩
      · exact wellFormed.not_large isSmall isLarge
      · exact stillUnmarked isMarked

/-- A visit of any kind of reference. -/
theorem proceeds_edge (invariant : TracingInvariant heap moves progress tracing)
    (wellFormed : WellFormed heap) {frame : Frame} {rest : List Frame}
    (framesEq : tracing.frames = frame :: rest) {ref : Ref}
    (found : (tracing.memory.fields frame.holder)[frame.index]? = some ref) :
    Proceeds heap tracing := by
  have isFrame : frame ∈ tracing.frames := by simp [framesEq]
  have holds := invariant.holds frame isFrame
  obtain ⟨fields, original⟩ := invariant.original holds
  have visited := invariant.visited frame.holder fields original
  rw [invariant.at_index frame isFrame] at visited
  have atIndex : fields[frame.index]? = some ref := visited.next.symm.trans found
  -- A reference that leads to no small object is written back as it was, or not at all.
  have unchanged : redirect moves ref = ref →
      tracing.memory.edgeUpdate frame (redirect moves ref) = tracing.memory := by
    intro same
    rw [same]
    exact edgeUpdate_same found
  cases ref with
  | null =>
      apply invariant.proceeds_visit wellFormed framesEq original atIndex found (by simp)
      rw [unchanged rfl]
      rfl
  | immediate bits =>
      apply invariant.proceeds_visit wellFormed framesEq original atIndex found (by simp)
      rw [unchanged rfl]
      rfl
  | heap addr =>
      have isField : .heap addr ∈ fields := List.mem_of_getElem? atIndex
      have reachable := invariant.reachable_of_field holds original isField
      obtain ⟨object, isObject⟩ := reachable.object wellFormed
      cases isObject with
      | small isSmall =>
          by_cases moved : addr ∈ moves.map Prod.fst
          · obtain ⟨pair, member, rfl⟩ := List.mem_map.mp moved
            apply invariant.proceeds_visit wellFormed framesEq original atIndex found
            · rintro other ⟨rfl⟩
              exact Or.inl moved
            · rw [redirect, newAddress_of_mem invariant.once member]
              exact invariant.visit_moved wellFormed member
          · exact invariant.proceeds_copy wellFormed framesEq original atIndex found isSmall moved
              reachable
      | @large node isLarge =>
          have notMoved : addr ∉ moves.map Prod.fst := by
            intro moved
            obtain ⟨-, object, isSmall⟩ := invariant.sources addr moved
            exact wellFormed.not_large isSmall isLarge
          have redirected : redirect moves (.heap addr) = .heap addr := by
            rw [redirect, newAddress_of_not_mem notMoved]
          obtain ⟨mark, currentFields, isCurrent⟩ := invariant.large addr node isLarge
          by_cases isMarked : mark = tracing.memory.large.marked
          · apply invariant.proceeds_visit wellFormed framesEq original atIndex found
            · rintro other ⟨rfl⟩
              exact Or.inr ⟨_, isCurrent, isMarked⟩
            · rw [unchanged redirected, invariant.visit_large wellFormed isLarge isCurrent,
                visitLargeObjectSpace_marked isCurrent isMarked]
          · exact invariant.proceeds_mark wellFormed framesEq original atIndex found isLarge
              isCurrent isMarked redirected reachable

/-- A call returns, and `scan` moves on. -/
theorem proceeds_return (invariant : TracingInvariant heap moves progress tracing)
    (wellFormed : WellFormed heap) {frame : Frame} {rest : List Frame}
    (framesEq : tracing.frames = frame :: rest)
    (noEdge : (tracing.memory.fields frame.holder)[frame.index]? = none) :
    Proceeds heap tracing := by
  have isFrame : frame ∈ tracing.frames := by simp [framesEq]
  have hp_le := invariant.hp_le wellFormed
  rw [← invariant.limit_eq] at hp_le
  refine ⟨_, ?_, ⟨moves, progress, invariant.finishFrame wellFormed framesEq noEdge⟩, ?_⟩
  · simp [traceStep, framesEq, noEdge]
  · cases holderEq : frame.holder with
    | small addr =>
        obtain rfl := invariant.at_grey frame isFrame addr holderEq
        have holds := invariant.holds frame isFrame
        rw [holderEq] at holds
        obtain ⟨old, member⟩ := holds
        obtain ⟨object, isSmall⟩ := invariant.smallAt member
        have positive := isSmall.extent_pos wellFormed
        have extentEq := invariant.extent_eq member
        have below := invariant.new_lt_hp wellFormed member
        refine workLeft_lt_of_scan rfl ?_
        simp only [Semi.finishFrame, framesEq, extentEq, List.any_cons, holderEq,
          Holder.isSmall, Bool.true_or, if_true]
        split <;> omega
    | _ =>
        refine workLeft_lt_of_edges rfl rfl rfl ?_ ?_
        · simp [Semi.finishFrame, framesEq, holderEq, Holder.isSmall]
        · simp only [Semi.finishFrame, framesEq, edgesLeft, List.map_cons, List.sum_cons]
          omega

/-- Until the scan pointer has caught up, there is a step to take. -/
theorem proceeds (invariant : TracingInvariant heap moves progress tracing)
    (wellFormed : WellFormed heap) (notFinished : ¬tracing.Finished) :
    Proceeds heap tracing := by
  cases framesEq : tracing.frames with
  | nil =>
      have below : tracing.grey < tracing.memory.space.hp := by
        by_contra notBelow
        exact notFinished ⟨framesEq, not_lt.mp notBelow⟩
      refine ⟨_, ?_, ⟨moves, progress, invariant.scan framesEq below⟩, ?_⟩
      · simp [traceStep, framesEq, below, Outcome.require]
      · refine workLeft_lt_of_scan rfl ?_
        simp [framesEq, Holder.isSmall]
  | cons frame rest =>
      cases found : (tracing.memory.fields frame.holder)[frame.index]? with
      | some ref => exact invariant.proceeds_edge wellFormed framesEq found
      | none => exact invariant.proceeds_return wellFormed framesEq found

end TracingInvariant

end Steps

/-! ## The start and the end -/

section Ends

variable {heap : Memory Contents} {moves : List (ℕ × ℕ)} {progress : Holder → ℕ}
variable {tracing : Tracing Contents}

/-- The flip of a well-formed heap fails no assertion. -/
theorem startCollection_onCourse (wellFormed : WellFormed heap) :
    ∃ start, startCollection heap = .next start ∧ OnCourse heap start := by
  have sized := wellFormed.sized
  let space : SemiSpace :=
    { heap.space with
      fromSpace := heap.space.toSpace
      toSpace := heap.space.fromSpace
      hp := heap.space.fromSpace.base
      limit := heap.space.fromSpace.base + heap.space.fromSpace.activeSize }
  let memory : Memory Contents :=
    { heap with space := space, large := largeObjectSpaceStartGc heap.large }
  let start : Tracing Contents :=
    { memory := memory, grey := space.hp, frames := [{ holder := .roots, index := 0 }] }
  have flipped : flip heap.space = .next space := by
    have toActive_eq := sized.toActive_eq
    have fromActive_eq := sized.fromActive_eq
    have fromActive_le := sized.fromActive_le
    refine flip_eq_next.mpr ⟨sized.hp_le, by omega, by omega, rfl⟩
  have started : startCollection heap = .next start := by
    simp only [startCollection, flipped, Outcome.bind_next]
    rfl
  have notMarked : ∀ addr, ¬memory.Marked addr := by
    rintro addr ⟨node, isLarge, isMarked⟩
    exact wellFormed.mark_ne_toggled isLarge isMarked
  refine ⟨start, started, [], fun _ => 0, ?_⟩
  exact
    { toSpace_eq := rfl
      fromSpace_eq := rfl
      limit_eq := rfl
      laidOut := LaidOut.nil
      once := List.nodup_nil
      sources := by simp
      forwarded := by simp
      kept := fun addr object isSmall _ => isSmall.2.2
      copied := by simp
      marked_eq := rfl
      large := fun addr node isLarge => ⟨node.mark, node.object.fields, isLarge⟩
      large_none := fun addr isNone => isNone
      unmarked := by
        intro addr node current isLarge isCurrent _
        exact Option.some.inj (isCurrent.symm.trans isLarge)
      reached := fun addr current isCurrent isMarked =>
        absurd ⟨current, isCurrent, isMarked⟩ (notMarked addr)
      visited := by
        intro holder fields original
        have sameFields : memory.fields holder = fields := by
          cases holder with
          | roots => exact original.symm
          | small addr =>
              obtain ⟨old, object, member, -⟩ := original
              cases member
          | large addr =>
              obtain ⟨node, isLarge, rfl⟩ := original
              have found : memory.large.objectMap addr = some node := isLarge
              simp [Memory.fields, found]
        rw [sameFields]
        exact Visited.none _ _ _
      at_index := by simp [start]
      distinct := by simp [start]
      holds := by simp [start, Holds]
      at_grey := by simp [start]
      scanned := by
        rintro new fields ⟨old, object, member, -⟩
        cases member
      unscanned := fun _ _ _ => rfl
      roots_done := fun notRoots => absurd (by simp [start]) notRoots
      large_done := fun addr _ _ isMarked => absurd isMarked (notMarked addr)
      large_untouched := fun _ _ => rfl
      boundary := Or.inl rfl }

namespace TracingInvariant

/-- When the scan pointer has caught up, every holder has been visited. -/
theorem all_visited (invariant : TracingInvariant heap moves progress tracing)
    (wellFormed : WellFormed heap) (finished : tracing.Finished) {holder : Holder}
    (holds : Holds tracing.memory moves holder) {fields : List Ref}
    (original : OriginalFields heap moves holder fields) :
    fields.length ≤ progress holder := by
  have noFrames : ∀ other, other ∉ tracing.frames.map Frame.holder := by simp [finished.1]
  cases holder with
  | roots =>
      have done := invariant.roots_done (noFrames _)
      rw [original]
      exact done
  | small new =>
      obtain ⟨old, member⟩ := holds
      have below := invariant.new_lt_hp wellFormed member
      exact invariant.scanned new fields original (below.trans_le finished.2)
  | large addr => exact invariant.large_done addr fields original holds (noFrames _)

/-- At the end, every reachable object is covered. -/
theorem covered_of_reachable (invariant : TracingInvariant heap moves progress tracing)
    (wellFormed : WellFormed heap) (finished : tracing.Finished) {addr : ℕ}
    (reachable : heap.Reachable addr) : Covered tracing.memory moves addr := by
  have closed : ∀ holder fields, Holds tracing.memory moves holder →
      OriginalFields heap moves holder fields → ∀ target, .heap target ∈ fields →
        Covered tracing.memory moves target := by
    intro holder fields holds original target isField
    obtain ⟨index, atIndex⟩ := List.mem_iff_getElem?.mp isField
    have complete := invariant.all_visited wellFormed finished holds original
    have inRange := (List.getElem?_eq_some_iff.mp atIndex).1
    exact (invariant.visited holder fields original).covers index target (by omega) atIndex
  induction reachable with
  | root isRoot => exact closed .roots heap.roots trivial rfl _ isRoot
  | @field addr target object reachable isObject isField inductionHypothesis =>
      cases isObject with
      | small isSmall =>
          rcases inductionHypothesis with moved | isMarked
          · obtain ⟨pair, member, rfl⟩ := List.mem_map.mp moved
            exact closed (.small pair.2) object.fields ⟨pair.1, member⟩
              ⟨pair.1, object, member, isSmall, rfl⟩ target isField
          · have holds : Holds tracing.memory moves (.large addr) := isMarked
            obtain ⟨fields, node, isLarge, -⟩ := invariant.original holds
            exact (wellFormed.not_large isSmall isLarge).elim
      | @large node isLarge =>
          rcases inductionHypothesis with moved | isMarked
          · obtain ⟨-, other, isSmall⟩ := invariant.sources addr moved
            exact (wellFormed.not_large isSmall isLarge).elim
          · exact closed (.large addr) node.object.fields isMarked ⟨node, isLarge, rfl⟩ target
              isField

/-- At the end, the fields of every covered holder are redirected. -/
theorem fields_redirected (invariant : TracingInvariant heap moves progress tracing)
    (wellFormed : WellFormed heap) (finished : tracing.Finished) {holder : Holder}
    (holds : Holds tracing.memory moves holder) {fields : List Ref}
    (original : OriginalFields heap moves holder fields) :
    tracing.memory.fields holder = fields.map (redirect moves) :=
  (invariant.visited holder fields original).all
    (invariant.all_visited wellFormed finished holds original)

/-- Reachable objects that have the same new address are the same: copies lie apart, and no large
object lies among them. -/
theorem newAddress_injective (invariant : TracingInvariant heap moves progress tracing)
    (wellFormed : WellFormed heap) (finished : tracing.Finished) {left right : ℕ}
    (leftReachable : heap.Reachable left) (rightReachable : heap.Reachable right)
    (same : newAddress moves left = newAddress moves right) : left = right := by
  have places : ∀ addr, heap.Reachable addr →
      (∃ new, (addr, new) ∈ moves ∧ newAddress moves addr = new) ∨
        newAddress moves addr = addr ∧ ¬heap.space.fromSpace.Contains addr := by
    intro addr reachable
    by_cases moved : addr ∈ moves.map Prod.fst
    · obtain ⟨pair, member, rfl⟩ := List.mem_map.mp moved
      exact Or.inl ⟨pair.2, member, newAddress_of_mem invariant.once member⟩
    · have isMarked := (invariant.covered_of_reachable wellFormed finished
        reachable).resolve_left moved
      have holds : Holds tracing.memory moves (.large addr) := isMarked
      obtain ⟨fields, node, isLarge, -⟩ := invariant.original holds
      exact Or.inr ⟨newAddress_of_not_mem moved, (wellFormed.large_outside addr node isLarge).2⟩
  rcases places left leftReachable with ⟨leftNew, leftMember, leftEq⟩ | ⟨leftEq, leftOutside⟩
  · rcases places right rightReachable with ⟨rightNew, rightMember, rightEq⟩ |
      ⟨rightEq, rightOutside⟩
    · have sameNew : leftNew = rightNew := leftEq.symm.trans (same.trans rightEq)
      subst sameNew
      exact invariant.old_unique wellFormed leftMember rightMember
    · rw [leftEq, rightEq] at same
      exact absurd (same ▸ invariant.new_contains wellFormed leftMember) rightOutside
  · rcases places right rightReachable with ⟨rightNew, rightMember, rightEq⟩ | ⟨rightEq, -⟩
    · rw [leftEq, rightEq] at same
      exact absurd (same ▸ invariant.new_contains wellFormed rightMember) leftOutside
    · rw [leftEq, rightEq] at same
      exact same

/-- What a finished collection leaves. -/
theorem preserved (invariant : TracingInvariant heap moves progress tracing)
    (wellFormed : WellFormed heap) (finished : tracing.Finished) :
    PreservedBy heap tracing.memory moves where
  flipped := ⟨invariant.toSpace_eq, invariant.fromSpace_eq⟩
  contiguous := by
    rw [invariant.toSpace_eq]
    exact invariant.laidOut
  once := invariant.once
  exactly := by
    intro addr
    refine ⟨invariant.sources addr, ?_⟩
    rintro ⟨reachable, object, isSmall⟩
    rcases invariant.covered_of_reachable wellFormed finished reachable with moved | isMarked
    · exact moved
    · have holds : Holds tracing.memory moves (.large addr) := isMarked
      obtain ⟨fields, node, isLarge, -⟩ := invariant.original holds
      exact (wellFormed.not_large isSmall isLarge).elim
  injective := fun left right leftReachable rightReachable =>
    invariant.newAddress_injective wellFormed finished leftReachable rightReachable
  copies := by
    intro old new object member isSmall
    obtain ⟨fields, found⟩ := invariant.copied old new object member isSmall
    have holds : Holds tracing.memory moves (.small new) := ⟨old, member⟩
    have original : OriginalFields heap moves (.small new) object.fields :=
      ⟨old, object, member, isSmall, rfl⟩
    have redirected := invariant.fields_redirected wellFormed finished holds original
    simp only [Memory.fields, found] at redirected
    rw [found, redirected]
    rfl
  roots := by
    have holds : Holds tracing.memory moves .roots := trivial
    have original : OriginalFields heap moves .roots heap.roots := rfl
    exact invariant.fields_redirected wellFormed finished holds original
  large_reachable := by
    intro addr node isLarge reachable
    obtain ⟨mark, fields, found⟩ := invariant.large addr node isLarge
    have isMarked : tracing.memory.Marked addr := by
      rcases invariant.covered_of_reachable wellFormed finished reachable with moved | isMarked
      · obtain ⟨-, object, isSmall⟩ := invariant.sources addr moved
        exact (wellFormed.not_large isSmall isLarge).elim
      · exact isMarked
    have holds : Holds tracing.memory moves (.large addr) := isMarked
    have original : OriginalFields heap moves (.large addr) node.object.fields :=
      ⟨node, isLarge, rfl⟩
    have redirected := invariant.fields_redirected wellFormed finished holds original
    simp only [Memory.fields, found] at redirected
    obtain ⟨current, isCurrent, markEq⟩ := isMarked
    rw [found] at isCurrent
    cases isCurrent
    dsimp only at markEq
    rw [found, redirected, markEq]
    rfl
  large_unreachable := by
    intro addr node isLarge unreachable
    obtain ⟨mark, fields, found⟩ := invariant.large addr node isLarge
    have notMarked : mark ≠ tracing.memory.large.marked := fun isMarked =>
      unreachable (invariant.reached addr _ found isMarked)
    have same := invariant.unmarked addr node _ isLarge found notMarked
    refine ⟨found.trans (congrArg some same), ?_⟩
    rw [invariant.marked_eq]
    exact wellFormed.mark_ne_toggled isLarge
  large_none := invariant.large_none
  hp_le := by
    rw [invariant.limit_eq]
    exact invariant.hp_le wellFormed
  limit_eq := by
    rw [invariant.limit_eq, invariant.toSpace_eq]

end TracingInvariant

end Ends

/-! ## Collections -/

/-- A collection of a well-formed heap fails no assertion, ends, and preserves the heap: copies of
exactly the reachable small objects lie one after another in the new to-space, each reference is
redirected, and exactly the reachable large objects are marked. -/
theorem collection_preserves_heap (heap : Memory Contents) (wellFormed : WellFormed heap) :
    ∃ start count final, startCollection heap = .next start ∧
      Outcome.iterate traceStep count start = .next final ∧ final.Finished ∧
      ∃ moves, PreservedBy heap final.memory moves := by
  obtain ⟨start, started, onCourse⟩ := startCollection_onCourse wellFormed
  have ends : ∃ count final, Outcome.iterate traceStep count start = .next final ∧
      OnCourse heap final ∧ final.Finished := by
    apply Outcome.exists_iterate_of_decreasing (workLeft heap) _ onCourse
    rintro tracing ⟨moves, progress, invariant⟩ notFinished
    exact invariant.proceeds wellFormed notFinished
  obtain ⟨count, final, ran, ⟨moves, progress, invariant⟩, finished⟩ := ends
  exact ⟨start, count, final, started, ran, finished, moves,
    invariant.preserved wellFormed finished⟩

/-- Two small objects that refer to each other, and a large one that refers back to them. -/
private def ringHeap : Memory Unit where
  space :=
    { hp := 1040
      limit := 5096
      fromSpace := { base := 8192, activeSize := 4096, mappedSize := 4096 }
      toSpace := { base := 1000, activeSize := 4096, mappedSize := 4096 }
      pageSize := 4096
      stolenPages := 0
      liveBytesAtLastGc := 0 }
  cells := fun addr =>
    if addr = 1000 then
      some (.object { size := 12, fields := [.heap 1016, .heap 20000], contents := () })
    else if addr = 1016 then
      some (.object { size := 24, fields := [.heap 1000, .immediate 3], contents := () })
    else none
  large :=
    { marked := 1
      objectMap := fun addr =>
        if addr = 20000 then
          some { size := 12288, mark := 0, object :=
            { size := 9000, fields := [.heap 1016, .null], contents := () } }
        else none
      pageSize := 4096
      livePagesAtLastCollection := 0 }
  roots := [.heap 1016, .null]

private theorem ringHeap_smallAt {addr : ℕ} {object : Object Unit}
    (isSmall : ringHeap.SmallAt addr object) :
    (addr = 1000 ∧ object = { size := 12, fields := [.heap 1016, .heap 20000], contents := () }) ∨
      (addr = 1016 ∧
        object = { size := 24, fields := [.heap 1000, .immediate 3], contents := () }) := by
  have found := isSmall.2.2
  simp only [ringHeap] at found
  split_ifs at found with first second
  · cases found
    exact Or.inl ⟨first, rfl⟩
  · cases found
    exact Or.inr ⟨second, rfl⟩

private theorem ringHeap_objectMap {addr : ℕ} {node : LargeObjectNode Unit}
    (isLarge : ringHeap.large.objectMap addr = some node) :
    addr = 20000 ∧ node = { size := 12288, mark := 0, object :=
      { size := 9000, fields := [.heap 1016, .null], contents := () } } := by
  simp only [ringHeap] at isLarge
  split_ifs at isLarge with found
  cases isLarge
  exact ⟨found, rfl⟩

private theorem ringHeap_refsTo {refs : List Ref}
    (known : ∀ addr, .heap addr ∈ refs → addr = 1000 ∨ addr = 1016 ∨ addr = 20000) :
    ringHeap.RefsTo refs := by
  intro addr member
  rcases known addr member with rfl | rfl | rfl
  · exact ⟨_, .small ⟨by decide, by decide, rfl⟩⟩
  · exact ⟨_, .small ⟨by decide, by decide, rfl⟩⟩
  · exact ⟨_, .large rfl⟩

private theorem ringHeap_wellFormed : WellFormed ringHeap where
  sized := ⟨by decide, by decide, rfl, rfl, by decide⟩
  toSpace_fits := by decide
  fromSpace_fits := by decide
  spaces_apart := by
    rintro addr ⟨-, below⟩ ⟨above, -⟩
    simp only [ringHeap] at below above
    omega
  small := by
    intro addr object isSmall
    rcases ringHeap_smallAt isSmall with ⟨rfl, rfl⟩ | ⟨rfl, rfl⟩ <;> decide
  small_apart := by
    intro left right leftObject rightObject leftSmall rightSmall before
    rcases ringHeap_smallAt leftSmall with ⟨rfl, -⟩ | ⟨rfl, -⟩ <;>
      rcases ringHeap_smallAt rightSmall with ⟨rfl, -⟩ | ⟨rfl, -⟩
    · omega
    · decide
    · omega
    · omega
  large_outside := by
    intro addr node isLarge
    obtain ⟨rfl, -⟩ := ringHeap_objectMap isLarge
    constructor <;> simp [Region.Contains, ringHeap]
  large_finite := by
    apply (Set.finite_singleton 20000).subset
    intro addr isSome
    obtain ⟨node, isLarge⟩ := Option.isSome_iff_exists.mp isSome
    exact (ringHeap_objectMap isLarge).1
  marks := by
    intro addr node isLarge
    obtain ⟨-, rfl⟩ := ringHeap_objectMap isLarge
    exact Or.inr rfl
  marked := Or.inl rfl
  roots_closed := by
    apply ringHeap_refsTo
    intro addr member
    simp [ringHeap] at member
    omega
  fields_closed := by
    intro addr object isObject
    apply ringHeap_refsTo
    intro target member
    cases isObject with
    | small isSmall =>
        rcases ringHeap_smallAt isSmall with ⟨-, rfl⟩ | ⟨-, rfl⟩ <;> simp at member <;> omega
    | large isLarge =>
        obtain ⟨-, rfl⟩ := ringHeap_objectMap isLarge
        simp at member
        omega

theorem collection_preserves_heap_ring :
    ∃ start count final, startCollection ringHeap = .next start ∧
      Outcome.iterate traceStep count start = .next final ∧ final.Finished ∧
      ∃ moves, PreservedBy ringHeap final.memory moves :=
  collection_preserves_heap ringHeap ringHeap_wellFormed

end Whippet.Semi
