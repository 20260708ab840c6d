import Whippet.Nofl.EvacuateProtocol

/-!
Soundness of the visits to one object.

Owns: that every step keeps the invariant, that no assertion fails, that the visits can always be
finished, and what this says about the object: one visit finds it newly traced, all edges end at
one address, and what is there is the object.
-/

namespace Whippet.Nofl

open Function Processes

namespace LiveObject

variable {space : TraceSpace} {object : LiveObject space} {stage : Stage} {world : VisitWorld}
variable {index : ℕ} {visit : Visit} {phase : Phase} {kind : VisitKind} {byte seen : Byte}

/-! ## Loads of the metadata byte -/

theorem not_youngOrSurvivor_withMark {mark : Byte} (isMark : IsMark mark)
    (transient : mark = NOFL_METADATA_BYTE_BUSY ∨ mark = NOFL_METADATA_BYTE_FORWARDED) :
    noflMetadataByteIsYoungOrHasMark (withMark byte mark) space.survivorMark = false := by
  have survivors := space.survivorMark_mem
  simp only [List.mem_cons, List.not_mem_nil, or_false] at survivors
  rw [noflMetadataByteIsYoungOrHasMark, noflMetadataByteHasMark, noflMetadataByteHasMark,
    markOf_withMark isMark]
  rcases transient with rfl | rfl <;> rcases survivors with equal | equal | equal <;>
    rw [equal] <;> decide

/-- An unmarked byte that is young or of a survivor is the byte as it was. -/
theorem stage_eq_untouched_of_live
    (unmarked : ¬noflMetadataByteHasMark (object.byteIn stage) space.currentMark = true)
    (live : noflMetadataByteIsYoungOrHasMark (object.byteIn stage) space.survivorMark = true) :
    stage = .untouched := by
  have seen : object.Seen stage .key (object.byteIn stage) := object.seen_byteIn (.inl rfl)
  rcases seen with ⟨-, same⟩ | ⟨busy, -⟩ | ⟨forwarded, -⟩ | ⟨marked, -⟩
  · exact object.byteIn_eq_byte same
  · rw [busy, busyByte, not_youngOrSurvivor_withMark (by decide) (.inl rfl)] at live
    cases live
  · rw [forwarded, forwardedByte, not_youngOrSurvivor_withMark (by decide) (.inr rfl)] at live
    cases live
  · rw [marked, noflMetadataByteHasMark_iff] at unmarked
    exact absurd (markOf_withMark space.currentMark_isMark) unmarked

theorem MemoryOk.untouched_of_unmarked (memoryOk : object.MemoryOk stage world)
    (unmarked : ¬noflMetadataByteHasMark (object.byteIn stage) space.currentMark = true)
    (notEvacuated : ¬object.ShouldEvacuate) : stage = .untouched := by
  by_contra touched
  apply notEvacuated
  apply memoryOk.evacuated touched
  intro inPlace
  apply unmarked
  rw [inPlace, noflMetadataByteHasMark_iff]
  exact markOf_withMark space.currentMark_isMark

/-- What a visit that relocates objects does after it has loaded the byte. -/
theorem MemoryOk.evacuateOrMark_cases (memoryOk : object.MemoryOk stage world) :
    (space.noflSpaceEvacuateOrMarkObject (object.byteIn stage) object.ref = .returned false ∧
        stage = .inPlace) ∨
      (space.noflSpaceEvacuateOrMarkObject (object.byteIn stage) object.ref =
          .claiming object.byte ∧ object.ShouldEvacuate) ∨
      (space.noflSpaceEvacuateOrMarkObject (object.byteIn stage) object.ref =
          .waiting (object.byteIn stage) (object.byteIn stage) ∧ stage ≠ .untouched) ∨
      (space.noflSpaceEvacuateOrMarkObject (object.byteIn stage) object.ref =
          .marking object.byte ∧ ¬object.ShouldEvacuate) := by
  unfold TraceSpace.noflSpaceEvacuateOrMarkObject
  have decides := object.shouldEvacuate_byteIn stage
  split_ifs with marked evacuates
  · exact .inl ⟨rfl, object.byteIn_hasMark marked⟩
  · unfold TraceSpace.noflSpaceEvacuate
    split_ifs with live
    · have untouched := stage_eq_untouched_of_live marked live
      subst untouched
      exact .inr (.inl ⟨rfl, evacuates⟩)
    · refine .inr (.inr (.inl ⟨rfl, ?_⟩))
      rintro rfl
      exact live object.live
  · have notEvacuated : ¬object.ShouldEvacuate := by rwa [← decides]
    have untouched := memoryOk.untouched_of_unmarked marked notEvacuated
    subst untouched
    exact .inr (.inr (.inr ⟨rfl, notEvacuated⟩))

/-- The same for a visit of a pinned edge. -/
theorem MemoryOk.markObject_cases (memoryOk : object.MemoryOk stage world)
    (stepped : space.noflSpaceMarkObject (object.byteIn stage) object.ref = .next phase) :
    (phase = .returned false ∧ stage = .inPlace) ∨
      (phase = .marking object.byte ∧ ¬object.ShouldEvacuate) := by
  unfold TraceSpace.noflSpaceMarkObject at stepped
  split_ifs at stepped with marked
  · cases stepped
    exact .inl ⟨rfl, object.byteIn_hasMark marked⟩
  · rw [Outcome.check_bind_eq_next] at stepped
    obtain ⟨stays, equal⟩ := stepped
    cases equal
    have notEvacuated : ¬object.ShouldEvacuate := by
      rw [← object.shouldEvacuate_byteIn stage, stays]
      decide
    have untouched := memoryOk.untouched_of_unmarked marked notEvacuated
    subst untouched
    exact .inr ⟨rfl, notEvacuated⟩

/-! ## Steps -/

theorem VisitOk.enter {words : ℕ → ℕ} (visitOk : object.VisitOk stage words visit)
    (phaseOk : object.PhaseOk stage visit.kind phase)
    (settled : ∀ result, phase = .returned result → (visit.kind = .key → result = true) →
      Settled stage (words visit.edge)) :
    object.VisitOk stage words { visit with phase := phase } :=
  ⟨phaseOk, visitOk.pinned, settled, visitOk.holds, visitOk.outside, visitOk.outsideCopy⟩

/-- A visit sees that the object is marked in place and returns. -/
theorem VisitOk.returnMarked {words : ℕ → ℕ} (visitOk : object.VisitOk .inPlace words visit)
    (result : Bool) : object.VisitOk .inPlace words { visit with phase := .returned result } :=
  visitOk.enter (fun _ _ => trivial) (fun _ _ _ => .inl rfl)

/-- Whether a visit knows what it does, with nothing said of its edge yet. -/
def KnownPhase (object : LiveObject space) (stage : Stage) (value : ℕ) (kind : VisitKind)
    (phase : Phase) : Prop :=
  object.PhaseOk stage kind phase ∧
    ∀ result, phase = .returned result → (kind = .key → result = true) → Settled stage value

theorem KnownPhase.of_inPlace {value : ℕ} {result : Bool} (inPlace : stage = .inPlace) :
    object.KnownPhase stage value kind (.returned result) := by
  subst inPlace
  exact ⟨fun _ _ => trivial, fun _ _ _ => .inl rfl⟩

theorem KnownPhase.of_phaseOk {value : ℕ} (phaseOk : object.PhaseOk stage kind phase)
    (goesOn : ∀ result, phase ≠ .returned result) : object.KnownPhase stage value kind phase :=
  ⟨phaseOk, fun result returned => absurd returned (goesOn result)⟩

/-- A visit that does not have the object takes a step that leaves memory alone. -/
theorem Consistent.look (consistent : object.Consistent stage world)
    (found : world.visits[index]? = some visit) (idle : visit.owns = false)
    (known : object.KnownPhase stage (world.memory.words visit.edge) visit.kind phase)
    (stillIdle : Visit.owns { visit with phase := phase } = false) :
    object.Consistent stage
      { world with visits := world.visits.set index { visit with phase := phase } } := by
  have visitOk := consistent.visitOk visit (List.mem_of_getElem? found)
  apply consistent.stay found (visitOk.enter known.1 known.2)
  rw [stillIdle, idle]

/-- After the load of a visit that relocates objects. -/
theorem MemoryOk.known_relocatable (memoryOk : object.MemoryOk stage world) (value : ℕ)
    (notKey : kind ≠ .key) :
    object.KnownPhase stage value kind
      (space.noflSpaceEvacuateOrMarkObject (object.byteIn stage) object.ref) := by
  rcases memoryOk.evacuateOrMark_cases with ⟨equal, inPlace⟩ | ⟨equal, evacuates⟩ |
    ⟨equal, touched⟩ | ⟨equal, stays⟩ <;> rw [equal]
  · exact .of_inPlace inPlace
  · apply KnownPhase.of_phaseOk _ (by simp)
    exact ⟨rfl, evacuates, notKey⟩
  · apply KnownPhase.of_phaseOk _ (by simp)
    exact ⟨object.byteIn_eq_withMark stage, object.seen_byteIn (.inr touched)⟩
  · apply KnownPhase.of_phaseOk _ (by simp)
    exact ⟨rfl, stays, notKey⟩

theorem owns_evacuateOrMark (kind : VisitKind) (edge ref : ℕ) :
    Visit.owns
      { kind := kind, edge := edge, phase := space.noflSpaceEvacuateOrMarkObject byte ref } =
        false := by
  unfold TraceSpace.noflSpaceEvacuateOrMarkObject TraceSpace.noflSpaceEvacuate
  split_ifs <;> simp [Visit.owns]

theorem Consistent.load (consistent : object.Consistent stage world)
    (found : world.visits[index]? = some visit) (loading : visit.phase = .loading)
    {result : Memory × Phase}
    (advanced : space.advance world.memory object.ref visit = .next result) :
    result.1 = world.memory ∧ object.Consistent stage
      { world with visits := world.visits.set index { visit with phase := result.2 } } := by
  have memoryOk := consistent.memoryOk
  have idle : visit.owns = false := by rw [Visit.owns, loading]
  have kinds : visit.kind = .relocatable ∨ visit.kind = .pinned ∨ visit.kind = .key := by
    cases visit.kind <;> simp
  simp only [TraceSpace.advance, loading, memoryOk.head_eq] at advanced
  rcases kinds with isKind | isKind | isKind
  · simp only [isKind, Outcome.pure_eq_next, Outcome.next.injEq] at advanced
    subst advanced
    refine ⟨rfl, consistent.look found idle ?_ (owns_evacuateOrMark _ _ _)⟩
    exact memoryOk.known_relocatable _ (by rw [isKind]; decide)
  · simp only [isKind, Outcome.pure_eq_next, Outcome.bind_eq_next, Outcome.next.injEq] at advanced
    obtain ⟨after, marked, equal⟩ := advanced
    subst equal
    refine ⟨rfl, ?_⟩
    rcases memoryOk.markObject_cases marked with ⟨rfl, inPlace⟩ | ⟨rfl, stays⟩
    · exact consistent.look found idle (.of_inPlace inPlace) (by simp [Visit.owns])
    · apply consistent.look found idle _ (by simp [Visit.owns])
      apply KnownPhase.of_phaseOk _ (by simp)
      exact ⟨rfl, stays, by rw [isKind]; decide⟩
  · simp only [isKind, Outcome.pure_eq_next, Outcome.next.injEq] at advanced
    subst advanced
    refine ⟨rfl, consistent.look found idle ?_ (by simp [Visit.owns])⟩
    apply KnownPhase.of_phaseOk _ (by simp)
    exact ⟨object.byteIn_eq_withMark stage, object.seen_byteIn (.inl isKind)⟩

/-- The swap of the mark. The first visit to do it finds the object newly traced. -/
theorem Consistent.mark (consistent : object.Consistent stage world)
    (found : world.visits[index]? = some visit) (marking : visit.phase = .marking byte)
    {result : Memory × Phase}
    (advanced : space.advance world.memory object.ref visit = .next result) :
    object.Consistent .inPlace
      { world with
        memory := result.1
        visits := world.visits.set index { visit with phase := result.2 } } := by
  have memoryOk := consistent.memoryOk
  have visitOk := consistent.visitOk visit (List.mem_of_getElem? found)
  have phaseOk := visitOk.phaseOk
  rw [marking] at phaseOk
  obtain ⟨rfl, stays, notKey⟩ := phaseOk
  have unclaimed : stage = .untouched ∨ stage = .inPlace := by
    by_contra neither
    rw [not_or] at neither
    exact stays (memoryOk.evacuated neither.1 neither.2)
  simp only [TraceSpace.advance, marking, TraceSpace.noflSpaceSetNonemptyMark,
    space.setMarkByte_eq, memoryOk.head_eq] at advanced
  have marked := memoryOk.mark (unclaimed.imp_right .inr)
  rcases unclaimed with rfl | rfl
  · rw [byteIn_untouched, if_neg object.markedByte_ne_byte, Outcome.check_bind_eq_next] at advanced
    obtain ⟨-, equal⟩ := advanced
    cases equal
    refine consistent.advance found marked ?_ ?_ (fun _ => rfl) ?_
    · exact visitOk.moved trivial (by simp) rfl ⟨rfl, notKey⟩ (by simp)
    · intro other _ bystander otherOk
      exact otherOk.mono (bystander (by decide)) trivial (by simp) rfl
    · simp [Visit.owns, marking]
  · rw [byteIn_inPlace, if_pos rfl, Outcome.pure_eq_next] at advanced
    cases advanced
    refine consistent.advance found marked ?_ ?_ (fun changed => absurd rfl changed) ?_
    · exact visitOk.returnMarked false
    · exact fun _ _ _ otherOk => otherOk
    · simp [Visit.owns, marking]

/-- The compare-exchange. -/
theorem Consistent.claim (consistent : object.Consistent stage world)
    (found : world.visits[index]? = some visit) (claiming : visit.phase = .claiming byte)
    {result : Memory × Phase}
    (advanced : space.advance world.memory object.ref visit = .next result) :
    ∃ later, object.Consistent later
      { world with
        memory := result.1
        visits := world.visits.set index { visit with phase := result.2 } } := by
  have memoryOk := consistent.memoryOk
  have visitOk := consistent.visitOk visit (List.mem_of_getElem? found)
  have phaseOk := visitOk.phaseOk
  rw [claiming] at phaseOk
  obtain ⟨rfl, evacuates, notKey⟩ := phaseOk
  simp only [TraceSpace.advance, claiming] at advanced
  split at advanced
  case isTrue unchanged =>
    have untouched := memoryOk.stage_eq_untouched unchanged
    subst untouched
    cases advanced
    refine ⟨.claimed, consistent.advance found (memoryOk.claim evacuates) ?_ ?_ (fun _ => rfl) ?_⟩
    · exact visitOk.moved trivial (by simp) rfl ⟨rfl, rfl, notKey⟩ (by simp)
    · intro other _ bystander otherOk
      exact otherOk.mono (bystander (by decide)) trivial (by simp) rfl
    · simp [Visit.owns, claiming]
  case isFalse changed =>
    cases advanced
    refine ⟨stage, consistent.look found (by simp [Visit.owns, claiming]) ?_ (by simp [Visit.owns])⟩
    apply KnownPhase.of_phaseOk _ (by simp)
    rw [memoryOk.head_eq] at changed ⊢
    refine ⟨object.byteIn_eq_withMark .untouched, object.seen_byteIn (.inr ?_)⟩
    rintro rfl
    exact changed rfl

/-- The loop that waits for a busy object, and what follows it. -/
theorem Consistent.wait (consistent : object.Consistent stage world)
    (found : world.visits[index]? = some visit) (waiting : visit.phase = .waiting byte seen)
    {result : Memory × Phase}
    (advanced : space.advance world.memory object.ref visit = .next result) :
    result.1 = world.memory ∧ object.Consistent stage
      { world with visits := world.visits.set index { visit with phase := result.2 } } := by
  have memoryOk := consistent.memoryOk
  have visitOk := consistent.visitOk visit (List.mem_of_getElem? found)
  have idle : visit.owns = false := by rw [Visit.owns, waiting]
  have phaseOk := visitOk.phaseOk
  rw [waiting] at phaseOk
  obtain ⟨⟨mark, isMark, byteEq⟩, isSeen⟩ := phaseOk
  have busyEq : busyByte byte = busyByte object.byte := by
    rw [byteEq]
    exact withMark_withMark isMark
  have forwardedEq : forwardedByte byte = forwardedByte object.byte := by
    rw [byteEq]
    exact withMark_withMark isMark
  simp only [TraceSpace.advance, waiting, TraceSpace.afterWaiting, busyEq, forwardedEq] at advanced
  split_ifs at advanced with busy forwarded isKey <;> cases advanced <;> refine ⟨rfl, ?_⟩
  · -- Still busy when last seen: load again.
    apply consistent.look found idle _ (by simp [Visit.owns])
    apply KnownPhase.of_phaseOk _ (by simp)
    refine ⟨⟨mark, isMark, byteEq⟩, ?_⟩
    rw [memoryOk.head_eq]
    apply object.seen_byteIn
    rcases isSeen with ⟨isKey, -⟩ | ⟨-, touched⟩ | ⟨other, -⟩ | ⟨other, -⟩
    · exact .inl isKey
    · exact .inr touched
    · exact absurd (other.symm.trans busy) object.forwardedByte_ne_busyByte
    · exact absurd (other.symm.trans busy) object.markedByte_ne_busyByte
  · have target : stage.forwardedTo = some (world.memory.words object.ref) := by
      rcases isSeen with ⟨-, other⟩ | ⟨other, -⟩ | ⟨-, newRef, atNew⟩ | ⟨other, -⟩
      · exact absurd (forwarded.symm.trans other) object.forwardedByte_ne_byte
      · exact absurd other busy
      · obtain ⟨writes, enough, rfl⟩ := Stage.forwardedTo_eq_some.mp atNew
        rw [(memoryOk.copy newRef writes rfl).forwarding (by omega)]
        exact atNew
      · exact absurd (other.symm.trans forwarded) object.markedByte_ne_forwardedByte
    refine consistent.look found idle (.of_phaseOk ⟨target, ?_⟩ (by simp)) ?_
    · intro notKey isTrue
      exact absurd (eq_of_beq isTrue) notKey
    · cases kindEq : visit.kind <;> simp [Visit.owns]
  · apply consistent.look found idle _ (by simp [Visit.owns, isKey])
    refine ⟨fun notKey => absurd isKey notKey, ?_⟩
    intro result returned isTrue
    cases returned
    have marked := noflMetadataByteHasMark_iff.mp (isTrue isKey)
    rcases isSeen with ⟨-, other⟩ | ⟨other, -⟩ | ⟨other, -⟩ | ⟨-, inPlace⟩
    · rw [other] at marked
      exact absurd marked object.markOf_byte_ne_currentMark
    · exact absurd other busy
    · exact absurd other forwarded
    · exact .inl inPlace
  · apply consistent.look found idle _ (by simp [Visit.owns])
    apply KnownPhase.of_inPlace
    rcases isSeen with ⟨other, -⟩ | ⟨other, -⟩ | ⟨other, -⟩ | ⟨-, inPlace⟩
    · exact absurd other isKey
    · exact absurd other busy
    · exact absurd other forwarded
    · exact inPlace

/-- One of the six writes of an evacuation. -/
theorem Consistent.write {newRef writes : ℕ} {memory : Memory}
    (consistent : object.Consistent (.evacuating newRef writes) world)
    (found : world.visits[index]? = some visit) (owned : visit.owns = true)
    (memoryOk : object.MemoryOk (.evacuating newRef (writes + 1)) { world with memory := memory })
    (kept : ∀ other ∈ world.visits, memory.words other.edge = world.memory.words other.edge)
    (phaseOk : object.PhaseOk (.evacuating newRef (writes + 1)) visit.kind phase)
    (goesOn : ∀ result, phase ≠ .returned result)
    (stillOwned : Visit.owns { visit with phase := phase } = true) :
    object.Consistent (.evacuating newRef (writes + 1))
      { world with
        memory := memory
        visits := world.visits.set index { visit with phase := phase } } := by
  have isVisit := List.mem_of_getElem? found
  have isLater : Stage.Later (.evacuating newRef writes) (.evacuating newRef (writes + 1)) :=
    ⟨writes + 1, Nat.le_succ writes, rfl⟩
  refine consistent.advance found memoryOk ?_ ?_ (fun _ => stillOwned) ?_
  · refine (consistent.visitOk visit isVisit).moved isLater (by simp [Stage.copyAt])
      (kept visit isVisit) phaseOk ?_
    exact fun result returned => absurd returned (goesOn result)
  · intro other isOther bystander otherOk
    exact otherOk.mono (bystander (by simp)) isLater (by simp [Stage.copyAt]) (kept other isOther)
  · rw [stillOwned, owned]
    simp

/-- While the object is being evacuated, no edge in it is visited. -/
theorem VisitOk.not_within {words : ℕ → ℕ} (visitOk : object.VisitOk stage words visit)
    (elsewhere : stage ≠ .inPlace) : ¬Within visit.edge object.ref object.granules :=
  fun within => elsewhere (visitOk.outside within)

theorem within_ref (object : LiveObject space) :
    Within object.ref object.ref object.granules := by
  have positive : 0 < object.granules * NOFL_GRANULE_SIZE :=
    Nat.mul_pos object.positive (by decide)
  rw [Within]
  omega

theorem MemoryOk.setBlockMark (memoryOk : object.MemoryOk stage world) (addr : ℕ) :
    object.MemoryOk stage { world with memory := world.memory.noflBlockSetMark addr } := by
  refine ⟨memoryOk.log, memoryOk.head_eq, memoryOk.rest_eq, memoryOk.evacuated, memoryOk.intact, ?_⟩
  intro newRef writes inStage
  have copyOk := memoryOk.copy newRef writes inStage
  exact ⟨copyOk.aligned, copyOk.apart, copyOk.contents, copyOk.forwarding, copyOk.extent,
    copyOk.cleared, copyOk.head_eq⟩

/-- The update of the edge of a visit to a moved object. -/
theorem Consistent.updateEdge {newRef : ℕ} {result : Bool}
    (consistent : object.Consistent stage world) (found : world.visits[index]? = some visit)
    (updating : visit.phase = .updatingEdge newRef result) :
    object.Consistent stage
      { world with
        memory := world.memory.setWord visit.edge newRef
        visits := world.visits.set index { visit with phase := .returned result } } := by
  have isVisit := List.mem_of_getElem? found
  have visitOk := consistent.visitOk visit isVisit
  have phaseOk := visitOk.phaseOk
  rw [updating] at phaseOk
  obtain ⟨forwarded, done⟩ := phaseOk
  have elsewhere : stage ≠ .inPlace := by
    rintro rfl
    cases forwarded
  have keeps : ∀ other ∈ world.visits, object.VisitOk stage world.memory.words other →
      object.VisitOk stage (world.memory.setWord visit.edge newRef).words other := by
    intro other _ otherOk
    by_cases same : other.edge = visit.edge
    · have value : (world.memory.setWord visit.edge newRef).words other.edge = newRef := by
        rw [same]
        exact Memory.words_setWord
      refine ⟨otherOk.phaseOk, otherOk.pinned, ?_, ?_, otherOk.outside, otherOk.outsideCopy⟩
      · intro _ _ _
        rw [value]
        exact .inr forwarded
      · rw [value]
        exact .inr forwarded
    · have value : (world.memory.setWord visit.edge newRef).words other.edge =
          world.memory.words other.edge := Memory.words_setWord_of_ne same
      refine ⟨otherOk.phaseOk, otherOk.pinned, ?_, ?_, otherOk.outside, otherOk.outsideCopy⟩
      · rw [value]
        exact otherOk.settled
      · rw [value]
        exact otherOk.holds
  have memoryOk := consistent.memoryOk.updateEdge forwarded isVisit (visitOk.not_within elsewhere)
  refine consistent.advance found memoryOk ?_ (fun other isOther _ => keeps other isOther)
    (fun changed => absurd rfl changed) ?_
  · refine (keeps visit isVisit visitOk).enter ?_ ?_
    · exact done
    · intro _ _ _
      rw [Memory.words_setWord]
      exact .inr forwarded
  · simp [Visit.owns, updating]

/-- Any step of a visit but the allocation. -/
theorem Consistent.advanceVisit (consistent : object.Consistent stage world)
    (found : world.visits[index]? = some visit) {result : Memory × Phase}
    (advanced : space.advance world.memory object.ref visit = .next result) :
    ∃ later, object.Consistent later
      { world with
        memory := result.1
        visits := world.visits.set index { visit with phase := result.2 } } := by
  have isVisit := List.mem_of_getElem? found
  have memoryOk := consistent.memoryOk
  have visitOk := consistent.visitOk visit isVisit
  have phaseOk := visitOk.phaseOk
  have atRef : ∀ other ∈ world.visits, stage ≠ .inPlace → other.edge ≠ object.ref := by
    intro other isOther elsewhere same
    apply (consistent.visitOk other isOther).not_within elsewhere
    rw [same]
    exact object.within_ref
  cases shape : visit.phase with
  | loading =>
      obtain ⟨unchanged, kept⟩ := consistent.load found shape advanced
      rw [unchanged]
      exact ⟨stage, kept⟩
  | marking byte => exact ⟨.inPlace, consistent.mark found shape advanced⟩
  | claiming byte => exact consistent.claim found shape advanced
  | waiting byte seen =>
      obtain ⟨unchanged, kept⟩ := consistent.wait found shape advanced
      rw [unchanged]
      exact ⟨stage, kept⟩
  | updatingEdge newRef value =>
      simp only [TraceSpace.advance, shape] at advanced
      cases advanced
      exact ⟨stage, consistent.updateEdge found shape⟩
  | allocating byte =>
      simp only [TraceSpace.advance, shape] at advanced
      cases advanced
  | returned value =>
      simp only [TraceSpace.advance, shape] at advanced
      cases advanced
  | aborting byte =>
      rw [shape] at phaseOk
      obtain ⟨rfl, rfl, notKey⟩ := phaseOk
      simp only [TraceSpace.advance, shape] at advanced
      cases advanced
      have marked := memoryOk.mark (.inr (.inl rfl))
      refine ⟨.inPlace, consistent.advance found marked ?_ ?_ (fun _ => rfl) ?_⟩
      · exact visitOk.moved (.inr rfl) (by simp) rfl ⟨rfl, notKey⟩ (by simp)
      · intro other _ bystander otherOk
        exact otherOk.mono (bystander (by decide)) (.inr rfl) (by simp) rfl
      · simp [Visit.owns, shape]
  | copying byte granules newRef =>
      rw [shape] at phaseOk
      obtain ⟨rfl, rfl, rfl, notKey⟩ := phaseOk
      simp only [TraceSpace.advance, shape] at advanced
      cases advanced
      refine ⟨_, consistent.write found (by simp [Visit.owns, shape]) memoryOk.copyContents ?_
        ⟨rfl, rfl, rfl, notKey⟩ (by simp) rfl⟩
      intro other isOther
      apply if_neg
      intro within
      have done := (consistent.visitOk other isOther).outsideCopy newRef rfl within
      exact absurd done (by simp [Stage.Done])
  | storingForwardingPointer byte granules newRef =>
      rw [shape] at phaseOk
      obtain ⟨rfl, rfl, rfl, notKey⟩ := phaseOk
      simp only [TraceSpace.advance, shape] at advanced
      cases advanced
      refine ⟨_, consistent.write found (by simp [Visit.owns, shape]) memoryOk.forward ?_
        ⟨rfl, rfl, rfl, notKey⟩ (by simp) rfl⟩
      exact fun other isOther => Memory.words_setWord_of_ne (atRef other isOther (by simp))
  | committing byte granules newRef =>
      rw [shape] at phaseOk
      obtain ⟨rfl, rfl, rfl, notKey⟩ := phaseOk
      simp only [TraceSpace.advance, shape] at advanced
      cases advanced
      exact ⟨_, consistent.write found (by simp [Visit.owns, shape]) memoryOk.commit
        (fun _ _ => rfl) ⟨rfl, rfl, rfl, notKey⟩ (by simp) rfl⟩
  | copyingMetadata byte granules newRef =>
      rw [shape] at phaseOk
      obtain ⟨rfl, rfl, rfl, notKey⟩ := phaseOk
      simp only [TraceSpace.advance, shape] at advanced
      cases advanced
      exact ⟨_, consistent.write found (by simp [Visit.owns, shape]) memoryOk.copyExtent
        (fun _ _ => rfl) ⟨rfl, rfl, rfl, notKey⟩ (by simp) rfl⟩
  | clearingLoggedBits byte granules newRef =>
      rw [shape] at phaseOk
      obtain ⟨rfl, rfl, rfl, notKey⟩ := phaseOk
      simp only [TraceSpace.advance, shape] at advanced
      cases advanced
      refine ⟨_, consistent.write found (by simp [Visit.owns, shape]) memoryOk.clearExtent ?_
        ⟨rfl, rfl, notKey⟩ (by simp) rfl⟩
      intro _ _
      split <;> rfl
  | storingMetadata byte newRef =>
      rw [shape] at phaseOk
      obtain ⟨rfl, rfl, notKey⟩ := phaseOk
      simp only [TraceSpace.advance, shape] at advanced
      cases advanced
      exact ⟨_, consistent.write found (by simp [Visit.owns, shape]) memoryOk.storeHead
        (fun _ _ => rfl) ⟨rfl, notKey⟩ (by simp) rfl⟩
  | settingBlockMark addr moved =>
      rw [shape] at phaseOk
      simp only [TraceSpace.advance, shape] at advanced
      cases advanced
      refine ⟨stage, consistent.advance found (memoryOk.setBlockMark addr) ?_
        (fun _ _ _ otherOk => otherOk) (fun changed => absurd rfl changed) ?_⟩
      · cases moved with
        | true =>
            obtain ⟨rfl, notKey⟩ := phaseOk
            refine visitOk.enter ⟨rfl, fun _ _ => ?_⟩ (by simp)
            exact Nat.le_refl 6
        | false =>
            obtain ⟨rfl, notKey⟩ := phaseOk
            exact visitOk.returnMarked true
      · cases moved with
        | true => simp [Visit.owns, shape, phaseOk.2]
        | false => simp [Visit.owns, shape, phaseOk.2]

/-- Metadata with the object's end bits gives the object's length. -/
theorem granules_eq_of_ends (object : LiveObject space) {metadata : ℕ → Byte} {head : ℕ}
    (same : ∀ offset < object.granules, metadata (head + offset) &&& NOFL_METADATA_BYTE_END =
      object.memory.metadata (granuleOf object.ref + offset) &&& NOFL_METADATA_BYTE_END) :
    noflSpaceLiveObjectGranules metadata head = object.granules := by
  have positive := object.positive
  apply noflSpaceLiveObjectGranules_eq positive object.bounded
  · rw [same _ (by omega)]
    exact object.ends
  · intro offset below
    rw [same _ (by omega)]
    exact object.goesOn offset below

theorem MemoryOk.granules_eq (memoryOk : object.MemoryOk stage world) :
    noflSpaceLiveObjectGranules world.memory.metadata (granuleOf object.ref) =
      object.granules := by
  apply object.granules_eq_of_ends
  intro offset inRange
  cases offset with
  | zero =>
      obtain ⟨mark, isMark, equal⟩ := object.byteIn_eq_withMark stage
      show world.memory.head object.ref &&& _ = object.byte &&& _
      rw [memoryOk.head_eq, equal, withMark_and isMark (by decide)]
  | succ offset => rw [memoryOk.rest_eq (offset + 1) (by omega) inRange]

theorem Consistent.allocateFor (consistent : object.Consistent stage world)
    (found : world.visits[index]? = some visit) (allocating : visit.phase = .allocating byte)
    {result : Option ℕ} {after : VisitWorld}
    (allocated : Nofl.allocateFor space object world index visit byte result = .next after) :
    ∃ later, object.Consistent later after := by
  have isVisit := List.mem_of_getElem? found
  have memoryOk := consistent.memoryOk
  have visitOk := consistent.visitOk visit isVisit
  have phaseOk := visitOk.phaseOk
  rw [allocating] at phaseOk
  obtain ⟨rfl, rfl, notKey⟩ := phaseOk
  cases result with
  | none =>
      cases allocated
      refine ⟨.aborting, consistent.advance found memoryOk.failAllocation ?_ ?_ (fun _ => rfl) ?_⟩
      · exact visitOk.moved (by simp [Stage.Later]) (by simp) rfl ⟨rfl, rfl, notKey⟩ (by simp)
      · intro other _ bystander otherOk
        exact otherOk.mono (bystander (by decide)) (by simp [Stage.Later]) (by simp) rfl
      · simp [Visit.owns, allocating]
  | some newRef =>
      have extent : noflSpaceLiveObjectGranules world.memory.metadata (granuleOf object.ref) =
          object.granules := memoryOk.granules_eq
      simp only [Nofl.allocateFor, extent, Outcome.require_bind_eq_next] at allocated
      obtain ⟨fresh, equal⟩ := allocated
      cases equal
      have apart : ∀ other ∈ world.visits, ∀ target writes,
          Stage.evacuating newRef 0 = .evacuating target writes → Stage.claimed.copyAt = none →
            ¬Within other.edge target object.granules := by
        intro other isOther target writes same _
        cases same
        exact fresh.2.2 other isOther
      refine ⟨.evacuating newRef 0,
        consistent.advance found (memoryOk.allocate fresh) ?_ ?_ (fun _ => rfl) ?_⟩
      · exact visitOk.moved (by simp [Stage.Later]) (apart visit isVisit) rfl
          ⟨rfl, rfl, rfl, notKey⟩ (by simp)
      · intro other isOther bystander otherOk
        exact otherOk.mono (bystander (by simp)) (by simp [Stage.Later]) (apart other isOther) rfl
      · simp [Visit.owns, allocating]

theorem MemoryOk.finalAddress (memoryOk : object.MemoryOk stage world) :
    world.finalAddress object.ref = stage.copyAt.getD object.ref := by
  have log := memoryOk.log
  rw [VisitWorld.finalAddress]
  cases stage with
  | untouched => rw [show world.allocations = [] from log]; rfl
  | claimed => rw [show world.allocations = [] from log]; rfl
  | aborting => rw [show world.allocations = [none] from log]; rfl
  | inPlace => rcases log with equal | equal <;> rw [equal] <;> rfl
  | evacuating newRef writes => rw [show world.allocations = [some newRef] from log]; rfl

/-- A visit has found the object to be newly traced only when its part is done. -/
theorem Consistent.done_of_traced (consistent : object.Consistent stage world)
    (traced : world.Traced) : stage.Done := by
  obtain ⟨visit, isVisit, notKey, returned⟩ := traced
  have phaseOk := (consistent.visitOk visit isVisit).phaseOk
  rw [returned] at phaseOk
  exact phaseOk notKey rfl

theorem Consistent.beginVisit (consistent : object.Consistent stage world) {kind : VisitKind}
    {edge : ℕ} {after : VisitWorld}
    (began : Nofl.beginVisit space object world kind edge = .next after) :
    object.Consistent stage after := by
  simp only [Nofl.beginVisit, Outcome.require_bind_eq_next] at began
  obtain ⟨refers, visitable, pinned, equal⟩ := began
  cases equal
  have memoryOk := consistent.memoryOk
  refine ⟨memoryOk.withVisits ?_, ?_, ?_⟩
  · exact fun visit isVisit => ⟨visit, List.mem_append_left _ isVisit, rfl⟩
  · intro visit isVisit
    rcases List.mem_append.mp isVisit with before | isNew
    · exact consistent.visitOk visit before
    · rw [List.mem_singleton] at isNew
      subst isNew
      refine ⟨trivial, pinned, by simp, .inl refers, ?_, ?_⟩
      · intro within
        obtain ⟨traced, atFinal⟩ := visitable (.inl within)
        rw [memoryOk.finalAddress] at atFinal
        have done := consistent.done_of_traced traced
        cases stage with
        | inPlace => rfl
        | evacuating newRef writes =>
            have apart := (memoryOk.copy newRef writes rfl).apart
            simp only [Stage.copyAt, Option.getD_some, Within] at within atFinal
            omega
        | _ => exact absurd done (by simp [Stage.Done])
      · intro newRef copying within
        have atFinal : Within edge (world.finalAddress object.ref) object.granules := by
          rw [memoryOk.finalAddress, copying]
          exact within
        exact consistent.done_of_traced (visitable (.inr atFinal)).1
  · rw [List.countP_append, consistent.owners]
    simp [Visit.owns]

/-- Every step keeps the invariant. -/
theorem Consistent.step (consistent : object.Consistent stage world) {action : VisitAction}
    {after : VisitWorld} (stepped : visitStep space object world action = .next after) :
    ∃ later, object.Consistent later after := by
  cases action with
  | begin kind edge => exact ⟨stage, consistent.beginVisit stepped⟩
  | advance index =>
      simp only [visitStep] at stepped
      split at stepped
      case h_1 visit found =>
        simp only [Nofl.advanceVisit, Outcome.bind_eq_next] at stepped
        obtain ⟨result, advanced, equal⟩ := stepped
        cases equal
        exact consistent.advanceVisit found advanced
      case h_2 => cases stepped
  | allocate index result =>
      simp only [visitStep] at stepped
      split at stepped
      case h_1 visit found =>
        split at stepped
        case h_1 byte allocating => exact consistent.allocateFor found allocating stepped
        case h_2 => cases stepped
      case h_2 => cases stepped

theorem consistent_initial :
    object.Consistent .untouched
      { memory := object.memory, visits := [], allocations := [] } :=
  { memoryOk :=
      { log := rfl
        head_eq := rfl
        rest_eq := fun _ _ _ => rfl
        evacuated := fun touched => absurd rfl touched
        intact := fun _ _ _ => rfl
        copy := by simp }
    visitOk := by simp
    owners := rfl }

/-- The invariant, in whatever stage the object is. -/
def IsConsistent (object : LiveObject space) (world : VisitWorld) : Prop :=
  ∃ stage, object.Consistent stage world

theorem isConsistent_of_reachable (reached : (visitSystem space object).Reachable world) :
    object.IsConsistent world := by
  apply System.ReachableBy.invariant (visitSystem space object) _ _ reached
  · rintro _ rfl
    exact ⟨.untouched, consistent_initial⟩
  · rintro before action after ⟨stage, consistent⟩ - stepped
    exact consistent.step stepped

/-! ## Assertions -/

theorem VisitOk.advance_ne_failed (visitOk : object.VisitOk stage world.memory.words visit)
    (failure : VisitAssertion) :
    space.advance world.memory object.ref visit ≠ .failed failure := by
  have phaseOk := visitOk.phaseOk
  cases shape : visit.phase with
  | loading =>
      simp only [TraceSpace.advance, shape]
      cases isKind : visit.kind with
      | pinned =>
          have stays : space.noflSpaceShouldEvacuate (world.memory.head object.ref) object.ref =
              false := by
            simp [TraceSpace.noflSpaceShouldEvacuate, visitOk.pinned isKind]
          simp only [TraceSpace.noflSpaceMarkObject]
          split_ifs <;> simp [stays, Outcome.check]
      | _ => simp
  | marking byte =>
      rw [shape] at phaseOk
      obtain ⟨rfl, -, -⟩ := phaseOk
      have live : noflMetadataByteIsYoungOrHasMark object.byte space.survivorMark = true :=
        object.live
      simp only [TraceSpace.advance, shape, TraceSpace.noflSpaceSetNonemptyMark]
      split_ifs <;> simp [live, Outcome.check]
  | claiming byte =>
      simp only [TraceSpace.advance, shape]
      split_ifs <;> simp
  | waiting byte seen =>
      simp only [TraceSpace.advance, shape]
      split_ifs <;> simp
  | _ => simp [TraceSpace.advance, shape]

theorem Consistent.step_ne_failed (consistent : object.Consistent stage world)
    (action : VisitAction) (failure : VisitAssertion) :
    visitStep space object world action ≠ .failed failure := by
  cases action with
  | begin kind edge => simp [visitStep, Nofl.beginVisit]
  | advance index =>
      simp only [visitStep]
      split
      case h_1 visit found =>
        have visitOk := consistent.visitOk visit (List.mem_of_getElem? found)
        simp only [Nofl.advanceVisit, ne_eq, Outcome.bind_eq_failed]
        rintro (failed | ⟨result, -, failed⟩)
        · exact visitOk.advance_ne_failed failure failed
        · cases failed
      case h_2 => simp
  | allocate index result =>
      simp only [visitStep]
      split
      case h_1 visit found =>
        split
        case h_1 byte allocating => cases result <;> simp [Nofl.allocateFor]
        case h_2 => simp
      case h_2 => simp

/-! ## Finishing -/

end LiveObject

/-- A bound on the steps that a visit has left, but for those in which it waits. -/
def Phase.rank : Phase → ℕ
  | .loading => 14
  | .claiming _ => 13
  | .allocating _ => 12
  | .copying _ _ _ => 11
  | .storingForwardingPointer _ _ _ => 10
  | .committing _ _ _ => 9
  | .copyingMetadata _ _ _ => 8
  | .clearingLoggedBits _ _ _ => 7
  | .storingMetadata _ _ => 6
  | .aborting _ => 5
  | .marking _ => 5
  | .settingBlockMark _ _ => 4
  | .waiting byte seen => if seen = busyByte byte then 3 else 2
  | .updatingEdge _ _ => 1
  | .returned _ => 0

def Visit.Returned (visit : Visit) : Prop := ∃ result, visit.phase = .returned result

/-- All visits that have begun have returned. -/
def VisitWorld.Finished (world : VisitWorld) : Prop := ∀ visit ∈ world.visits, visit.Returned

def VisitWorld.rank (world : VisitWorld) : ℕ :=
  (world.visits.map fun visit => visit.phase.rank).sum

namespace LiveObject

variable {space : TraceSpace} {object : LiveObject space} {stage : Stage} {world : VisitWorld}
variable {index : ℕ} {visit : Visit}

theorem rank_afterWaiting (memory : Memory) (ref : ℕ) (kind : VisitKind) (byte seen : Byte) :
    (space.afterWaiting memory ref kind byte seen).rank < 2 := by
  unfold TraceSpace.afterWaiting
  split_ifs <;> simp [Phase.rank]

theorem rank_waiting_le (byte seen : Byte) : (Phase.waiting byte seen).rank ≤ 3 := by
  rw [Phase.rank]
  split <;> omega

/-- Only a visit that has returned, or that needs memory, has no step of its own. -/
theorem advance_ne_disabled {memory : Memory} {ref : ℕ} (unfinished : ¬visit.Returned)
    (hasMemory : ∀ byte, visit.phase ≠ .allocating byte) :
    space.advance memory ref visit ≠ .disabled := by
  cases shape : visit.phase with
  | returned result => exact absurd ⟨result, shape⟩ unfinished
  | allocating byte => exact absurd shape (hasMemory byte)
  | loading =>
      cases isKind : visit.kind with
      | pinned =>
          simp only [TraceSpace.advance, shape, isKind, TraceSpace.noflSpaceMarkObject,
            Outcome.check]
          split_ifs <;> simp
      | _ => simp [TraceSpace.advance, shape, isKind]
  | marking byte =>
      simp only [TraceSpace.advance, shape, TraceSpace.noflSpaceSetNonemptyMark, Outcome.check]
      split_ifs <;> simp
  | claiming byte =>
      simp only [TraceSpace.advance, shape]
      split_ifs <;> simp
  | waiting byte seen =>
      simp only [TraceSpace.advance, shape]
      split_ifs <;> simp
  | _ => simp [TraceSpace.advance, shape]

/-- A step of a visit that does not wait brings it nearer to its end. -/
theorem rank_advance_lt {memory : Memory} {ref : ℕ} {result : Memory × Phase}
    (advanced : space.advance memory ref visit = .next result)
    (notWaiting : ∀ byte seen, visit.phase = .waiting byte seen →
      memory.head ref ≠ busyByte byte) :
    result.2.rank < visit.phase.rank := by
  cases shape : visit.phase with
  | returned value =>
      simp only [TraceSpace.advance, shape] at advanced
      cases advanced
  | allocating byte =>
      simp only [TraceSpace.advance, shape] at advanced
      cases advanced
  | loading =>
      have small : ∀ byte, (Phase.waiting byte byte).rank < 14 :=
        fun byte => Nat.lt_of_le_of_lt (rank_waiting_le byte byte) (by decide)
      cases isKind : visit.kind with
      | relocatable =>
          simp only [TraceSpace.advance, shape, isKind] at advanced
          cases advanced
          simp only [TraceSpace.noflSpaceEvacuateOrMarkObject, TraceSpace.noflSpaceEvacuate]
          split_ifs
          · simp [Phase.rank]
          · simp [Phase.rank]
          · exact small _
          · simp [Phase.rank]
      | pinned =>
          simp only [TraceSpace.advance, shape, isKind, Outcome.bind_eq_next,
            TraceSpace.noflSpaceMarkObject] at advanced
          obtain ⟨phase, marked, equal⟩ := advanced
          cases equal
          split_ifs at marked
          · cases marked
            simp [Phase.rank]
          · rw [Outcome.check_bind_eq_next] at marked
            cases marked.2
            simp [Phase.rank]
      | key =>
          simp only [TraceSpace.advance, shape, isKind] at advanced
          cases advanced
          exact small _
  | marking byte =>
      simp only [TraceSpace.advance, shape, TraceSpace.noflSpaceSetNonemptyMark] at advanced
      split_ifs at advanced
      · cases advanced
        simp [Phase.rank]
      · rw [Outcome.check_bind_eq_next] at advanced
        cases advanced.2
        simp [Phase.rank]
  | claiming byte =>
      simp only [TraceSpace.advance, shape] at advanced
      split_ifs at advanced <;> cases advanced
      · simp [Phase.rank]
      · exact Nat.lt_of_le_of_lt (rank_waiting_le _ _) (by simp [Phase.rank])
  | waiting byte seen =>
      have free := notWaiting byte seen shape
      simp only [TraceSpace.advance, shape] at advanced
      split_ifs at advanced with busy <;> cases advanced
      · simp [Phase.rank, busy, free]
      · simp only [Phase.rank, if_neg busy]
        exact rank_afterWaiting _ _ _ _ _
  | settingBlockMark addr moved =>
      simp only [TraceSpace.advance, shape] at advanced
      cases advanced
      cases moved <;> simp [Phase.rank]
  | _ =>
      simp only [TraceSpace.advance, shape] at advanced
      cases advanced
      simp [Phase.rank]

theorem rank_set_lt (found : world.visits[index]? = some visit) {phase : Phase} {memory : Memory}
    {allocations : List (Option ℕ)} (smaller : phase.rank < visit.phase.rank) :
    VisitWorld.rank
      { memory := memory
        visits := world.visits.set index { visit with phase := phase }
        allocations := allocations } < world.rank := by
  have sums : ((world.visits.set index { visit with phase := phase }).map
      fun visit => visit.phase.rank).sum + visit.phase.rank = world.rank + phase.rank :=
    sum_map_set (fun visit => visit.phase.rank) found
  show ((world.visits.set index { visit with phase := phase }).map
    fun visit => visit.phase.rank).sum < world.rank
  omega

/-- A visit that is not waiting for a busy object can take a step towards its end. -/
theorem Consistent.exists_step_of_visit (consistent : object.Consistent stage world)
    (isVisit : visit ∈ world.visits) (unfinished : ¬visit.Returned)
    (notWaiting : ∀ byte seen, visit.phase = .waiting byte seen →
      world.memory.head object.ref ≠ busyByte byte) :
    ∃ action after, visitStep space object world action = .next after ∧
      after.rank < world.rank := by
  obtain ⟨index, found⟩ := List.mem_iff_getElem?.mp isVisit
  by_cases allocating : ∃ byte, visit.phase = .allocating byte
  · obtain ⟨byte, shape⟩ := allocating
    have stepped : visitStep space object world (.allocate index none) =
        .next
          { world with
            visits := world.visits.set index { visit with phase := .aborting byte }
            allocations := world.allocations ++ [none] } := by
      simp only [visitStep, found, shape]
      rfl
    exact ⟨_, _, stepped, rank_set_lt found (by simp [shape, Phase.rank])⟩
  · have hasMemory : ∀ byte, visit.phase ≠ .allocating byte :=
      fun byte shape => allocating ⟨byte, shape⟩
    have visitOk := consistent.visitOk visit isVisit
    cases outcome : space.advance world.memory object.ref visit with
    | disabled => exact absurd outcome (advance_ne_disabled unfinished hasMemory)
    | failed failure => exact absurd outcome (visitOk.advance_ne_failed failure)
    | next result =>
        have stepped : visitStep space object world (.advance index) =
            .next
              { world with
                memory := result.1
                visits := world.visits.set index { visit with phase := result.2 } } := by
          simp only [visitStep, found, Nofl.advanceVisit, outcome, Outcome.bind_next]
          rfl
        exact ⟨_, _, stepped, rank_set_lt found (rank_advance_lt outcome notWaiting)⟩

/-- While the object is busy the visit that has it can take a step. -/
theorem Consistent.exists_step (consistent : object.Consistent stage world)
    (unfinished : ¬world.Finished) :
    ∃ action after, visitStep space object world action = .next after ∧
      after.rank < world.rank := by
  by_cases busy : world.memory.head object.ref = busyByte object.byte
  · have touched : stage ≠ .untouched := by
      rintro rfl
      rw [consistent.memoryOk.head_eq] at busy
      exact object.busyByte_ne_byte busy.symm
    have notDone : ¬stage.Done := by
      intro done
      rw [consistent.memoryOk.head_eq] at busy
      cases stage with
      | inPlace => exact object.markedByte_ne_busyByte busy
      | evacuating newRef writes =>
          rw [byteIn, if_pos (Nat.le_trans (by decide) done)] at busy
          exact object.forwardedByte_ne_busyByte busy
      | _ => exact done
    have owners := consistent.owners
    rw [if_neg touched] at owners
    have hasOwner : 0 < world.visits.countP Visit.owns := by
      rw [owners]
      decide
    obtain ⟨owner, isOwner, owns⟩ := List.countP_pos_iff.mp hasOwner
    have phaseOk := (consistent.visitOk owner isOwner).phaseOk
    apply consistent.exists_step_of_visit isOwner
    · rintro ⟨result, shape⟩
      simp only [Visit.owns, shape, Bool.and_eq_true, bne_iff_ne] at owns
      rw [shape] at phaseOk
      exact notDone (phaseOk owns.1 owns.2)
    · intro byte seen shape
      simp [Visit.owns, shape] at owns
  · simp only [VisitWorld.Finished, not_forall] at unfinished
    obtain ⟨visit, isVisit, goesOn⟩ := unfinished
    apply consistent.exists_step_of_visit isVisit goesOn
    intro byte seen shape
    have phaseOk := (consistent.visitOk visit isVisit).phaseOk
    rw [shape] at phaseOk
    obtain ⟨⟨mark, isMark, rfl⟩, -⟩ := phaseOk
    rw [busyByte, withMark_withMark isMark]
    exact busy

/-- From every state the visits can be finished. -/
theorem IsConsistent.exists_finish (isConsistent : object.IsConsistent world) :
    ∃ actions final,
      System.runBy (visitStep space object) (fun _ _ => True) world actions = .next final ∧
        object.IsConsistent final ∧ final.Finished := by
  apply System.exists_run_of_decreasing VisitWorld.rank _ isConsistent
  rintro state ⟨stage, consistent⟩ unfinished
  obtain ⟨action, after, stepped, smaller⟩ := consistent.exists_step unfinished
  exact ⟨action, after, stepped, consistent.step stepped, smaller⟩

/-! ## What the visits do to the object -/

end LiveObject

/-- The number of visits that have returned that the object is newly traced. -/
def VisitWorld.newlyTracedCount (world : VisitWorld) : ℕ :=
  world.visits.countP fun visit => decide visit.NewlyTraced

/-- The object is at `address`, marked. A field of it that has been visited may have changed. -/
structure LiveObject.IsAt {space : TraceSpace} (object : LiveObject space) (world : VisitWorld)
    (address : ℕ) : Prop where
  contents : ∀ offset < object.granules * NOFL_GRANULE_SIZE,
    world.memory.words (address + offset) = object.memory.words (object.ref + offset) ∨
      ∃ visit ∈ world.visits, visit.edge = address + offset
  granules : noflSpaceLiveObjectGranules world.memory.metadata (granuleOf address) =
    object.granules
  traceKind : world.memory.head address &&& NOFL_METADATA_BYTE_TRACE_KIND_MASK =
    object.memory.head object.ref &&& NOFL_METADATA_BYTE_TRACE_KIND_MASK
  pinned : world.memory.head address &&& NOFL_METADATA_BYTE_PINNED =
    object.memory.head object.ref &&& NOFL_METADATA_BYTE_PINNED
  marked : noflMetadataByteHasMark (world.memory.head address) space.currentMark = true

/-- What the visits are for. -/
structure LiveObject.TracedOnce {space : TraceSpace} (object : LiveObject space)
    (world : VisitWorld) : Prop where
  /-- No two visits find the object to be newly traced. -/
  atMostOnce : world.newlyTracedCount ≤ 1
  /-- When all visits have returned, one of them has, unless all were of ephemeron keys. -/
  once : world.Finished → (∃ visit ∈ world.visits, visit.kind ≠ .key) →
    world.newlyTracedCount = 1
  /-- The edge of a visit that has returned is the final address. A visit of a key that returns
  false has found that the object is not traced yet. -/
  edges : ∀ visit ∈ world.visits, ∀ result, visit.phase = .returned result →
    (visit.kind = .key → result = true) →
    world.memory.words visit.edge = world.finalAddress object.ref
  /-- Once a visit has found the object to be newly traced, it is at its final address. -/
  copied : world.Traced → object.IsAt world (world.finalAddress object.ref)
  /-- If an allocation fails, the object stays and no edge changes. -/
  failed : none ∈ world.allocations → world.finalAddress object.ref = object.ref ∧
    ∀ visit ∈ world.visits, world.memory.words visit.edge = object.ref

namespace LiveObject

variable {space : TraceSpace} {object : LiveObject space} {stage : Stage} {world : VisitWorld}
variable {visit : Visit}

theorem owns_of_newlyTraced (newlyTraced : visit.NewlyTraced) : visit.owns = true := by
  simp [Visit.owns, newlyTraced.1, newlyTraced.2]

theorem newlyTraced_of_returned (owns : visit.owns = true) (returned : visit.Returned) :
    visit.NewlyTraced := by
  obtain ⟨result, shape⟩ := returned
  simp only [Visit.owns, shape, Bool.and_eq_true, bne_iff_ne] at owns
  refine ⟨owns.1, ?_⟩
  rw [shape, owns.2]

/-- When the part of the visit that has the object is done, the object is at its final address. -/
theorem Consistent.isAt (consistent : object.Consistent stage world) (done : stage.Done) :
    object.IsAt world (world.finalAddress object.ref) := by
  have memoryOk := consistent.memoryOk
  rw [memoryOk.finalAddress]
  cases stage with
  | inPlace =>
      have headEq : world.memory.head object.ref = space.markedByte object.byte :=
        memoryOk.head_eq
      refine ⟨?_, memoryOk.granules_eq, ?_, ?_, ?_⟩
      · exact fun offset inRange => .inl (memoryOk.intact trivial offset inRange)
      · show world.memory.head object.ref &&& _ = _
        rw [headEq]
        exact withMark_and space.currentMark_isMark (by decide)
      · show world.memory.head object.ref &&& _ = _
        rw [headEq]
        exact withMark_and space.currentMark_isMark (by decide)
      · show noflMetadataByteHasMark (world.memory.head object.ref) _ = true
        rw [headEq, noflMetadataByteHasMark_iff]
        exact markOf_withMark space.currentMark_isMark
  | evacuating newRef writes =>
      have copyOk := memoryOk.copy newRef writes rfl
      have enough : 6 ≤ writes := done
      have headEq : world.memory.head newRef = space.copiedByte (space.markedByte object.byte) :=
        copyOk.head_eq enough
      have headBits : ∀ mask, mask &&& NOFL_METADATA_BYTE_LOGGED_MASK = 0 →
          mask &&& NOFL_METADATA_BYTE_MARK_MASK = 0 →
            world.memory.head newRef &&& mask = object.byte &&& mask := by
        intro mask notLogged notMark
        rw [headEq, space.copiedByte_and notLogged]
        exact withMark_and space.currentMark_isMark notMark
      refine ⟨copyOk.contents (by omega), ?_, headBits _ (by decide) (by decide),
        headBits _ (by decide) (by decide), ?_⟩
      · apply object.granules_eq_of_ends
        intro offset inRange
        cases offset with
        | zero => exact headBits _ (by decide) (by decide)
        | succ offset =>
            show world.memory.metadata (granuleOf newRef + (offset + 1)) &&& _ = _
            rw [copyOk.cleared (by omega) (offset + 1) (by omega) inRange,
              space.copiedByte_and (by decide)]
      · show noflMetadataByteHasMark (world.memory.head newRef) _ = true
        rw [headEq, noflMetadataByteHasMark_iff, markOf, space.copiedByte_and (by decide)]
        exact markOf_withMark space.currentMark_isMark
  | _ => exact absurd done (by simp [Stage.Done])

theorem Consistent.tracedOnce (consistent : object.Consistent stage world) :
    object.TracedOnce world := by
  have atMost : world.newlyTracedCount ≤ world.visits.countP Visit.owns := by
    apply List.countP_mono_left
    intro visit _ newlyTraced
    exact owns_of_newlyTraced (of_decide_eq_true newlyTraced)
  have owners := consistent.owners
  refine ⟨?_, ?_, ?_, ?_, ?_⟩
  · split at owners <;> omega
  · rintro finished ⟨visit, isVisit, notKey⟩
    have all : world.newlyTracedCount = world.visits.countP Visit.owns := by
      apply List.countP_congr
      intro visit isVisit
      rw [decide_eq_true_iff]
      exact ⟨owns_of_newlyTraced, fun owns => newlyTraced_of_returned owns (finished visit isVisit)⟩
    rw [all, owners, if_neg]
    rintro rfl
    obtain ⟨result, shape⟩ := finished visit isVisit
    have settled := (consistent.visitOk visit isVisit).settled result shape
      (fun isKey => absurd isKey notKey)
    rcases settled with absurdity | absurdity <;> cases absurdity
  · intro visit isVisit result shape known
    have visitOk := consistent.visitOk visit isVisit
    rw [consistent.memoryOk.finalAddress]
    rcases visitOk.settled result shape known with rfl | forwarded
    · rcases visitOk.holds with same | absurdity
      · exact same
      · cases absurdity
    · obtain ⟨writes, enough, rfl⟩ := Stage.forwardedTo_eq_some.mp forwarded
      rfl
  · exact fun traced => consistent.isAt (consistent.done_of_traced traced)
  · intro hasFailed
    have log := consistent.memoryOk.log
    rw [consistent.memoryOk.finalAddress]
    have stays : stage = .aborting ∨ stage = .inPlace := by
      cases stage with
      | aborting => exact .inl rfl
      | inPlace => exact .inr rfl
      | untouched => rw [show world.allocations = [] from log] at hasFailed; cases hasFailed
      | claimed => rw [show world.allocations = [] from log] at hasFailed; cases hasFailed
      | evacuating newRef writes =>
          rw [show world.allocations = [some newRef] from log] at hasFailed
          simp at hasFailed
    refine ⟨by rcases stays with rfl | rfl <;> rfl, ?_⟩
    intro visit isVisit
    rcases (consistent.visitOk visit isVisit).holds with same | absurdity
    · exact same
    · rcases stays with rfl | rfl <;> cases absurdity

end LiveObject

/-- The visits to a live object that is not yet traced, in any order of their steps and with any
allocation failing: no assertion fails, the visits can be finished, and the object is traced once
and ends at one address, as it was. -/
theorem visits_trace_once (space : TraceSpace) (object : LiveObject space) (world : VisitWorld)
    (reached : (visitSystem space object).Reachable world) :
    (∀ action failure, visitStep space object world action ≠ .failed failure) ∧
      object.TracedOnce world ∧
      ∃ actions final,
        System.runBy (visitStep space object) (fun _ _ => True) world actions = .next final ∧
          object.TracedOnce final ∧ final.Finished := by
  have isConsistent := LiveObject.isConsistent_of_reachable reached
  obtain ⟨actions, final, ran, ⟨_, consistentFinal⟩, finished⟩ := isConsistent.exists_finish
  obtain ⟨stage, consistent⟩ := isConsistent
  exact ⟨consistent.step_ne_failed, consistent.tracedOnce, actions, final, ran,
    consistentFinal.tracedOnce, finished⟩

/-- A space that evacuates the block at address zero. -/
def evacuatingSpace : TraceSpace :=
  { currentMark := NOFL_METADATA_BYTE_MARK_1
    survivorMark := NOFL_METADATA_BYTE_MARK_0
    currentMark_mem := by decide
    survivorMark_mem := by decide
    evacuating := true
    heapHasAmbiguousEdges := false
    evacuate := fun block => block = 0
    generational := true }

/-- A young object of two granules with a logged field, and two edges to it. -/
def twoGranuleObject : LiveObject evacuatingSpace :=
  { memory :=
      { words := fun addr => if addr = 16 then 7 else if addr = 800 ∨ addr = 808 then 16 else 0
        metadata := fun granule => if granule = 1 then 129 else if granule = 2 then 32 else 0
        blockMarks := fun _ => false }
    ref := 16
    granules := 2
    aligned := by decide
    positive := by decide
    bounded := by decide
    ends := by decide
    goesOn := by decide
    live := by decide
    untraced := by decide }

/-- Two visits race for the object, and the one that does not get it waits for the other. -/
theorem visits_trace_once_race :
    ∃ world : VisitWorld, world.visits = [⟨.relocatable, 800, .returned true⟩,
        ⟨.relocatable, 808, .returned false⟩] ∧
      world.allocations = [some 65536] ∧ twoGranuleObject.TracedOnce world := by
  refine ⟨_, ?_, ?_, (visits_trace_once evacuatingSpace twoGranuleObject _
    (System.ReachableBy.of_runBy (visitSystem evacuatingSpace twoGranuleObject)
      (fun _ _ => True) (fun _ _ => id) (.initial rfl)
      [.begin .relocatable 800, .begin .relocatable 808, .advance 0, .advance 1, .advance 0,
        .advance 1, .allocate 0 (some 65536), .advance 1, .advance 0, .advance 0, .advance 0,
        .advance 1, .advance 1, .advance 1, .advance 0, .advance 0, .advance 0, .advance 0,
        .advance 0] rfl)).2.1⟩
  · rfl
  · rfl

end Whippet.Nofl
