import Whippet.Library.Processes
import Whippet.Nofl.Evacuate

/-!
What holds in every state of the visits to one object.

The object goes through stages. One visit at most takes it from one stage to the next, and the
stage says what is in memory; what any other visit knows about the object is right in the stage
it is in and in every later one.

Owns: the stages, the invariant with one lemma for each step, that no assertion fails, and that
the visits can always be finished.
-/

namespace Whippet.Nofl

open Function Processes

/-- How far the visits have got with the object. -/
inductive Stage where
  | untouched
  /-- A visit has claimed the object. -/
  | claimed
  /-- Its allocation has failed. -/
  | aborting
  /-- The object is marked where it is. -/
  | inPlace
  /-- It has got memory for a copy, and has done so many of its six writes. -/
  | evacuating (newRef writes : ℕ)
  deriving DecidableEq, Repr

namespace Stage

/-- Where the forwarding word points, once it may be followed. -/
def forwardedTo : Stage → Option ℕ
  | evacuating newRef writes => if 3 ≤ writes then some newRef else none
  | _ => none

/-- The memory of the copy. -/
def copyAt : Stage → Option ℕ
  | evacuating newRef _ => some newRef
  | _ => none

/-- Stages in which the words of the object are as they were. -/
def Intact : Stage → Prop
  | evacuating _ writes => writes ≤ 1
  | _ => True

/-- The visit that found the object to be newly traced has done its part. -/
def Done : Stage → Prop
  | inPlace => True
  | evacuating _ writes => 6 ≤ writes
  | _ => False

/-- What the allocations have returned. -/
def Logged (allocations : List (Option ℕ)) : Stage → Prop
  | untouched => allocations = []
  | claimed => allocations = []
  | aborting => allocations = [none]
  | inPlace => allocations = [] ∨ allocations = [none]
  | evacuating newRef _ => allocations = [some newRef]

/-- What other visits may still see in a later stage. -/
def Later : Stage → Stage → Prop
  | untouched, _ => True
  | claimed, stage => stage ≠ untouched
  | aborting, stage => stage = aborting ∨ stage = inPlace
  | inPlace, stage => stage = inPlace
  | evacuating newRef writes, stage => ∃ more, writes ≤ more ∧ stage = evacuating newRef more

theorem forwardedTo_eq_some {stage : Stage} {newRef : ℕ} :
    stage.forwardedTo = some newRef ↔ ∃ writes, 3 ≤ writes ∧ stage = evacuating newRef writes := by
  cases stage with
  | evacuating other writes =>
      rw [forwardedTo]
      split <;> simp_all
  | _ => simp [forwardedTo]

theorem copyAt_eq_some {stage : Stage} {newRef : ℕ} :
    stage.copyAt = some newRef ↔ ∃ writes, stage = evacuating newRef writes := by
  cases stage <;> simp [copyAt]

theorem Later.forwardedTo {stage later : Stage} (isLater : Later stage later) {newRef : ℕ}
    (forwarded : stage.forwardedTo = some newRef) : later.forwardedTo = some newRef := by
  obtain ⟨writes, enough, rfl⟩ := forwardedTo_eq_some.mp forwarded
  obtain ⟨more, atLeast, rfl⟩ := isLater
  exact forwardedTo_eq_some.mpr ⟨more, by omega, rfl⟩

theorem Later.inPlace {later : Stage} (isLater : Later .inPlace later) : later = .inPlace := isLater

theorem Later.ne_untouched {stage later : Stage} (isLater : Later stage later)
    (touched : stage ≠ untouched) : later ≠ untouched := by
  cases stage with
  | untouched => exact absurd rfl touched
  | claimed => exact isLater
  | aborting => rcases isLater with rfl | rfl <;> decide
  | inPlace => rw [isLater.inPlace]; decide
  | evacuating newRef writes =>
      obtain ⟨more, -, rfl⟩ := isLater
      simp

end Stage

/-- A metadata byte of the copy, from the byte of the object. -/
def TraceSpace.copiedByte (space : TraceSpace) (byte : Byte) : Byte :=
  if space.generational then byte &&& ~~~NOFL_METADATA_BYTE_LOGGED_MASK else byte

section Invariant

variable {space : TraceSpace} (object : LiveObject space)

namespace LiveObject

/-- The metadata byte of the object before the trace. -/
def byte : Byte := object.memory.head object.ref

/-- Whether visits that relocate objects evacuate this one. -/
def ShouldEvacuate : Prop := space.noflSpaceShouldEvacuate object.byte object.ref = true

/-- The metadata byte in each stage. -/
def byteIn : Stage → Byte
  | .untouched => object.byte
  | .claimed => busyByte object.byte
  | .aborting => busyByte object.byte
  | .inPlace => space.markedByte object.byte
  | .evacuating _ writes =>
      if 3 ≤ writes then forwardedByte object.byte else busyByte object.byte

@[simp] theorem byteIn_untouched : object.byteIn .untouched = object.byte := rfl

@[simp] theorem byteIn_inPlace : object.byteIn .inPlace = space.markedByte object.byte := rfl

/-- The memory of the copy after so many writes. The fields of the copy that are visited once it
is done hold its own address instead of the object's. -/
structure CopyOk (newRef writes : ℕ) (world : VisitWorld) : Prop where
  aligned : NOFL_GRANULE_SIZE ∣ newRef
  apart : newRef + object.granules * NOFL_GRANULE_SIZE ≤ object.ref ∨
    object.ref + object.granules * NOFL_GRANULE_SIZE ≤ newRef
  contents : 1 ≤ writes → ∀ offset < object.granules * NOFL_GRANULE_SIZE,
    world.memory.words (newRef + offset) = object.memory.words (object.ref + offset) ∨
      ∃ visit ∈ world.visits, visit.edge = newRef + offset
  forwarding : 2 ≤ writes → world.memory.words object.ref = newRef
  extent : writes = 4 → ∀ offset, 0 < offset → offset < object.granules →
    world.memory.metadata (granuleOf newRef + offset) =
      object.memory.metadata (granuleOf object.ref + offset)
  cleared : 5 ≤ writes → ∀ offset, 0 < offset → offset < object.granules →
    world.memory.metadata (granuleOf newRef + offset) =
      space.copiedByte (object.memory.metadata (granuleOf object.ref + offset))
  head_eq : 6 ≤ writes → world.memory.head newRef = space.newByte object.byte

structure MemoryOk (stage : Stage) (world : VisitWorld) : Prop where
  log : stage.Logged world.allocations
  head_eq : world.memory.head object.ref = object.byteIn stage
  rest_eq : ∀ offset, 0 < offset → offset < object.granules →
    world.memory.metadata (granuleOf object.ref + offset) =
      object.memory.metadata (granuleOf object.ref + offset)
  evacuated : stage ≠ .untouched → stage ≠ .inPlace → object.ShouldEvacuate
  intact : stage.Intact → ∀ offset < object.granules * NOFL_GRANULE_SIZE,
    world.memory.words (object.ref + offset) = object.memory.words (object.ref + offset)
  copy : ∀ newRef writes, stage = .evacuating newRef writes → object.CopyOk newRef writes world

/-- What a visit may have seen of the metadata byte when it does not claim the object. -/
def Seen (stage : Stage) (kind : VisitKind) (seen : Byte) : Prop :=
  (kind = .key ∧ seen = object.byte) ∨
    (seen = busyByte object.byte ∧ stage ≠ .untouched) ∨
    (seen = forwardedByte object.byte ∧ ∃ newRef, stage.forwardedTo = some newRef) ∨
    (seen = space.markedByte object.byte ∧ stage = .inPlace)

/-- What a visit knows in each phase. -/
def PhaseOk (stage : Stage) (kind : VisitKind) : Phase → Prop
  | .loading => True
  | .marking byte => byte = object.byte ∧ ¬object.ShouldEvacuate ∧ kind ≠ .key
  | .claiming byte => byte = object.byte ∧ object.ShouldEvacuate ∧ kind ≠ .key
  | .allocating byte => byte = object.byte ∧ stage = .claimed ∧ kind ≠ .key
  | .aborting byte => byte = object.byte ∧ stage = .aborting ∧ kind ≠ .key
  | .copying byte granules newRef =>
      byte = object.byte ∧ granules = object.granules ∧ stage = .evacuating newRef 0 ∧ kind ≠ .key
  | .storingForwardingPointer byte granules newRef =>
      byte = object.byte ∧ granules = object.granules ∧ stage = .evacuating newRef 1 ∧ kind ≠ .key
  | .committing byte granules newRef =>
      byte = object.byte ∧ granules = object.granules ∧ stage = .evacuating newRef 2 ∧ kind ≠ .key
  | .copyingMetadata byte granules newRef =>
      byte = object.byte ∧ granules = object.granules ∧ stage = .evacuating newRef 3 ∧ kind ≠ .key
  | .clearingLoggedBits byte granules newRef =>
      byte = object.byte ∧ granules = object.granules ∧ stage = .evacuating newRef 4 ∧ kind ≠ .key
  | .storingMetadata byte newRef =>
      byte = space.newByte object.byte ∧ stage = .evacuating newRef 5 ∧ kind ≠ .key
  | .settingBlockMark newRef true => stage = .evacuating newRef 6 ∧ kind ≠ .key
  | .settingBlockMark _ false => stage = .inPlace ∧ kind ≠ .key
  | .waiting byte seen =>
      (∃ mark, IsMark mark ∧ byte = withMark object.byte mark) ∧ object.Seen stage kind seen
  | .updatingEdge newRef result =>
      stage.forwardedTo = some newRef ∧ (kind ≠ .key → result = true → stage.Done)
  | .returned result => kind ≠ .key → result = true → stage.Done

end LiveObject

/-- The visit has claimed the object, or has found it to be newly traced. -/
def Visit.owns (visit : Visit) : Bool :=
  match visit.phase with
  | .loading => false
  | .marking _ => false
  | .claiming _ => false
  | .waiting _ _ => false
  | .updatingEdge _ result => visit.kind != .key && result
  | .returned result => visit.kind != .key && result
  | _ => true

namespace LiveObject

/-- The edge holds the final address, if that is known. -/
def Settled (stage : Stage) (value : ℕ) : Prop :=
  stage = .inPlace ∨ stage.forwardedTo = some value

structure VisitOk (stage : Stage) (words : ℕ → ℕ) (visit : Visit) : Prop where
  phaseOk : object.PhaseOk stage visit.kind visit.phase
  pinned : visit.kind = .pinned → space.evacuating = false
  settled : ∀ result, visit.phase = .returned result → (visit.kind = .key → result = true) →
    Settled stage (words visit.edge)
  holds : words visit.edge = object.ref ∨ stage.forwardedTo = some (words visit.edge)
  outside : Within visit.edge object.ref object.granules → stage = .inPlace
  outsideCopy : ∀ newRef, stage.copyAt = some newRef →
    Within visit.edge newRef object.granules → stage.Done

/-- The invariant, for the stage that the object is in. -/
structure Consistent (stage : Stage) (world : VisitWorld) : Prop where
  memoryOk : object.MemoryOk stage world
  visitOk : ∀ visit ∈ world.visits, object.VisitOk stage world.memory.words visit
  owners : world.visits.countP Visit.owns = if stage = .untouched then 0 else 1

end LiveObject

/-! ## Bytes -/

namespace TraceSpace

theorem currentMark_isMark (space : TraceSpace) : IsMark space.currentMark := by
  have marks := space.currentMark_mem
  simp only [List.mem_cons, List.not_mem_nil, or_false] at marks
  rcases marks with equal | equal | equal <;> rw [equal] <;> decide

theorem currentMark_ne (space : TraceSpace) :
    space.currentMark ≠ NOFL_METADATA_BYTE_BUSY ∧
      space.currentMark ≠ NOFL_METADATA_BYTE_FORWARDED := by
  have marks := space.currentMark_mem
  simp only [List.mem_cons, List.not_mem_nil, or_false] at marks
  rcases marks with equal | equal | equal <;> rw [equal] <;> decide

theorem setMarkByte_eq (space : TraceSpace) (byte : Byte) :
    space.setMarkByte byte = space.markedByte byte :=
  (withMark_eq_mask byte space.currentMark).symm

/-- Only the pinned bit of the byte decides. -/
theorem noflSpaceShouldEvacuate_withMark (space : TraceSpace) {byte mark : Byte}
    (isMark : IsMark mark) (ref : ℕ) :
    space.noflSpaceShouldEvacuate (withMark byte mark) ref =
      space.noflSpaceShouldEvacuate byte ref := by
  unfold noflSpaceShouldEvacuate
  rw [withMark_and isMark (by decide)]

/-- Only logged bits are cleared in the bytes of a copy. -/
theorem copiedByte_and (space : TraceSpace) {byte mask : Byte}
    (apart : mask &&& NOFL_METADATA_BYTE_LOGGED_MASK = 0) :
    space.copiedByte byte &&& mask = byte &&& mask := by
  unfold copiedByte
  split
  · ext index inRange
    have bits := congrArg (fun value : Byte => value[index]) apart
    simp only [BitVec.getElem_and, BitVec.getElem_not] at bits ⊢
    grind
  · rfl

end TraceSpace

namespace LiveObject

theorem markOf_byte :
    markOf object.byte ≠ NOFL_METADATA_BYTE_BUSY ∧
      markOf object.byte ≠ NOFL_METADATA_BYTE_FORWARDED := by
  have alive := object.live
  have survivors := space.survivorMark_mem
  simp only [noflMetadataByteIsYoungOrHasMark, Bool.or_eq_true, noflMetadataByteHasMark_iff]
    at alive
  simp only [List.mem_cons, List.not_mem_nil, or_false] at survivors
  rw [byte]
  rcases alive with equal | equal
  · rw [equal]
    decide
  · rw [equal]
    rcases survivors with mark | mark | mark <;> rw [mark] <;> decide

theorem markOf_byte_ne_currentMark : markOf object.byte ≠ space.currentMark := by
  intro equal
  have untraced : noflMetadataByteHasMark object.byte space.currentMark = false := object.untraced
  rw [noflMetadataByteHasMark_iff.mpr equal] at untraced
  cases untraced

theorem busyByte_ne_byte : busyByte object.byte ≠ object.byte :=
  withMark_ne (by decide) object.markOf_byte.1

theorem forwardedByte_ne_byte : forwardedByte object.byte ≠ object.byte :=
  withMark_ne (by decide) object.markOf_byte.2

theorem markedByte_ne_byte : space.markedByte object.byte ≠ object.byte :=
  withMark_ne space.currentMark_isMark object.markOf_byte_ne_currentMark

theorem forwardedByte_ne_busyByte : forwardedByte object.byte ≠ busyByte object.byte := by
  intro equal
  exact absurd (withMark_injective (by decide) (by decide) equal) (by decide)

theorem markedByte_ne_busyByte : space.markedByte object.byte ≠ busyByte object.byte := by
  intro equal
  exact space.currentMark_ne.1 (withMark_injective space.currentMark_isMark (by decide) equal)

theorem markedByte_ne_forwardedByte :
    space.markedByte object.byte ≠ forwardedByte object.byte := by
  intro equal
  exact space.currentMark_ne.2 (withMark_injective space.currentMark_isMark (by decide) equal)

/-- In every stage only the mark of the byte is changed. -/
theorem byteIn_eq_withMark (stage : Stage) :
    ∃ mark, IsMark mark ∧ object.byteIn stage = withMark object.byte mark := by
  cases stage with
  | untouched => exact ⟨markOf object.byte, by rw [IsMark, markOf, BitVec.and_assoc]; rfl,
      withMark_markOf.symm⟩
  | claimed => exact ⟨_, by decide, rfl⟩
  | aborting => exact ⟨_, by decide, rfl⟩
  | inPlace => exact ⟨_, space.currentMark_isMark, rfl⟩
  | evacuating newRef writes =>
      rw [byteIn]
      split
      · exact ⟨_, by decide, rfl⟩
      · exact ⟨_, by decide, rfl⟩

/-- What a load of the metadata byte sees. -/
theorem seen_byteIn {stage : Stage} {kind : VisitKind}
    (known : kind = .key ∨ stage ≠ .untouched) : object.Seen stage kind (object.byteIn stage) := by
  cases stage with
  | untouched => exact .inl ⟨known.resolve_right (not_not.mpr rfl), rfl⟩
  | claimed => exact .inr (.inl ⟨rfl, by decide⟩)
  | aborting => exact .inr (.inl ⟨rfl, by decide⟩)
  | inPlace => exact .inr (.inr (.inr ⟨rfl, rfl⟩))
  | evacuating newRef writes =>
      rw [byteIn]
      split
      case isTrue enough =>
        exact .inr (.inr (.inl ⟨rfl, newRef, Stage.forwardedTo_eq_some.mpr ⟨_, enough, rfl⟩⟩))
      case isFalse => exact .inr (.inl ⟨rfl, by simp⟩)

theorem byteIn_eq_byte {stage : Stage} (same : object.byteIn stage = object.byte) :
    stage = .untouched := by
  cases stage with
  | untouched => rfl
  | claimed => exact absurd same object.busyByte_ne_byte
  | aborting => exact absurd same object.busyByte_ne_byte
  | inPlace => exact absurd same object.markedByte_ne_byte
  | evacuating newRef writes =>
      rw [byteIn] at same
      split at same
      · exact absurd same object.forwardedByte_ne_byte
      · exact absurd same object.busyByte_ne_byte

theorem byteIn_hasMark {stage : Stage}
    (marked : noflMetadataByteHasMark (object.byteIn stage) space.currentMark = true) :
    stage = .inPlace := by
  rw [noflMetadataByteHasMark_iff] at marked
  cases stage with
  | untouched => exact absurd marked object.markOf_byte_ne_currentMark
  | inPlace => rfl
  | claimed =>
      rw [byteIn, busyByte, markOf_withMark (by decide)] at marked
      exact absurd marked.symm space.currentMark_ne.1
  | aborting =>
      rw [byteIn, busyByte, markOf_withMark (by decide)] at marked
      exact absurd marked.symm space.currentMark_ne.1
  | evacuating newRef writes =>
      rw [byteIn] at marked
      split at marked
      · rw [forwardedByte, markOf_withMark (by decide)] at marked
        exact absurd marked.symm space.currentMark_ne.2
      · rw [busyByte, markOf_withMark (by decide)] at marked
        exact absurd marked.symm space.currentMark_ne.1

theorem shouldEvacuate_byteIn (stage : Stage) :
    space.noflSpaceShouldEvacuate (object.byteIn stage) object.ref = true ↔
      object.ShouldEvacuate := by
  obtain ⟨mark, isMark, equal⟩ := object.byteIn_eq_withMark stage
  rw [equal, space.noflSpaceShouldEvacuate_withMark isMark]
  rfl

/-! ## One visit takes a step -/

section Advance

variable {object} {stage later : Stage} {world : VisitWorld} {memory : Memory}
variable {visits : List Visit} {allocations : List (Option ℕ)}
variable {index : ℕ} {visit other : Visit} {phase : Phase}

/-- The invariant on memory depends on the visits by their edges only. -/
theorem MemoryOk.withVisits (memoryOk : object.MemoryOk stage world)
    (edges : ∀ visit ∈ world.visits, ∃ same ∈ visits, same.edge = visit.edge) :
    object.MemoryOk stage { world with visits := visits } := by
  refine { memoryOk with copy := ?_ }
  intro newRef writes inStage
  have copyOk := memoryOk.copy newRef writes inStage
  refine { copyOk with contents := ?_ }
  intro copied offset inRange
  rcases copyOk.contents copied offset inRange with same | ⟨visit, isVisit, atEdge⟩
  · exact .inl same
  · obtain ⟨kept, isKept, edgeEq⟩ := edges visit isVisit
    exact .inr ⟨kept, isKept, edgeEq.trans atEdge⟩

theorem edges_set (found : world.visits[index]? = some visit) (phase : Phase) :
    ∀ before ∈ world.visits,
      ∃ same ∈ world.visits.set index { visit with phase := phase }, same.edge = before.edge := by
  intro before isBefore
  obtain ⟨position, atPosition⟩ := List.mem_iff_getElem?.mp isBefore
  by_cases same : position = index
  · subst same
    rw [found, Option.some.injEq] at atPosition
    have inRange := (List.getElem?_eq_some_iff.mp found).1
    rw [← atPosition]
    exact ⟨_, List.mem_of_getElem? (List.getElem?_set_self inRange), rfl⟩
  · have kept : (world.visits.set index { visit with phase := phase })[position]? =
        some before := by
      rw [List.getElem?_set_ne (Ne.symm same)]
      exact atPosition
    exact ⟨before, List.mem_of_getElem? kept, rfl⟩

/-- The invariant after a step of the visit at `index`. If the stage changes then it is this
visit that has the object, and no other visit has it. -/
theorem Consistent.advance (consistent : object.Consistent stage world)
    (found : world.visits[index]? = some visit)
    (memoryOk : object.MemoryOk later
      { world with memory := memory, allocations := allocations })
    (self : object.VisitOk later memory.words { visit with phase := phase })
    (others : ∀ other ∈ world.visits, (stage ≠ later → other.owns = false) →
      object.VisitOk stage world.memory.words other → object.VisitOk later memory.words other)
    (owner : stage ≠ later → Visit.owns { visit with phase := phase } = true)
    (owners : (Visit.owns { visit with phase := phase }).toNat +
        (if stage = .untouched then 0 else 1) =
      visit.owns.toNat + if later = .untouched then 0 else 1) :
    object.Consistent later
      { memory := memory
        visits := world.visits.set index { visit with phase := phase }
        allocations := allocations } := by
  have counted : (world.visits.set index { visit with phase := phase }).countP Visit.owns +
      visit.owns.toNat = world.visits.countP Visit.owns +
        (Visit.owns { visit with phase := phase }).toNat := countP_set_add Visit.owns found
  rw [consistent.owners] at counted
  have ownersAfter : (world.visits.set index { visit with phase := phase }).countP Visit.owns =
      if later = .untouched then 0 else 1 := by omega
  refine ⟨memoryOk.withVisits (edges_set found phase), ?_, ownersAfter⟩
  intro other isOther
  obtain ⟨position, atPosition⟩ := List.mem_iff_getElem?.mp isOther
  rcases getElem?_set_cases atPosition with ⟨-, rfl⟩ | ⟨different, before⟩
  · exact self
  · have isBefore := List.mem_of_getElem? before
    refine others other isBefore ?_ (consistent.visitOk other isBefore)
    intro changed
    by_contra owns
    have inRange := (List.getElem?_eq_some_iff.mp found).1
    have once : (world.visits.set index { visit with phase := phase }).countP Visit.owns ≤ 1 := by
      rw [ownersAfter]
      split <;> omega
    exact different (eq_of_countP_le_one once (List.getElem?_set_self inRange) (owner changed)
      atPosition (by simpa using owns))

/-- A step that changes neither memory nor whether the visit has the object. -/
theorem Consistent.stay (consistent : object.Consistent stage world)
    (found : world.visits[index]? = some visit)
    (self : object.VisitOk stage world.memory.words { visit with phase := phase })
    (owners : Visit.owns { visit with phase := phase } = visit.owns) :
    object.Consistent stage
      { world with visits := world.visits.set index { visit with phase := phase } } :=
  consistent.advance found consistent.memoryOk self (fun _ _ _ visitOk => visitOk)
    (fun changed => absurd rfl changed) (by rw [owners])

theorem Seen.mono {kind : VisitKind} {seen : Byte} (isSeen : object.Seen stage kind seen)
    (isLater : Stage.Later stage later) : object.Seen later kind seen := by
  rcases isSeen with first | ⟨busy, touched⟩ | ⟨forwarded, newRef, atNew⟩ | ⟨marked, inPlace⟩
  · exact .inl first
  · exact .inr (.inl ⟨busy, isLater.ne_untouched touched⟩)
  · exact .inr (.inr (.inl ⟨forwarded, newRef, isLater.forwardedTo atNew⟩))
  · subst inPlace
    exact .inr (.inr (.inr ⟨marked, isLater⟩))

theorem Settled.mono {value : ℕ} (settled : Settled stage value)
    (isLater : Stage.Later stage later) : Settled later value := by
  rcases settled with rfl | forwarded
  · exact .inl isLater
  · exact .inr (isLater.forwardedTo forwarded)

/-- Without the object, a visit knows nothing that the next stage makes wrong. -/
theorem PhaseOk.mono (phaseOk : object.PhaseOk stage visit.kind visit.phase)
    (bystander : visit.owns = false) (isLater : Stage.Later stage later) :
    object.PhaseOk later visit.kind visit.phase := by
  unfold Visit.owns at bystander
  cases shape : visit.phase with
  | loading => trivial
  | marking byte => simpa only [shape, PhaseOk] using phaseOk
  | claiming byte => simpa only [shape, PhaseOk] using phaseOk
  | waiting byte seen =>
      rw [shape] at phaseOk
      exact ⟨phaseOk.1, phaseOk.2.mono isLater⟩
  | updatingEdge newRef result =>
      rw [shape] at phaseOk
      refine ⟨isLater.forwardedTo phaseOk.1, ?_⟩
      intro notKey isTrue
      simp [shape, notKey, isTrue] at bystander
  | returned result =>
      intro notKey isTrue
      simp [shape, notKey, isTrue] at bystander
  | _ => simp [shape] at bystander

/-- What a visit relies on, but for its phase, stays right when the object gets to a later stage.
`fresh` is for the step that gets memory for a copy. -/
theorem VisitOk.moved {words after : ℕ → ℕ} (visitOk : object.VisitOk stage words visit)
    (isLater : Stage.Later stage later)
    (fresh : ∀ newRef writes, later = .evacuating newRef writes → stage.copyAt = none →
      ¬Within visit.edge newRef object.granules)
    (kept : after visit.edge = words visit.edge)
    (phaseOk : object.PhaseOk later visit.kind phase)
    (settled : ∀ result, phase = .returned result → (visit.kind = .key → result = true) →
      Settled later (after visit.edge)) :
    object.VisitOk later after { visit with phase := phase } where
  phaseOk := phaseOk
  pinned := visitOk.pinned
  settled := settled
  holds := by
    show after visit.edge = _ ∨ _ = some (after visit.edge)
    rw [kept]
    exact visitOk.holds.imp_right isLater.forwardedTo
  outside := by
    intro within
    have inPlace := visitOk.outside within
    subst inPlace
    exact isLater
  outsideCopy := by
    intro newRef copying within
    obtain ⟨writes, rfl⟩ := Stage.copyAt_eq_some.mp copying
    cases before : stage.copyAt with
    | none => exact absurd within (fresh newRef writes rfl before)
    | some earlier =>
        obtain ⟨fewer, rfl⟩ := Stage.copyAt_eq_some.mp before
        obtain ⟨more, atLeast, same⟩ := isLater
        cases same
        have done := visitOk.outsideCopy newRef rfl within
        exact Nat.le_trans done atLeast

theorem VisitOk.mono {words after : ℕ → ℕ} (visitOk : object.VisitOk stage words visit)
    (bystander : visit.owns = false) (isLater : Stage.Later stage later)
    (fresh : ∀ newRef writes, later = .evacuating newRef writes → stage.copyAt = none →
      ¬Within visit.edge newRef object.granules)
    (kept : after visit.edge = words visit.edge) :
    object.VisitOk later after visit := by
  apply visitOk.moved isLater fresh kept (visitOk.phaseOk.mono bystander isLater)
  intro result returned isTrue
  rw [kept]
  exact (visitOk.settled result returned isTrue).mono isLater

end Advance

/-! ## Stages of memory -/

section Stages

variable {object} {stage : Stage} {world : VisitWorld} {newRef writes : ℕ}

/-- The granules of the copy are apart from those of the object. -/
theorem CopyOk.granules_apart (copyOk : object.CopyOk newRef writes world) :
    granuleOf newRef + object.granules ≤ granuleOf object.ref ∨
      granuleOf object.ref + object.granules ≤ granuleOf newRef := by
  obtain ⟨new, newEq⟩ := copyOk.aligned
  obtain ⟨old, oldEq⟩ := object.aligned
  have apart := copyOk.apart
  simp only [granuleOf, newEq, oldEq, NOFL_GRANULE_SIZE] at apart ⊢
  omega

theorem MemoryOk.stage_eq_untouched (memoryOk : object.MemoryOk stage world)
    (unchanged : world.memory.head object.ref = object.byte) : stage = .untouched :=
  object.byteIn_eq_byte (memoryOk.head_eq.symm.trans unchanged)

/-- The byte of the object changes, and nothing else does. -/
theorem MemoryOk.setHead (memoryOk : object.MemoryOk stage world) (later : Stage)
    (log : later.Logged world.allocations)
    (evacuated : later ≠ .untouched → later ≠ .inPlace → object.ShouldEvacuate)
    (intact : later.Intact → stage.Intact)
    (copy : ∀ newRef writes, later = .evacuating newRef writes → writes = 3 ∧
      stage = .evacuating newRef 2) :
    object.MemoryOk later
      { world with memory := world.memory.setHead object.ref (object.byteIn later) } where
  log := log
  head_eq := Memory.head_setHead
  rest_eq := by
    intro offset positive inRange
    show (world.memory.setHead object.ref (object.byteIn later)).metadata _ = _
    rw [Memory.metadata_setHead_of_ne (by omega)]
    exact memoryOk.rest_eq offset positive inRange
  evacuated := evacuated
  intact := fun isIntact => memoryOk.intact (intact isIntact)
  copy := by
    intro newRef writes inLater
    obtain ⟨rfl, inStage⟩ := copy newRef writes inLater
    have copyOk := memoryOk.copy newRef 2 inStage
    exact
      { aligned := copyOk.aligned
        apart := copyOk.apart
        contents := fun _ => copyOk.contents (by decide)
        forwarding := fun _ => copyOk.forwarding (by decide)
        extent := fun absurdity => absurd absurdity (by decide)
        cleared := fun absurdity => absurd absurdity (by decide)
        head_eq := fun absurdity => absurd absurdity (by decide) }

theorem MemoryOk.claim (memoryOk : object.MemoryOk .untouched world)
    (shouldEvacuate : object.ShouldEvacuate) :
    object.MemoryOk .claimed
      { world with memory := world.memory.setHead object.ref (busyByte object.byte) } :=
  memoryOk.setHead .claimed memoryOk.log (fun _ _ => shouldEvacuate) id (by simp)

theorem MemoryOk.mark (memoryOk : object.MemoryOk stage world)
    (unclaimed : stage = .untouched ∨ stage = .aborting ∨ stage = .inPlace) :
    object.MemoryOk .inPlace
      { world with memory := world.memory.setHead object.ref (space.markedByte object.byte) } := by
  refine memoryOk.setHead .inPlace ?_ (fun _ notInPlace => absurd rfl notInPlace) ?_ (by simp)
  · have log := memoryOk.log
    rcases unclaimed with rfl | rfl | rfl
    · exact .inl log
    · exact .inr log
    · exact log
  · rcases unclaimed with rfl | rfl | rfl <;> exact id

theorem MemoryOk.failAllocation (memoryOk : object.MemoryOk .claimed world) :
    object.MemoryOk .aborting { world with allocations := world.allocations ++ [none] } where
  log := by
    show world.allocations ++ [none] = [none]
    rw [show world.allocations = [] from memoryOk.log]
    rfl
  head_eq := memoryOk.head_eq
  rest_eq := memoryOk.rest_eq
  evacuated := fun _ _ => memoryOk.evacuated (by decide) (by decide)
  intact := fun _ => memoryOk.intact trivial
  copy := by simp

theorem MemoryOk.allocate (memoryOk : object.MemoryOk .claimed world)
    (fresh : world.Fresh object.ref object.granules newRef) :
    object.MemoryOk (.evacuating newRef 0)
      { world with allocations := world.allocations ++ [some newRef] } where
  log := by
    show world.allocations ++ [some newRef] = [some newRef]
    rw [show world.allocations = [] from memoryOk.log]
    rfl
  head_eq := memoryOk.head_eq
  rest_eq := memoryOk.rest_eq
  evacuated := fun _ _ => memoryOk.evacuated (by decide) (by decide)
  intact := fun _ => memoryOk.intact trivial
  copy := by
    intro other writes same
    cases same
    exact
      { aligned := fresh.1
        apart := fresh.2.1
        contents := fun absurdity => absurd absurdity (by decide)
        forwarding := fun absurdity => absurd absurdity (by decide)
        extent := fun absurdity => absurd absurdity (by decide)
        cleared := fun absurdity => absurd absurdity (by decide)
        head_eq := fun absurdity => absurd absurdity (by decide) }

theorem MemoryOk.copyContents (memoryOk : object.MemoryOk (.evacuating newRef 0) world) :
    object.MemoryOk (.evacuating newRef 1)
      { world with memory := world.memory.copyWords object.ref newRef object.granules } := by
  have copyOk := memoryOk.copy newRef 0 rfl
  have apart := copyOk.apart
  have positive := object.positive
  refine ⟨memoryOk.log, memoryOk.head_eq, memoryOk.rest_eq, ?_, ?_, ?_⟩
  · exact fun _ _ => memoryOk.evacuated (by simp) (by simp)
  · intro _ offset inRange
    show (if Within _ _ _ then _ else _) = _
    rw [if_neg (by simp only [Within]; omega)]
    exact memoryOk.intact (Nat.zero_le 1) offset inRange
  · intro other writes same
    cases same
    refine
      { aligned := copyOk.aligned
        apart := apart
        contents := ?_
        forwarding := fun absurdity => absurd absurdity (by decide)
        extent := fun absurdity => absurd absurdity (by decide)
        cleared := fun absurdity => absurd absurdity (by decide)
        head_eq := fun absurdity => absurd absurdity (by decide) }
    intro _ offset inRange
    left
    show (if Within _ _ _ then _ else _) = _
    rw [if_pos (by simp only [Within]; omega), Nat.add_sub_cancel_left]
    exact memoryOk.intact (Nat.zero_le 1) offset inRange

theorem MemoryOk.forward (memoryOk : object.MemoryOk (.evacuating newRef 1) world) :
    object.MemoryOk (.evacuating newRef 2)
      { world with memory := world.memory.setWord object.ref newRef } := by
  have copyOk := memoryOk.copy newRef 1 rfl
  have apart := copyOk.apart
  have positive : 0 < object.granules * NOFL_GRANULE_SIZE :=
    Nat.mul_pos object.positive (by decide)
  refine ⟨memoryOk.log, memoryOk.head_eq, memoryOk.rest_eq, ?_, ?_, ?_⟩
  · exact fun _ _ => memoryOk.evacuated (by simp) (by simp)
  · exact fun absurdity => absurd absurdity (by simp [Stage.Intact])
  · intro other writes same
    cases same
    refine
      { aligned := copyOk.aligned
        apart := apart
        contents := ?_
        forwarding := fun _ => Memory.words_setWord
        extent := fun absurdity => absurd absurdity (by decide)
        cleared := fun absurdity => absurd absurdity (by decide)
        head_eq := fun absurdity => absurd absurdity (by decide) }
    intro _ offset inRange
    show (world.memory.setWord object.ref newRef).words _ = _ ∨ _
    rw [Memory.words_setWord_of_ne (by omega)]
    exact copyOk.contents (by decide) offset inRange

theorem MemoryOk.commit (memoryOk : object.MemoryOk (.evacuating newRef 2) world) :
    object.MemoryOk (.evacuating newRef 3)
      { world with memory := world.memory.setHead object.ref (forwardedByte object.byte) } := by
  refine memoryOk.setHead (.evacuating newRef 3) memoryOk.log ?_ ?_ ?_
  · exact fun _ _ => memoryOk.evacuated (by simp) (by simp)
  · exact fun absurdity => absurd absurdity (by simp [Stage.Intact])
  · intro other writes same
    cases same
    exact ⟨rfl, rfl⟩

/-- Once the forwarded byte is stored, only the copy's own metadata is written. -/
theorem MemoryOk.writeMetadata (memoryOk : object.MemoryOk (.evacuating newRef writes) world)
    (enough : 3 ≤ writes) {metadata : ℕ → Byte}
    (kept : ∀ offset < object.granules, metadata (granuleOf object.ref + offset) =
      world.memory.metadata (granuleOf object.ref + offset))
    (extent : writes + 1 = 4 → ∀ offset, 0 < offset → offset < object.granules →
      metadata (granuleOf newRef + offset) =
        object.memory.metadata (granuleOf object.ref + offset))
    (cleared : 5 ≤ writes + 1 → ∀ offset, 0 < offset → offset < object.granules →
      metadata (granuleOf newRef + offset) =
        space.copiedByte (object.memory.metadata (granuleOf object.ref + offset)))
    (head : 6 ≤ writes + 1 → metadata (granuleOf newRef) = space.newByte object.byte) :
    object.MemoryOk (.evacuating newRef (writes + 1))
      { world with memory := { world.memory with metadata := metadata } } := by
  have copyOk := memoryOk.copy newRef writes rfl
  refine ⟨memoryOk.log, ?_, ?_, ?_, ?_, ?_⟩
  · have headEq := memoryOk.head_eq
    simp only [byteIn, if_pos enough, if_pos (Nat.le_succ_of_le enough)] at headEq ⊢
    rw [← headEq]
    exact kept 0 object.positive
  · intro offset positive inRange
    exact (kept offset inRange).trans (memoryOk.rest_eq offset positive inRange)
  · exact fun _ _ => memoryOk.evacuated (by simp) (by simp)
  · intro absurdity
    simp only [Stage.Intact] at absurdity
    omega
  · intro other more same
    cases same
    exact
      { aligned := copyOk.aligned
        apart := copyOk.apart
        contents := fun _ => copyOk.contents (by omega)
        forwarding := fun _ => copyOk.forwarding (by omega)
        extent := extent
        cleared := cleared
        head_eq := head }

theorem MemoryOk.copyExtent (memoryOk : object.MemoryOk (.evacuating newRef 3) world) :
    object.MemoryOk (.evacuating newRef 4)
      { world with memory := world.memory.copyMetadata object.ref newRef object.granules } := by
  have apart := (memoryOk.copy newRef 3 rfl).granules_apart
  apply memoryOk.writeMetadata (Nat.le_refl 3)
  · intro offset inRange
    rw [if_neg (by omega)]
  · intro _ offset positive inRange
    rw [if_pos (by omega), Nat.add_sub_cancel_left]
    exact memoryOk.rest_eq offset positive inRange
  · exact fun absurdity => absurd absurdity (by decide)
  · exact fun absurdity => absurd absurdity (by decide)

theorem MemoryOk.clearExtent (memoryOk : object.MemoryOk (.evacuating newRef 4) world) :
    object.MemoryOk (.evacuating newRef 5)
      { world with
        memory := if space.generational then
            world.memory.clearLoggedBits newRef object.granules
          else world.memory } := by
  have copyOk := memoryOk.copy newRef 4 rfl
  have apart := copyOk.granules_apart
  have copied := copyOk.extent rfl
  cases generational : space.generational with
  | false =>
      rw [if_neg (by decide)]
      apply memoryOk.writeMetadata (by decide)
      · exact fun _ _ => rfl
      · exact fun absurdity => absurd absurdity (by decide)
      · intro _ offset positive inRange
        rw [copied offset positive inRange, TraceSpace.copiedByte, generational, if_neg (by decide)]
      · exact fun absurdity => absurd absurdity (by decide)
  | true =>
      rw [if_pos rfl]
      apply memoryOk.writeMetadata (by decide)
      · intro offset inRange
        rw [if_neg (by omega)]
      · exact fun absurdity => absurd absurdity (by decide)
      · intro _ offset positive inRange
        rw [if_pos (by omega), copied offset positive inRange, TraceSpace.copiedByte, generational,
          if_pos rfl]
      · exact fun absurdity => absurd absurdity (by decide)

theorem MemoryOk.storeHead (memoryOk : object.MemoryOk (.evacuating newRef 5) world) :
    object.MemoryOk (.evacuating newRef 6)
      { world with memory := world.memory.setHead newRef (space.newByte object.byte) } := by
  have copyOk := memoryOk.copy newRef 5 rfl
  have apart := copyOk.granules_apart
  have positive := object.positive
  apply memoryOk.writeMetadata (by decide)
  · intro offset inRange
    exact update_of_ne (by omega) _ _
  · exact fun absurdity => absurd absurdity (by decide)
  · intro _ offset positive inRange
    rw [update_of_ne (by omega)]
    exact copyOk.cleared (by decide) offset positive inRange
  · exact fun _ => update_self _ _ _

/-- An edge to a moved object is updated. -/
theorem MemoryOk.updateEdge (memoryOk : object.MemoryOk stage world)
    (forwarded : stage.forwardedTo = some newRef) {visit : Visit} (isVisit : visit ∈ world.visits)
    (outside : ¬Within visit.edge object.ref object.granules) :
    object.MemoryOk stage { world with memory := world.memory.setWord visit.edge newRef } := by
  obtain ⟨writes, enough, rfl⟩ := Stage.forwardedTo_eq_some.mp forwarded
  have copyOk := memoryOk.copy newRef writes rfl
  have positive : 0 < object.granules * NOFL_GRANULE_SIZE :=
    Nat.mul_pos object.positive (by decide)
  refine ⟨memoryOk.log, memoryOk.head_eq, memoryOk.rest_eq, memoryOk.evacuated, ?_, ?_⟩
  · intro absurdity
    simp only [Stage.Intact] at absurdity
    omega
  · intro other more same
    cases same
    refine { copyOk with contents := ?_, forwarding := ?_ }
    · intro copied offset inRange
      by_cases atEdge : visit.edge = newRef + offset
      · exact .inr ⟨visit, isVisit, atEdge⟩
      · show (world.memory.setWord visit.edge newRef).words _ = _ ∨ _
        rw [Memory.words_setWord_of_ne (Ne.symm atEdge)]
        exact copyOk.contents copied offset inRange
    · intro stored
      have elsewhere : object.ref ≠ visit.edge := by
        intro same
        apply outside
        rw [← same, Within]
        omega
      exact (Memory.words_setWord_of_ne elsewhere).trans (copyOk.forwarding stored)

end Stages

end LiveObject

end Invariant

end Whippet.Nofl
