import Mathlib.Algebra.BigOperators.Group.Finset.Basic
import Whippet.FieldSet.Calls
import Whippet.Library.Processes

/-!
Where each buffer of remembered edges is.

A buffer that has been allocated is with a writer, with a worker that visits it, in the hands of a
call that moves it, a root, or on one of the lists. Only calls that have popped it and the collector
push to the empty buffers, and only the collector pops full ones, when no call is going on; so no
swap is deceived by a buffer that has come back.

Owns: the places of the buffers, the invariant about them, and what is to be shown for a step that
changes one buffer. Does not own: the steps.
-/

namespace Whippet.FieldSets

open Function

inductive BufferPlace where
  | unallocated
  /-- The buffer that a writer adds to. -/
  | inWriter (writer : ℕ)
  | visiting (writer : ℕ)
  /-- In the hands of a call. -/
  | moving (writer : ℕ)
  | root
  | full
  | partlyFull
  | empty
  | clearingPartlyFull
  | clearingFull
  deriving DecidableEq

namespace BufferPlace

/-- The list of the buffers in this place. -/
def loc : BufferPlace → Option BufferList
  | .full => some .full
  | .partlyFull => some .partlyFull
  | .empty => some .empty
  | .clearingPartlyFull => some .clearingPartlyFull
  | .clearingFull => some .clearingFull
  | _ => none

/-- The writer that has the buffer. -/
def heldBy : BufferPlace → Option ℕ
  | .inWriter writer | .visiting writer | .moving writer => some writer
  | _ => none

/-- How many edges a buffer in this place may have. -/
def Sized (size : ℕ) : BufferPlace → Prop
  | .full | .clearingFull => size = GC_EDGE_BUFFER_CAPACITY
  | .inWriter _ | .partlyFull | .clearingPartlyFull => size < GC_EDGE_BUFFER_CAPACITY
  | .empty => size = 0
  | _ => size ≤ GC_EDGE_BUFFER_CAPACITY

/-- The link of a buffer in this place is null. -/
def IsLoose : BufferPlace → Prop
  | .unallocated | .inWriter _ | .visiting _ | .root => True
  | _ => False

theorem Sized.le {place : BufferPlace} {size : ℕ} (sized : place.Sized size) :
    size ≤ GC_EDGE_BUFFER_CAPACITY := by
  cases place with
  | full => exact le_of_eq sized
  | clearingFull => exact le_of_eq sized
  | inWriter => exact le_of_lt sized
  | partlyFull => exact le_of_lt sized
  | clearingPartlyFull => exact le_of_lt sized
  | empty => exact le_of_eq_of_le sized (Nat.zero_le _)
  | unallocated => exact sized
  | visiting => exact sized
  | moving => exact sized
  | root => exact sized

theorem loc_eq {place : BufferPlace} {list : BufferList} (isLoc : place.loc = some list) :
    place = match list with
      | .full => .full
      | .partlyFull => .partlyFull
      | .empty => .empty
      | .clearingPartlyFull => .clearingPartlyFull
      | .clearingFull => .clearingFull := by
  cases place <;> cases isLoc <;> rfl

end BufferPlace

/-- The buffer that a call moves. -/
def WriterCall.moving : WriterCall → Option ℕ
  | .popEmpty _ (.clearing buffer) => some buffer
  | .release buffer => some buffer
  | .pushFull (.linking _ buffer _) | .pushFull (.pushing _ buffer _) => some buffer
  | _ => none

/-- The push or pop that a call has begun. -/
def WriterCall.stage : WriterCall → Option (StackStage BufferList ℕ)
  | .popEmpty _ stage => some stage
  | .pushFull stage => some stage
  | _ => none

/-- What a call knows. -/
def WriterCall.Knows (set : FieldSet) (place : ℕ → BufferPlace) (index buf : ℕ) :
    WriterCall → Prop
  | .idle => True
  | .popEmpty _ (.clearing buffer) =>
      buf = 0 ∧ place buffer = .moving index ∧ (set.buffers buffer).size = 0
  | .popEmpty _ (.reading .empty _) | .popEmpty _ (.popping .empty _ _) => buf = 0
  | .popEmpty _ _ => False
  | .popPartlyFull _ | .allocate _ => buf = 0
  | .store _ => buf ≠ 0
  | .release buffer => place buffer = .moving index ∧ (set.buffers buffer).next = 0
  | .pushFull (.linking .full buffer _) | .pushFull (.pushing .full buffer _) =>
      place buffer = .moving index ∧ (set.buffers buffer).size = GC_EDGE_BUFFER_CAPACITY
  | .pushFull _ => False

/-- What a writer knows. -/
structure FieldSetWriter.Knows (set : FieldSet) (place : ℕ → BufferPlace) (index : ℕ)
    (writer : FieldSetWriter) : Prop where
  buf : writer.buf ≠ 0 → place writer.buf = .inWriter index
  visiting : ∀ address position, writer.visiting = some (address, position) →
    place address = .visiting index ∧ position ≤ (set.buffers address).size
  call : writer.call.Knows set place index writer.buf
  stage : ∀ stage, writer.call.stage = some stage →
    set.lists.Knows 0 (fun address => (place address).loc) stage

/-- The writer has the buffer as its place says. -/
def FieldSetWriter.Has (writer : FieldSetWriter) (address : ℕ) : BufferPlace → Prop
  | .inWriter _ => writer.buf = address
  | .visiting _ => ∃ position, writer.visiting = some (address, position)
  | .moving _ => writer.call.moving = some address
  | _ => False

/-- The invariant: each buffer is where `place` says. -/
structure FieldSet.Invariant (set : FieldSet) (place : ℕ → BufferPlace) : Prop where
  stacked : set.lists.Stacked 0 fun address => (place address).loc
  writers : ∀ index (writer : FieldSetWriter), set.writers[index]? = some writer →
    writer.Knows set place index
  held : ∀ address index, (place address).heldBy = some index →
    ∃ writer, set.writers[index]? = some writer ∧ writer.Has address (place address)
  roots : ∀ address, address ∈ set.roots ↔ place address = .root
  rootsOnce : set.roots.Nodup
  allocated : ∀ address, address ∈ set.allocated ↔ place address ≠ .unallocated
  proper : place 0 = .unallocated
  sized : ∀ address, (place address).Sized (set.buffers address).size
  loose : ∀ address, (place address).IsLoose → (set.buffers address).next = 0
  controlled : set.controller ≠ .idle → set.IsStopped
  conserved : set.added =
    (∑ address ∈ set.allocated, (set.buffers address).contents) + set.dropped + set.forgotten

section Frames

variable {set after : FieldSet} {place placeAfter : ℕ → BufferPlace}
variable {address index other : ℕ} {old new writer : FieldSetWriter}

/-- What a push or a pop knows does not depend on a buffer that it does not hold and that is not
among the empty ones afterwards. -/
theorem stage_frame {stage : StackStage BufferList ℕ} {call : WriterCall} {buf : ℕ}
    (knows : set.lists.Knows 0 (fun address => (place address).loc) stage)
    (isStage : call.stage = some stage) (fits : call.Knows set place other buf)
    (next : ∀ node, node ≠ address → (after.buffers node).next = (set.buffers node).next)
    (places : ∀ node, node ≠ address → placeAfter node = place node)
    (notHeld : (place address).heldBy ≠ some other) (notEmpty : placeAfter address ≠ .empty) :
    after.lists.Knows 0 (fun address => (placeAfter address).loc) stage := by
  have elsewhere {node : ℕ} (isHeld : place node = .moving other) : node ≠ address := by
    rintro rfl
    rw [isHeld] at notHeld
    exact notHeld rfl
  cases call with
  | popEmpty edge begun =>
      cases isStage
      cases stage with
      | clearing node =>
          refine ⟨knows.1, ?_⟩
          dsimp only
          rw [places node (elsewhere fits.2.1)]
          exact knows.2
      | popping list seen link =>
          cases list with
          | empty =>
              refine ⟨knows.1, ?_⟩
              intro isEmpty
              have different : seen ≠ address := by
                rintro rfl
                exact notEmpty (BufferPlace.loc_eq isEmpty)
              dsimp only at isEmpty
              rw [places seen different] at isEmpty
              exact (next seen different).trans (knows.2 isEmpty)
          | full => cases fits
          | partlyFull => cases fits
          | clearingPartlyFull => cases fits
          | clearingFull => cases fits
      | reading => exact trivial
      | linking => cases fits
      | pushing => cases fits
      | pushed => exact trivial
      | popped => exact trivial
  | pushFull begun =>
      cases isStage
      cases stage with
      | linking list node seen =>
          cases list with
          | full =>
              refine ⟨knows.1, ?_⟩
              dsimp only
              rw [places node (elsewhere fits.1)]
              exact knows.2
          | partlyFull => cases fits
          | empty => cases fits
          | clearingPartlyFull => cases fits
          | clearingFull => cases fits
      | pushing list node seen =>
          cases list with
          | full =>
              refine ⟨knows.1, ?_, (next node (elsewhere fits.1)).trans knows.2.2⟩
              dsimp only
              rw [places node (elsewhere fits.1)]
              exact knows.2.1
          | partlyFull => cases fits
          | empty => cases fits
          | clearingPartlyFull => cases fits
          | clearingFull => cases fits
      | reading => exact trivial
      | popping => cases fits
      | clearing => cases fits
      | pushed => exact trivial
      | popped => exact trivial
  | idle => cases isStage
  | popPartlyFull => cases isStage
  | allocate => cases isStage
  | store => cases isStage
  | release => cases isStage

/-- A step changes no other buffer than one. -/
structure Changes (set after : FieldSet) (place placeAfter : ℕ → BufferPlace) (address : ℕ) :
    Prop where
  buffers : ∀ node, node ≠ address → after.buffers node = set.buffers node
  places : ∀ node, node ≠ address → placeAfter node = place node

theorem Changes.refl (sameBuffers : after.buffers = set.buffers) (address : ℕ) :
    Changes set after place place address where
  buffers node _ := congrFun sameBuffers node
  places _ _ := rfl

/-- A writer that does not have the buffer knows what it knew. -/
theorem FieldSetWriter.Knows.frame (knows : writer.Knows set place other)
    (changes : Changes set after place placeAfter address)
    (notHeld : (place address).heldBy ≠ some other)
    (stage : ∀ stage, writer.call.stage = some stage →
      after.lists.Knows 0 (fun address => (placeAfter address).loc) stage) :
    writer.Knows after placeAfter other := by
  have elsewhere {node : ℕ} {here : BufferPlace} (isHere : place node = here)
      (isHeld : here.heldBy = some other) : node ≠ address := by
    rintro rfl
    rw [isHere] at notHeld
    exact notHeld isHeld
  have kept {node : ℕ} {here : BufferPlace} (isHere : place node = here)
      (isHeld : here.heldBy = some other) :
      placeAfter node = here ∧ after.buffers node = set.buffers node := by
    have different := elsewhere isHere isHeld
    exact ⟨(changes.places node different).trans isHere, changes.buffers node different⟩
  refine ⟨?_, ?_, ?_, stage⟩
  · intro proper
    exact (kept (knows.buf proper) rfl).1
  · intro node position isVisiting
    obtain ⟨isHere, inside⟩ := knows.visiting node position isVisiting
    obtain ⟨place, same⟩ := kept isHere rfl
    rw [same]
    exact ⟨place, inside⟩
  · have call := knows.call
    cases isCall : writer.call with
    | idle => exact trivial
    | popEmpty edge begun =>
        rw [isCall] at call
        cases begun with
        | clearing node =>
            obtain ⟨isZero, isHere, isEmpty⟩ := call
            obtain ⟨place, same⟩ := kept isHere rfl
            refine ⟨isZero, place, ?_⟩
            rw [same, isEmpty]
        | reading list => cases list <;> exact call
        | popping list => cases list <;> exact call
        | linking => cases call
        | pushing => cases call
        | pushed => cases call
        | popped => cases call
    | popPartlyFull edge =>
        rw [isCall] at call
        exact call
    | allocate edge =>
        rw [isCall] at call
        exact call
    | store edge =>
        rw [isCall] at call
        exact call
    | release node =>
        rw [isCall] at call
        obtain ⟨place, same⟩ := kept call.1 rfl
        refine ⟨place, ?_⟩
        rw [same]
        exact call.2
    | pushFull begun =>
        rw [isCall] at call
        cases begun with
        | linking list node seen =>
            cases list with
            | full =>
                obtain ⟨place, same⟩ := kept call.1 rfl
                refine ⟨place, ?_⟩
                rw [same]
                exact call.2
            | partlyFull => cases call
            | empty => cases call
            | clearingPartlyFull => cases call
            | clearingFull => cases call
        | pushing list node seen =>
            cases list with
            | full =>
                obtain ⟨place, same⟩ := kept call.1 rfl
                refine ⟨place, ?_⟩
                rw [same]
                exact call.2
            | partlyFull => cases call
            | empty => cases call
            | clearingPartlyFull => cases call
            | clearingFull => cases call
        | reading => cases call
        | popping => cases call
        | clearing => cases call
        | pushed => cases call
        | popped => cases call

/-- What a step of one writer has to show about the writers. -/
structure StepsWriter (set after : FieldSet) (place placeAfter : ℕ → BufferPlace)
    (index address : ℕ) (new : FieldSetWriter) : Prop where
  changes : Changes set after place placeAfter address
  writers_eq : after.writers = set.writers.set index new
  mine : ∀ other, other ≠ index →
    (place address).heldBy ≠ some other ∧ (placeAfter address).heldBy ≠ some other
  stages : ∀ other (writer : FieldSetWriter) stage, other ≠ index →
    set.writers[other]? = some writer → writer.call.stage = some stage →
      after.lists.Knows 0 (fun address => (placeAfter address).loc) stage
  own : new.Knows after placeAfter index
  has : ∀ node, (placeAfter node).heldBy = some index → new.Has node (placeAfter node)

theorem StepsWriter.writers (steps : StepsWriter set after place placeAfter index address new)
    (invariant : set.Invariant place) (found : set.writers[index]? = some old) :
    (∀ other (writer : FieldSetWriter), after.writers[other]? = some writer →
      writer.Knows after placeAfter other) ∧
    ∀ node other, (placeAfter node).heldBy = some other →
      ∃ writer, after.writers[other]? = some writer ∧ writer.Has node (placeAfter node) := by
  rw [steps.writers_eq]
  constructor
  · intro other writer atOther
    rcases Processes.getElem?_set_cases atOther with ⟨rfl, rfl⟩ | ⟨different, kept⟩
    · exact steps.own
    · exact (invariant.writers other writer kept).frame steps.changes (steps.mine other different).1
        fun stage => steps.stages other writer stage different kept
  · intro node other isHeld
    by_cases same : other = index
    · subst same
      refine ⟨new, ?_, steps.has node isHeld⟩
      rw [List.getElem?_set_self (List.getElem?_eq_some_iff.mp found).1]
    · have different : node ≠ address := by
        rintro rfl
        exact (steps.mine other same).2 isHeld
      rw [steps.changes.places node different] at isHeld ⊢
      obtain ⟨writer, atOther, has⟩ := invariant.held node other isHeld
      refine ⟨writer, ?_, has⟩
      rwa [List.getElem?_set_ne (Ne.symm same)]

end Frames

end Whippet.FieldSets
