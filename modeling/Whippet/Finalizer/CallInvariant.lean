import Whippet.Finalizer.Calls
import Whippet.Finalizer.ResolvedTables
import Whippet.Library.Processes

/-!
Where each finalizer is, while mutators attach and pop finalizers.

A finalizer that has been attached is in the hands of the mutator that attaches it, in a bucket of
its priority, among the fired ones, in the hands of a mutator that pops it, or popped. Only mutators
that attach push to a bucket and only mutators that pop take from the fired ones, and no finalizer
that has fired is attached again, so no swap is deceived by a finalizer that has come back.

Owns: the places of finalizers and that every step of a mutator keeps the invariant about them. Does
not own: collections.
-/

namespace Whippet.Finalizers

open Function
open Ephemerons (Ref)

/-! ## Places -/

inductive FinalizerPlace where
  | unattached
  /-- In the hands of the mutator that attaches it. -/
  | attaching (mutator : ℕ)
  | waiting (priority : ℕ) (index : Fin BUCKET_COUNT)
  | fired
  /-- In the hands of the mutator that pops it. -/
  | unlinking (mutator : ℕ)
  | popped
  deriving DecidableEq

namespace FinalizerPlace

/-- The list of the finalizers in this place. -/
def loc : FinalizerPlace → Option FinalizerLoc
  | .waiting priority index => some (.bucket priority index)
  | .fired => some .fired
  | _ => none

def status : FinalizerPlace → FinalizerStatus
  | .unattached => .init
  | .attaching _ | .waiting _ _ => .active
  | .fired | .unlinking _ | .popped => .fired

variable {place : FinalizerPlace}

theorem eq_unattached (isInit : place.status = .init) : place = .unattached := by
  cases place with
  | unattached => rfl
  | attaching => cases isInit
  | waiting => cases isInit
  | fired => cases isInit
  | unlinking => cases isInit
  | popped => cases isInit

theorem loc_eq_bucket {priority : ℕ} {index : Fin BUCKET_COUNT} :
    place.loc = some (.bucket priority index) ↔ place = .waiting priority index := by
  cases place <;> simp [loc]

theorem loc_eq_fired : place.loc = some .fired ↔ place = .fired := by
  cases place <;> simp [loc]

end FinalizerPlace

namespace FinalizerCall

/-- The finalizer that the call attaches. -/
def attaching : FinalizerCall → Option ℕ
  | .counting finalizer _ | .choosing finalizer _ _ => some finalizer
  | .onList (.linking _ finalizer _) | .onList (.pushing _ finalizer _) => some finalizer
  | _ => none

/-- The finalizer that the call has taken off the fired ones. -/
def unlinking : FinalizerCall → Option ℕ
  | .onList (.clearing finalizer) => some finalizer
  | _ => none

/-- The call has counted its finalizer in a table where it is not yet. -/
def isCounted (priority : ℕ) : FinalizerCall → Bool
  | .choosing _ other _ => decide (other = priority)
  | .onList (.linking (.bucket other _) _ _) | .onList (.pushing (.bucket other _) _ _) =>
      decide (other = priority)
  | _ => false

end FinalizerCall

/-- The finalizer is in a place. -/
def FinalizerMachine.InPlace (machine : FinalizerMachine) (finalizer : ℕ) : FinalizerPlace → Prop
  | .unattached => False
  | .attaching mutator =>
      ∃ call, machine.calls[mutator]? = some call ∧ call.attaching = some finalizer
  | .waiting priority index =>
      ∃ nodes, Chained machine.world.atomicLists.next 0
        ((machine.world.tables priority).buckets index) nodes ∧ finalizer ∈ nodes
  | .fired =>
      ∃ nodes, Chained machine.world.atomicLists.next 0 machine.world.fired nodes ∧
        finalizer ∈ nodes
  | .unlinking mutator =>
      ∃ call, machine.calls[mutator]? = some call ∧ call.unlinking = some finalizer
  | .popped => finalizer ∈ machine.popped

/-! ## The invariant -/

/-- What a push or a pop of a mutator is about. -/
def Fits (machine : FinalizerMachine) (place : ℕ → FinalizerPlace) (mutator : ℕ) :
    StackStage FinalizerLoc ℕ → Prop
  | .linking (.bucket priority _) finalizer _ | .pushing (.bucket priority _) finalizer _ =>
      place finalizer = .attaching mutator ∧ machine.priorityOf finalizer = priority ∧
        priority < machine.world.tableCount
  | .reading .fired seen => seen ≠ 0 → (machine.world.finalizers seen).state = .fired
  | .popping .fired seen _ => (machine.world.finalizers seen).state = .fired
  | .clearing finalizer => place finalizer = .unlinking mutator
  | _ => False

/-- What a call knows. -/
def FinalizerCall.Knows (machine : FinalizerMachine) (place : ℕ → FinalizerPlace) (mutator : ℕ) :
    FinalizerCall → Prop
  | .idle => True
  | .counting finalizer priority | .choosing finalizer priority _ =>
      finalizer ≠ 0 ∧ place finalizer = .attaching mutator ∧
        machine.priorityOf finalizer = priority ∧ priority < machine.world.tableCount
  | .onList stage =>
      machine.world.atomicLists.Knows 0 (fun finalizer => (place finalizer).loc) stage ∧
        Fits machine place mutator stage

/-- The invariant: each finalizer is where `place` says. -/
structure FinalizerMachine.Invariant (machine : FinalizerMachine) (place : ℕ → FinalizerPlace) :
    Prop where
  stacked : machine.world.atomicLists.Stacked 0 fun finalizer => (place finalizer).loc
  calls : ∀ mutator (call : FinalizerCall), machine.calls[mutator]? = some call →
    call.Knows machine place mutator
  attaching : ∀ finalizer mutator, place finalizer = .attaching mutator →
    ∃ call, machine.calls[mutator]? = some call ∧ call.attaching = some finalizer
  unlinking : ∀ finalizer mutator, place finalizer = .unlinking mutator →
    ∃ call, machine.calls[mutator]? = some call ∧ call.unlinking = some finalizer
  status : ∀ finalizer, (machine.world.finalizers finalizer).state = (place finalizer).status
  waiting : ∀ finalizer priority index, place finalizer = .waiting priority index →
    machine.priorityOf finalizer = priority ∧ priority < machine.world.tableCount
  hasObject : ∀ finalizer, (machine.world.finalizers finalizer).state ≠ .init →
    (machine.world.finalizers finalizer).object ≠ .null
  popped : ∀ finalizer, finalizer ∈ machine.popped ↔ place finalizer = .popped
  poppedOnce : machine.popped.Nodup
  loose : ∀ finalizer, place finalizer = .unattached ∨ place finalizer = .popped →
    (machine.world.finalizers finalizer).next = 0
  counted : ∀ priority, ∃ members : Finset ℕ,
    (∀ finalizer, finalizer ∈ members ↔ ∃ index, place finalizer = .waiting priority index) ∧
      members.card + machine.calls.countP (FinalizerCall.isCounted priority) =
        (machine.world.tables priority).finalizerCount
  announced : ∃ fired : Finset ℕ,
    (∀ finalizer, finalizer ∈ fired ↔ (machine.world.finalizers finalizer).state = .fired) ∧
      fired.card = machine.announced + machine.world.firedThisCycle

section Frames

variable {machine after : FinalizerMachine} {place placeAfter : ℕ → FinalizerPlace}
variable {mutator other : ℕ} {call : FinalizerCall} {stage : StackStage FinalizerLoc ℕ}

/-- What is written to the lists is all that changes. -/
theorem atomicLists_withLists (world : FinalizerWorld) (lists : AtomicStacks FinalizerLoc ℕ) :
    (world.withLists lists).atomicLists = lists := by
  unfold FinalizerWorld.withLists FinalizerWorld.atomicLists
  rw [AtomicStacks.mk.injEq]
  refine ⟨?_, rfl⟩
  funext loc
  cases loc with
  | bucket priority index => rfl
  | fired => rfl

theorem Fits.frame (fits : Fits machine place mutator stage)
    (priorities : ∀ finalizer, place finalizer = .attaching mutator →
      after.priorityOf finalizer = machine.priorityOf finalizer)
    (tableCount : after.world.tableCount = machine.world.tableCount)
    (states : ∀ finalizer, (machine.world.finalizers finalizer).state = .fired →
      (after.world.finalizers finalizer).state = .fired)
    (held : ∀ finalizer, place finalizer = .attaching mutator ∨
      place finalizer = .unlinking mutator →
      placeAfter finalizer = place finalizer) : Fits after placeAfter mutator stage := by
  cases stage with
  | linking loc finalizer seen =>
      cases loc with
      | fired => cases fits
      | bucket priority index =>
          obtain ⟨isHeld, isPriority, inRange⟩ := fits
          refine ⟨(held finalizer (.inl isHeld)).trans isHeld, ?_, ?_⟩
          · rwa [priorities finalizer isHeld]
          · rwa [tableCount]
  | pushing loc finalizer seen =>
      cases loc with
      | fired => cases fits
      | bucket priority index =>
          obtain ⟨isHeld, isPriority, inRange⟩ := fits
          refine ⟨(held finalizer (.inl isHeld)).trans isHeld, ?_, ?_⟩
          · rwa [priorities finalizer isHeld]
          · rwa [tableCount]
  | pushed => cases fits
  | reading loc seen =>
      cases loc with
      | bucket => cases fits
      | fired => exact fun proper => states seen (fits proper)
  | popping loc seen link =>
      cases loc with
      | bucket => cases fits
      | fired => exact states seen fits
  | clearing finalizer => exact (held finalizer (.inr fits)).trans fits
  | popped => cases fits

theorem FinalizerCall.Knows.frame (knows : call.Knows machine place mutator)
    (lists : ∀ stage, call = .onList stage →
      after.world.atomicLists.Knows 0 (fun finalizer => (placeAfter finalizer).loc) stage)
    (priorities : ∀ finalizer, place finalizer = .attaching mutator →
      after.priorityOf finalizer = machine.priorityOf finalizer)
    (tableCount : after.world.tableCount = machine.world.tableCount)
    (states : ∀ finalizer, (machine.world.finalizers finalizer).state = .fired →
      (after.world.finalizers finalizer).state = .fired)
    (held : ∀ finalizer, place finalizer = .attaching mutator ∨
      place finalizer = .unlinking mutator →
      placeAfter finalizer = place finalizer) : call.Knows after placeAfter mutator := by
  have counted {finalizer priority : ℕ} (before : finalizer ≠ 0 ∧
      place finalizer = .attaching mutator ∧ machine.priorityOf finalizer = priority ∧
        priority < machine.world.tableCount) :
      finalizer ≠ 0 ∧ placeAfter finalizer = .attaching mutator ∧
        after.priorityOf finalizer = priority ∧ priority < after.world.tableCount := by
    obtain ⟨proper, isHeld, isPriority, inRange⟩ := before
    refine ⟨proper, (held finalizer (.inl isHeld)).trans isHeld, ?_, ?_⟩
    · rwa [priorities finalizer isHeld]
    · rwa [tableCount]
  cases call with
  | idle => exact trivial
  | counting finalizer priority => exact counted knows
  | choosing finalizer priority index => exact counted knows
  | onList stage => exact ⟨lists stage rfl, knows.2.frame priorities tableCount states held⟩

/-- The finalizers in the hands of a mutator whose call has changed, and of the others. -/
theorem exists_holder {holds : FinalizerCall → Option ℕ} {inHands : ℕ → FinalizerPlace}
    {calls : List FinalizerCall} {old new : FinalizerCall} {mutator : ℕ}
    (found : calls[mutator]? = some old)
    (before : ∀ finalizer mutator, place finalizer = inHands mutator →
      ∃ call, calls[mutator]? = some call ∧ holds call = some finalizer)
    (back : ∀ finalizer other, placeAfter finalizer = inHands other → other ≠ mutator →
      place finalizer = inHands other)
    (own : ∀ finalizer, placeAfter finalizer = inHands mutator → holds new = some finalizer)
    (finalizer other : ℕ) (isHeld : placeAfter finalizer = inHands other) :
    ∃ call, (calls.set mutator new)[other]? = some call ∧ holds call = some finalizer := by
  by_cases same : other = mutator
  · subst same
    refine ⟨new, ?_, own finalizer isHeld⟩
    rw [List.getElem?_set_self (List.getElem?_eq_some_iff.mp found).1]
  · obtain ⟨call, atOther, isHolder⟩ := before finalizer other (back finalizer other isHeld same)
    refine ⟨call, ?_, isHolder⟩
    rwa [List.getElem?_set_ne (Ne.symm same)]

/-- What a step of one mutator leaves alone, and what the mutator knows after it. -/
structure StepsOne (machine after : FinalizerMachine) (place placeAfter : ℕ → FinalizerPlace)
    (mutator : ℕ) (old new : FinalizerCall) : Prop where
  found : machine.calls[mutator]? = some old
  calls_eq : after.calls = machine.calls.set mutator new
  held : ∀ finalizer other, other ≠ mutator →
    place finalizer = .attaching other ∨ place finalizer = .unlinking other →
      placeAfter finalizer = place finalizer
  back : ∀ finalizer other, other ≠ mutator →
    placeAfter finalizer = .attaching other ∨ placeAfter finalizer = .unlinking other →
      place finalizer = placeAfter finalizer
  priorities : ∀ finalizer other, other ≠ mutator → place finalizer = .attaching other →
    after.priorityOf finalizer = machine.priorityOf finalizer
  tableCount_eq : after.world.tableCount = machine.world.tableCount
  states : ∀ finalizer, (machine.world.finalizers finalizer).state = .fired →
    (after.world.finalizers finalizer).state = .fired
  lists : ∀ other stage, other ≠ mutator → machine.calls[other]? = some (.onList stage) →
    after.world.atomicLists.Knows 0 (fun finalizer => (placeAfter finalizer).loc) stage
  own : new.Knows after placeAfter mutator
  ownAttaching : ∀ finalizer, placeAfter finalizer = .attaching mutator →
    new.attaching = some finalizer
  ownUnlinking : ∀ finalizer, placeAfter finalizer = .unlinking mutator →
    new.unlinking = some finalizer

theorem StepsOne.calls {old new : FinalizerCall}
    (steps : StepsOne machine after place placeAfter mutator old new)
    (invariant : machine.Invariant place) :
    (∀ other (call : FinalizerCall), after.calls[other]? = some call →
      call.Knows after placeAfter other) ∧
    (∀ finalizer other, placeAfter finalizer = .attaching other →
      ∃ call, after.calls[other]? = some call ∧ call.attaching = some finalizer) ∧
    (∀ finalizer other, placeAfter finalizer = .unlinking other →
      ∃ call, after.calls[other]? = some call ∧ call.unlinking = some finalizer) := by
  rw [steps.calls_eq]
  refine ⟨?_, ?_, ?_⟩
  · intro other call atOther
    rcases Processes.getElem?_set_cases atOther with ⟨rfl, rfl⟩ | ⟨different, kept⟩
    · exact steps.own
    · apply (invariant.calls other call kept).frame
      · rintro stage rfl
        exact steps.lists other stage different kept
      · exact fun finalizer => steps.priorities finalizer other different
      · exact steps.tableCount_eq
      · exact steps.states
      · exact fun finalizer => steps.held finalizer other different
  · apply exists_holder steps.found invariant.attaching
    · intro finalizer other isHeld different
      exact (steps.back finalizer other different (.inl isHeld)).trans isHeld
    · exact steps.ownAttaching
  · apply exists_holder steps.found invariant.unlinking
    · intro finalizer other isHeld different
      exact (steps.back finalizer other different (.inr isHeld)).trans isHeld
    · exact steps.ownUnlinking

end Frames

end Whippet.Finalizers
