import Whippet.Finalizer.CallInvariant

/-!
The steps of the mutators keep each finalizer in one place.

A push moves its finalizer from the mutator's hands to a bucket, a pop from the fired ones to the
mutator's hands, and the last access of a pop from there to the popped ones. No other access moves a
finalizer.

Owns: one lemma for each kind of step of a mutator. Does not own: collections and runs.
-/

namespace Whippet.Finalizers

open Function
open Ephemerons (Ref)

/-! ## Pushes and pops -/

/-- Where the finalizers are after an access of a push or a pop. -/
def placeAfter (machine : FinalizerMachine) (mutator : ℕ) (spurious : Bool)
    (place : ℕ → FinalizerPlace) : StackStage FinalizerLoc ℕ → ℕ → FinalizerPlace
  | .pushing (.bucket priority index) finalizer seen =>
      if machine.world.atomicLists.head (.bucket priority index) = seen ∧ spurious = false then
        update place finalizer (.waiting priority index)
      else place
  | .popping .fired seen _ =>
      if machine.world.atomicLists.head .fired = seen ∧ spurious = false then
        update place seen (.unlinking mutator)
      else place
  | .clearing finalizer => update place finalizer .popped
  | _ => place

/-- The call goes on, or has returned. -/
def callAfter : StackStage FinalizerLoc ℕ → FinalizerCall
  | .pushed _ => .idle
  | .popped _ => .idle
  | stage => .onList stage

/-- What has been popped when the call has returned. -/
def poppedAfter (popped : List ℕ) : StackStage FinalizerLoc ℕ → List ℕ
  | .popped finalizer => if finalizer = 0 then popped else finalizer :: popped
  | _ => popped

section Lists

variable {machine : FinalizerMachine} {place : ℕ → FinalizerPlace} {mutator : ℕ}
variable {stage : StackStage FinalizerLoc ℕ} {spurious : Bool}

theorem access_onList (machine : FinalizerMachine) (mutator : ℕ) (spurious : Bool)
    (stage : StackStage FinalizerLoc ℕ) :
    machine.access mutator spurious (.onList stage) = .next
      { machine with
        world := machine.world.withLists (machine.world.atomicLists.step 0 spurious stage).1
        calls := machine.calls.set mutator
          (callAfter (machine.world.atomicLists.step 0 spurious stage).2)
        popped := poppedAfter machine.popped
          (machine.world.atomicLists.step 0 spurious stage).2 } := by
  dsimp only [FinalizerMachine.access]
  generalize machine.world.atomicLists.step 0 spurious stage = result
  obtain ⟨lists, next⟩ := result
  cases next <;> rfl

/-- The finalizers that an access moves. -/
theorem moved (stacked : machine.world.atomicLists.Stacked 0 fun finalizer => (place finalizer).loc)
    (knows : machine.world.atomicLists.Knows 0 (fun finalizer => (place finalizer).loc) stage)
    (fits : Fits machine place mutator stage) (finalizer : ℕ) :
    placeAfter machine mutator spurious place stage finalizer = place finalizer ∨
      (∃ priority index seen, stage = .pushing (.bucket priority index) finalizer seen ∧
        place finalizer = .attaching mutator ∧
          placeAfter machine mutator spurious place stage finalizer = .waiting priority index) ∨
      (∃ link, stage = .popping .fired finalizer link ∧ place finalizer = .fired ∧
        placeAfter machine mutator spurious place stage finalizer = .unlinking mutator) ∨
      (stage = .clearing finalizer ∧ place finalizer = .unlinking mutator ∧
        placeAfter machine mutator spurious place stage finalizer = .popped) := by
  cases stage with
  | linking => exact .inl rfl
  | pushing loc node seen =>
      cases loc with
      | fired => exact .inl rfl
      | bucket priority index =>
          dsimp only [placeAfter]
          split
          next =>
            by_cases same : finalizer = node
            · subst same
              right
              left
              exact ⟨priority, index, seen, rfl, fits.1, update_self _ _ _⟩
            · exact .inl (update_of_ne same _ _)
          next => exact .inl rfl
  | pushed => exact .inl rfl
  | reading => exact .inl rfl
  | popping loc seen link =>
      cases loc with
      | bucket => exact .inl rfl
      | fired =>
          by_cases swaps : machine.world.atomicLists.head .fired = seen ∧ spurious = false
          · dsimp only [placeAfter]
            rw [if_pos swaps]
            by_cases same : finalizer = seen
            · subst same
              right
              right
              left
              have onList := (stacked.pop knows.1 swaps.1).1
              exact ⟨link, rfl, FinalizerPlace.loc_eq_fired.mp onList, update_self _ _ _⟩
            · exact .inl (update_of_ne same _ _)
          · dsimp only [placeAfter]
            rw [if_neg swaps]
            exact .inl rfl
  | clearing node =>
      by_cases same : finalizer = node
      · subst same
        right
        right
        right
        exact ⟨rfl, fits, update_self _ _ _⟩
      · exact .inl (update_of_ne same _ _)
  | popped => exact .inl rfl

theorem loc_placeAfter (fits : Fits machine place mutator stage) :
    (fun finalizer => (placeAfter machine mutator spurious place stage finalizer).loc) =
      machine.world.atomicLists.listedAfter spurious (fun finalizer => (place finalizer).loc)
        stage := by
  have updated (node : ℕ) (new : FinalizerPlace) :
      (fun finalizer => (update place node new finalizer).loc) =
        update (fun finalizer => (place finalizer).loc) node new.loc := by
    funext finalizer
    by_cases same : finalizer = node
    · rw [same, update_self, update_self]
    · rw [update_of_ne same, update_of_ne same]
  cases stage with
  | linking => rfl
  | pushing loc node seen =>
      cases loc with
      | fired => cases fits
      | bucket priority index =>
          dsimp only [placeAfter, AtomicStacks.listedAfter]
          split
          next => exact updated node _
          next => rfl
  | pushed => rfl
  | reading => rfl
  | popping loc seen link =>
      cases loc with
      | bucket => cases fits
      | fired =>
          dsimp only [placeAfter, AtomicStacks.listedAfter]
          split
          next => exact updated seen _
          next => rfl
  | clearing node =>
      refine (updated node .popped).trans ?_
      apply update_eq_self_iff.mpr
      rw [show place node = .unlinking mutator from fits]
      rfl
  | popped => rfl

/-- What the thread does next fits what it did. -/
theorem knows_callAfter
    (stacked : machine.world.atomicLists.Stacked 0 fun finalizer => (place finalizer).loc)
    (hasFired : ∀ finalizer, place finalizer = .fired →
      (machine.world.finalizers finalizer).state = .fired)
    (fits : Fits machine place mutator stage) {after : FinalizerMachine}
    (priorities : after.priorityOf = machine.priorityOf)
    (tableCount : after.world.tableCount = machine.world.tableCount)
    (states : ∀ finalizer, (after.world.finalizers finalizer).state =
      (machine.world.finalizers finalizer).state)
    (knows : after.world.atomicLists.Knows 0
      (fun finalizer => (placeAfter machine mutator spurious place stage finalizer).loc)
        (machine.world.atomicLists.step 0 spurious stage).2) :
    (callAfter (machine.world.atomicLists.step 0 spurious stage).2).Knows after
      (placeAfter machine mutator spurious place stage) mutator := by
  cases stage with
  | linking loc node seen =>
      refine ⟨knows, ?_⟩
      cases loc with
      | fired => cases fits
      | bucket priority index =>
          unfold Fits at fits ⊢
          rw [priorities, tableCount]
          exact fits
  | pushing loc node seen =>
      cases loc with
      | fired => cases fits
      | bucket priority index =>
          dsimp only [AtomicStacks.step, placeAfter] at knows ⊢
          by_cases swaps : machine.world.atomicLists.head (.bucket priority index) = seen ∧
            spurious = false
          · rw [if_pos swaps, if_pos swaps]
            exact trivial
          · rw [if_neg swaps, if_neg swaps] at knows
            rw [if_neg swaps, if_neg swaps]
            refine ⟨knows, ?_⟩
            unfold Fits at fits ⊢
            rw [priorities, tableCount]
            exact fits
  | pushed => cases fits
  | reading loc seen =>
      cases loc with
      | bucket => cases fits
      | fired =>
          dsimp only [AtomicStacks.step, placeAfter] at knows ⊢
          by_cases isEmpty : seen = 0
          · rw [if_pos isEmpty]
            exact trivial
          · rw [if_neg isEmpty] at knows ⊢
            refine ⟨knows, ?_⟩
            change (after.world.finalizers seen).state = .fired
            rw [states]
            exact fits isEmpty
  | popping loc seen link =>
      cases loc with
      | bucket => cases fits
      | fired =>
          dsimp only [AtomicStacks.step, placeAfter] at knows ⊢
          by_cases swaps : machine.world.atomicLists.head .fired = seen ∧ spurious = false
          · rw [if_pos swaps, if_pos swaps] at knows
            rw [if_pos swaps, if_pos swaps]
            exact ⟨knows, update_self _ _ _⟩
          · rw [if_neg swaps, if_neg swaps]
            refine ⟨trivial, ?_⟩
            intro proper
            rw [states]
            apply hasFired
            exact FinalizerPlace.loc_eq_fired.mp (stacked.pop proper rfl).1
  | clearing node => exact trivial
  | popped => cases fits

end Lists

section Access

variable {machine after : FinalizerMachine} {place : ℕ → FinalizerPlace} {mutator : ℕ}
variable {stage : StackStage FinalizerLoc ℕ} {spurious : Bool}

theorem Fits.held (fits : Fits machine place mutator stage) {finalizer : ℕ}
    (isHeld : stage.held = some finalizer) :
    place finalizer = .attaching mutator ∨ place finalizer = .unlinking mutator := by
  cases stage with
  | linking loc node seen =>
      cases isHeld
      cases loc with
      | fired => cases fits
      | bucket => exact .inl fits.1
  | pushing loc node seen =>
      cases isHeld
      cases loc with
      | fired => cases fits
      | bucket => exact .inl fits.1
  | clearing node =>
      cases isHeld
      exact .inr fits
  | pushed => cases isHeld
  | reading => cases isHeld
  | popping => cases isHeld
  | popped => cases isHeld

/-- An access of a push or a pop of one mutator leaves the others alone. -/
theorem stepsOne_onList (invariant : machine.Invariant place)
    (found : machine.calls[mutator]? = some (.onList stage))
    (stepped : machine.access mutator spurious (.onList stage) = .next after) :
    StepsOne machine after place (placeAfter machine mutator spurious place stage) mutator
      (.onList stage) (callAfter (machine.world.atomicLists.step 0 spurious stage).2) := by
  obtain ⟨knows, fits⟩ := invariant.calls mutator _ found
  have moves (finalizer : ℕ) := @moved machine place mutator stage spurious invariant.stacked knows
    fits finalizer
  have result := invariant.stacked.step knows spurious
  rw [access_onList] at stepped
  cases stepped
  rw [← loc_placeAfter fits] at result
  refine
    { found := found
      calls_eq := rfl
      held := ?_
      back := ?_
      priorities := fun _ _ _ _ => rfl
      tableCount_eq := rfl
      states := fun _ => id
      lists := ?_
      own := ?_
      ownAttaching := ?_
      ownUnlinking := ?_ }
  · intro finalizer other different isHeld
    rcases moves finalizer with same | ⟨_, _, _, -, here, -⟩ | ⟨_, -, here, -⟩ | ⟨-, here, -⟩
    · exact same
    · rw [here] at isHeld
      simp [Ne.symm different] at isHeld
    · rw [here] at isHeld
      simp at isHeld
    · rw [here] at isHeld
      simp [Ne.symm different] at isHeld
  · intro finalizer other different isHeld
    rcases moves finalizer with same | ⟨_, _, _, -, -, there⟩ | ⟨_, -, -, there⟩ | ⟨-, -, there⟩
    · exact same.symm
    · rw [there] at isHeld
      simp at isHeld
    · rw [there] at isHeld
      simp [Ne.symm different] at isHeld
    · rw [there] at isHeld
      simp at isHeld
  · intro other stageOther different atOther
    obtain ⟨otherKnows, otherFits⟩ := invariant.calls other _ atOther
    dsimp only
    rw [atomicLists_withLists, loc_placeAfter fits]
    apply otherKnows.frame knows
    · intro node isHeld otherHeld
      rcases fits.held isHeld with here | here <;>
        rcases otherFits.held otherHeld with there | there
      all_goals
        rw [here] at there
        simp [Ne.symm different] at there
    · rintro loc node seen rfl isTarget
      cases loc with
      | fired => cases fits
      | bucket priority index =>
          cases stageOther with
          | popping otherLoc target link =>
              cases otherLoc with
              | bucket => cases otherFits
              | fired => cases isTarget
          | linking => cases isTarget
          | pushing => cases isTarget
          | pushed => cases isTarget
          | reading => cases isTarget
          | clearing => cases isTarget
          | popped => cases isTarget
  · refine knows_callAfter invariant.stacked ?_ fits rfl rfl (fun finalizer => rfl) ?_
    · intro finalizer here
      rw [invariant.status, here]
      rfl
    · dsimp only
      rw [atomicLists_withLists]
      exact result.2
  · intro finalizer isHeld
    rcases moves finalizer with same | ⟨_, _, _, -, -, there⟩ | ⟨_, -, -, there⟩ | ⟨-, -, there⟩
    · have before := isHeld
      rw [same] at before
      obtain ⟨call, atMutator, attaches⟩ := invariant.attaching finalizer mutator before
      rw [found] at atMutator
      cases atMutator
      cases stage with
      | linking loc node seen => exact attaches
      | pushing loc node seen =>
          cases loc with
          | fired => cases fits
          | bucket priority index =>
              cases attaches
              by_cases swaps : machine.world.atomicLists.head (.bucket priority index) = seen ∧
                spurious = false
              · dsimp only [placeAfter] at isHeld
                rw [if_pos swaps, update_self] at isHeld
                cases isHeld
              · dsimp only [AtomicStacks.step]
                rw [if_neg swaps]
                rfl
      | pushed => cases attaches
      | reading => cases attaches
      | popping => cases attaches
      | clearing => cases attaches
      | popped => cases attaches
    · rw [there] at isHeld
      cases isHeld
    · rw [there] at isHeld
      cases isHeld
    · rw [there] at isHeld
      cases isHeld
  · intro finalizer isHeld
    rcases moves finalizer with same | ⟨_, _, _, -, -, there⟩ | ⟨link, rfl, -, there⟩ |
      ⟨-, -, there⟩
    · have before := isHeld
      rw [same] at before
      obtain ⟨call, atMutator, unlinks⟩ := invariant.unlinking finalizer mutator before
      rw [found] at atMutator
      cases atMutator
      cases stage with
      | clearing node =>
          cases unlinks
          dsimp only [placeAfter] at isHeld
          rw [update_self] at isHeld
          cases isHeld
      | linking => cases unlinks
      | pushing => cases unlinks
      | pushed => cases unlinks
      | reading => cases unlinks
      | popping => cases unlinks
      | popped => cases unlinks
    · rw [there] at isHeld
      cases isHeld
    · by_cases swaps : machine.world.atomicLists.head .fired = finalizer ∧ spurious = false
      · dsimp only [AtomicStacks.step]
        rw [if_pos swaps]
        rfl
      · dsimp only [placeAfter] at there
        rw [if_neg swaps] at there
        obtain ⟨call, atMutator, unlinks⟩ := invariant.unlinking finalizer mutator there
        rw [found] at atMutator
        cases atMutator
        cases unlinks
    · rw [there] at isHeld
      cases isHeld

/-- A push that succeeds moves its finalizer to the bucket. No other access changes what is in a
bucket and what is counted. -/
theorem counted_or_pushed
    (status : ∀ finalizer, (machine.world.finalizers finalizer).state = (place finalizer).status)
    (fits : Fits machine place mutator stage) (spurious : Bool) :
    (∀ priority, (callAfter (machine.world.atomicLists.step 0 spurious stage).2).isCounted
      priority =
        (FinalizerCall.onList stage).isCounted priority ∧
      ∀ finalizer index, placeAfter machine mutator spurious place stage finalizer =
        .waiting priority index ↔ place finalizer = .waiting priority index) ∨
    ∃ other index finalizer seen, stage = .pushing (.bucket other index) finalizer seen ∧
      placeAfter machine mutator spurious place stage =
        update place finalizer (.waiting other index) ∧
      callAfter (machine.world.atomicLists.step 0 spurious stage).2 = .idle := by
  cases stage with
  | linking loc node seen =>
      cases loc with
      | fired => cases fits
      | bucket => exact .inl fun _ => ⟨rfl, fun _ _ => Iff.rfl⟩
  | pushing loc node seen =>
      cases loc with
      | fired => cases fits
      | bucket other index =>
          dsimp only [AtomicStacks.step, placeAfter]
          by_cases swaps : machine.world.atomicLists.head (.bucket other index) = seen ∧
            spurious = false
          · rw [if_pos swaps, if_pos swaps]
            exact .inr ⟨other, index, node, seen, rfl, rfl, rfl⟩
          · rw [if_neg swaps, if_neg swaps]
            exact .inl fun _ => ⟨rfl, fun _ _ => Iff.rfl⟩
  | pushed => cases fits
  | reading loc seen =>
      left
      intro priority
      refine ⟨?_, fun _ _ => Iff.rfl⟩
      dsimp only [AtomicStacks.step]
      split <;> rfl
  | popping loc seen link =>
      cases loc with
      | bucket => cases fits
      | fired =>
          left
          intro priority
          have wasFired : (machine.world.finalizers seen).state = .fired := fits
          dsimp only [AtomicStacks.step, placeAfter]
          by_cases swaps : machine.world.atomicLists.head .fired = seen ∧ spurious = false
          · rw [if_pos swaps, if_pos swaps]
            refine ⟨rfl, ?_⟩
            intro finalizer index
            by_cases same : finalizer = seen
            · rw [same, update_self]
              refine ⟨nofun, ?_⟩
              intro isWaiting
              rw [status, isWaiting] at wasFired
              cases wasFired
            · rw [update_of_ne same]
          · rw [if_neg swaps, if_neg swaps]
            exact ⟨rfl, fun _ _ => Iff.rfl⟩
  | clearing node =>
      left
      intro priority
      refine ⟨rfl, ?_⟩
      intro finalizer index
      have isHeld : place node = .unlinking mutator := fits
      dsimp only [placeAfter]
      by_cases same : finalizer = node
      · rw [same, update_self, isHeld]
        exact ⟨nofun, nofun⟩
      · rw [update_of_ne same]
  | popped => cases fits

/-- The last access of a pop puts its finalizer to the popped ones. No other access does that. -/
theorem kept_or_popped (knows : machine.world.atomicLists.Knows 0
      (fun finalizer => (place finalizer).loc) stage)
    (fits : Fits machine place mutator stage) (spurious : Bool) :
    poppedAfter machine.popped (machine.world.atomicLists.step 0 spurious stage).2 =
        machine.popped ∧ (∀ finalizer, stage ≠ .clearing finalizer) ∨
      ∃ finalizer, stage = .clearing finalizer ∧ place finalizer = .unlinking mutator ∧
        poppedAfter machine.popped (machine.world.atomicLists.step 0 spurious stage).2 =
          finalizer :: machine.popped := by
  cases stage with
  | linking => exact .inl ⟨rfl, nofun⟩
  | pushing =>
      left
      refine ⟨?_, nofun⟩
      dsimp only [AtomicStacks.step]
      split <;> rfl
  | pushed => cases fits
  | reading =>
      left
      refine ⟨?_, nofun⟩
      dsimp only [AtomicStacks.step]
      split <;> rfl
  | popping =>
      left
      refine ⟨?_, nofun⟩
      dsimp only [AtomicStacks.step]
      split <;> rfl
  | clearing node => exact .inr ⟨node, rfl, fits, if_neg knows.1⟩
  | popped => cases fits

/-- An access of a push or a pop keeps the invariant. -/
theorem FinalizerMachine.Invariant.onList (invariant : machine.Invariant place)
    (found : machine.calls[mutator]? = some (.onList stage))
    (stepped : machine.access mutator spurious (.onList stage) = .next after) :
    after.Invariant (placeAfter machine mutator spurious place stage) := by
  have steps := stepsOne_onList invariant found stepped
  obtain ⟨calls, attaching, unlinking⟩ := steps.calls invariant
  obtain ⟨knows, fits⟩ := invariant.calls mutator _ found
  have moves (finalizer : ℕ) := @moved machine place mutator stage spurious invariant.stacked knows
    fits finalizer
  have result := invariant.stacked.step knows spurious
  rw [access_onList] at stepped
  cases stepped
  rw [← loc_placeAfter fits] at result
  refine
    { stacked := ?_
      calls := calls
      attaching := attaching
      unlinking := unlinking
      status := ?_
      waiting := ?_
      hasObject := invariant.hasObject
      popped := ?_
      poppedOnce := ?_
      loose := ?_
      counted := ?_
      announced := invariant.announced }
  · dsimp only
    rw [atomicLists_withLists]
    exact result.1
  · intro finalizer
    change (machine.world.finalizers finalizer).state = _
    rw [invariant.status]
    rcases moves finalizer with same | ⟨_, _, _, -, here, there⟩ | ⟨_, -, here, there⟩ |
      ⟨-, here, there⟩
    · rw [same]
    · rw [here, there]
      rfl
    · rw [here, there]
      rfl
    · rw [here, there]
      rfl
  · intro finalizer priority index isWaiting
    rcases moves finalizer with same | ⟨other, position, seen, rfl, -, there⟩ | ⟨_, -, -, there⟩ |
      ⟨-, -, there⟩
    · rw [same] at isWaiting
      exact invariant.waiting finalizer priority index isWaiting
    · rw [there] at isWaiting
      cases isWaiting
      exact fits.2
    · rw [there] at isWaiting
      cases isWaiting
    · rw [there] at isWaiting
      cases isWaiting
  · intro finalizer
    change finalizer ∈ poppedAfter machine.popped _ ↔ _
    rcases kept_or_popped knows fits spurious with ⟨same, notClearing⟩ | ⟨node, rfl, isHeld, more⟩
    · rw [same, invariant.popped]
      rcases moves finalizer with kept | ⟨_, _, _, -, here, there⟩ | ⟨_, -, here, there⟩ |
        ⟨isClearing, -, -⟩
      · rw [kept]
      · rw [here, there]
        exact ⟨nofun, nofun⟩
      · rw [here, there]
        exact ⟨nofun, nofun⟩
      · exact absurd isClearing (notClearing finalizer)
    · rw [more, List.mem_cons, invariant.popped]
      dsimp only [placeAfter]
      by_cases isNode : finalizer = node
      · subst isNode
        simp
      · rw [update_of_ne isNode]
        exact or_iff_right isNode
  · change (poppedAfter machine.popped _).Nodup
    rcases kept_or_popped knows fits spurious with ⟨same, -⟩ | ⟨node, rfl, isHeld, more⟩
    · rw [same]
      exact invariant.poppedOnce
    · rw [more]
      refine List.nodup_cons.mpr ⟨?_, invariant.poppedOnce⟩
      rw [invariant.popped, isHeld]
      exact nofun
  · intro finalizer isLoose
    change (machine.world.atomicLists.step 0 spurious stage).1.next finalizer = 0
    by_cases isHeld : stage.held = some finalizer
    · rcases moves finalizer with kept | ⟨_, _, _, -, -, there⟩ | ⟨_, -, -, there⟩ | ⟨rfl, -, -⟩
      · rw [kept] at isLoose
        rcases fits.held isHeld with here | here
        all_goals
          rw [here] at isLoose
          simp at isLoose
      · rw [there] at isLoose
        simp at isLoose
      · rw [there] at isLoose
        simp at isLoose
      · exact update_self _ _ _
    · rw [AtomicStacks.next_step spurious isHeld]
      apply invariant.loose finalizer
      rcases moves finalizer with kept | ⟨_, _, _, rfl, -, -⟩ | ⟨_, -, -, there⟩ | ⟨rfl, -, -⟩
      · rwa [kept] at isLoose
      · exact absurd rfl isHeld
      · rw [there] at isLoose
        simp at isLoose
      · exact absurd rfl isHeld
  · intro priority
    obtain ⟨members, isMember, card⟩ := invariant.counted priority
    have counts := @Processes.countP_set_add _ machine.calls mutator _
      (callAfter (machine.world.atomicLists.step 0 spurious stage).2)
      (FinalizerCall.isCounted priority) found
    change ∃ members : Finset ℕ, _ ∧ members.card + (machine.calls.set mutator _).countP _ =
      (machine.world.tables priority).finalizerCount
    rcases counted_or_pushed invariant.status fits spurious with same |
      ⟨other, index, finalizer, seen, rfl, places, returned⟩
    · obtain ⟨sameCount, sameWaiting⟩ := same priority
      refine ⟨members, ?_, ?_⟩
      · intro finalizer
        rw [isMember]
        simp only [sameWaiting]
      · rw [sameCount] at counts
        omega
    · have attached : place finalizer = .attaching mutator := fits.1
      rw [places, returned]
      rw [returned] at counts
      by_cases isPriority : other = priority
      · subst isPriority
        have notMember : finalizer ∉ members := by
          rw [isMember, attached]
          exact nofun
        refine ⟨insert finalizer members, ?_, ?_⟩
        · intro member
          by_cases same : member = finalizer
          · subst same
            simp
          · simp [same, isMember]
        · rw [Finset.card_insert_of_notMem notMember]
          simp only [FinalizerCall.isCounted, decide_true, Bool.toNat_true,
            Bool.toNat_false] at counts
          omega
      · refine ⟨members, ?_, ?_⟩
        · intro member
          by_cases same : member = finalizer
          · subst same
            simp [isMember, attached, isPriority]
          · simp [same, isMember]
        · simp only [FinalizerCall.isCounted, isPriority, decide_false, Bool.toNat_false] at counts
          omega

end Access

/-! ## The other steps -/

section Calls

variable {machine after : FinalizerMachine} {place : ℕ → FinalizerPlace} {mutator finalizer : ℕ}

/-- What a step that moves no finalizer and changes no list may change. -/
structure Quiet (machine after : FinalizerMachine) (mutator : ℕ) (old new : FinalizerCall) :
    Prop where
  calls_eq : after.calls = machine.calls.set mutator new
  lists_eq : after.world.atomicLists = machine.world.atomicLists
  finalizers_eq : after.world.finalizers = machine.world.finalizers
  tableCount_eq : after.world.tableCount = machine.world.tableCount
  firedThisCycle_eq : after.world.firedThisCycle = machine.world.firedThisCycle
  priorityOf_eq : after.priorityOf = machine.priorityOf
  popped_eq : after.popped = machine.popped
  announced_eq : after.announced = machine.announced
  attaching_eq : new.attaching = old.attaching
  unlinking_eq : new.unlinking = old.unlinking
  counted : ∀ priority,
    (after.world.tables priority).finalizerCount + (old.isCounted priority).toNat =
      (machine.world.tables priority).finalizerCount + (new.isCounted priority).toNat

theorem FinalizerMachine.Invariant.quiet {old : FinalizerCall}
    (invariant : machine.Invariant place) (found : machine.calls[mutator]? = some old)
    (new : FinalizerCall) (own : new.Knows machine place mutator)
    (quiet : Quiet machine after mutator old new) :
    after.Invariant place := by
  have lists (stage : StackStage FinalizerLoc ℕ)
      (knows : machine.world.atomicLists.Knows 0 (fun finalizer => (place finalizer).loc) stage) :
      after.world.atomicLists.Knows 0 (fun finalizer => (place finalizer).loc) stage := by
    rwa [quiet.lists_eq]
  have states (finalizer : ℕ) (hasFired : (machine.world.finalizers finalizer).state = .fired) :
      (after.world.finalizers finalizer).state = .fired := by
    rwa [quiet.finalizers_eq]
  have steps : StepsOne machine after place place mutator old new :=
    { found := found
      calls_eq := quiet.calls_eq
      held := fun _ _ _ _ => rfl
      back := fun _ _ _ _ => rfl
      priorities := fun finalizer _ _ _ => congrFun quiet.priorityOf_eq finalizer
      tableCount_eq := quiet.tableCount_eq
      states := states
      lists := fun other stage _ atOther => lists stage (invariant.calls other _ atOther).1
      own := by
        apply own.frame
        · rintro stage rfl
          exact lists stage own.1
        · exact fun finalizer _ => congrFun quiet.priorityOf_eq finalizer
        · exact quiet.tableCount_eq
        · exact states
        · exact fun _ _ => rfl
      ownAttaching := by
        intro finalizer isHeld
        obtain ⟨call, atMutator, attaches⟩ := invariant.attaching finalizer mutator isHeld
        rw [found] at atMutator
        cases atMutator
        rwa [quiet.attaching_eq]
      ownUnlinking := by
        intro finalizer isHeld
        obtain ⟨call, atMutator, unlinks⟩ := invariant.unlinking finalizer mutator isHeld
        rw [found] at atMutator
        cases atMutator
        rwa [quiet.unlinking_eq] }
  obtain ⟨calls, attached, unlinked⟩ := steps.calls invariant
  refine
    { stacked := ?_
      calls := calls
      attaching := attached
      unlinking := unlinked
      status := ?_
      waiting := ?_
      hasObject := ?_
      popped := ?_
      poppedOnce := ?_
      loose := ?_
      counted := ?_
      announced := ?_ }
  · rw [quiet.lists_eq]
    exact invariant.stacked
  · rw [quiet.finalizers_eq]
    exact invariant.status
  · rw [quiet.priorityOf_eq, quiet.tableCount_eq]
    exact invariant.waiting
  · rw [quiet.finalizers_eq]
    exact invariant.hasObject
  · rw [quiet.popped_eq]
    exact invariant.popped
  · rw [quiet.popped_eq]
    exact invariant.poppedOnce
  · rw [quiet.finalizers_eq]
    exact invariant.loose
  · intro priority
    obtain ⟨members, isMember, card⟩ := invariant.counted priority
    have counts := @Processes.countP_set_add _ machine.calls mutator _ new
      (FinalizerCall.isCounted priority) found
    have table := quiet.counted priority
    refine ⟨members, isMember, ?_⟩
    rw [quiet.calls_eq]
    omega
  · rw [quiet.finalizers_eq, quiet.announced_eq, quiet.firedThisCycle_eq]
    exact invariant.announced

/-- A pop begins with reading the head of the fired ones. -/
theorem FinalizerMachine.Invariant.pop (invariant : machine.Invariant place)
    (stepped : machine.step (.pop mutator) = .next after) : after.Invariant place := by
  dsimp only [FinalizerMachine.step] at stepped
  rw [Outcome.require_bind_eq_next] at stepped
  obtain ⟨isIdle, stepped⟩ := stepped
  cases stepped
  refine invariant.quiet isIdle (.onList (.reading .fired machine.world.fired)) ⟨trivial, ?_⟩
    ⟨rfl, rfl, rfl, rfl, rfl, rfl, rfl, rfl, rfl, rfl, fun _ => rfl⟩
  intro proper
  have onList := (invariant.stacked.pop proper
    (show machine.world.atomicLists.head .fired = machine.world.fired from rfl)).1
  rw [invariant.status, FinalizerPlace.loc_eq_fired.mp onList]
  rfl

/-- The count of a table is ahead of its buckets by the finalizers that are about to be pushed. -/
theorem FinalizerMachine.Invariant.counting {priority : ℕ} (invariant : machine.Invariant place)
    (found : machine.calls[mutator]? = some (.counting finalizer priority)) (spurious : Bool)
    (stepped : machine.access mutator spurious (.counting finalizer priority) = .next after) :
    after.Invariant place := by
  have own := invariant.calls mutator _ found
  cases stepped
  refine invariant.quiet found
    (.choosing finalizer priority (machine.world.tables priority).nextBucket) own
      ⟨rfl, ?_, rfl, rfl, rfl, rfl, rfl, rfl, rfl, rfl, ?_⟩
  · unfold FinalizerWorld.atomicLists FinalizerMachine.setCall
    rw [AtomicStacks.mk.injEq]
    refine ⟨?_, rfl⟩
    funext loc
    cases loc with
    | fired => rfl
    | bucket other index =>
        by_cases same : other = priority
        · subst same
          dsimp only
          rw [update_self]
        · dsimp only
          rw [update_of_ne same]
  · intro other
    change (update machine.world.tables priority _ other).finalizerCount + 0 = _
    by_cases same : other = priority
    · subst same
      simp [FinalizerCall.isCounted]
    · simp [FinalizerCall.isCounted, same, Ne.symm same]

theorem FinalizerMachine.Invariant.choosing {priority : ℕ} {index : Fin BUCKET_COUNT}
    (invariant : machine.Invariant place)
    (found : machine.calls[mutator]? = some (.choosing finalizer priority index)) (spurious : Bool)
    (stepped : machine.access mutator spurious (.choosing finalizer priority index) = .next after) :
    after.Invariant place := by
  obtain ⟨proper, isHeld, isPriority, inRange⟩ := invariant.calls mutator _ found
  cases stepped
  refine invariant.quiet found (.onList (.linking (.bucket priority index) finalizer
      ((machine.world.tables priority).buckets index)))
    ⟨⟨proper, ?_⟩, isHeld, isPriority, inRange⟩
    ⟨rfl, rfl, rfl, rfl, rfl, rfl, rfl, rfl, rfl, rfl, fun _ => rfl⟩
  dsimp only
  rw [isHeld]
  rfl

/-- The state when a mutator has begun to attach a finalizer. -/
def FinalizerMachine.beginAttach (machine : FinalizerMachine) (mutator finalizer priority : ℕ)
    (object closure : Ref) : FinalizerMachine :=
  { machine with
    world := { machine.world with
      finalizers := update machine.world.finalizers finalizer
        { state := .active, object := object, closure := closure
          next := (machine.world.finalizers finalizer).next } }
    calls := machine.calls.set mutator (.counting finalizer priority)
    priorityOf := update machine.priorityOf finalizer priority }

/-- What beginning to attach a finalizer does. -/
theorem attach_eq_next {priority : ℕ} {object closure : Ref}
    (stepped : machine.step (.attach mutator finalizer priority object closure) = .next after) :
    machine.calls[mutator]? = some .idle ∧ finalizer ≠ 0 ∧
      (machine.world.finalizers finalizer).state = .init ∧ object ≠ .null ∧
        priority < machine.world.tableCount ∧
      after = machine.beginAttach mutator finalizer priority object closure := by
  dsimp only [FinalizerMachine.step] at stepped
  rw [Outcome.require_bind_eq_next, Outcome.bind_eq_next] at stepped
  obtain ⟨⟨isIdle, proper⟩, initialized, made, stepped⟩ := stepped
  unfold FinalizerWorld.gcFinalizerInitInternal at made
  rw [Outcome.check_bind_eq_next, Outcome.check_bind_eq_next] at made
  obtain ⟨isInit, -, made⟩ := made
  cases made
  rw [Outcome.bind_eq_next] at stepped
  obtain ⟨active, activated, stepped⟩ := stepped
  unfold FinalizerWorld.activate at activated
  rw [Outcome.check_bind_eq_next, Outcome.check_bind_eq_next,
    Outcome.check_bind_eq_next] at activated
  obtain ⟨-, hasObject, inRange, activated⟩ := activated
  cases activated
  cases stepped
  dsimp only at hasObject
  rw [update_self] at hasObject
  refine ⟨isIdle, proper, isInit, hasObject, inRange, ?_⟩
  simp [FinalizerMachine.setCall, FinalizerMachine.beginAttach]

/-- A finalizer that is attached is in the hands of its mutator from then on. -/
theorem FinalizerMachine.Invariant.attach {priority : ℕ} {object closure : Ref}
    (invariant : machine.Invariant place)
    (stepped : machine.step (.attach mutator finalizer priority object closure) = .next after) :
    after.Invariant (update place finalizer (.attaching mutator)) := by
  obtain ⟨isIdle, proper, isInit, hasObject, inRange, rfl⟩ := attach_eq_next stepped
  have isUnattached : place finalizer = .unattached := by
    apply FinalizerPlace.eq_unattached
    rw [← invariant.status, isInit]
  have locs : (fun other => (update place finalizer (.attaching mutator) other).loc) =
      fun other => (place other).loc := by
    funext other
    by_cases same : other = finalizer
    · rw [same, update_self, isUnattached]
      rfl
    · rw [update_of_ne same]
  have lists : (machine.beginAttach mutator finalizer priority object closure).world.atomicLists =
      machine.world.atomicLists := by
    unfold FinalizerMachine.beginAttach FinalizerWorld.atomicLists
    rw [AtomicStacks.mk.injEq]
    exact ⟨rfl, funext (update_field Finalizer.next rfl)⟩
  have elsewhere {other : ℕ} {held : FinalizerPlace} (isHeld : place other = held)
      (notUnattached : held ≠ .unattached) : other ≠ finalizer := by
    rintro rfl
    exact notUnattached (isHeld.symm.trans isUnattached)
  have idle (other : ℕ) : place other ≠ .attaching mutator ∧ place other ≠ .unlinking mutator := by
    constructor
    · intro isHeld
      obtain ⟨call, atMutator, attaches⟩ := invariant.attaching other mutator isHeld
      rw [isIdle] at atMutator
      cases atMutator
      cases attaches
    · intro isHeld
      obtain ⟨call, atMutator, unlinks⟩ := invariant.unlinking other mutator isHeld
      rw [isIdle] at atMutator
      cases atMutator
      cases unlinks
  have steps : StepsOne machine (machine.beginAttach mutator finalizer priority object closure)
    place
      (update place finalizer (.attaching mutator)) mutator .idle (.counting finalizer priority) :=
    { found := isIdle
      calls_eq := rfl
      held := by
        rintro other holder - (isHeld | isHeld)
        · exact update_of_ne (elsewhere isHeld nofun) _ _
        · exact update_of_ne (elsewhere isHeld nofun) _ _
      back := by
        intro other holder different isHeld
        by_cases same : other = finalizer
        · rw [same, update_self] at isHeld
          simp [Ne.symm different] at isHeld
        · rw [update_of_ne same]
      priorities := fun other _ _ isHeld => update_of_ne (elsewhere isHeld nofun) _ _
      tableCount_eq := rfl
      states := by
        intro other hasFired
        have different : other ≠ finalizer := by
          rintro rfl
          rw [isInit] at hasFired
          cases hasFired
        dsimp only [FinalizerMachine.beginAttach]
        rwa [update_of_ne different]
      lists := by
        intro other stage _ atOther
        rw [locs, lists]
        exact (invariant.calls other _ atOther).1
      own := ⟨proper, update_self _ _ _, update_self _ _ _, inRange⟩
      ownAttaching := by
        intro other isHeld
        by_cases same : other = finalizer
        · rw [same]
          rfl
        · rw [update_of_ne same] at isHeld
          exact absurd isHeld (idle other).1
      ownUnlinking := by
        intro other isHeld
        by_cases same : other = finalizer
        · rw [same, update_self] at isHeld
          cases isHeld
        · rw [update_of_ne same] at isHeld
          exact absurd isHeld (idle other).2 }
  obtain ⟨calls, attached, unlinked⟩ := steps.calls invariant
  refine
    { stacked := ?_
      calls := calls
      attaching := attached
      unlinking := unlinked
      status := ?_
      waiting := ?_
      hasObject := ?_
      popped := ?_
      poppedOnce := invariant.poppedOnce
      loose := ?_
      counted := ?_
      announced := ?_ }
  · rw [locs, lists]
    exact invariant.stacked
  · intro other
    dsimp only [FinalizerMachine.beginAttach]
    by_cases same : other = finalizer
    · rw [same, update_self, update_self]
      rfl
    · rw [update_of_ne same, update_of_ne same]
      exact invariant.status other
  · intro other level index isWaiting
    dsimp only [FinalizerMachine.beginAttach]
    by_cases same : other = finalizer
    · rw [same, update_self] at isWaiting
      cases isWaiting
    · rw [update_of_ne same] at isWaiting ⊢
      exact invariant.waiting other level index isWaiting
  · intro other
    dsimp only [FinalizerMachine.beginAttach]
    by_cases same : other = finalizer
    · rw [same, update_self]
      exact fun _ => hasObject
    · rw [update_of_ne same]
      exact invariant.hasObject other
  · intro other
    dsimp only [FinalizerMachine.beginAttach]
    rw [invariant.popped]
    by_cases same : other = finalizer
    · rw [same, update_self, isUnattached]
      exact ⟨nofun, nofun⟩
    · rw [update_of_ne same]
  · intro other isLoose
    dsimp only [FinalizerMachine.beginAttach]
    by_cases same : other = finalizer
    · rw [same, update_self]
      exact invariant.loose finalizer (.inl isUnattached)
    · rw [update_of_ne same] at isLoose ⊢
      exact invariant.loose other isLoose
  · intro level
    obtain ⟨members, isMember, card⟩ := invariant.counted level
    have counts := @Processes.countP_set_add _ machine.calls mutator _
      (.counting finalizer priority) (FinalizerCall.isCounted level) isIdle
    refine ⟨members, ?_, ?_⟩
    · intro other
      rw [isMember]
      by_cases same : other = finalizer
      · rw [same, update_self, isUnattached]
        simp
      · rw [update_of_ne same]
    · dsimp only [FinalizerMachine.beginAttach]
      simp only [FinalizerCall.isCounted, Bool.toNat_false] at counts
      omega
  · obtain ⟨fired, isFired, card⟩ := invariant.announced
    refine ⟨fired, ?_, card⟩
    intro other
    rw [isFired]
    dsimp only [FinalizerMachine.beginAttach]
    by_cases same : other = finalizer
    · rw [same, update_self, isInit]
      exact ⟨nofun, nofun⟩
    · rw [update_of_ne same]

/-- Another mutator that starts holds nothing. -/
theorem FinalizerMachine.Invariant.start (invariant : machine.Invariant place) :
    ({ machine with calls := machine.calls ++ [.idle] } : FinalizerMachine).Invariant place := by
  have kept {mutator : ℕ} {call : FinalizerCall} (found : machine.calls[mutator]? = some call) :
      (machine.calls ++ [.idle])[mutator]? = some call := by
    rw [List.getElem?_append_left (List.getElem?_eq_some_iff.mp found).1]
    exact found
  refine { invariant with
    calls := ?_
    attaching := ?_
    unlinking := ?_
    counted := ?_ }
  · intro mutator call found
    have own : call.Knows machine place mutator := by
      rcases List.mem_append.mp (List.mem_of_getElem? found) with _ | isNew
      · by_cases inRange : mutator < machine.calls.length
        · rw [List.getElem?_append_left inRange] at found
          exact invariant.calls mutator call found
        · rw [List.getElem?_append_right (not_lt.mp inRange)] at found
          have isIdle := List.mem_singleton.mp (List.mem_of_getElem? found)
          subst isIdle
          exact trivial
      · rw [List.mem_singleton.mp isNew]
        exact trivial
    apply own.frame
    · rintro stage rfl
      exact own.1
    · exact fun _ _ => rfl
    · rfl
    · exact fun _ => id
    · exact fun _ _ => rfl
  · intro finalizer mutator isHeld
    obtain ⟨call, found, attaches⟩ := invariant.attaching finalizer mutator isHeld
    exact ⟨call, kept found, attaches⟩
  · intro finalizer mutator isHeld
    obtain ⟨call, found, unlinks⟩ := invariant.unlinking finalizer mutator isHeld
    exact ⟨call, kept found, unlinks⟩
  · intro priority
    obtain ⟨members, isMember, card⟩ := invariant.counted priority
    refine ⟨members, isMember, ?_⟩
    dsimp only
    rw [List.countP_append]
    exact card

end Calls

end Whippet.Finalizers
