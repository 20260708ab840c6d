import Whippet.Finalizer.CallSteps

/-!
No finalizer is lost and none is handed out twice, however mutators and collections interleave.

Between the calls of the mutators a collection resolves the priorities one after the other. Each
resolution keeps the tables sound, so the places of the finalizers are known after it again.

Owns: that collections keep the invariant of the finalizers and never fail, and what every run
conserves. Does not own: which finalizers fire.
-/

namespace Whippet.Finalizers

open Function
open Ephemerons (Ref)

/-! ## Collections -/

/-- The list of a resolution that a head is the head of. -/
def FinalizerLoc.listName : FinalizerLoc → ListName
  | .bucket priority index => .bucket priority index
  | .fired => .fired

/-- What resolving some priorities does. -/
structure Paused (announced : ℕ) (world after : FinalizerWorld)
    (listed listedAfter : ℕ → Option ListName) : Prop where
  sound : after.Sound listedAfter
  tableCount_eq : after.tableCount = world.tableCount
  object_eq : ∀ finalizer,
    (after.finalizers finalizer).object = (world.finalizers finalizer).object
  loose : ∀ finalizer, listed finalizer = none →
    listedAfter finalizer = none ∧ after.finalizers finalizer = world.finalizers finalizer
  stillFired : ∀ finalizer, listed finalizer = some .fired → listedAfter finalizer = some .fired
  resolved : ∀ finalizer priority index, listed finalizer = some (.bucket priority index) →
    listedAfter finalizer = some .fired ∨
      ∃ other, listedAfter finalizer = some (.bucket priority other)
  total : ∃ fired : Finset ℕ,
    (∀ finalizer, finalizer ∈ fired ↔ (after.finalizers finalizer).state = .fired) ∧
      fired.card = announced + after.firedThisCycle

section Collections

variable {world middle after : FinalizerWorld} {announced : ℕ}
variable {listed listedMiddle listedAfter : ℕ → Option ListName}

theorem Paused.trans (first : Paused announced world middle listed listedMiddle)
    (second : Paused announced middle after listedMiddle listedAfter) :
    Paused announced world after listed listedAfter where
  sound := second.sound
  tableCount_eq := second.tableCount_eq.trans first.tableCount_eq
  object_eq finalizer := (second.object_eq finalizer).trans (first.object_eq finalizer)
  loose finalizer isLoose := by
    obtain ⟨stillLoose, same⟩ := first.loose finalizer isLoose
    obtain ⟨finallyLoose, sameAgain⟩ := second.loose finalizer stillLoose
    exact ⟨finallyLoose, sameAgain.trans same⟩
  stillFired finalizer hasFired := second.stillFired finalizer (first.stillFired finalizer hasFired)
  resolved finalizer priority index isWaiting := by
    rcases first.resolved finalizer priority index isWaiting with hasFired | ⟨other, stillWaiting⟩
    · exact .inl (second.stillFired finalizer hasFired)
    · exact second.resolved finalizer priority other stillWaiting
  total := second.total

/-- One priority is resolved. -/
theorem ResolvedTable.paused {collector : Collector} {graph : ObjectGraph} {marking : Marking}
    {priority : ℕ} {order fired : List ℕ}
    (resolved : ResolvedTable collector graph marking priority order world after listed listedAfter
      fired)
    (sound : world.Sound listed) (ordered : world.Ordered priority order)
    (total : ∃ before : Finset ℕ,
      (∀ finalizer, finalizer ∈ before ↔ (world.finalizers finalizer).state = .fired) ∧
        before.card = announced + world.firedThisCycle) :
    Paused announced world after listed listedAfter := by
  have inOrder {finalizer : ℕ} : finalizer ∈ order ↔
      ∃ index, listed finalizer = some (.bucket priority index) := sound.holds.mem_iff ordered
  have sublist : fired.Sublist order := by
    rw [resolved.fired_eq]
    exact fires_sublist order
  have notInOrder {finalizer : ℕ} (elsewhere : ∀ index,
      listed finalizer ≠ some (.bucket priority index)) : finalizer ∉ order := by
    intro member
    obtain ⟨index, here⟩ := inOrder.mp member
    exact elsewhere index here
  refine
    { sound := resolved.sound
      tableCount_eq := resolved.tableCount_eq
      object_eq := resolved.object_eq
      loose := ?_
      stillFired := ?_
      resolved := ?_
      total := ?_ }
  · intro finalizer isLoose
    have outside : finalizer ∉ order := notInOrder fun index => by
      rw [isLoose]
      rintro ⟨⟩
    obtain ⟨place, same⟩ := resolved.others finalizer outside
    exact ⟨place.trans isLoose, same⟩
  · intro finalizer hasFired
    have outside : finalizer ∉ order := notInOrder fun index => by
      rw [hasFired]
      rintro ⟨⟩
    exact (resolved.others finalizer outside).1.trans hasFired
  · intro finalizer other index isWaiting
    by_cases member : finalizer ∈ order
    · obtain ⟨position, here⟩ := inOrder.mp member
      rw [isWaiting] at here
      cases here
      by_cases isFired : finalizer ∈ fired
      · exact .inl (resolved.hasFired finalizer isFired)
      · exact .inr (resolved.kept finalizer member isFired)
    · right
      exact ⟨index, (resolved.others finalizer member).1.trans isWaiting⟩
  · obtain ⟨before, isBefore, card⟩ := total
    have wasActive {finalizer : ℕ} (member : finalizer ∈ order) :
        (world.finalizers finalizer).state = .active := by
      obtain ⟨index, here⟩ := inOrder.mp member
      exact (sound.waiting finalizer priority index here).1
    refine ⟨before ∪ fired.toFinset, ?_, ?_⟩
    · intro finalizer
      rw [Finset.mem_union, List.mem_toFinset, isBefore]
      by_cases member : finalizer ∈ order
      · rw [wasActive member]
        by_cases isFired : finalizer ∈ fired
        · have nowFired := resolved.sound.hasFired finalizer (resolved.hasFired finalizer isFired)
          simp [isFired, nowFired]
        · obtain ⟨index, here⟩ := resolved.kept finalizer member isFired
          have stillActive := (resolved.sound.waiting finalizer priority index here).1
          simp [isFired, stillActive]
      · have notFired : finalizer ∉ fired := fun isFired => member (sublist.subset isFired)
        rw [(resolved.others finalizer member).2]
        exact or_iff_left notFired
    · rw [Finset.card_union_of_disjoint, card,
        List.toFinset_card_of_nodup (sublist.nodup (sound.holds.nodup ordered)),
        resolved.firedThisCycle_eq]
      · omega
      · rw [Finset.disjoint_left]
        intro finalizer wasFired isFired
        rw [List.mem_toFinset] at isFired
        rw [isBefore, wasActive (sublist.subset isFired)] at wasFired
        cases wasFired

theorem resolvePriorities_spec (collector : Collector) (graph : ObjectGraph)
    (trace : Marking → Marking) (priorities : List ℕ)
    (inRange : ∀ priority ∈ priorities, priority < world.tableCount) (sound : world.Sound listed)
    (total : ∃ fired : Finset ℕ,
      (∀ finalizer, finalizer ∈ fired ↔ (world.finalizers finalizer).state = .fired) ∧
        fired.card = announced + world.firedThisCycle) (marking : Marking) :
    ∃ after marks listedAfter,
      FinalizerWorld.resolvePriorities collector graph trace priorities world marking =
        .next (after, marks) ∧ Paused announced world after listed listedAfter := by
  induction priorities generalizing world listed marking with
  | nil =>
      refine ⟨world, marking, listed, rfl, ?_⟩
      exact
        { sound := sound
          tableCount_eq := rfl
          object_eq := fun _ => rfl
          loose := fun _ isLoose => ⟨isLoose, rfl⟩
          stillFired := fun _ => id
          resolved := fun _ _ index isWaiting => .inr ⟨index, isWaiting⟩
          total := total }
  | cons priority priorities inductionHypothesis =>
      obtain ⟨order, ordered⟩ := sound.holds.exists_order priority
      obtain ⟨middle, listedMiddle, fired, ran, resolved⟩ :=
        sound.gcResolveFinalizers_spec collector
        graph marking (inRange priority List.mem_cons_self) ordered
      have first := resolved.paused sound ordered total
      have stillInRange (other : ℕ) (member : other ∈ priorities) : other < middle.tableCount := by
        rw [first.tableCount_eq]
        exact inRange other (List.mem_cons_of_mem _ member)
      obtain ⟨after, marks, listedAfter, looped, rest⟩ :=
        inductionHypothesis stillInRange first.sound first.total _
      refine ⟨after, marks, listedAfter, ?_, first.trans rest⟩
      rw [FinalizerWorld.resolvePriorities, ran]
      exact looped

end Collections

section Pauses

variable {machine after : FinalizerMachine} {place : ℕ → FinalizerPlace}

/-- When no mutator is inside a call, none holds a finalizer. -/
theorem FinalizerMachine.Invariant.not_held (invariant : machine.Invariant place)
    (idle : ∀ call ∈ machine.calls, call = .idle) (finalizer mutator : ℕ) :
    place finalizer ≠ .attaching mutator ∧ place finalizer ≠ .unlinking mutator := by
  constructor
  · intro isHeld
    obtain ⟨call, found, attaches⟩ := invariant.attaching finalizer mutator isHeld
    rw [idle call (List.mem_of_getElem? found)] at attaches
    cases attaches
  · intro isHeld
    obtain ⟨call, found, unlinks⟩ := invariant.unlinking finalizer mutator isHeld
    rw [idle call (List.mem_of_getElem? found)] at unlinks
    cases unlinks

/-- When no mutator is inside a call, the tables are sound. -/
theorem FinalizerMachine.Invariant.sound (invariant : machine.Invariant place)
    (idle : ∀ call ∈ machine.calls, call = .idle) :
    machine.world.Sound fun finalizer => (place finalizer).loc.map FinalizerLoc.listName := by
  have notHeld := invariant.not_held idle
  have inBucket (finalizer priority : ℕ) (index : Fin BUCKET_COUNT) :
      (place finalizer).loc.map FinalizerLoc.listName = some (.bucket priority index) ↔
        place finalizer = .waiting priority index := by
    cases place finalizer <;> simp [FinalizerPlace.loc, FinalizerLoc.listName]
  have isFired (finalizer : ℕ) :
      (place finalizer).loc.map FinalizerLoc.listName = some .fired ↔ place finalizer = .fired := by
    cases place finalizer <;> simp [FinalizerPlace.loc, FinalizerLoc.listName]
  refine ⟨?_, ?_, ?_, ?_⟩
  · choose nodes chain nodup members using invariant.stacked
    have chained (name : ListName) : ∃ list, Chained machine.world.atomicLists.next 0
        ((worldLists machine.world fun _ => 0).head name) list ∧ list.Nodup ∧ ∀ finalizer,
          finalizer ∈ list ↔ (place finalizer).loc.map FinalizerLoc.listName = some name := by
      cases name with
      | bucket priority index =>
          refine ⟨nodes (.bucket priority index), chain (.bucket priority index), nodup _, ?_⟩
          intro finalizer
          rw [members, inBucket, FinalizerPlace.loc_eq_bucket]
      | scratch index =>
          refine ⟨[], .nil, List.nodup_nil, ?_⟩
          intro finalizer
          cases place finalizer <;> simp [FinalizerPlace.loc, FinalizerLoc.listName]
      | cursor =>
          refine ⟨[], .nil, List.nodup_nil, ?_⟩
          intro finalizer
          cases place finalizer <;> simp [FinalizerPlace.loc, FinalizerLoc.listName]
      | fired =>
          refine ⟨nodes .fired, chain .fired, nodup _, ?_⟩
          intro finalizer
          rw [members, isFired, FinalizerPlace.loc_eq_fired]
    choose list isChain isNodup isMember using chained
    refine ⟨fun name => (list name).length, ?_, ?_⟩
    · intro name
      refine ⟨list name, ?_, isNodup name, rfl, isMember name⟩
      have head : (worldLists machine.world fun name => (list name).length).head name =
          (worldLists machine.world fun _ => 0).head name := by
        cases name <;> rfl
      rw [head]
      exact isChain name
    · intro finalizer isLoose
      apply invariant.loose finalizer
      have isNone := Option.map_eq_none_iff.mp isLoose
      cases isPlace : place finalizer with
      | unattached => exact .inl rfl
      | attaching mutator => exact absurd isPlace (notHeld finalizer mutator).1
      | waiting priority index =>
          rw [isPlace] at isNone
          cases isNone
      | fired =>
          rw [isPlace] at isNone
          cases isNone
      | unlinking mutator => exact absurd isPlace (notHeld finalizer mutator).2
      | popped => exact .inr rfl
  · intro finalizer priority index here
    have isWaiting := (inBucket finalizer priority index).mp here
    have isActive : (machine.world.finalizers finalizer).state = .active := by
      rw [invariant.status, isWaiting]
      rfl
    refine ⟨isActive, ?_, (invariant.waiting finalizer priority index isWaiting).2⟩
    apply invariant.hasObject
    rw [isActive]
    rintro ⟨⟩
  · intro finalizer here
    rw [invariant.status, (isFired finalizer).mp here]
    rfl
  · intro priority
    obtain ⟨members, isMember, card⟩ := invariant.counted priority
    refine ⟨members, ?_, ?_⟩
    · intro finalizer
      rw [isMember]
      simp only [inBucket]
    · have noneCounted : machine.calls.countP (FinalizerCall.isCounted priority) = 0 := by
        apply List.countP_eq_zero.mpr
        intro call member
        rw [idle call member]
        rintro ⟨⟩
      omega

/-- Where a finalizer is after a collection that found it on no list, or put it on one. -/
def placeResolved (before : FinalizerPlace) : Option ListName → FinalizerPlace
  | some (.bucket priority index) => .waiting priority index
  | some .fired => .fired
  | _ => before

/-- The announcement of the finalizers that have fired moves nothing. -/
theorem FinalizerMachine.Invariant.notified (invariant : machine.Invariant place) :
    machine.gcNotifyFinalizers.Invariant place := by
  unfold FinalizerMachine.gcNotifyFinalizers
  split
  · have lists (mutator : ℕ) (call : FinalizerCall) (found : machine.calls[mutator]? = some call) :
        call.Knows { machine with
          world := { machine.world with firedThisCycle := 0 }
          announced := machine.announced + machine.world.firedThisCycle } place mutator := by
      have knows := invariant.calls mutator call found
      apply knows.frame
      · rintro stage rfl
        exact knows.1
      · exact fun _ _ => rfl
      · rfl
      · exact fun _ => id
      · exact fun _ _ => rfl
    exact { invariant with calls := lists }
  · exact invariant

/-- A collection between the calls of the mutators does not fail, and keeps the invariant. -/
theorem FinalizerMachine.Invariant.collect (invariant : machine.Invariant place)
    (idle : ∀ call ∈ machine.calls, call = .idle) (collector : Collector) (graph : ObjectGraph)
    (marking : Marking) (trace : Marking → Marking) :
    ∃ after placeAfter, machine.step (.collect collector graph marking trace) = .next after ∧
      after.Invariant placeAfter := by
  have sound := invariant.sound idle
  obtain ⟨world, marks, listed, ran, paused⟩ := resolvePriorities_spec collector graph trace
    (List.range machine.world.tableCount) (fun _ => List.mem_range.mp) sound invariant.announced
      marking
  have noCalls := invariant.not_held idle
  -- where a finalizer was, and where it is now
  have settled (finalizer : ℕ) :
      ((place finalizer = .unattached ∨ place finalizer = .popped) ∧ listed finalizer = none ∧
        placeResolved (place finalizer) (listed finalizer) = place finalizer ∧
          world.finalizers finalizer = machine.world.finalizers finalizer) ∨
      (place finalizer ≠ .unattached ∧ place finalizer ≠ .popped ∧ listed finalizer = some .fired ∧
        placeResolved (place finalizer) (listed finalizer) = .fired) ∨
      ∃ priority index other, place finalizer = .waiting priority index ∧
        listed finalizer = some (.bucket priority other) ∧
          placeResolved (place finalizer) (listed finalizer) = .waiting priority other := by
    have loose (here : (place finalizer).loc = none) := paused.loose finalizer (by rw [here]; rfl)
    cases isPlace : place finalizer with
    | unattached =>
        obtain ⟨isNone, same⟩ := loose (by rw [isPlace]; rfl)
        refine .inl ⟨.inl rfl, isNone, ?_, same⟩
        rw [isNone]
        rfl
    | attaching mutator => exact absurd isPlace (noCalls finalizer mutator).1
    | waiting priority index =>
        rcases paused.resolved finalizer priority index (by rw [isPlace]; rfl) with
          isFired | ⟨other, isWaiting⟩
        · refine .inr (.inl ⟨by rintro ⟨⟩, by rintro ⟨⟩, isFired, ?_⟩)
          rw [isFired]
          rfl
        · refine .inr (.inr ⟨priority, index, other, rfl, isWaiting, ?_⟩)
          rw [isWaiting]
          rfl
    | fired =>
        have isFired := paused.stillFired finalizer (by rw [isPlace]; rfl)
        refine .inr (.inl ⟨by rintro ⟨⟩, by rintro ⟨⟩, isFired, ?_⟩)
        rw [isFired]
        rfl
    | unlinking mutator => exact absurd isPlace (noCalls finalizer mutator).2
    | popped =>
        obtain ⟨isNone, same⟩ := loose (by rw [isPlace]; rfl)
        refine .inl ⟨.inr rfl, isNone, ?_, same⟩
        rw [isNone]
        rfl
  have onList (finalizer : ℕ) (loc : FinalizerLoc) : listed finalizer = some loc.listName ↔
      (placeResolved (place finalizer) (listed finalizer)).loc = some loc := by
    rcases settled finalizer with ⟨here, isNone, same, -⟩ | ⟨-, -, isFired, now⟩ |
      ⟨priority, -, other, -, isWaiting, now⟩
    · rw [same, isNone]
      rcases here with here | here
      all_goals
        rw [here]
        simp [FinalizerPlace.loc]
    · rw [now, isFired]
      cases loc <;> simp [FinalizerPlace.loc, FinalizerLoc.listName]
    · rw [now, isWaiting]
      cases loc <;> simp [FinalizerPlace.loc, FinalizerLoc.listName]
  have resolved : ({ machine with world := world } : FinalizerMachine).Invariant
      fun finalizer => placeResolved (place finalizer) (listed finalizer) := by
    refine
      { stacked := ?_
        calls := ?_
        attaching := ?_
        unlinking := ?_
        status := ?_
        waiting := ?_
        hasObject := ?_
        popped := ?_
        poppedOnce := invariant.poppedOnce
        loose := ?_
        counted := ?_
        announced := paused.total }
    · intro loc
      obtain ⟨count, isListed⟩ := paused.sound.holds
      obtain ⟨nodes, chain, nodup, -, members⟩ := isListed.chain loc.listName
      refine ⟨nodes, ?_, nodup, ?_⟩
      · cases loc <;> exact chain
      · intro finalizer
        rw [members, onList]
    · intro mutator call found
      rw [idle call (List.mem_of_getElem? found)]
      exact trivial
    · intro finalizer mutator isHeld
      rcases settled finalizer with ⟨-, -, same, -⟩ | ⟨-, -, -, now⟩ | ⟨_, _, _, -, -, now⟩
      · rw [same] at isHeld
        exact absurd isHeld (noCalls finalizer mutator).1
      · rw [now] at isHeld
        cases isHeld
      · rw [now] at isHeld
        cases isHeld
    · intro finalizer mutator isHeld
      rcases settled finalizer with ⟨-, -, same, -⟩ | ⟨-, -, -, now⟩ | ⟨_, _, _, -, -, now⟩
      · rw [same] at isHeld
        exact absurd isHeld (noCalls finalizer mutator).2
      · rw [now] at isHeld
        cases isHeld
      · rw [now] at isHeld
        cases isHeld
    · intro finalizer
      rcases settled finalizer with ⟨-, -, same, kept⟩ | ⟨-, -, isFired, now⟩ |
        ⟨priority, _, other, -, isWaiting, now⟩
      · rw [same, ← invariant.status]
        exact congrArg Finalizer.state kept
      · rw [now]
        exact paused.sound.hasFired finalizer isFired
      · rw [now]
        exact (paused.sound.waiting finalizer priority other isWaiting).1
    · intro finalizer level position isWaiting
      rcases settled finalizer with ⟨here, -, same, -⟩ | ⟨-, -, -, now⟩ |
        ⟨priority, index, other, before, inBucket, now⟩
      · rw [same] at isWaiting
        rw [isWaiting] at here
        simp at here
      · rw [now] at isWaiting
        cases isWaiting
      · rw [now] at isWaiting
        cases isWaiting
        exact ⟨(invariant.waiting finalizer level index before).1,
          (paused.sound.waiting finalizer level position inBucket).2.2⟩
    · intro finalizer notInit
      dsimp only
      rw [paused.object_eq]
      apply invariant.hasObject
      intro isInit
      apply notInit
      have isUnattached : place finalizer = .unattached := by
        apply FinalizerPlace.eq_unattached
        rw [← invariant.status, isInit]
      rcases settled finalizer with ⟨-, -, -, kept⟩ | ⟨notUnattached, -⟩ | ⟨_, _, _, before, -⟩
      · rw [kept, isInit]
      · exact absurd isUnattached notUnattached
      · rw [isUnattached] at before
        cases before
    · intro finalizer
      dsimp only
      rw [invariant.popped]
      rcases settled finalizer with
        ⟨-, -, same, -⟩ | ⟨-, notPopped, -, now⟩ | ⟨_, _, _, before, -, now⟩
      · rw [same]
      · rw [now]
        exact ⟨fun isPopped => absurd isPopped notPopped, by rintro ⟨⟩⟩
      · rw [now, before]
        exact ⟨by rintro ⟨⟩, by rintro ⟨⟩⟩
    · intro finalizer isLoose
      rcases settled finalizer with ⟨here, -, -, kept⟩ | ⟨-, -, -, now⟩ | ⟨_, _, _, -, -, now⟩
      · dsimp only
        rw [kept]
        exact invariant.loose finalizer here
      · rw [now] at isLoose
        simp at isLoose
      · rw [now] at isLoose
        simp at isLoose
    · intro priority
      obtain ⟨members, isMember, card⟩ := paused.sound.counted priority
      refine ⟨members, ?_, ?_⟩
      · intro finalizer
        rw [isMember]
        have inBucket (index : Fin BUCKET_COUNT) :
            listed finalizer = some (.bucket priority index) ↔
              placeResolved (place finalizer) (listed finalizer) = .waiting priority index :=
          (onList finalizer (.bucket priority index)).trans FinalizerPlace.loc_eq_bucket
        simp only [inBucket]
      · have noneCounted : machine.calls.countP (FinalizerCall.isCounted priority) = 0 := by
          apply List.countP_eq_zero.mpr
          intro call member
          rw [idle call member]
          rintro ⟨⟩
        dsimp only
        omega
  refine ⟨_, _, ?_, resolved.notified⟩
  dsimp only [FinalizerMachine.step]
  rw [Outcome.require_bind_eq_next]
  refine ⟨idle, ?_⟩
  unfold FinalizerMachine.resolveFinalizers
  rw [ran]
  rfl

end Pauses

/-! ## Runs -/

/-- What every run keeps: a finalizer that has been attached is in one place, tables count their
finalizers and those that are about to be pushed, and no finalizer that has fired is forgotten. -/
structure FinalizerMachine.Conserved (machine : FinalizerMachine) : Prop where
  onePlace : ∀ finalizer,
    ((machine.world.finalizers finalizer).state = .init ∧
      ∀ place, ¬machine.InPlace finalizer place) ∨
    ∃ place, machine.InPlace finalizer place ∧
      (machine.world.finalizers finalizer).state = place.status ∧
        (∀ other, machine.InPlace finalizer other → other = place) ∧
          ∀ priority index, place = .waiting priority index →
            priority = machine.priorityOf finalizer
  poppedOnce : machine.popped.Nodup
  counted : ∀ priority, ∃ order, machine.world.Ordered priority order ∧ order.Nodup ∧
    order.length + machine.calls.countP (FinalizerCall.isCounted priority) =
      (machine.world.tables priority).finalizerCount
  announced : ∃ fired : Finset ℕ,
    (∀ finalizer, finalizer ∈ fired ↔ (machine.world.finalizers finalizer).state = .fired) ∧
      fired.card = machine.announced + machine.world.firedThisCycle
  collects : (∀ call ∈ machine.calls, call = .idle) → ∀ collector graph marking trace,
    ∃ after, machine.step (.collect collector graph marking trace) = .next after

section Runs

variable {machine after : FinalizerMachine} {place : ℕ → FinalizerPlace} {finalizer : ℕ}

theorem FinalizerMachine.Invariant.inPlace_iff (invariant : machine.Invariant place)
    {here : FinalizerPlace} :
    machine.InPlace finalizer here ↔ place finalizer = here ∧ here ≠ .unattached := by
  have onList {loc : FinalizerLoc} :
      (∃ nodes, Chained machine.world.atomicLists.next 0 (machine.world.atomicLists.head loc)
        nodes ∧
        finalizer ∈ nodes) ↔ (place finalizer).loc = some loc := by
    obtain ⟨nodes, chain, -, members⟩ := invariant.stacked loc
    constructor
    · rintro ⟨others, otherChain, member⟩
      rw [← chain.unique otherChain] at member
      exact (members finalizer).mp member
    · intro here
      exact ⟨nodes, chain, (members finalizer).mpr here⟩
  cases here with
  | unattached => exact ⟨by rintro ⟨⟩, fun both => both.2 rfl⟩
  | attaching mutator =>
      constructor
      · rintro ⟨call, found, attaches⟩
        refine ⟨?_, by rintro ⟨⟩⟩
        have knows := invariant.calls mutator call found
        cases call with
        | idle => cases attaches
        | counting other priority =>
            cases attaches
            exact knows.2.1
        | choosing other priority index =>
            cases attaches
            exact knows.2.1
        | onList stage =>
            cases stage with
            | linking loc other seen =>
                cases attaches
                cases loc with
                | fired => cases knows.2
                | bucket => exact knows.2.1
            | pushing loc other seen =>
                cases attaches
                cases loc with
                | fired => cases knows.2
                | bucket => exact knows.2.1
            | pushed => cases attaches
            | reading => cases attaches
            | popping => cases attaches
            | clearing => cases attaches
            | popped => cases attaches
      · rintro ⟨isHeld, -⟩
        exact invariant.attaching finalizer mutator isHeld
  | waiting priority index =>
      refine (@onList (.bucket priority index)).trans ?_
      rw [FinalizerPlace.loc_eq_bucket]
      exact (and_iff_left (by rintro ⟨⟩)).symm
  | fired =>
      refine (@onList .fired).trans ?_
      rw [FinalizerPlace.loc_eq_fired]
      exact (and_iff_left (by rintro ⟨⟩)).symm
  | unlinking mutator =>
      constructor
      · rintro ⟨call, found, unlinks⟩
        refine ⟨?_, by rintro ⟨⟩⟩
        have knows := invariant.calls mutator call found
        cases call with
        | idle => cases unlinks
        | counting => cases unlinks
        | choosing => cases unlinks
        | onList stage =>
            cases stage with
            | clearing other =>
                cases unlinks
                exact knows.2
            | linking => cases unlinks
            | pushing => cases unlinks
            | pushed => cases unlinks
            | reading => cases unlinks
            | popping => cases unlinks
            | popped => cases unlinks
      · rintro ⟨isHeld, -⟩
        exact invariant.unlinking finalizer mutator isHeld
  | popped =>
      refine (invariant.popped finalizer).trans ?_
      exact (and_iff_left (by rintro ⟨⟩)).symm

theorem FinalizerMachine.Invariant.conserved (invariant : machine.Invariant place) :
    machine.Conserved where
  onePlace finalizer := by
    by_cases isUnattached : place finalizer = .unattached
    · left
      refine ⟨?_, ?_⟩
      · rw [invariant.status, isUnattached]
        rfl
      · intro here isHere
        obtain ⟨equal, proper⟩ := invariant.inPlace_iff.mp isHere
        exact proper (equal.symm.trans isUnattached)
    · right
      refine ⟨place finalizer, invariant.inPlace_iff.mpr ⟨rfl, isUnattached⟩,
        invariant.status finalizer, ?_, ?_⟩
      · intro other isThere
        exact (invariant.inPlace_iff.mp isThere).1.symm
      · intro priority index isWaiting
        exact (invariant.waiting finalizer priority index isWaiting).1.symm
  poppedOnce := invariant.poppedOnce
  counted priority := by
    choose nodes chain nodup members using invariant.stacked
    obtain ⟨waiting, isWaiting, card⟩ := invariant.counted priority
    have distinct : ((List.finRange BUCKET_COUNT).flatMap fun index =>
        nodes (.bucket priority index)).Nodup := by
      apply List.nodup_flatMap.mpr
      refine ⟨fun index _ => nodup _, ?_⟩
      apply (List.nodup_finRange BUCKET_COUNT).imp
      intro first second different finalizer inFirst inSecond
      rw [members] at inFirst inSecond
      have places := inFirst.symm.trans inSecond
      apply different
      simpa using places
    refine ⟨_, ⟨fun index => nodes (.bucket priority index), fun index =>
      chain (.bucket priority index), rfl⟩, distinct, ?_⟩
    rw [← card, ← List.toFinset_card_of_nodup distinct]
    congr 2
    ext finalizer
    rw [List.mem_toFinset, List.mem_flatMap, isWaiting]
    simp only [List.mem_finRange, true_and, members, FinalizerPlace.loc_eq_bucket]
  announced := invariant.announced
  collects idle collector graph marking trace := by
    obtain ⟨after, -, stepped, -⟩ := invariant.collect idle collector graph marking trace
    exact ⟨after, stepped⟩

theorem invariant_initial (tableCount : ℕ) :
    (FinalizerMachine.initial tableCount).Invariant fun _ => .unattached where
  stacked loc := by
    refine ⟨[], ?_, List.nodup_nil, by simp [FinalizerPlace.loc]⟩
    cases loc <;> exact .nil
  calls := by rintro _ _ ⟨⟩
  attaching := by rintro _ _ ⟨⟩
  unlinking := by rintro _ _ ⟨⟩
  status _ := rfl
  waiting := by rintro _ _ _ ⟨⟩
  hasObject _ notInit := absurd rfl notInit
  popped := by simp [FinalizerMachine.initial]
  poppedOnce := List.nodup_nil
  loose _ _ := rfl
  counted priority := ⟨∅, by simp, rfl⟩
  announced := by
    refine ⟨∅, ?_, rfl⟩
    intro finalizer
    simp [FinalizerMachine.initial, gcMakeFinalizerState, freshFinalizer]

/-- Every step keeps the invariant. -/
theorem FinalizerMachine.Invariant.step (invariant : machine.Invariant place)
    {action : FinalizerAction} (stepped : machine.step action = .next after) :
    ∃ placeAfter, after.Invariant placeAfter := by
  cases action with
  | start =>
      cases stepped
      exact ⟨place, invariant.start⟩
  | attach mutator finalizer priority object closure => exact ⟨_, invariant.attach stepped⟩
  | pop mutator => exact ⟨place, invariant.pop stepped⟩
  | access mutator spurious =>
      change machine.access mutator spurious (machine.calls.getD mutator .idle) = .next after
        at stepped
      rw [List.getD_eq_getElem?_getD] at stepped
      cases found : machine.calls[mutator]? with
      | none =>
          rw [found] at stepped
          cases stepped
      | some call =>
          rw [found] at stepped
          change machine.access mutator spurious call = .next after at stepped
          cases call with
          | idle => cases stepped
          | counting finalizer priority => exact ⟨place, invariant.counting found spurious stepped⟩
          | choosing finalizer priority index =>
              exact ⟨place, invariant.choosing found spurious stepped⟩
          | onList stage => exact ⟨_, invariant.onList found stepped⟩
  | setCallback hasCallback =>
      cases stepped
      refine ⟨place, { invariant with calls := ?_ }⟩
      intro mutator call found
      have knows := invariant.calls mutator call found
      apply knows.frame
      · rintro stage rfl
        exact knows.1
      · exact fun _ _ => rfl
      · rfl
      · exact fun _ => id
      · exact fun _ _ => rfl
  | collect collector graph marking trace =>
      have idle : ∀ call ∈ machine.calls, call = .idle := by
        change (Outcome.require _ >>= _) = _ at stepped
        rw [Outcome.require_bind_eq_next] at stepped
        exact stepped.1
      obtain ⟨result, placeAfter, collected, kept⟩ :=
        invariant.collect idle collector graph marking trace
      rw [collected] at stepped
      cases stepped
      exact ⟨placeAfter, kept⟩

theorem exists_invariant (reached : finalizerSystem.Reachable machine) :
    ∃ place, machine.Invariant place := by
  apply System.ReachableBy.invariant finalizerSystem ?_ ?_ reached
  · rintro state ⟨tableCount, rfl⟩
    exact ⟨_, invariant_initial tableCount⟩
  · rintro before action after ⟨place, invariant⟩ - stepped
    exact invariant.step stepped

/-- However mutators attach and pop finalizers and collections come between, no finalizer is lost,
none is on two lists or handed out twice, and collections do not fail. -/
theorem finalizers_conserved (reached : finalizerSystem.Reachable machine) : machine.Conserved := by
  obtain ⟨place, invariant⟩ := exists_invariant reached
  exact invariant.conserved

/-- Two mutators attach a finalizer each. Both fire, and the mutators pop them at the same time, so
that one of the two has to try again. -/
def contendedPops : List FinalizerAction :=
  [.start, .start, .attach 0 1 0 (.object 8) .null, .attach 1 2 0 (.object 16) .null,
    .access 0 false, .access 1 false, .access 1 false, .access 0 false, .access 0 false,
    .access 1 false, .access 1 true, .access 0 false, .access 1 false, .access 1 false,
    .collect .mmc { objects := [(8, { space := .small, fields := [] }),
      (16, { space := .small, fields := [] })] } { visited := ∅, roots := [] } id,
    .pop 0, .pop 1, .access 0 false, .access 1 false, .access 1 false, .access 0 false,
    .access 0 false, .access 0 false, .access 0 false, .access 1 false]

theorem finalizers_conserved_contended :
    ∃ machine, finalizerSystem.Reachable machine ∧ machine.popped = [2, 1] ∧
      machine.Conserved := by
  have leads : (System.runBy finalizerSystem.step (fun _ _ => True) (.initial 1)
      contendedPops).leadsTo (fun machine => decide (machine.popped = [2, 1])) = true := by
    decide +kernel
  obtain ⟨machine, ran, test⟩ := Outcome.exists_next_of_leadsTo leads
  have reached := System.ReachableBy.of_runBy finalizerSystem (fun _ _ => True) (fun _ _ => id)
    (.initial ⟨1, rfl⟩) contendedPops ran
  exact ⟨machine, reached, of_decide_eq_true test, finalizers_conserved reached⟩

end Runs

end Whippet.Finalizers
