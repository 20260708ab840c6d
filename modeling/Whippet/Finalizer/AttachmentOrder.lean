import Whippet.Finalizer.ResolvedTables

/-!
Whether the order in which finalizers are attached says which of them fire.

Attaching pushes a finalizer to the bucket that the count of its table says, so the order in which
finalizers are attached is not that in which they are resolved. Still any of them can be the first
one that is resolved, if it is attached at the right place.

Owns: attaching finalizers one after the other, and when the finalizers that fire do not depend on
the order. Does not own: finalizers that are attached at the same time.
-/

namespace Whippet.Finalizers

open Function
open Ephemerons (Ref)

/-- Finalizers are attached one after the other. -/
def FinalizerWorld.attachAll (priority : ℕ) :
    List ℕ → FinalizerWorld → Outcome FinalizerFailure FinalizerWorld
  | [], world => pure world
  | finalizer :: rest, world => do
      let after ← world.attach finalizer priority
      attachAll priority rest after

/-- The finalizer fires in the next collection if finalizers are attached in this order. -/
def FinalizerWorld.FiresWhenAttached (start : FinalizerWorld) (collector : Collector)
    (graph : ObjectGraph) (marking : Marking) (priority : ℕ) (order : List ℕ) (finalizer : ℕ) :
    Prop :=
  ∃ attached after marks fired, start.attachAll priority order = .next attached ∧
    attached.gcResolveFinalizers collector graph marking priority = .next (after, marks, fired) ∧
      (after.finalizers finalizer).state = .fired

section Attaching

variable {world : FinalizerWorld} {listed : ℕ → Option ListName} {priority finalizer : ℕ}

/-- A finalizer that can be attached. -/
structure Attachable (world : FinalizerWorld) (listed : ℕ → Option ListName) (finalizer : ℕ) :
    Prop where
  proper : finalizer ≠ 0
  free : listed finalizer = none
  isInit : (world.finalizers finalizer).state = .init
  hasObject : (world.finalizers finalizer).object ≠ .null

/-- What attaching a finalizer gives. -/
structure Attached (world after : FinalizerWorld) (listed : ℕ → Option ListName)
    (priority finalizer : ℕ) : Prop where
  sound : after.Sound
    (update listed finalizer (some (.bucket priority (world.tables priority).nextBucket)))
  tables_eq : after.tables = update world.tables priority ((world.tables priority).add finalizer)
  tableCount_eq : after.tableCount = world.tableCount
  others : ∀ other, other ≠ finalizer → after.finalizers other = world.finalizers other
  object_eq : ∀ other, (after.finalizers other).object = (world.finalizers other).object

theorem FinalizerWorld.Holds.attach {after : FinalizerWorld} (holds : world.Holds listed)
    (proper : finalizer ≠ 0) (free : listed finalizer = none)
    (finalizers : after.finalizers = update world.finalizers finalizer
      { world.finalizers finalizer with
        state := .active
        next := (world.tables priority).buckets (world.tables priority).nextBucket })
    (tables : after.tables = update world.tables priority ((world.tables priority).add finalizer))
    (fired : after.fired = world.fired) :
    after.Holds
      (update listed finalizer (some (.bucket priority (world.tables priority).nextBucket))) := by
  obtain ⟨count, isListed⟩ := holds
  refine ⟨((worldLists world count).push
    (.bucket priority (world.tables priority).nextBucket) finalizer).count, ?_⟩
  convert isListed.push proper free using 1
  rw [LinkedLists.mk.injEq]
  refine ⟨?_, rfl, ?_⟩
  · funext name
    rw [LinkedLists.head_push]
    cases name with
    | bucket other index =>
        by_cases same : other = priority
        · subst same
          by_cases isNext : index = (world.tables other).nextBucket
          · subst isNext
            simp [worldLists, tables, FinalizerTable.add]
          · simp [worldLists, tables, FinalizerTable.add, isNext]
        · simp [worldLists, tables, same]
    | scratch index => rfl
    | cursor => rfl
    | fired => exact fired
  · funext other
    rw [LinkedLists.next_push]
    by_cases same : other = finalizer
    · subst same
      simp [worldLists, finalizers]
    · simp [worldLists, finalizers, same]

theorem attach_spec (sound : world.Sound listed) (inRange : priority < world.tableCount)
    (attachable : Attachable world listed finalizer) :
    ∃ after, world.attach finalizer priority = .next after ∧
      Attached world after listed priority finalizer := by
  obtain ⟨proper, free, isInit, hasObject⟩ := attachable
  unfold FinalizerWorld.attach
  rw [Outcome.check_bind isInit, Outcome.check_bind hasObject, Outcome.check_bind inRange]
  have finalizers : finalizerListPush (update world.finalizers finalizer
      { world.finalizers finalizer with state := .active })
        ((world.tables priority).buckets (world.tables priority).nextBucket) finalizer =
          update world.finalizers finalizer { world.finalizers finalizer with
            state := .active
            next := (world.tables priority).buckets (world.tables priority).nextBucket } := by
    unfold finalizerListPush
    rw [update_self, update_idem]
  refine ⟨_, rfl, ?_⟩
  rw [finalizers]
  refine
    { sound := ⟨?_, ?_, ?_, ?_⟩
      tables_eq := rfl
      tableCount_eq := rfl
      others := fun other different => update_of_ne different _ _
      object_eq := update_field Finalizer.object rfl }
  · exact sound.holds.attach proper free rfl rfl rfl
  · intro other place index here
    dsimp only
    by_cases same : other = finalizer
    · subst same
      rw [update_self] at here ⊢
      cases here
      exact ⟨rfl, hasObject, inRange⟩
    · rw [update_of_ne same] at here ⊢
      exact sound.waiting other place index here
  · intro other here
    dsimp only
    by_cases same : other = finalizer
    · subst same
      rw [update_self] at here
      cases here
    · rw [update_of_ne same] at here ⊢
      exact sound.hasFired other here
  · intro other
    obtain ⟨members, isMember, card⟩ := sound.counted other
    dsimp only
    by_cases same : other = priority
    · subst same
      have notMember : finalizer ∉ members := by
        rw [isMember, free]
        exact nofun
      refine ⟨insert finalizer members, ?_, ?_⟩
      · intro member
        by_cases isIt : member = finalizer
        · subst isIt
          simp
        · simp [isIt, isMember]
      · rw [Finset.card_insert_of_notMem notMember, card, update_self]
        rfl
    · refine ⟨members, ?_, ?_⟩
      · intro member
        by_cases isIt : member = finalizer
        · subst isIt
          simp [isMember, free, Ne.symm same]
        · simp [isIt, isMember]
      · rw [update_of_ne same, card]

/-- What attaching finalizers one after the other gives. -/
structure AttachedAll (world after : FinalizerWorld) (listed listedAfter : ℕ → Option ListName)
    (priority : ℕ) (order : List ℕ) : Prop where
  sound : after.Sound listedAfter
  placed : ∀ finalizer ∈ order, ∃ index, listedAfter finalizer = some (.bucket priority index)
  others : ∀ finalizer, finalizer ∉ order → listedAfter finalizer = listed finalizer
  tableCount_eq : after.tableCount = world.tableCount
  object_eq : ∀ finalizer, (after.finalizers finalizer).object = (world.finalizers finalizer).object
  counted : (after.tables priority).finalizerCount =
    (world.tables priority).finalizerCount + order.length

theorem attachAll_spec {order : List ℕ} (sound : world.Sound listed)
    (inRange : priority < world.tableCount) (distinct : order.Nodup)
    (attachable : ∀ finalizer ∈ order, Attachable world listed finalizer) :
    ∃ after listedAfter, world.attachAll priority order = .next after ∧
      AttachedAll world after listed listedAfter priority order := by
  induction order generalizing world listed with
  | nil =>
      refine ⟨world, listed, rfl, ?_⟩
      exact
        { sound := sound
          placed := nofun
          others := fun _ _ => rfl
          tableCount_eq := rfl
          object_eq := fun _ => rfl
          counted := rfl }
  | cons first order inductionHypothesis =>
      obtain ⟨outside, distinct⟩ := List.nodup_cons.mp distinct
      obtain ⟨middle, stepped, attached⟩ :=
        attach_spec sound inRange (attachable first List.mem_cons_self)
      have different {other : ℕ} (member : other ∈ order) : other ≠ first := by
        rintro rfl
        exact outside member
      have stillAttachable (other : ℕ) (member : other ∈ order) :
          Attachable middle (update listed first
            (some (.bucket priority (world.tables priority).nextBucket))) other := by
        obtain ⟨proper, free, isInit, hasObject⟩ :=
          attachable other (List.mem_cons_of_mem _ member)
        refine ⟨proper, ?_, ?_, ?_⟩
        · rwa [update_of_ne (different member)]
        · rwa [attached.others other (different member)]
        · rwa [attached.object_eq]
      have stillInRange : priority < middle.tableCount := by
        rwa [attached.tableCount_eq]
      obtain ⟨after, listedAfter, ran, rest⟩ :=
        inductionHypothesis attached.sound stillInRange distinct stillAttachable
      refine ⟨after, listedAfter, Outcome.bind_eq_next.mpr ⟨middle, stepped, ran⟩, ?_⟩
      refine
        { sound := rest.sound
          placed := ?_
          others := ?_
          tableCount_eq := rest.tableCount_eq.trans attached.tableCount_eq
          object_eq := fun other => (rest.object_eq other).trans (attached.object_eq other)
          counted := ?_ }
      · intro finalizer member
        rcases List.mem_cons.mp member with rfl | later
        · refine ⟨(world.tables priority).nextBucket, ?_⟩
          rw [rest.others finalizer outside, update_self]
        · exact rest.placed finalizer later
      · intro finalizer notMember
        rw [List.mem_cons, not_or] at notMember
        rw [rest.others finalizer notMember.2, update_of_ne notMember.1]
      · rw [rest.counted, attached.tables_eq, update_self, List.length_cons]
        change (world.tables priority).finalizerCount + 1 + order.length = _
        omega

theorem attachAll_append (before after : List ℕ) (world : FinalizerWorld) :
    world.attachAll priority (before ++ after) =
      (world.attachAll priority before >>= FinalizerWorld.attachAll priority after) := by
  induction before generalizing world with
  | nil => rfl
  | cons first before inductionHypothesis =>
      rw [List.cons_append, FinalizerWorld.attachAll, FinalizerWorld.attachAll]
      cases world.attach first priority with
      | disabled => rfl
      | failed failure => rfl
      | next middle => exact inductionHypothesis middle

def firstBucket : Fin BUCKET_COUNT := ⟨0, by decide⟩

/-- The finalizers after the first of a turn go to the other buckets. -/
theorem attachAll_bucket {order : List ℕ} {after : FinalizerWorld}
    (ran : world.attachAll priority order = .next after)
    (started : (world.tables priority).finalizerCount % BUCKET_COUNT ≠ 0 ∨ order = [])
    (short : (world.tables priority).finalizerCount % BUCKET_COUNT + order.length ≤ BUCKET_COUNT) :
    (after.tables priority).buckets firstBucket = (world.tables priority).buckets firstBucket := by
  induction order generalizing world with
  | nil =>
      cases ran
      rfl
  | cons first order inductionHypothesis =>
      rw [FinalizerWorld.attachAll, Outcome.bind_eq_next] at ran
      obtain ⟨middle, stepped, rest⟩ := ran
      unfold FinalizerWorld.attach at stepped
      rw [Outcome.check_bind_eq_next, Outcome.check_bind_eq_next,
        Outcome.check_bind_eq_next] at stepped
      obtain ⟨-, -, -, stepped⟩ := stepped
      cases stepped
      have notFirst : (world.tables priority).finalizerCount % BUCKET_COUNT ≠ 0 :=
        started.resolve_right (List.cons_ne_nil first order)
      rw [List.length_cons] at short
      have table : (update world.tables priority ((world.tables priority).add first) priority) =
        (world.tables priority).add first := update_self _ _ _
      have next := inductionHypothesis rest
      dsimp only at next
      rw [table] at next
      have counted : ((world.tables priority).add first).finalizerCount =
        (world.tables priority).finalizerCount + 1 := rfl
      rw [counted] at next
      rw [next]
      · refine update_of_ne ?_ _ _
        intro isNext
        exact notFirst (congrArg Fin.val isNext).symm
      · unfold BUCKET_COUNT at short notFirst ⊢
        by_cases isEmpty : order = []
        · exact .inr isEmpty
        · left
          have positive := List.length_pos_of_ne_nil isEmpty
          omega
      · unfold BUCKET_COUNT at short notFirst ⊢
        cases order with
        | nil =>
            rw [List.length_nil]
            omega
        | cons second order =>
            rw [List.length_cons] at short ⊢
            omega

end Attaching

/-! ## The order -/

section Order

variable {start : FinalizerWorld} {listed : ℕ → Option ListName} {priority : ℕ}
variable {collector : Collector} {graph : ObjectGraph} {marking : Marking} {members order : List ℕ}

/-- The first of the last turn is resolved first. -/
theorem head_of_ordered {before after resolved : List ℕ} {first : ℕ} {attached : FinalizerWorld}
    {listedAfter : ℕ → Option ListName} (isOrder : order = before ++ first :: after)
    (turns : before.length % BUCKET_COUNT = 0) (lastTurn : after.length < BUCKET_COUNT)
    (sound : start.Sound listed) (inRange : priority < start.tableCount) (distinct : order.Nodup)
    (attachable : ∀ finalizer ∈ order, Attachable start listed finalizer)
    (noneWaiting : (start.tables priority).finalizerCount = 0)
    (ran : start.attachAll priority order = .next attached)
    (placed : AttachedAll start attached listed listedAfter priority order)
    (ordered : attached.Ordered priority resolved) : ∃ rest, resolved = first :: rest := by
  subst isOrder
  have beforeDistinct := (List.nodup_append.mp distinct).1
  obtain ⟨middle, listedMiddle, ranBefore, early⟩ := attachAll_spec sound inRange beforeDistinct
    fun finalizer member => attachable finalizer (List.mem_append_left _ member)
  rw [attachAll_append, ranBefore, Outcome.bind_next, FinalizerWorld.attachAll,
    Outcome.bind_eq_next] at ran
  obtain ⟨next, stepped, ranAfter⟩ := ran
  have counted := early.counted
  rw [noneWaiting, Nat.zero_add] at counted
  have isFirst : (middle.tables priority).nextBucket = firstBucket := by
    apply Fin.ext
    change (middle.tables priority).finalizerCount % BUCKET_COUNT = 0
    rw [counted, turns]
  unfold FinalizerWorld.attach at stepped
  rw [Outcome.check_bind_eq_next, Outcome.check_bind_eq_next,
    Outcome.check_bind_eq_next] at stepped
  obtain ⟨-, -, -, stepped⟩ := stepped
  cases stepped
  have table : (update middle.tables priority ((middle.tables priority).add first) priority) =
    (middle.tables priority).add first := update_self _ _ _
  have nextCount : ((middle.tables priority).add first).finalizerCount = before.length + 1 := by
    rw [← counted]
    rfl
  have head := attachAll_bucket ranAfter
  dsimp only at head
  rw [table, nextCount] at head
  have isHead : (attached.tables priority).buckets firstBucket = first := by
    rw [head]
    · unfold FinalizerTable.add
      dsimp only
      rw [isFirst, update_self]
    · unfold BUCKET_COUNT at turns ⊢
      left
      omega
    · unfold BUCKET_COUNT at turns lastTurn ⊢
      omega
  obtain ⟨chains, chained, rfl⟩ := ordered
  have proper : first ≠ 0 :=
    (attachable first (List.mem_append_right _ List.mem_cons_self)).proper
  have chain := chained firstBucket
  rw [isHead] at chain
  obtain ⟨rest, isChain, -⟩ := chain.exists_cons proper
  refine ⟨rest ++ (List.finRange BUCKET_COUNT).tail.flatMap chains, ?_⟩
  change (firstBucket :: (List.finRange BUCKET_COUNT).tail).flatMap chains = _
  rw [List.flatMap_cons, isChain, List.cons_append]

/-- Finalizers that are attached in an order are resolved in some order. -/
theorem firesWhenAttached_iff (collector : Collector) (graph : ObjectGraph) (marking : Marking)
    (sound : start.Sound listed) (inRange : priority < start.tableCount)
    (noneWaiting : (start.tables priority).finalizerCount = 0) (distinct : order.Nodup)
    (attachable : ∀ finalizer ∈ order, Attachable start listed finalizer) :
    ∃ resolved : List ℕ, resolved.Perm order ∧
      (∀ before first after, order = before ++ first :: after →
        before.length % BUCKET_COUNT = 0 → after.length < BUCKET_COUNT →
          ∃ rest, resolved = first :: rest) ∧
      ∀ finalizer ∈ order,
        start.FiresWhenAttached collector graph marking priority order finalizer ↔
          finalizer ∈ fires collector graph (fun other => (start.finalizers other).object) marking
            resolved := by
  obtain ⟨attached, listedAfter, ran, placed⟩ := attachAll_spec sound inRange distinct attachable
  obtain ⟨resolved, ordered⟩ := placed.sound.holds.exists_order priority
  have isMember (finalizer : ℕ) : finalizer ∈ resolved ↔ finalizer ∈ order := by
    rw [placed.sound.holds.mem_iff ordered]
    constructor
    · rintro ⟨index, here⟩
      by_contra notMember
      rw [placed.others finalizer notMember] at here
      obtain ⟨waiting, isWaiting, card⟩ := sound.counted priority
      rw [noneWaiting, Finset.card_eq_zero] at card
      have inNone := (isWaiting finalizer).mpr ⟨index, here⟩
      rw [card] at inNone
      exact Finset.notMem_empty finalizer inNone
    · exact placed.placed finalizer
  have perm : resolved.Perm order :=
    (List.perm_ext_iff_of_nodup (placed.sound.holds.nodup ordered) distinct).mpr isMember
  refine ⟨resolved, perm, ?_, ?_⟩
  · intro before first after isOrder turns lastTurn
    exact head_of_ordered isOrder turns lastTurn sound inRange distinct attachable noneWaiting ran
      placed ordered
  · intro finalizer member
    have stillInRange : priority < attached.tableCount := by
      rwa [placed.tableCount_eq]
    obtain ⟨after, listedLast, fired, collected, result⟩ :=
      placed.sound.gcResolveFinalizers_spec collector graph marking stillInRange ordered
    have sameObjects : (fun other => (attached.finalizers other).object) =
        fun other => (start.finalizers other).object := funext placed.object_eq
    have isFired := result.fired_eq
    rw [sameObjects] at isFired
    rw [← isFired]
    constructor
    · rintro ⟨otherAttached, otherAfter, marks, count, ranAgain, collectedAgain, hasFired⟩
      rw [ran] at ranAgain
      cases ranAgain
      rw [collected] at collectedAgain
      cases collectedAgain
      by_contra notFired
      obtain ⟨index, here⟩ := result.kept finalizer ((isMember finalizer).mpr member) notFired
      obtain ⟨isActive, -⟩ := result.sound.waiting finalizer priority index here
      rw [isActive] at hasFired
      cases hasFired
    · intro inFired
      exact ⟨attached, after, _, _, ran, collected,
        result.sound.hasFired finalizer (result.hasFired finalizer inFired)⟩

/-- Any finalizer can be attached so that it is resolved first. -/
theorem exists_first {first : ℕ} (member : first ∈ members) :
    ∃ before after : List ℕ, (before ++ first :: after).Perm members ∧
      before.length % BUCKET_COUNT = 0 ∧ after.length < BUCKET_COUNT := by
  have length := List.length_erase_of_mem member
  have turns := Nat.div_add_mod (members.erase first).length BUCKET_COUNT
  have lastTurn := Nat.mod_lt (members.erase first).length (show 0 < BUCKET_COUNT by decide)
  refine ⟨(members.erase first).take (BUCKET_COUNT * ((members.erase first).length / BUCKET_COUNT)),
    (members.erase first).drop (BUCKET_COUNT * ((members.erase first).length / BUCKET_COUNT)),
    ?_, ?_, ?_⟩
  · apply List.perm_middle.trans
    rw [List.take_append_drop]
    exact (List.perm_cons_erase member).symm
  · rw [List.length_take, Nat.min_eq_left (by omega), Nat.mul_mod_right]
  · rw [List.length_drop]
    omega

/-- Which finalizers fire does not depend on the order in which they are attached, and then they are
those whose objects have not been visited, just if the collector is not the semi-space collector or
no visit of the object of a finalizer visits that of another. -/
theorem fired_ignores_attachment_order_iff (collector : Collector) (graph : ObjectGraph)
    (marking : Marking) (sound : start.Sound listed) (inRange : priority < start.tableCount)
    (noneWaiting : (start.tables priority).finalizerCount = 0) (distinct : members.Nodup)
    (attachable : ∀ finalizer ∈ members, Attachable start listed finalizer) :
    ((∀ order other : List ℕ, order.Perm members → other.Perm members →
      ∀ finalizer ∈ members,
        (start.FiresWhenAttached collector graph marking priority order finalizer ↔
          start.FiresWhenAttached collector graph marking priority other finalizer)) ↔
      (collector = .semi →
        Apart collector graph (fun finalizer => (start.finalizers finalizer).object)
        marking members)) ∧
    ((∀ order : List ℕ, order.Perm members → ∀ finalizer ∈ members,
        (start.FiresWhenAttached collector graph marking priority order finalizer ↔
          gcVisitEphemeronKey graph marking (start.finalizers finalizer).object = false)) ↔
      (collector = .semi →
        Apart collector graph (fun finalizer => (start.finalizers finalizer).object)
        marking members)) := by
  have resolution (order : List ℕ) (perm : order.Perm members) :=
    firesWhenAttached_iff collector graph marking sound inRange noneWaiting
      (perm.nodup_iff.mpr distinct) fun finalizer member =>
        attachable finalizer (perm.mem_iff.mp member)
  have unvisited (apart : Apart collector graph
      (fun finalizer => (start.finalizers finalizer).object) marking members) (order : List ℕ)
      (perm : order.Perm members) (finalizer : ℕ) (member : finalizer ∈ members) :
      start.FiresWhenAttached collector graph marking priority order finalizer ↔
        gcVisitEphemeronKey graph marking (start.finalizers finalizer).object = false := by
    obtain ⟨resolved, isPerm, -, fired⟩ := resolution order perm
    have whole := isPerm.trans perm
    rw [fired finalizer (perm.mem_iff.mpr member),
      apart.mem_fires_iff (whole.nodup_iff.mpr distinct)
      fun other => whole.mem_iff.mp]
    exact and_iff_right (whole.mem_iff.mpr member)
  have always (apart : collector = .semi → Apart collector graph
      (fun finalizer => (start.finalizers finalizer).object) marking members) :
      Apart collector graph (fun finalizer => (start.finalizers finalizer).object) marking
        members := by
    by_cases isSemi : collector = .semi
    · exact apart isSemi
    · exact apart_of_ne_semi isSemi
  have needed (same : ∀ order other : List ℕ, order.Perm members → other.Perm members →
      ∀ finalizer ∈ members,
        (start.FiresWhenAttached collector graph marking priority order finalizer ↔
          start.FiresWhenAttached collector graph marking priority other finalizer)) :
      Apart collector graph (fun finalizer => (start.finalizers finalizer).object) marking
        members := by
    intro first firstMember second secondMember different firstFresh secondFresh
    by_contra visits
    rw [Bool.not_eq_false] at visits
    -- one order resolves `first` first, and another one `second`
    obtain ⟨before, after, perm, turns, lastTurn⟩ := exists_first firstMember
    obtain ⟨otherBefore, otherAfter, otherPerm, otherTurns, otherLast⟩ := exists_first secondMember
    obtain ⟨resolved, -, heads, fired⟩ := resolution _ perm
    obtain ⟨otherResolved, -, otherHeads, otherFired⟩ := resolution _ otherPerm
    obtain ⟨rest, rfl⟩ := heads before first after rfl turns lastTurn
    obtain ⟨otherRest, rfl⟩ := otherHeads otherBefore second otherAfter rfl otherTurns otherLast
    have agree := same _ _ perm otherPerm second secondMember
    rw [fired second (perm.mem_iff.mpr secondMember),
      otherFired second (otherPerm.mem_iff.mpr secondMember)] at agree
    have firesFirst : second ∈ fires collector graph
        (fun other => (start.finalizers other).object) marking (second :: otherRest) := by
      rw [fires, secondFresh]
      exact List.mem_cons_self
    have late := agree.mpr firesFirst
    rw [fires, firstFresh, if_neg Bool.false_ne_true] at late
    rcases List.mem_cons.mp late with isFirst | inRest
    · exact different isFirst.symm
    · exact not_mem_fires visits inRest
  refine ⟨⟨fun same _ => needed same, ?_⟩, ⟨?_, fun apart => unvisited (always apart)⟩⟩
  · intro apart order other perm otherPerm finalizer member
    rw [unvisited (always apart) order perm finalizer member,
      unvisited (always apart) other otherPerm finalizer member]
  · intro exactly _
    apply needed
    intro order other perm otherPerm finalizer member
    rw [exactly order perm finalizer member, exactly other otherPerm finalizer member]

def oneObject : ObjectGraph := { objects := [(8, { space := .small, fields := [] })] }

def forOneObject (_ : ℕ) : Finalizer :=
  { state := .init, object := .object 8, closure := .null, next := 0 }

/-- Of two finalizers for one object, the semi-space collector fires the one that it resolves
first. -/
theorem fired_ignores_attachment_order_shared :
    ¬∀ order other : List ℕ, order.Perm [1, 2] → other.Perm [1, 2] → ∀ finalizer ∈ [1, 2],
      ((gcMakeFinalizerState 1 forOneObject).FiresWhenAttached .semi oneObject
        { visited := ∅, roots := [] } 0 order finalizer ↔
          (gcMakeFinalizerState 1 forOneObject).FiresWhenAttached .semi oneObject
            { visited := ∅, roots := [] } 0 other finalizer) := by
  intro same
  have sound := @sound_gcMakeFinalizerState 1 forOneObject fun _ => rfl
  have ready (finalizer : ℕ) (member : finalizer ∈ [1, 2]) :
      Attachable (gcMakeFinalizerState 1 forOneObject) (fun _ => none) finalizer := by
    refine ⟨?_, rfl, rfl, nofun⟩
    rintro rfl
    simp at member
  have apart := (fired_ignores_attachment_order_iff .semi oneObject { visited := ∅, roots := [] }
    sound (by decide) rfl (by decide) ready).1.mp same rfl
  have kept := apart 1 (by decide) 2 (by decide) (by decide) (by decide) (by decide)
  revert kept
  decide

end Order

end Whippet.Finalizers
