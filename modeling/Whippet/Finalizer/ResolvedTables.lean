import Mathlib.Data.Finset.Card
import Whippet.Finalizer.ResolvedLists

/-!
What a resolution does to a table of finalizers.

The finalizers of a table are resolved in the order of its buckets. Between collections each
finalizer is in a bucket or among the fired ones, or on no list at all.

Owns: the invariant of the tables between collections, and that a resolution keeps it, fires some of
the finalizers of its priority, keeps the others of them and leaves the rest alone. Does not own:
attaching finalizers and popping the fired ones.
-/

namespace Whippet.Finalizers

open Function
open Ephemerons (Ref)

/-! ## Tables -/

/-- The lists of finalizers between collections. -/
def worldLists (world : FinalizerWorld) (count : ListName → ℕ) : LinkedLists ListName ℕ where
  head
    | .bucket priority index => (world.tables priority).buckets index
    | .scratch _ => 0
    | .cursor => 0
    | .fired => world.fired
  count := count
  next finalizer := (world.finalizers finalizer).next

namespace FinalizerWorld

variable (world : FinalizerWorld)

/-- Each finalizer is where `listed` says. -/
def Holds (listed : ℕ → Option ListName) : Prop :=
  ∃ count, (worldLists world count).Listed 0 listed

/-- The finalizers of a table in the order in which they are resolved. -/
def Ordered (priority : ℕ) (order : List ℕ) : Prop :=
  ∃ chains : Fin BUCKET_COUNT → List ℕ,
    (∀ index, Chained (fun finalizer => (world.finalizers finalizer).next) 0
      ((world.tables priority).buckets index) (chains index)) ∧
        order = (List.finRange BUCKET_COUNT).flatMap chains

/-- The finalizers of a bucket are active and have an object, and the tables count theirs. -/
structure Sound (listed : ℕ → Option ListName) : Prop where
  holds : world.Holds listed
  waiting : ∀ finalizer priority index, listed finalizer = some (.bucket priority index) →
    (world.finalizers finalizer).state = .active ∧ (world.finalizers finalizer).object ≠ .null ∧
      priority < world.tableCount
  hasFired : ∀ finalizer, listed finalizer = some .fired →
    (world.finalizers finalizer).state = .fired
  counted : ∀ priority, ∃ members : Finset ℕ,
    (∀ finalizer, finalizer ∈ members ↔ ∃ index, listed finalizer = some (.bucket priority index)) ∧
      members.card = (world.tables priority).finalizerCount

end FinalizerWorld

/-- In the beginning no finalizer is on a list. -/
theorem sound_gcMakeFinalizerState (tableCount : ℕ) {finalizers : ℕ → Finalizer}
    (unlinked : ∀ finalizer, (finalizers finalizer).next = 0) :
    (gcMakeFinalizerState tableCount finalizers).Sound fun _ => none where
  holds := by
    refine ⟨fun _ => 0, ?_, fun finalizer _ => unlinked finalizer⟩
    intro name
    have isEmpty :
        (worldLists (gcMakeFinalizerState tableCount finalizers) fun _ => 0).head name = 0 := by
      cases name <;> rfl
    refine ⟨[], ?_, List.nodup_nil, rfl, by simp⟩
    rw [isEmpty]
    exact .nil
  waiting := nofun
  hasFired := nofun
  counted priority := ⟨∅, by simp, rfl⟩

section Tables

variable {world : FinalizerWorld} {listed : ℕ → Option ListName} {priority finalizer : ℕ}
variable {order : List ℕ}

theorem FinalizerWorld.Holds.ne_scratch (holds : world.Holds listed) (index : Fin BUCKET_COUNT) :
    listed finalizer ≠ some (.scratch index) := by
  obtain ⟨count, isListed⟩ := holds
  have isEmpty : (worldLists world count).head (.scratch index) = 0 := rfl
  exact isListed.head_eq_null_iff.mp isEmpty finalizer

theorem FinalizerWorld.Holds.mem_iff (holds : world.Holds listed)
    (ordered : world.Ordered priority order) :
    finalizer ∈ order ↔ ∃ index, listed finalizer = some (.bucket priority index) := by
  obtain ⟨count, isListed⟩ := holds
  obtain ⟨chains, chained, rfl⟩ := ordered
  rw [List.mem_flatMap]
  have inChain (index : Fin BUCKET_COUNT) :
      finalizer ∈ chains index ↔ listed finalizer = some (.bucket priority index) := by
    obtain ⟨nodes, chain, -, -, members⟩ := isListed.chain (.bucket priority index)
    rw [(chained index).unique chain]
    exact members finalizer
  simp only [List.mem_finRange, true_and, inChain]

theorem FinalizerWorld.Holds.nodup (holds : world.Holds listed)
    (ordered : world.Ordered priority order) : order.Nodup := by
  obtain ⟨count, isListed⟩ := holds
  obtain ⟨chains, chained, rfl⟩ := ordered
  have bucket (index : Fin BUCKET_COUNT) : (chains index).Nodup ∧
      ∀ finalizer ∈ chains index, listed finalizer = some (.bucket priority index) := by
    obtain ⟨nodes, chain, nodup, -, members⟩ := isListed.chain (.bucket priority index)
    rw [(chained index).unique chain]
    exact ⟨nodup, fun finalizer => (members finalizer).mp⟩
  apply List.nodup_flatMap.mpr
  refine ⟨fun index _ => (bucket index).1, ?_⟩
  apply (List.nodup_finRange BUCKET_COUNT).imp
  intro first second different finalizer inFirst inSecond
  have places :=
    ((bucket first).2 finalizer inFirst).symm.trans ((bucket second).2 finalizer inSecond)
  apply different
  simpa using places

theorem FinalizerWorld.Holds.exists_order (holds : world.Holds listed) (priority : ℕ) :
    ∃ order, world.Ordered priority order := by
  obtain ⟨count, isListed⟩ := holds
  have bucket (index : Fin BUCKET_COUNT) : ∃ nodes,
      Chained (fun finalizer => (world.finalizers finalizer).next) 0
        ((world.tables priority).buckets index) nodes := by
    obtain ⟨nodes, chain, -⟩ := isListed.chain (.bucket priority index)
    exact ⟨nodes, chain⟩
  choose chains chained using bucket
  exact ⟨_, chains, chained, rfl⟩

theorem FinalizerWorld.Sound.length_eq (sound : world.Sound listed)
    (ordered : world.Ordered priority order) :
    order.length = (world.tables priority).finalizerCount := by
  obtain ⟨members, isMember, card⟩ := sound.counted priority
  rw [← card, ← List.toFinset_card_of_nodup (sound.holds.nodup ordered)]
  congr 1
  ext finalizer
  rw [List.mem_toFinset, sound.holds.mem_iff ordered, isMember]

end Tables

/-! ## The loop over the buckets -/

section Buckets

variable (collector : Collector) (graph : ObjectGraph) {objectOf : ℕ → Ref}
variable {state : Resolution} {listed : ℕ → Option ListName} {priority : ℕ}

/-- The finalizers at the cursor are those of the bucket that it was put on. -/
theorem resolveTaken_spec {index : Fin BUCKET_COUNT} {nodes : List ℕ} {rounds : ℕ}
    (linked : Linked priority index.val 0 state listed)
    (chain : Chained (fun other => (state.world.finalizers other).next) 0
      ((state.world.tables priority).buckets index) nodes)
    (enough : nodes.length < rounds)
    (objects : ∀ other, (state.world.finalizers other).object = objectOf other)
    (ready : ∀ other ∈ nodes, objectOf other ≠ .null ∧
      (state.world.finalizers other).state = .active) :
    ∃ after listedAfter, Resolution.resolveBucket collector graph rounds
        ((state.world.tables priority).buckets index) state = .next after ∧
      Linked priority (index.val + 1) 0 after listedAfter ∧
        Resolved collector graph objectOf nodes state after listed listedAfter := by
  have taken := linked.take
  obtain ⟨count, holds⟩ := linked
  obtain ⟨bucketNodes, bucketChain, nodup, -, members⟩ := holds.chain (.bucket priority index)
  have notTaken : ¬(priority = priority ∧ index.val < index.val) := fun both => lt_irrefl _ both.2
  have head : (resolutionLists priority index.val 0 state count).head (.bucket priority index) =
      (state.world.tables priority).buckets index := if_neg notTaken
  rw [head] at bucketChain
  obtain rfl : nodes = bucketNodes := chain.unique bucketChain
  obtain ⟨after, listedAfter, looped, stillLinked, resolved⟩ :=
    resolveBucket_spec collector graph taken chain nodup enough objects ready
  refine ⟨after, listedAfter, looped, stillLinked, { resolved with others := ?_ }⟩
  intro other outside
  obtain ⟨place, same⟩ := resolved.others other outside
  refine ⟨?_, same⟩
  rw [place, if_neg]
  intro onList
  exact outside ((members other).mpr onList)

/-- The loop over the buckets that are left resolves their finalizers. -/
theorem resolveBuckets_spec {chains : Fin BUCKET_COUNT → List ℕ} {table : FinalizerTable}
    {taken : ℕ} (indices : List (Fin BUCKET_COUNT))
    (left : indices = (List.finRange BUCKET_COUNT).drop taken)
    (linked : Linked priority taken 0 state listed) (isTable : state.world.tables priority = table)
    (chained : ∀ index ∈ indices, Chained (fun other => (state.world.finalizers other).next) 0
      (table.buckets index) (chains index))
    (distinct : (indices.flatMap chains).Nodup)
    (enough : ∀ index, (chains index).length ≤ table.finalizerCount)
    (objects : ∀ other, (state.world.finalizers other).object = objectOf other)
    (ready : ∀ other ∈ indices.flatMap chains, objectOf other ≠ .null ∧
      (state.world.finalizers other).state = .active) :
    ∃ after listedAfter,
      Resolution.resolveBuckets collector graph table indices state = .next after ∧
        Linked priority (max taken BUCKET_COUNT) 0 after listedAfter ∧
          Resolved collector graph objectOf (indices.flatMap chains) state after listed
            listedAfter := by
  induction indices generalizing state listed taken with
  | nil =>
      have allTaken : BUCKET_COUNT ≤ taken := by
        have isEmpty := List.drop_eq_nil_iff.mp left.symm
        rwa [List.length_finRange] at isEmpty
      refine ⟨state, listed, rfl, ?_, .refl state listed⟩
      rwa [max_eq_left allTaken]
  | cons index indices inductionHypothesis =>
      have inRange : taken < BUCKET_COUNT := by
        by_contra outside
        rw [List.drop_eq_nil_of_le] at left
        · cases left
        · rw [List.length_finRange]
          exact not_lt.mp outside
      have inList : taken < (List.finRange BUCKET_COUNT).length := by
        rwa [List.length_finRange]
      rw [List.drop_eq_getElem_cons inList, List.getElem_finRange] at left
      obtain ⟨rfl, rest⟩ := List.cons.inj left
      rw [List.flatMap_cons] at distinct ready ⊢
      obtain ⟨-, restDistinct, apart⟩ := List.nodup_append.mp distinct
      have chain := chained _ List.mem_cons_self
      rw [← isTable] at chain
      obtain ⟨middle, listedMiddle, looped, stillLinked, resolved⟩ :=
        resolveTaken_spec collector graph linked chain (Nat.lt_succ_of_le (enough _)) objects
          fun other member => ready other (List.mem_append_left _ member)
      have kept {other : ℕ} (later : other ∈ indices.flatMap chains) :
          middle.world.finalizers other = state.world.finalizers other := by
        apply (resolved.others other ?_).2
        intro member
        exact apart other member other later rfl
      have restChained (other : Fin BUCKET_COUNT) (member : other ∈ indices) :
          Chained (fun finalizer => (middle.world.finalizers finalizer).next) 0
            (table.buckets other) (chains other) := by
        apply (chained other (List.mem_cons_of_mem _ member)).frame
        intro finalizer onChain
        rw [kept (List.mem_flatMap.mpr ⟨other, member, onChain⟩)]
      obtain ⟨after, listedAfter, restLooped, finallyLinked, restResolved⟩ :=
        inductionHypothesis rest stillLinked
          ((congrFun resolved.tables_eq priority).trans isTable) restChained restDistinct
          (fun other => (resolved.object_eq other).trans (objects other))
          (fun other later => by
            rw [kept later]
            exact ready other (List.mem_append_right _ later))
      refine ⟨after, listedAfter, ?_, ?_, resolved.trans restResolved distinct⟩
      · rw [Resolution.resolveBuckets, Outcome.bind_eq_next]
        rw [isTable] at looped
        exact ⟨middle, looped, restLooped⟩
      · rw [max_eq_right (Nat.succ_le_of_lt inRange)] at finallyLinked
        rwa [max_eq_right inRange.le]

end Buckets

/-! ## A whole resolution -/

/-- The finalizers of the table that was built are in the buckets of its priority. -/
def settledName (priority : ℕ) : ListName → ListName
  | .scratch index => .bucket priority index
  | name => name

/-- Where a list comes from when the table that was built is copied. -/
def settledSource (priority : ℕ) : ListName → Option ListName
  | .bucket other index => some (if other = priority then .scratch index else .bucket other index)
  | .scratch _ => none
  | .cursor => some .cursor
  | .fired => some .fired

/-- What a resolution does to the finalizers of a priority, and to the others. -/
structure ResolvedTable (collector : Collector) (graph : ObjectGraph) (marking : Marking)
    (priority : ℕ) (order : List ℕ) (world after : FinalizerWorld)
    (listed listedAfter : ℕ → Option ListName) (fired : List ℕ) : Prop where
  fired_eq : fired = fires collector graph (fun finalizer => (world.finalizers finalizer).object)
    marking order
  sound : after.Sound listedAfter
  hasFired : ∀ finalizer ∈ fired, listedAfter finalizer = some .fired
  kept : ∀ finalizer ∈ order, finalizer ∉ fired →
    ∃ index, listedAfter finalizer = some (.bucket priority index)
  others : ∀ finalizer, finalizer ∉ order → listedAfter finalizer = listed finalizer ∧
    after.finalizers finalizer = world.finalizers finalizer
  object_eq : ∀ finalizer,
    (after.finalizers finalizer).object = (world.finalizers finalizer).object
  closure_eq : ∀ finalizer,
    (after.finalizers finalizer).closure = (world.finalizers finalizer).closure
  tableCount_eq : after.tableCount = world.tableCount
  firedThisCycle_eq : after.firedThisCycle = world.firedThisCycle + fired.length

section Resolving

variable {world : FinalizerWorld} {listed : ℕ → Option ListName} {priority : ℕ} {order : List ℕ}

theorem FinalizerWorld.Holds.linked (holds : world.Holds listed) (scratch : ℕ) (marking : Marking)
    (priority : ℕ) :
    Linked priority 0 0
      { world := world, scratch := emptyTable, finalizersFired := scratch, marking := marking }
      listed := by
  obtain ⟨count, isListed⟩ := holds
  refine ⟨count, ?_⟩
  convert isListed using 1
  rw [resolutionLists, worldLists, LinkedLists.mk.injEq]
  refine ⟨?_, rfl, rfl⟩
  funext name
  cases name with
  | bucket other index => simp
  | scratch index => rfl
  | cursor => rfl
  | fired => rfl

/-- The table that was built takes the place of the one that was taken apart. -/
theorem Linked.settle {state : Resolution}
    (linked : Linked priority BUCKET_COUNT 0 state listed) (firedThisCycle : ℕ) :
    FinalizerWorld.Holds { state.world with
      tables := update state.world.tables priority state.scratch
      firedThisCycle := firedThisCycle }
      fun finalizer => (listed finalizer).map (settledName priority) := by
  obtain ⟨count, isListed⟩ := linked
  refine ⟨fun other => (settledSource priority other).elim 0 count, ?_⟩
  apply isListed.rename (settledName priority) (settledSource priority)
  · rfl
  · intro other
    cases other with
    | bucket other index =>
        by_cases same : other = priority
        · subst same
          simp [worldLists, settledSource, resolutionLists]
        · simp [worldLists, settledSource, resolutionLists, same]
    | scratch index => rfl
    | cursor => rfl
    | fired => rfl
  · intro name other nonempty
    cases name with
    | bucket first index =>
        have different : first ≠ priority := by
          rintro rfl
          exact nonempty (if_pos ⟨rfl, index.isLt⟩)
        cases other with
        | bucket second position =>
            by_cases same : second = priority
            · subst same
              simp [settledName, settledSource, different]
            · simp [settledName, settledSource, same, eq_comm]
        | scratch position => simp [settledName, settledSource]
        | cursor => simp [settledName, settledSource]
        | fired => simp [settledName, settledSource]
    | scratch index =>
        cases other with
        | bucket second position =>
            by_cases same : second = priority
            · subst same
              simp [settledName, settledSource, eq_comm]
            · simp [settledName, settledSource, same, Ne.symm same]
        | scratch position => simp [settledName, settledSource]
        | cursor => simp [settledName, settledSource]
        | fired => simp [settledName, settledSource]
    | cursor => exact absurd rfl nonempty
    | fired =>
        cases other with
        | bucket second position =>
            by_cases same : second = priority
            · subst same
              simp [settledName, settledSource]
            · simp [settledName, settledSource, same]
        | scratch position => simp [settledName, settledSource]
        | cursor => simp [settledName, settledSource]
        | fired => simp [settledName, settledSource]
  · intro other
    rfl

theorem settledName_eq {name : ListName} (notScratch : ∀ index, name ≠ .scratch index) :
    settledName priority name = name := by
  cases name with
  | scratch index => exact absurd rfl (notScratch index)
  | bucket other index => rfl
  | cursor => rfl
  | fired => rfl

/-- The table is settled when all its finalizers are resolved. -/
theorem Resolved.settle {collector : Collector} {graph : ObjectGraph} {marking : Marking}
    {after : Resolution} {listedAfter : ℕ → Option ListName}
    (resolved : Resolved collector graph (fun finalizer => (world.finalizers finalizer).object)
      order
      { world := world, scratch := emptyTable, finalizersFired := 0, marking := marking } after
      listed listedAfter)
    (sound : world.Sound listed) (inRange : priority < world.tableCount)
    (inOrder : ∀ {finalizer}, finalizer ∈ order ↔
      ∃ index, listed finalizer = some (.bucket priority index))
    (nodup : order.Nodup) (length : order.length = (world.tables priority).finalizerCount)
    (linked : Linked priority BUCKET_COUNT 0 after listedAfter) :
    ResolvedTable collector graph marking priority order world
      { after.world with
        tables := update after.world.tables priority after.scratch
        firedThisCycle := after.world.firedThisCycle + after.finalizersFired }
      listed (fun finalizer => (listedAfter finalizer).map (settledName priority))
      (fires collector graph (fun finalizer => (world.finalizers finalizer).object) marking
        order) := by
  have hasFired := resolved.fired
  have kept := resolved.kept
  have counted := resolved.counted
  have sublist : (fires collector graph (fun finalizer => (world.finalizers finalizer).object)
      marking order).Sublist order := fires_sublist order
  dsimp only at hasFired kept counted
  set fired := fires collector graph (fun finalizer => (world.finalizers finalizer).object) marking
    order
  have outside (finalizer : ℕ) (notMember : finalizer ∉ order) :
      (listedAfter finalizer).map (settledName priority) = listed finalizer ∧
        after.world.finalizers finalizer = world.finalizers finalizer := by
    obtain ⟨place, same⟩ := resolved.others finalizer notMember
    refine ⟨?_, same⟩
    rw [place]
    cases isListed : listed finalizer with
    | none => rfl
    | some name =>
        rw [Option.map_some, settledName_eq]
        rintro index rfl
        exact sound.holds.ne_scratch index isListed
  have firedPlace (finalizer : ℕ) (isFired : finalizer ∈ fired) :
      (listedAfter finalizer).map (settledName priority) = some .fired := by
    rw [(hasFired finalizer isFired).1]
    rfl
  have keptPlace (finalizer : ℕ) (member : finalizer ∈ order) (notFired : finalizer ∉ fired) :
      ∃ index, (listedAfter finalizer).map (settledName priority) =
        some (.bucket priority index) := by
    obtain ⟨⟨index, place⟩, -⟩ := kept finalizer member notFired
    refine ⟨index, ?_⟩
    rw [place]
    rfl
  have inBucket (finalizer : ℕ) : (finalizer ∈ order ∧ finalizer ∉ fired) ↔
      ∃ index, (listedAfter finalizer).map (settledName priority) =
        some (.bucket priority index) := by
    constructor
    · rintro ⟨member, notFired⟩
      exact keptPlace finalizer member notFired
    · rintro ⟨index, place⟩
      have notFired : finalizer ∉ fired := by
        intro isFired
        rw [firedPlace finalizer isFired] at place
        cases place
      refine ⟨?_, notFired⟩
      by_contra notMember
      rw [(outside finalizer notMember).1] at place
      exact notMember (inOrder.mpr ⟨index, place⟩)
  refine
    { fired_eq := rfl
      sound := ⟨linked.settle _, ?_, ?_, ?_⟩
      hasFired := firedPlace
      kept := keptPlace
      others := outside
      object_eq := resolved.object_eq
      closure_eq := resolved.closure_eq
      tableCount_eq := resolved.tableCount_eq
      firedThisCycle_eq := ?_ }
  · intro finalizer other index place
    dsimp only
    rw [resolved.object_eq, resolved.tableCount_eq]
    by_cases member : finalizer ∈ order
    · by_cases isFired : finalizer ∈ fired
      · rw [firedPlace finalizer isFired] at place
        cases place
      · obtain ⟨position, here⟩ := keptPlace finalizer member isFired
        rw [here] at place
        cases place
        obtain ⟨before, wasHere⟩ := inOrder.mp member
        exact ⟨(kept finalizer member isFired).2,
          (sound.waiting finalizer priority before wasHere).2.1, inRange⟩
    · obtain ⟨samePlace, same⟩ := outside finalizer member
      rw [samePlace] at place
      rw [same]
      exact sound.waiting finalizer other index place
  · intro finalizer place
    dsimp only
    by_cases member : finalizer ∈ order
    · by_cases isFired : finalizer ∈ fired
      · exact (hasFired finalizer isFired).2
      · obtain ⟨position, here⟩ := keptPlace finalizer member isFired
        rw [here] at place
        cases place
    · obtain ⟨samePlace, same⟩ := outside finalizer member
      rw [samePlace] at place
      rw [same]
      exact sound.hasFired finalizer place
  · intro other
    dsimp only
    by_cases same : other = priority
    · subst same
      refine ⟨order.toFinset \ fired.toFinset, ?_, ?_⟩
      · intro finalizer
        rw [Finset.mem_sdiff, List.mem_toFinset, List.mem_toFinset]
        exact inBucket finalizer
      · rw [Finset.card_sdiff_of_subset, List.toFinset_card_of_nodup nodup,
          List.toFinset_card_of_nodup (sublist.nodup nodup), update_self]
        · have noneBefore : emptyTable.finalizerCount = 0 := rfl
          omega
        · intro finalizer isFired
          rw [List.mem_toFinset] at isFired ⊢
          exact sublist.subset isFired
    · rw [update_of_ne same, resolved.tables_eq]
      obtain ⟨members, isMember, card⟩ := sound.counted other
      refine ⟨members, ?_, card⟩
      intro finalizer
      rw [isMember]
      by_cases member : finalizer ∈ order
      · obtain ⟨before, wasHere⟩ := inOrder.mp member
        rw [wasHere]
        constructor
        · rintro ⟨index, place⟩
          cases place
          exact absurd rfl same
        · rintro ⟨index, place⟩
          by_cases isFired : finalizer ∈ fired
          · rw [firedPlace finalizer isFired] at place
            cases place
          · obtain ⟨position, here⟩ := keptPlace finalizer member isFired
            rw [here] at place
            cases place
            exact absurd rfl same
      · rw [(outside finalizer member).1]
  · rw [resolved.firedThisCycle_eq, resolved.firedCount, Nat.zero_add]

/-- A resolution keeps the invariant. It takes each finalizer of its priority to the fired ones or
back to a bucket of the priority. -/
theorem FinalizerWorld.Sound.gcResolveFinalizers_spec (sound : world.Sound listed)
    (collector : Collector) (graph : ObjectGraph) (marking : Marking)
    (inRange : priority < world.tableCount) (ordered : world.Ordered priority order) :
    ∃ after listedAfter fired, world.gcResolveFinalizers collector graph marking priority =
        .next (after, marks collector graph (fun finalizer => (world.finalizers finalizer).object)
          marking order, fired.length) ∧
      ResolvedTable collector graph marking priority order world after listed listedAfter
          fired := by
  have length := sound.length_eq ordered
  have nodup := sound.holds.nodup ordered
  have inOrder {finalizer : ℕ} : finalizer ∈ order ↔
      ∃ index, listed finalizer = some (.bucket priority index) := sound.holds.mem_iff ordered
  unfold FinalizerWorld.gcResolveFinalizers
  rw [Outcome.check_bind inRange]
  by_cases isEmpty : (world.tables priority).finalizerCount = 0
  · obtain rfl : order = [] := List.eq_nil_of_length_eq_zero (length.trans isEmpty)
    refine ⟨world, listed, [], if_neg (not_not_intro isEmpty), ?_⟩
    exact
      { fired_eq := rfl
        sound := sound
        hasFired := nofun
        kept := nofun
        others := fun _ _ => ⟨rfl, rfl⟩
        object_eq := fun _ => rfl
        closure_eq := fun _ => rfl
        tableCount_eq := rfl
        firedThisCycle_eq := rfl }
  · obtain ⟨chains, chained, isOrder⟩ := ordered
    have shorter (index : Fin BUCKET_COUNT) :
        (chains index).length ≤ (world.tables priority).finalizerCount := by
      rw [← length, isOrder, List.flatMap_def]
      apply List.Sublist.length_le
      exact List.sublist_flatten_of_mem (List.mem_map_of_mem (List.mem_finRange index))
    have ready (finalizer : ℕ) (member : finalizer ∈ order) :
        (world.finalizers finalizer).object ≠ .null ∧
          (world.finalizers finalizer).state = .active := by
      obtain ⟨index, onList⟩ := inOrder.mp member
      obtain ⟨isActive, hasObject, -⟩ := sound.waiting finalizer priority index onList
      exact ⟨hasObject, isActive⟩
    rw [isOrder] at nodup ready
    obtain ⟨after, listedAfter, looped, linked, resolved⟩ :=
      resolveBuckets_spec collector graph (List.finRange BUCKET_COUNT) rfl
        (sound.holds.linked 0 marking priority) rfl (fun index _ => chained index) nodup shorter
        (fun _ => rfl) ready
    rw [← isOrder] at nodup ready resolved
    rw [if_pos isEmpty]
    refine ⟨_, _, fires collector graph (fun finalizer => (world.finalizers finalizer).object)
      marking order, ?_, resolved.settle sound inRange inOrder nodup length linked⟩
    rw [Outcome.bind_eq_next]
    refine ⟨after, looped, ?_⟩
    rw [Outcome.pure_eq_next, resolved.marking_eq, resolved.firedCount, Nat.zero_add]

end Resolving

end Whippet.Finalizers
