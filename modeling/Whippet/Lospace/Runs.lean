import Whippet.Lospace.Quarantine

/-!
Runs of the large object space.

A request is rounded up to pages. One within a page of the size of the address space overflows, and
takes no pages at all: from fresh pages that is an error, but from quarantine it is a node without
bytes, and then the rest of the node that it came from has the same address.

Owns: the invariant of runs whose requests can be rounded, and a run in which one cannot. Does not
own: what a single operation does.
-/

namespace Whippet.Lospace

open Function Tables SplayTree Outcome

/-! ## Rounding -/

/-- The request is not empty, and is not within a page of the size of the address space. -/
def Roundable (config : Config) (bytes : Word) : Prop :=
  0 < bytes.toNat ∧ bytes.toNat + config.pageSize ≤ 2 ^ 64

instance (config : Config) (bytes : Word) : Decidable (Roundable config bytes) :=
  inferInstanceAs (Decidable (_ ∧ _))

/-- The rounding of such a request does not overflow. -/
theorem Roundable.npages_eq {config : Config} {bytes : Word} (roundable : Roundable config bytes) :
    largeObjectSpaceNpages config bytes =
      (bytes.toNat + config.pageSize - 1) / config.pageSize := by
  obtain ⟨positive, inRange⟩ := roundable
  have page : config.pageSize = 2 ^ config.pageSizeLog2 := rfl
  have pagePositive : 0 < config.pageSize := Nat.two_pow_pos _
  have pageSmall : config.pageSize < 2 ^ 64 := by omega
  have pageWord : (BitVec.ofNat 64 config.pageSize).toNat = config.pageSize := by
    rw [BitVec.toNat_ofNat, Nat.mod_eq_of_lt pageSmall]
  have rounded : (bytes + BitVec.ofNat 64 config.pageSize - 1).toNat =
      bytes.toNat + config.pageSize - 1 := by
    generalize BitVec.ofNat 64 config.pageSize = word at pageWord
    bv_omega
  rw [largeObjectSpaceNpages, BitVec.toNat_ushiftRight, rounded, Nat.shiftRight_eq_div_pow, ← page]

/-- Such a request takes a page at least. -/
theorem Roundable.npages_pos {config : Config} {bytes : Word} (roundable : Roundable config bytes) :
    0 < largeObjectSpaceNpages config bytes := by
  have positive := roundable.1
  rw [roundable.npages_eq]
  apply Nat.div_pos
  · omega
  · exact Nat.two_pow_pos _

/-- A request that cannot be rounded up to pages is not made while there is a node in quarantine. -/
def LospaceAction.IsServable (config : Config) (state : LospaceState) : LospaceAction → Prop
  | .alloc bytes _ _ => (∀ node, state.space.quarantineClass node = none) ∨ Roundable config bytes
  | _ => True

/-- A request that is served from quarantine takes a page at least. -/
theorem LospaceAction.npages_pos_of_isServable {config : Config} {state : LospaceState}
    {bytes : Word}
    {trace : TraceKind} {environment : Environment}
    (servable : (LospaceAction.alloc bytes trace environment).IsServable config state) :
    ∀ node, state.space.quarantineClass node ≠ none → 0 < largeObjectSpaceNpages config bytes := by
  intro node isQuarantined
  rcases servable with noneQuarantined | roundable
  · exact absurd (noneQuarantined node) isQuarantined
  · exact roundable.npages_pos

namespace LospaceState

variable {config : Config} {state after : LospaceState}

/-! ## The invariant -/

/-- The structure is in order, and what was allocated since the last collection is live, not marked
unless by a collection that is going on, and in the nursery if it came out of quarantine. -/
structure Sound (config : Config) (state : LospaceState) : Prop where
  structured : state.space.Structured
  marks : state.space.marked = 1 ∨ state.space.marked = 3
  distinct : (state.allocated.map Prod.fst).Nodup
  live : ∀ pair ∈ state.allocated, state.space.isLive pair.1 = true
  remembered : state.space.Maps state.space.nursery fun node =>
    config.generational = true ∧ (node, true) ∈ state.allocated
  unmarked : state.collecting = none → ∀ pair ∈ state.allocated,
    state.space.isMarked pair.1 = false

theorem Sound.young_live (sound : Sound config state) (node : NodePointer)
    (isYoung : config.generational = true ∧ (node, true) ∈ state.allocated) :
    state.space.isLive node = true := sound.live _ isYoung.2

/-- A map that was just created has no nodes. -/
theorem maps_init {space : LargeObjectSpace} {memory : ℕ → Bool} {map : AddressMap}
    (created : AddressMap.init memory = .next map) : space.Maps map fun _ => False := by
  refine ⟨fun _ => none, ?_, by simp⟩
  rcases Represents.init HashMapEntry memory with failed | ⟨table, made, represents⟩
  · rw [AddressMap.init, failed] at created
    cases created
  · rw [AddressMap.init, made, Outcome.next.injEq] at created
    subst created
    exact represents

theorem sound_initial (initial : (lospaceSystem config).initial state) : Sound config state := by
  obtain ⟨space, collecting, allocated⟩ := state
  obtain ⟨memory, created, idle, noneAllocated⟩ := initial
  simp only [largeObjectSpaceInit, Outcome.bind_eq_next, Outcome.mapFailure_eq_next,
    Outcome.pure_eq_next, Outcome.next.injEq] at created idle noneAllocated
  obtain ⟨objectMap, mapCreated, nursery, nurseryCreated, rfl⟩ := created
  subst idle noneAllocated
  refine ⟨⟨⟨?_, by rintro _ ⟨⟩, .nil, by rintro _ ⟨⟩⟩, ?_, ?_⟩, .inl rfl, .nil, by rintro _ ⟨⟩, ?_,
    by rintro _ _ ⟨⟩⟩
  · intro node
    simp [LargeObjectSpace.members]
  · apply (maps_init mapCreated).congr _ (fun _ _ => rfl)
    intro node
    simp [LargeObjectSpace.members]
  · intro idx
    exact ⟨[], rfl, .nil, by simp [LargeObjectSpace.quarantineClass, LargeObjectSpace.deadData?]⟩
  · apply (maps_init nurseryCreated).congr _ (fun _ _ => rfl)
    simp

/-- What was allocated stays young if the nodes stay, and what `Sound` says of it. -/
theorem Sound.of_same {space : LargeObjectSpace} {collecting : Option Bool}
    (sound : Sound config state) (structured : space.Structured)
    (marks : space.marked = 1 ∨ space.marked = 3)
    (addresses : ∀ node, state.space.isLive node = true → space.keyOf node = state.space.keyOf node)
    (live : ∀ node, state.space.isLive node = true → space.isLive node = true)
    (nursery : space.nursery = state.space.nursery)
    (unmarked : collecting = none → ∀ pair ∈ state.allocated, space.isMarked pair.1 = false) :
    Sound config { state with space := space, collecting := collecting } := by
  refine ⟨structured, marks, sound.distinct, fun pair member => live _ (sound.live pair member), ?_,
    unmarked⟩
  dsimp only
  rw [nursery]
  apply sound.remembered.congr (fun _ => Iff.rfl)
  intro node isYoung
  rw [addresses node (sound.young_live node isYoung)]

/-- What the end of a collection does: it sweeps, and may then go through the quarantine. -/
structure Collected (config : Config) (state after : LospaceState) (isMinorGc : Bool)
    (middle : LargeObjectSpace) : Prop where
  structured : after.space.Structured
  swept : LargeObjectSpace.Swept state.space middle (LargeObjectSpace.SweptBy config isMinorGc
    (fun node => config.generational = true ∧ (node, true) ∈ state.allocated) state.space)
  middleTreed : middle.Treed
  recounted : LargeObjectSpace.Recounted state.space middle
  ticked : LargeObjectSpace.Ticked middle after.space fun _ => True
  idle : after.collecting = none
  noneAllocated : after.allocated = []
  emptied : after.space.Maps after.space.nursery fun node =>
    config.generational = true ∧ (node, true) ∈ after.allocated

theorem finishGc_spec (sound : Sound config state) (memory : ℕ → Bool) :
    (state.step config (.finishGc memory)).Ensures LospaceFailure.IsExternal fun after =>
      ∃ isMinorGc middle, state.collecting = some isMinorGc ∧
        Collected config state after isMinorGc middle := by
  rw [step]
  cases isCollecting : state.collecting with
  | none => trivial
  | some isMinorGc =>
      obtain ⟨middle, finished, structured, swept, emptied, recounted⟩ :=
        LargeObjectSpace.finishGc_spec isMinorGc sound.structured sound.remembered
          fun node isYoung => ⟨isYoung.1, sound.young_live node isYoung⟩
      dsimp only
      rw [finished, Outcome.bind_next]
      apply (LargeObjectSpace.releaseSynchronously_spec config structured).bind
      rintro released ⟨releasedStructured, ticked⟩
      refine ⟨isMinorGc, middle, rfl, releasedStructured, swept, structured.toTreed,
        recounted, ticked, rfl, rfl, ?_⟩
      dsimp only
      rw [ticked.nursery]
      apply emptied.congr
      · simp
      · rintro _ ⟨⟩

/-- A step keeps the invariant, and fails for want of memory at most, or because of a reference to
an object that is not live. -/
theorem step_spec (sound : Sound config state) {action : LospaceAction}
    (servable : action.IsServable config state) :
    (state.step config action).Ensures LospaceFailure.IsExternal (Sound config) := by
  cases action with
  | alloc bytes trace environment =>
      apply Ensures.require.bind
      intro _ idle
      apply (LargeObjectSpace.alloc_spec sound.structured sound.remembered sound.young_live
        (LospaceAction.npages_pos_of_isServable servable)).bind
      rintro ⟨space, node, reused⟩ allocated
      dsimp only at allocated ⊢
      obtain ⟨key, trace, isNode⟩ := allocated.node_eq
      have old : ∀ pair ∈ state.allocated, space.nodes pair.1 = state.space.nodes pair.1 :=
        fun pair member => allocated.others _ (sound.live pair member)
      refine ⟨allocated.toStructured, ?_, ?_, ?_, ?_, ?_⟩
      · rw [allocated.marked]
        exact sound.marks
      · rw [List.map_cons, List.nodup_cons]
        refine ⟨?_, sound.distinct⟩
        intro again
        obtain ⟨pair, member, rfl⟩ := List.mem_map.mp again
        exact absurd (sound.live pair member)
          (by rw [allocated.wasNotLive]; exact Bool.false_ne_true)
      · intro pair member
        rcases List.mem_cons.mp member with rfl | isOld
        · rw [LargeObjectSpace.isLive, isNode]
        · rw [LargeObjectSpace.isLive_congr (old pair isOld)]
          exact sound.live pair isOld
      · apply allocated.nursery.congr _ (fun _ _ => rfl)
        intro other
        rw [List.mem_cons, Prod.mk.injEq]
        constructor
        · rintro ⟨generational, ⟨rfl, rfl⟩ | isOld⟩
          · exact .inl ⟨rfl, generational, rfl⟩
          · exact .inr ⟨generational, isOld⟩
        · rintro (⟨rfl, generational, rfl⟩ | ⟨generational, isOld⟩)
          · exact ⟨generational, .inl ⟨rfl, rfl⟩⟩
          · exact ⟨generational, .inr isOld⟩
      · intro _ pair member
        rcases List.mem_cons.mp member with rfl | isOld
        · rw [LargeObjectSpace.isMarked, isNode, decide_eq_false_iff_not, allocated.marked]
          rcases sound.marks with isMark | isMark <;> simp [isMark, LARGE_OBJECT_NURSERY]
        · rw [LargeObjectSpace.isMarked_congr (old pair isOld) allocated.marked]
          exact sound.unmarked idle pair isOld
  | treeLookup addr =>
      apply sound.of_same (sound.structured.treeLookup addr) sound.marks
      · exact fun _ _ => rfl
      · exact fun _ isLive => isLive
      · rfl
      · exact sound.unmarked
  | startGc isMinorGc =>
      apply Ensures.require.bind
      intro _ idle
      have started : (state.space.startGc isMinorGc).Structured ∧
          ((state.space.startGc isMinorGc).marked = 1 ∨
            (state.space.startGc isMinorGc).marked = 3) ∧
          (state.space.startGc isMinorGc).nodes = state.space.nodes ∧
          (state.space.startGc isMinorGc).nursery = state.space.nursery := by
        cases isMinorGc with
        | true => exact ⟨sound.structured, sound.marks, rfl, rfl⟩
        | false =>
            refine ⟨sound.structured.congr rfl rfl rfl rfl, ?_, rfl, rfl⟩
            rw [LargeObjectSpace.startGc]
            rcases sound.marks with isMark | isMark
            · exact .inr (by simp [isMark, LARGE_OBJECT_MARK_TOGGLE_BIT])
            · exact .inl (by simp [isMark, LARGE_OBJECT_MARK_TOGGLE_BIT])
      obtain ⟨structured, marks, sameNodes, sameNursery⟩ := started
      apply sound.of_same structured marks
      · exact fun node _ => by rw [LargeObjectSpace.keyOf, LargeObjectSpace.keyOf, sameNodes]
      · exact fun node isLive =>
          (LargeObjectSpace.isLive_congr (congrFun sameNodes node)).trans isLive
      · exact sameNursery
      · rintro ⟨⟩
  | mark ref =>
      apply Ensures.require.bind
      intro _ collecting
      apply (LargeObjectSpace.mark_spec sound.structured config ref).bind
      rintro space ⟨structured, same⟩
      apply sound.of_same structured
      · rw [same.marked]
        exact sound.marks
      · exact fun node _ => same.keys node
      · exact fun node isLive => (same.isLive node).trans isLive
      · exact same.nursery
      · exact fun idle => absurd idle collecting
  | finishGc memory =>
      apply (finishGc_spec sound memory).mono
      rintro after ⟨isMinorGc, middle, isCollecting, collected⟩
      refine ⟨collected.structured, ?_, ?_, ?_, collected.emptied, ?_⟩
      · rw [collected.ticked.marked, collected.swept.marked]
        exact sound.marks
      all_goals rw [collected.noneAllocated]
      · exact .nil
      · rintro _ ⟨⟩
      · rintro _ _ ⟨⟩
  | processQuarantine memory =>
      apply Ensures.require.bind
      intro _ idle
      apply (LargeObjectSpace.processQuarantine_spec sound.structured).bind
      rintro space ⟨structured, tick⟩
      apply sound.of_same structured
      · rw [tick.marked]
        exact sound.marks
      · exact fun node isLive =>
          by rw [LargeObjectSpace.keyOf, LargeObjectSpace.keyOf, tick.live node isLive]
      · exact fun node isLive =>
          (LargeObjectSpace.isLive_congr (tick.live node isLive)).trans isLive
      · exact tick.nursery
      · intro _ pair member
        rw [LargeObjectSpace.isMarked_congr (tick.live _ (sound.live pair member)) tick.marked]
        exact sound.unmarked idle pair member

theorem sound_of_reachable (reached : (lospaceSystem config).ReachableBy
    (fun state action => action.IsServable config state) state) : Sound config state := by
  apply reached.invariant
  · exact fun state => sound_initial
  · intro before action after sound servable stepped
    exact (step_spec sound servable).post_of_next stepped

end LospaceState

/-! ## Structure -/

/-- The splay tree and the object map have the same nodes, under their addresses. Their spans do not
overlap. Those that are not live are on the freelists, each once in the bucket of its own size class
and with the right back pointer, and no others are. -/
structure WellStructured (space : LargeObjectSpace) : Prop where
  same_nodes : ∀ addr node, (addr, node) ∈ AddressMap.forEach space.objectMap ↔
    node ∈ inorder space.objectTree ∧ BitVec.ofNat 64 (space.keyOf node).addr = addr
  once : (inorder space.objectTree).Nodup
  allocated : ∀ node, node ∈ inorder space.objectTree ↔ space.nodes node ≠ none
  disjoint : (inorder space.objectTree).Pairwise fun first second =>
    (space.keyOf first).Precedes (space.keyOf second)
  not_live_iff : ∀ node ∈ inorder space.objectTree, space.isLive node = false ↔
    space.quarantineClass node = some (largeObjectFreelistSizeClass (space.keyOf node).size)
  quarantined : space.links.Listed 0 space.quarantineClass

theorem LargeObjectSpace.Structured.wellStructured {space : LargeObjectSpace}
    (structured : space.Structured) : WellStructured space := by
  refine ⟨structured.mapped.mem_forEach, structured.nodup, structured.mem_iff, structured.ordered,
    ?_,
    structured.quarantined⟩
  intro node member
  rw [LargeObjectSpace.isLive_eq_false_iff ((structured.mem_iff node).mp member),
    LargeObjectSpace.quarantineClass]
  cases space.deadData? node <;> simp

/-- In a run in which no request that cannot be rounded up to pages is served from quarantine, every
state is well structured, and no step fails but for want of memory or because of a reference to an
object that is not live. -/
theorem large_object_space_well_structured {config : Config} {state : LospaceState}
    (reached : (lospaceSystem config).ReachableBy
      (fun state action => action.IsServable config state) state) :
    WellStructured state.space ∧ ∀ action failure, action.IsServable config state →
      state.step config action = .failed failure → failure.IsExternal := by
  have sound := LospaceState.sound_of_reachable reached
  refine ⟨sound.structured.wellStructured, ?_⟩
  intro action failure servable ended
  exact (LospaceState.step_spec sound servable).tolerated_of_failed ended

/-- Pages of 4 KiB, with two generations and a background thread. -/
def pagedConfig : Config :=
  { pageSizeLog2 := 12
    generational := true
    synchronousRelease := false
    pageSizeLog2_lt := by decide }

/-- Enough memory, the next node and the next pages at the addresses. -/
def roomyEnvironment (node : NodePointer) (address : ℕ) : Environment :=
  { memory := fun _ => true
    node := node
    address := address }

/-- An object of two pages is allocated and dies, and its first page is allocated again. -/
def reuseActions : List LospaceAction :=
  [.alloc 0x2000 .precisely (roomyEnvironment 1 0x10000), .startGc false, .finishGc fun _ => true,
    .alloc 0x1000 .precisely (roomyEnvironment 2 0x20000)]

/-- The same, but the second request is for as many bytes as a word can say. -/
def overflowActions : List LospaceAction :=
  [.alloc 0x2000 .precisely (roomyEnvironment 1 0x10000), .startGc false, .finishGc fun _ => true,
    .alloc 0xffffffffffffffff .precisely (roomyEnvironment 2 0x20000)]

/-- The space as it is created, and then some actions. -/
def runFromInit (config : Config) (allowed : LospaceState → LospaceAction → Prop)
    [∀ state action, Decidable (allowed state action)] (actions : List LospaceAction) :
    Outcome LospaceFailure LospaceState := do
  let space ← largeObjectSpaceInit fun _ => true
  System.runBy (lospaceSystem config).step allowed
    { space := space
      collecting := none
      allocated := [] } actions

theorem reachable_of_runFromInit {config : Config} {state : LospaceState}
    {allowed : LospaceState → LospaceAction → Prop}
    (checked : LospaceState → LospaceAction → Prop)
    [∀ state action, Decidable (checked state action)]
    (implied : ∀ state action, checked state action → allowed state action)
    {actions : List LospaceAction} (ran : runFromInit config checked actions = .next state) :
    (lospaceSystem config).ReachableBy allowed state := by
  rw [runFromInit, Outcome.bind_eq_next] at ran
  obtain ⟨space, created, ran⟩ := ran
  exact System.ReachableBy.of_runBy _ checked implied (.initial ⟨_, created, rfl, rfl⟩) _ ran

/-- A request that can be rounded may always be served. -/
def LospaceAction.IsRoundable (config : Config) : LospaceAction → Prop
  | .alloc bytes _ _ => Roundable config bytes
  | _ => True

instance (config : Config) : (action : LospaceAction) → Decidable (action.IsRoundable config)
  | .alloc bytes _ _ => inferInstanceAs (Decidable (Roundable config bytes))
  | .treeLookup _ | .startGc _ | .mark _ | .finishGc _ | .processQuarantine _ => .isTrue trivial

theorem LospaceAction.IsRoundable.isServable {config : Config} (state : LospaceState)
    (action : LospaceAction) (roundable : action.IsRoundable config) :
    action.IsServable config state := by
  cases action with
  | alloc bytes trace environment => exact .inr roundable
  | _ => trivial

/-- After the first page of a dead object was allocated again, and the rest of it is in
quarantine. -/
theorem large_object_space_well_structured_after_reuse :
    ∃ state : LospaceState, inorder state.space.objectTree = [1, 2] ∧
      state.space.isLive 1 = true ∧ state.space.isLive 2 = false ∧
      WellStructured state.space := by
  have ran : (runFromInit pagedConfig (fun _ action => action.IsRoundable pagedConfig)
      reuseActions).leadsTo (fun state => inorder state.space.objectTree = [1, 2] ∧
        state.space.isLive 1 = true ∧ state.space.isLive 2 = false) = true := by
    decide +kernel
  obtain ⟨state, ran, facts⟩ := Outcome.exists_next_of_leadsTo ran
  obtain ⟨nodes, live, dead⟩ := of_decide_eq_true facts
  have reached := reachable_of_runFromInit _
    (fun state action => LospaceAction.IsRoundable.isServable state action) ran
  exact ⟨state, nodes, live, dead, (large_object_space_well_structured reached).1⟩

/-- The node that was allocated again is empty, and the rest of it takes its place in the object
map. -/
theorem large_object_space_well_structured_fails :
    ¬∀ (config : Config) (state : LospaceState), (lospaceSystem config).Reachable state →
      WellStructured state.space := by
  intro holds
  have ran : (runFromInit pagedConfig (fun _ _ => True) overflowActions).leadsTo
      (fun state => (1 ∈ inorder state.space.objectTree ∧
        (state.space.keyOf 1).addr = 0x10000) ∧
        (AddressMap.forEach state.space.objectMap).map Prod.snd = [2]) = true := by
    decide +kernel
  obtain ⟨state, ran, facts⟩ := Outcome.exists_next_of_leadsTo ran
  obtain ⟨⟨isNode, addr⟩, onlyOther⟩ := of_decide_eq_true facts
  have reached := reachable_of_runFromInit (fun _ _ => True) (fun _ _ => id) ran
  have mapped := ((holds pagedConfig state reached).same_nodes 0x10000 1).mpr
    ⟨isNode, by rw [addr]; rfl⟩
  have isOther := List.mem_map_of_mem (f := Prod.snd) mapped
  rw [onlyOther] at isOther
  exact absurd (List.mem_singleton.mp isOther) (by decide)

end Whippet.Lospace
