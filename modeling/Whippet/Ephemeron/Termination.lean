import Mathlib
import Whippet.Ephemeron.Fixpoint
import Whippet.Library.Processes

/-!
Every collection comes to its end.

Owns: a bound on the steps that a collection can still take, that each step lowers it, and that
there is a step until the collection is over.
-/

namespace Whippet.Ephemerons

open Function

variable {graph : Graph} {world after : World} {addr : ℕ} {now : Ephemeron} {ref : Ref}

/-! ## What is still to be done -/

def Work.cost : Work → ℕ
  | .ephemeron _ => 4
  | _ => 1

def Object.cost : Object → ℕ
  | .ordinary fields => fields.length
  | .ephemeron _ => 4

def Phase.cost : Phase → ℕ
  | .tracing => 2
  | .resolving => 1
  | .swept => 0

/-- What an object may still need: to be traced, and to be resolved. -/
def World.costAt (world : World) (addr : ℕ) : ℕ :=
  (match world.objects addr, world.forwarded addr with
    | some object, none => 1 + object.cost
    | _, _ => 0) +
  (if world.isPending addr then 3 else 0)

def World.cost (graph : Graph) (world : World) : ℕ :=
  ∑ addr ∈ graph.addresses.toFinset, world.costAt addr + (world.work.map Work.cost).sum +
    2 * world.resolved.length + (world.finalizerRoots.map fun roots => 1 + roots.length).sum +
      world.phase.cost

/-- All objects are at addresses of the graph. -/
def Within (graph : Graph) (world : World) : Prop :=
  ∀ addr, world.objects addr ≠ none → addr ∈ graph.addresses

/-- The cost grows by `slack` at most. -/
def Spends (graph : Graph) (slack : ℕ) (world after : World) : Prop :=
  Within graph world → Within graph after ∧ after.cost graph ≤ world.cost graph + slack

theorem Spends.refl (world : World) : Spends graph 0 world world := fun within => ⟨within, le_rfl⟩

theorem Spends.mono {slack more : ℕ} (spends : Spends graph slack world after) (le : slack ≤ more) :
    Spends graph more world after := by
  intro within
  obtain ⟨withinAfter, costAfter⟩ := spends within
  exact ⟨withinAfter, by omega⟩

theorem Spends.trans {middle : World} {slack : ℕ} (left : Spends graph 0 world middle)
    (right : Spends graph slack middle after) : Spends graph slack world after := by
  intro within
  obtain ⟨withinMiddle, costMiddle⟩ := left within
  obtain ⟨withinAfter, costAfter⟩ := right withinMiddle
  exact ⟨withinAfter, by omega⟩

theorem Spends.trans_zero {middle : World} {slack : ℕ} (left : Spends graph slack world middle)
    (right : Spends graph 0 middle after) : Spends graph slack world after := by
  intro within
  obtain ⟨withinMiddle, costMiddle⟩ := left within
  obtain ⟨withinAfter, costAfter⟩ := right withinMiddle
  exact ⟨withinAfter, by omega⟩

/-- Only one address has a new cost. -/
theorem sum_change {addresses : Finset ℕ} {before later : ℕ → ℕ} (isMember : addr ∈ addresses)
    (elsewhere : ∀ other, other ≠ addr → later other = before other) :
    ∑ other ∈ addresses, later other + before addr =
      ∑ other ∈ addresses, before other + later addr := by
  rw [← Finset.add_sum_erase addresses later isMember,
    ← Finset.add_sum_erase addresses before isMember]
  have same : ∑ other ∈ addresses.erase addr, later other =
      ∑ other ∈ addresses.erase addr, before other :=
    Finset.sum_congr rfl fun other isOther => elsewhere other (Finset.ne_of_mem_erase isOther)
  omega

/-- What an ephemeron that is pending may still need. -/
def Ephemeron.pendingCost (ephemeron : Ephemeron) : ℕ := if ephemeron.state = .pending then 3 else 0

theorem costAt_congr (sameObject : after.objects addr = world.objects addr)
    (sameForwarded : after.forwarded addr = world.forwarded addr) :
    after.costAt addr = world.costAt addr := by
  have samePending : after.isPending addr = world.isPending addr := by
    simp only [World.isPending, World.ephemeronAt, sameObject]
  simp only [World.costAt, samePending, sameObject, sameForwarded]

theorem costAt_eq (found : world.objects addr = some (.ephemeron now)) :
    world.costAt addr = (match world.forwarded addr with | none => 5 | some _ => 0) +
      now.pendingCost := by
  rw [World.costAt, World.isPending, ephemeronAt_eq found, found, Ephemeron.pendingCost]
  cases world.forwarded addr <;> simp [Object.cost]

/-- One ephemeron changes. -/
theorem cost_change (within : Within graph world)
    (found : world.objects addr = some (.ephemeron now)) (next : Ephemeron) :
    Within graph { world with objects := update world.objects addr (some (.ephemeron next)) } ∧
      World.cost graph
          { world with objects := update world.objects addr (some (.ephemeron next)) } +
        now.pendingCost = world.cost graph + next.pendingCost := by
  have isMember : addr ∈ graph.addresses := within addr (by rw [found]; simp)
  constructor
  · intro other present
    by_cases same : other = addr
    · rw [same]
      exact isMember
    · apply within
      rwa [← update_of_ne same (some (.ephemeron next)) world.objects]
  · generalize afterEq : ({ world with
      objects := update world.objects addr (some (.ephemeron next)) } : World) = after
    have foundAfter : after.objects addr = some (.ephemeron next) := by
      rw [← afterEq]
      exact update_self ..
    have elsewhere : ∀ other, other ≠ addr → after.costAt other = world.costAt other := by
      intro other different
      apply costAt_congr
      · rw [← afterEq]
        exact update_of_ne different _ _
      · rw [← afterEq]
    have total := sum_change (List.mem_toFinset.mpr isMember) elsewhere
    rw [costAt_eq found, costAt_eq foundAfter] at total
    subst afterEq
    rw [World.cost, World.cost]
    dsimp only at *
    omega

/-! ## Operations on ephemerons -/

theorem Spends.modify {change : Ephemeron → Ephemeron} {slack : ℕ}
    (bound : ∀ now, (change now).pendingCost ≤ now.pendingCost + slack) :
    Spends graph slack world (world.modify addr change) := by
  intro within
  cases found : world.ephemeronAt addr with
  | none =>
      rw [World.modify, found]
      exact ⟨within, Nat.le_add_right ..⟩
  | some now =>
      have isNow : world.objects addr = some (.ephemeron now) := by
        rw [World.ephemeronAt] at found
        split at found <;> simp_all
      rw [modify_eq isNow]
      obtain ⟨withinAfter, costEq⟩ := cost_change within isNow (change now)
      have bounded := bound now
      exact ⟨withinAfter, by omega⟩

theorem Spends.setState {state : EphemeronState} (notPending : state ≠ .pending) :
    Spends graph 0 world (world.setState addr state) := by
  apply Spends.modify
  intro now
  rw [Ephemeron.pendingCost, if_neg notPending]
  exact Nat.zero_le _

theorem cost_resolved (graph : Graph) (world : World) (resolved resolutions : List ℕ) :
    World.cost graph { world with resolved := resolved, resolutions := resolutions } +
      2 * world.resolved.length = world.cost graph + 2 * resolved.length := by
  have same : ∀ addr, World.costAt
      { world with resolved := resolved, resolutions := resolutions } addr = world.costAt addr :=
    fun _ => rfl
  simp only [World.cost, same]
  omega

theorem Spends.maybeResolveEphemeron :
    Spends graph 0 world (world.maybeResolveEphemeron addr) := by
  intro within
  by_cases isPending : world.isPending addr = true
  · obtain ⟨now, found, state⟩ := isPending_iff.mp isPending
    rw [World.maybeResolveEphemeron, if_pos isPending, World.setState, modify_eq found]
    obtain ⟨withinAfter, costEq⟩ := cost_change within found { now with state := .resolved }
    refine ⟨withinAfter, ?_⟩
    have before : now.pendingCost = 3 := by rw [Ephemeron.pendingCost, if_pos state]
    have later : ({ now with state := .resolved } : Ephemeron).pendingCost = 0 := rfl
    rw [before, later] at costEq
    have queued := cost_resolved graph
      { world with
        objects := update world.objects addr (some (.ephemeron { now with state := .resolved })) }
      (addr :: world.resolved) (addr :: world.resolutions)
    rw [List.length_cons] at queued
    dsimp only at queued ⊢
    omega
  · rw [World.maybeResolveEphemeron, if_neg isPending]
    exact Spends.refl world within

theorem Spends.gcVisitEphemeronKey :
    Spends graph 0 world (world.gcVisitEphemeronKey addr).2 := by
  rw [World.gcVisitEphemeronKey]
  split
  · exact Spends.modify fun _ => le_rfl
  · exact Spends.refl world

theorem Spends.resolveIfKeyTraced :
    Spends graph 0 world (world.resolveIfKeyTraced addr) := by
  have keyed : Spends graph 0 world (world.gcVisitEphemeronKey addr).2 := .gcVisitEphemeronKey
  rw [World.resolveIfKeyTraced]
  split
  case h_1 visited visitEq =>
    rw [visitEq] at keyed
    exact keyed.trans .maybeResolveEphemeron
  case h_2 visited visitEq =>
    rw [visitEq] at keyed
    exact keyed

/-- The buckets cost nothing. -/
theorem Spends.buckets (buckets : ℕ → List ℕ) :
    Spends graph 0 world { world with buckets := buckets } := fun within => ⟨within, le_rfl⟩

theorem Spends.forEachPending {bucket : ℕ} {body : World → ℕ → World}
    (follow : ∀ world link, Spends graph 0 world (body world link)) :
    Spends graph 0 world (world.forEachPending bucket body) := by
  rw [World.forEachPending]
  refine Spends.trans (Spends.buckets
    (update world.buckets bucket ((world.buckets bucket).filter world.isPending))) ?_
  generalize ({ world with
    buckets := update world.buckets bucket ((world.buckets bucket).filter world.isPending) } :
      World) = start
  induction (world.buckets bucket).filter world.isPending generalizing start with
  | nil => exact Spends.refl start
  | cons link rest inductionHypothesis =>
      rw [List.foldl_cons]
      split
      · exact (follow start link).trans (inductionHypothesis _)
      · exact inductionHypothesis start

theorem Spends.gcResolvePendingEphemerons :
    Spends graph 0 world (world.gcResolvePendingEphemerons graph addr) := by
  apply Spends.forEachPending
  intro world link
  split
  · exact (Spends.gcVisitEphemeronKey).trans .maybeResolveEphemeron
  · exact Spends.refl world

theorem Spends.scanBuckets (buckets : List ℕ) :
    Spends graph 0 world (buckets.foldl
      (fun world bucket => world.forEachPending bucket World.resolveIfKeyTraced) world) := by
  induction buckets generalizing world with
  | nil => exact Spends.refl world
  | cons bucket rest inductionHypothesis =>
      rw [List.foldl_cons]
      exact (Spends.forEachPending fun _ _ => .resolveIfKeyTraced).trans inductionHypothesis

theorem Spends.sweepBuckets (buckets : List ℕ) :
    Spends graph 0 world (buckets.foldl World.sweepBucket world) := by
  induction buckets generalizing world with
  | nil => exact Spends.refl world
  | cons bucket rest inductionHypothesis =>
      rw [List.foldl_cons]
      refine Spends.trans ?_ inductionHypothesis
      refine Spends.trans (Spends.forEachPending fun world link => ?_) (Spends.buckets _)
      exact Spends.modify fun _ => Nat.zero_le _

theorem Spends.addPendingEphemeron :
    Spends graph 3 world (world.addPendingEphemeron graph addr) := by
  rw [World.addPendingEphemeron]
  split
  · refine Spends.trans_zero ?_ (Spends.buckets _)
    apply Spends.modify
    intro now
    rw [Ephemeron.pendingCost, if_pos rfl]
    exact Nat.le_add_left ..
  · exact fun within => ⟨within, Nat.le_add_right ..⟩

/-! ## Work -/

theorem cost_itemsOf (addr : ℕ) (object : Object) :
    ((World.itemsOf addr object).map Work.cost).sum = object.cost := by
  cases object with
  | ordinary fields =>
      rw [World.itemsOf, List.map_map, Object.cost]
      have all : (Work.cost ∘ Work.field addr) = fun _ => 1 := rfl
      rw [all, List.map_const', List.sum_replicate_nat, List.length_range, mul_one]
  | ephemeron ephemeron => rfl

theorem Spends.shade {object : Object} (found : world.objects addr = some object)
    (missing : world.forwarded addr = none) :
    Spends graph 0 world (world.shade graph addr object) := by
  have forwarding : Spends graph 0 world
      { world with
        forwarded := update world.forwarded addr (some (graph.place addr))
        work := world.work ++ World.itemsOf addr object } := by
    intro within
    refine ⟨within, ?_⟩
    have isMember : addr ∈ graph.addresses := within addr (by rw [found]; simp)
    have elsewhere : ∀ other, other ≠ addr →
        World.costAt
          { world with
            forwarded := update world.forwarded addr (some (graph.place addr))
            work := world.work ++ World.itemsOf addr object } other = world.costAt other :=
      fun other different => costAt_congr rfl (update_of_ne different _ _)
    have total := sum_change (List.mem_toFinset.mpr isMember) elsewhere
    have before : world.costAt addr =
        1 + object.cost + if world.isPending addr then 3 else 0 := by
      simp only [World.costAt, found, missing]
    have later : World.costAt
        { world with
          forwarded := update world.forwarded addr (some (graph.place addr))
          work := world.work ++ World.itemsOf addr object } addr =
        if world.isPending addr then 3 else 0 := by
      simp only [World.costAt, found, update_self, Nat.zero_add]
      rfl
    rw [before, later] at total
    rw [World.cost, World.cost]
    dsimp only
    rw [List.map_append, List.sum_append, cost_itemsOf]
    omega
  rw [World.shade]
  split
  · exact forwarding.trans .gcResolvePendingEphemerons
  · exact forwarding

theorem Spends.visit : Spends graph 0 world (world.visit graph ref).1 := by
  cases ref with
  | object target =>
      rw [World.visit]
      split
      case h_1 object found missing => exact Spends.shade found missing
      all_goals exact Spends.refl world
  | _ => exact Spends.refl world

theorem Spends.setField {index : ℕ} : Spends graph 0 world (world.setField addr index ref) := by
  intro within
  rw [World.setField]
  split
  case h_2 => exact ⟨within, Nat.le_add_right ..⟩
  case h_1 fields found =>
    have isMember : addr ∈ graph.addresses := within addr (by rw [found]; simp)
    constructor
    · intro other present
      by_cases same : other = addr
      · rw [same]
        exact isMember
      · apply within
        rwa [← update_of_ne same (some (.ordinary (fields.set index ref))) world.objects]
    · have same : ∀ other, World.costAt
          { world with
            objects := update world.objects addr (some (.ordinary (fields.set index ref))) } other =
          world.costAt other := by
        intro other
        by_cases isAddr : other = addr
        · subst isAddr
          have before : Object.cost (.ordinary (fields.set index ref)) =
            Object.cost (.ordinary fields) :=
            List.length_set
          simp only [World.costAt, World.isPending, World.ephemeronAt, update_self, found]
          cases world.forwarded other with
          | none =>
              dsimp only
              rw [before]
          | some place => rfl
        · exact costAt_congr (update_of_ne isAddr _ _) rfl
      simp only [World.cost, same]
      exact Nat.le_add_right ..

theorem Spends.visitField {index : ℕ} :
    Spends graph 0 world (world.visitField graph addr index) :=
  (Spends.visit).trans .setField

theorem Spends.visitChain {chain : Ref} :
    Spends graph 0 world (world.visitChain graph addr chain) := by
  rw [visitChain_eq]
  exact (Spends.visit).trans (.modify fun _ => le_rfl)

theorem Spends.visitValue : Spends graph 0 world (world.visitValue graph addr) := by
  rw [visitValue_eq]
  have visited : Spends graph 0 world (world.visit graph (world.valueOf addr)).1 := .visit
  generalize world.visit graph (world.valueOf addr) = pair at *
  refine (visited.trans (.modify fun _ => le_rfl)).trans (.setState ?_)
  simp

theorem Spends.publish : Spends graph 3 world (world.publish graph addr) :=
  (Spends.addPendingEphemeron).trans_zero .resolveIfKeyTraced

/-- What is done for an ephemeron after its chain link. -/
theorem Spends.traceKey : Spends graph 3 world
    (if world.keyOf addr = .null then world.setState addr .traced
    else
      match world.gcVisitEphemeronKey addr with
      | (true, world) => world.visitValue graph addr
      | (false, world) => world.publish graph addr) := by
  split
  · have traced : Spends graph 0 world (world.setState addr .traced) := .setState (by simp)
    exact traced.mono (Nat.zero_le _)
  have keyed : Spends graph 0 world (world.gcVisitEphemeronKey addr).2 := .gcVisitEphemeronKey
  split
  case h_1 visited visitEq =>
    rw [visitEq] at keyed
    exact (keyed.trans .visitValue).mono (Nat.zero_le _)
  case h_2 visited visitEq =>
    rw [visitEq] at keyed
    exact keyed.trans .publish

theorem Spends.gcTraceEphemeron : Spends graph 3 world (world.gcTraceEphemeron graph addr) := by
  rw [World.gcTraceEphemeron]
  split
  · exact (Spends.refl world).mono (Nat.zero_le _)
  split
  · exact (Spends.refl world).mono (Nat.zero_le _)
  split
  · exact (Spends.refl world).mono (Nat.zero_le _)
  have claimed : Spends graph 0 world (world.modify addr fun ephemeron =>
      { ephemeron with state := .claimed, epoch := graph.epoch }) :=
    Spends.modify fun _ => Nat.zero_le _
  exact (claimed.trans .visitChain).trans .traceKey

theorem Spends.doWork (item : Work) :
    Spends graph (item.cost - 1) world (world.doWork graph item) := by
  cases item with
  | root ref => exact Spends.visit
  | field addr index => exact Spends.visitField
  | ephemeron addr => exact Spends.gcTraceEphemeron
  | resolved addr => exact Spends.visitValue

/-! ## Steps -/

theorem RunInvariant.within (invariant : RunInvariant graph world)
    (running : world.phase ≠ .swept) :
    Within graph world := by
  intro addr present
  have original : graph.objects addr ≠ none := fun absent =>
    present (((invariant.tracer running).domain addr).mpr absent)
  obtain ⟨object, found⟩ := Option.ne_none_iff_exists'.mp original
  exact graph.mem_addresses addr object found

theorem cost_erase (graph : Graph) {index : ℕ} {item : Work}
    (found : world.work[index]? = some item) :
    World.cost graph { world with work := world.work.eraseIdx index } + item.cost =
      world.cost graph := by
  obtain ⟨inRange, isItem⟩ := List.getElem?_eq_some_iff.mp found
  have split := ((List.getElem_cons_eraseIdx_perm inRange).map Work.cost).sum_eq
  rw [List.map_cons, List.sum_cons, isItem] at split
  have same : ∀ addr, World.costAt { world with work := world.work.eraseIdx index } addr =
      world.costAt addr := fun _ => rfl
  simp only [World.cost, same]
  omega

theorem cost_roots (roots : List Ref) :
    ((roots.map Work.root).map Work.cost).sum = roots.length := by
  rw [List.map_map]
  have all : (Work.cost ∘ Work.root) = fun _ => 1 := rfl
  rw [all, List.map_const', List.sum_replicate_nat, mul_one]

theorem cost_queued (resolved : List ℕ) :
    ((resolved.map Work.resolved).map Work.cost).sum = resolved.length := by
  rw [List.map_map]
  have all : (Work.cost ∘ Work.resolved) = fun _ => 1 := rfl
  rw [all, List.map_const', List.sum_replicate_nat, mul_one]

theorem cost_phase (graph : Graph) (world : World) (checkPendingEphemerons : Bool) (phase : Phase) :
    World.cost graph
        { world with checkPendingEphemerons := checkPendingEphemerons, phase := phase } +
      world.phase.cost = world.cost graph + phase.cost := by
  have same : ∀ addr, World.costAt
      { world with checkPendingEphemerons := checkPendingEphemerons, phase := phase } addr =
        world.costAt addr := fun _ => rfl
  simp only [World.cost, same]
  omega

theorem cost_requeue (graph : Graph) (world : World) (work : List Work) (resolved : List ℕ)
    (finalizerRoots : List (List Ref)) :
    World.cost graph
        { world with work := work, resolved := resolved, finalizerRoots := finalizerRoots } +
      ((world.work.map Work.cost).sum + 2 * world.resolved.length +
        (world.finalizerRoots.map fun roots => 1 + roots.length).sum) =
      world.cost graph + ((work.map Work.cost).sum + 2 * resolved.length +
        (finalizerRoots.map fun roots => 1 + roots.length).sum) := by
  have same : ∀ addr, World.costAt
      { world with work := work, resolved := resolved, finalizerRoots := finalizerRoots } addr =
        world.costAt addr := fun _ => rfl
  simp only [World.cost, same]
  omega

theorem Work.one_le_cost (item : Work) : 1 ≤ item.cost := by
  cases item <;> simp [Work.cost]

/-- Every step lowers the cost. -/
theorem RunInvariant.cost_step {action : Action} (invariant : RunInvariant graph world)
    (stepped : step graph world action = .next after) : after.cost graph < world.cost graph := by
  cases action with
  | work index =>
      simp only [step] at stepped
      split at stepped
      case h_2 => cases stepped
      case h_1 item found =>
        cases stepped
        have isItem := List.mem_of_getElem? found
        have running : world.phase ≠ .swept := by
          intro swept
          have idle := (invariant.collected swept).2
          rw [idle] at isItem
          cases isItem
        obtain ⟨-, grows, -⟩ := (invariant.tracer running).doWork isItem
        obtain ⟨more, workEq⟩ := grows.work
        have foundDone : (world.doWork graph item).work[index]? = some item := by
          rw [workEq, List.getElem?_append_left (List.getElem?_eq_some_iff.mp found).1, found]
        have spent := (Spends.doWork item (invariant.within running)).2
        have erased := cost_erase graph foundDone
        have atLeast := item.one_le_cost
        omega
  | resolveEagerly =>
      simp only [step, Outcome.require_bind_eq_next, Outcome.pure_eq_next,
        Outcome.next.injEq] at stepped
      obtain ⟨⟨tracing, -⟩, rfl⟩ := stepped
      have running : world.phase ≠ .swept := by rw [tracing]; simp
      have phase := cost_phase graph world true .resolving
      have within : Within graph
          { world with checkPendingEphemerons := true, phase := .resolving } :=
        invariant.within running
      have spent := (Spends.scanBuckets (List.range graph.nbuckets) within).2
      rw [World.gcScanPendingEphemerons]
      rw [tracing, Phase.cost, Phase.cost] at phase
      omega
  | popResolved =>
      simp only [step, Outcome.require_bind_eq_next, Outcome.pure_eq_next,
        Outcome.next.injEq] at stepped
      obtain ⟨⟨resolving, idle, nonempty⟩, rfl⟩ := stepped
      have positive := List.length_pos_iff.mpr nonempty
      have requeued := cost_requeue graph world (world.resolved.map .resolved) []
        world.finalizerRoots
      rw [cost_queued, idle, List.map_nil, List.sum_nil, List.length_nil] at requeued
      omega
  | resolveFinalizers =>
      simp only [step, Outcome.require_bind_eq_next] at stepped
      obtain ⟨⟨resolving, idle, -⟩, stepped⟩ := stepped
      split at stepped
      case h_1 => cases stepped
      case h_2 roots rest batches =>
        cases stepped
        have requeued := cost_requeue graph world (roots.map .root) world.resolved rest
        rw [cost_roots, idle, batches, List.map_nil, List.sum_nil, List.map_cons, List.sum_cons]
          at requeued
        omega
  | sweep =>
      simp only [step, Outcome.require_bind_eq_next, Outcome.pure_eq_next,
        Outcome.next.injEq] at stepped
      obtain ⟨⟨resolving, idle, resolved, finalizerRoots⟩, rfl⟩ := stepped
      have running : world.phase ≠ .swept := by rw [resolving]; simp
      have finished : Finished graph world :=
        ⟨invariant.tracer running, invariant.checking resolving, idle, resolved, finalizerRoots⟩
      have samePhase := finished.swept.1.phase
      have spent : (world.gcSweepPendingEphemerons graph).cost graph ≤ _ :=
        (Spends.sweepBuckets (List.range graph.nbuckets) (invariant.within running)).2
      generalize world.gcSweepPendingEphemerons graph = swept at *
      have phase := cost_phase graph swept swept.checkPendingEphemerons .swept
      rw [samePhase, resolving, Phase.cost, Phase.cost] at phase
      omega

/-- There is a step until the collection is over. -/
theorem exists_step (running : world.phase ≠ .swept) :
    ∃ action after, step graph world action = .next after := by
  by_cases idle : world.idle
  · have resolvingSteps : world.phase = .resolving →
        ∃ action after, step graph world action = .next after := by
      intro resolving
      by_cases resolved : world.resolved = []
      · cases batches : world.finalizerRoots with
        | nil =>
            refine ⟨.sweep, { world.gcSweepPendingEphemerons graph with phase := .swept }, ?_⟩
            simp only [step, Outcome.require_bind_eq_next]
            exact ⟨⟨resolving, idle, resolved, batches⟩, rfl⟩
        | cons roots rest =>
            refine ⟨.resolveFinalizers, { world with
              work := roots.map .root, finalizerRoots := rest }, ?_⟩
            simp only [step, Outcome.require_bind_eq_next, batches]
            exact ⟨⟨resolving, idle, resolved⟩, rfl⟩
      · refine ⟨.popResolved, { world with
          work := world.resolved.map .resolved, resolved := [] }, ?_⟩
        simp only [step, Outcome.require_bind_eq_next]
        exact ⟨⟨resolving, idle, resolved⟩, rfl⟩
    cases phase : world.phase with
    | tracing =>
        refine ⟨.resolveEagerly, World.gcScanPendingEphemerons graph
          { world with checkPendingEphemerons := true, phase := .resolving }, ?_⟩
        simp only [step, Outcome.require_bind_eq_next]
        exact ⟨⟨phase, idle⟩, rfl⟩
    | resolving => exact resolvingSteps phase
    | swept => exact absurd phase running
  · obtain ⟨item, found⟩ : ∃ item, world.work[0]? = some item :=
      ⟨_, List.getElem?_eq_getElem (List.length_pos_iff.mpr idle)⟩
    refine ⟨.work 0, { world.doWork graph item with
      work := (world.doWork graph item).work.eraseIdx 0 }, ?_⟩
    simp only [step, found]
    rfl

/-- A collection of a heap with ephemerons, with its work done in any order, comes to its end, and
then what is forwarded is the least fixpoint and every ephemeron in it is traced. -/
theorem collection_reaches_fixpoint (graph : Graph) (world : World)
    (reached : (system graph).Reachable world) :
    (world.phase = .swept → Collected graph world) ∧
      (∀ actions final, System.runBy (step graph) (fun _ _ => True) world actions = .next final →
        actions.length ≤ world.cost graph) ∧
        ∃ actions final,
          System.runBy (step graph) (fun _ _ => True) world actions = .next final ∧
            final.phase = .swept ∧ Collected graph final := by
  have invariant := reachable_runInvariant reached
  refine ⟨fun swept => (invariant.collected swept).1, ?_, ?_⟩
  · intro actions final ran
    apply System.length_le_of_decreasing (World.cost graph) _ invariant actions ran
    exact fun _ _ _ kept stepped => ⟨kept.afterStep stepped, kept.cost_step stepped⟩
  · have progress : ∀ world, RunInvariant graph world → ¬world.phase = .swept →
        ∃ action after, step graph world action = .next after ∧ RunInvariant graph after ∧
          after.cost graph < world.cost graph := by
      intro world kept running
      obtain ⟨action, after, stepped⟩ := exists_step running
      exact ⟨action, after, stepped, kept.afterStep stepped, kept.cost_step stepped⟩
    obtain ⟨actions, final, ran, kept, swept⟩ :=
      System.exists_run_of_decreasing (World.cost graph) progress invariant
    exact ⟨actions, final, ran, swept, (kept.collected swept).1⟩

/-- The ephemeron at 1 has the live key 2; the one at 3, which is the value of the first, is its own
key, and is live when that is; the one at 4 has the key 5, which is not live. -/
def threeEphemerons : Graph :=
  { objects := fun addr => match addr with
      | 0 => some (.ordinary [.object 1, .object 2, .object 4])
      | 1 => some (.ephemeron ⟨.traced, 6, .object 4, .object 2, .object 3⟩)
      | 2 => some (.ordinary [])
      | 3 => some (.ephemeron ⟨.traced, 6, .null, .object 3, .object 2⟩)
      | 4 => some (.ephemeron ⟨.traced, 6, .null, .object 5, .object 2⟩)
      | 5 => some (.ordinary [])
      | _ => none
    addresses := [0, 1, 2, 3, 4, 5]
    mem_addresses := by
      intro addr object found
      match addr with
      | 0 | 1 | 2 | 3 | 4 | 5 => simp
      | _ + 6 => cases found
    roots := [.object 0]
    finalizerRoots := []
    epoch := 7
    ready := by
      intro addr ephemeron found
      match addr with
      | 0 | 2 | 5 | _ + 6 => cases found
      | 1 | 3 | 4 =>
          cases found
          exact ⟨rfl, by decide⟩
    depth := fun addr => if addr = 1 then 1 else 0
    depth_lt := by
      intro addr ephemeron next found chain
      match addr with
      | 0 | 2 | 5 | _ + 6 => cases found
      | 3 | 4 =>
          cases found
          cases chain
      | 1 =>
          cases found
          cases chain
          decide
    place := fun addr => addr + 100
    place_apart := by
      intro addr object found
      cases found
    hash := fun addr => addr % 2
    nbuckets := 2
    hash_lt := fun addr => Nat.mod_lt addr (by decide) }

/-- The key of the second ephemeron is null after the collection, and the value of the first was
resolved. -/
theorem collection_reaches_fixpoint_three :
    ∃ world : World, world.phase = .swept ∧ world.resolutions = [1] ∧
      world.keyOf 1 = .object 102 ∧ world.keyOf 3 = .object 103 ∧ world.keyOf 4 = .null ∧
        Collected threeEphemerons world := by
  refine ⟨_, ?_, ?_, ?_, ?_, ?_, (collection_reaches_fixpoint threeEphemerons _
    (System.ReachableBy.of_runBy (system threeEphemerons) (fun _ _ => True) (fun _ _ => id)
      (.initial rfl)
      [.work 0, .work 0, .work 2, .work 0, .work 0, .work 0, .resolveEagerly, .popResolved,
        .work 0, .work 0, .sweep] rfl)).1 ?_⟩
  all_goals rfl

end Whippet.Ephemerons
