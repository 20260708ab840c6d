import Mathlib.Data.List.Forall2
import Whippet.Ephemeron.Liveness

/-!
Every operation of the tracer keeps the invariant.

Owns: one lemma for each operation, from changes to one ephemeron and resolution of the pending
ephemerons of a key to a whole piece of work.
-/

namespace Whippet.Ephemerons

open Function

variable {graph : Graph} {world after : World} {exempt exemptAfter : ℕ → Prop}
variable {claimed claimedAfter : Option (ℕ × Ephemeron)} {addr : ℕ} {original now : Ephemeron}
variable {ref : Ref}

/-! ## Growing -/

/-- What the tracer never takes back. -/
structure Grows (world after : World) : Prop where
  forwarded : ∀ addr place, world.forwarded addr = some place → after.forwarded addr = some place
  work : ∃ more, after.work = world.work ++ more
  resolved : ∀ addr ∈ world.resolved, addr ∈ after.resolved
  checkPendingEphemerons : after.checkPendingEphemerons = world.checkPendingEphemerons
  finalizerRoots : after.finalizerRoots = world.finalizerRoots
  phase : after.phase = world.phase

theorem Grows.refl (world : World) : Grows world world :=
  ⟨fun _ _ same => same, ⟨[], (List.append_nil _).symm⟩, fun _ isResolved => isResolved, rfl, rfl,
    rfl⟩

theorem Grows.trans {middle : World} (left : Grows world middle) (right : Grows middle after) :
    Grows world after := by
  obtain ⟨some, someEq⟩ := left.work
  obtain ⟨more, moreEq⟩ := right.work
  refine ⟨?_, ⟨some ++ more, ?_⟩, ?_, ?_, ?_, ?_⟩
  · exact fun addr place same => right.forwarded addr place (left.forwarded addr place same)
  · rw [moreEq, someEq, List.append_assoc]
  · exact fun addr isResolved => right.resolved addr (left.resolved addr isResolved)
  · exact right.checkPendingEphemerons.trans left.checkPendingEphemerons
  · exact right.finalizerRoots.trans left.finalizerRoots
  · exact right.phase.trans left.phase

theorem Grows.mem_work (grows : Grows world after) {item : Work} (isItem : item ∈ world.work) :
    item ∈ after.work := by
  obtain ⟨more, moreEq⟩ := grows.work
  rw [moreEq]
  exact List.mem_append_left more isItem

theorem Grows.forwarded_ne_none (grows : Grows world after)
    (forwarded : world.forwarded addr ≠ none) : after.forwarded addr ≠ none := by
  obtain ⟨place, same⟩ := Option.ne_none_iff_exists'.mp forwarded
  rw [grows.forwarded addr place same]
  simp

theorem Marked.mono (marked : Marked graph world ref) (grows : Grows world after) :
    Marked graph after ref :=
  fun addr refers => grows.forwarded addr _ (marked addr refers)

theorem Tracks.mono {now : Ref} (tracks : Tracks graph world ref now)
    (grows : Grows world after) : Tracks graph after ref now :=
  tracks.imp_right fun ⟨isFinal, marked⟩ => ⟨isFinal, marked.mono grows⟩

theorem Resolved.mono (resolved : Resolved graph world addr) (grows : Grows world after)
    (kept : after.objects addr = world.objects addr) : Resolved graph after addr := by
  obtain ⟨original, now, isOriginal, isNow, notNull, marked, touched⟩ := resolved
  exact ⟨original, now, isOriginal, kept.trans isNow, notNull, marked.mono grows, touched⟩

theorem ItemOk.mono {item : Work} (itemOk : ItemOk graph world item) (grows : Grows world after)
    (resolved : ∀ addr, Resolved graph world addr → Resolved graph after addr) :
    ItemOk graph after item := by
  cases item with
  | root ref => exact itemOk
  | field addr index => exact grows.forwarded_ne_none itemOk
  | ephemeron addr => exact grows.forwarded_ne_none itemOk
  | resolved addr => exact resolved addr itemOk

theorem Status.mono (status : Status graph world exempt addr original now)
    (grows : Grows world after)
    (published : now.state = .pending → ∀ bucket, addr ∈ world.buckets bucket →
      addr ∈ after.buckets bucket)
    (unmarked : world.checkPendingEphemerons = true → now.state = .pending →
      ∀ key, original.key = .object key → exempt addr ∨ world.forwarded key = none →
        exemptAfter addr ∨ after.forwarded key = none) :
    Status graph after exemptAfter addr original now := by
  cases status with
  | untouched => exact .untouched
  | dead isDead chain => exact .dead isDead (chain.mono grows)
  | pending isKey collected chain isPublished isUnmarked =>
      apply Status.pending isKey collected (chain.mono grows) (published rfl _ isPublished)
      intro checks
      rw [grows.checkPendingEphemerons] at checks
      exact unmarked checks rfl _ isKey (isUnmarked checks)
  | resolved notNull key chain queued =>
      exact .resolved notNull (key.mono grows) (chain.mono grows)
        (queued.imp (grows.resolved addr) grows.mem_work)
  | traced notNull key chain value =>
      exact .traced notNull (key.mono grows) (chain.mono grows) (value.mono grows)

/-- An object that nothing is done to. -/
theorem ObjectOk.mono {before object : Option Object}
    (objectOk : ObjectOk graph world exempt addr before object) (grows : Grows world after)
    (stays : after.forwarded addr ≠ none → world.forwarded addr ≠ none)
    (published : ∀ now, object = some (.ephemeron now) → now.state = .pending →
      ∀ bucket, addr ∈ world.buckets bucket → addr ∈ after.buckets bucket)
    (unmarked : world.checkPendingEphemerons = true → ∀ original now key,
      before = some (.ephemeron original) → object = some (.ephemeron now) →
        now.state = .pending → original.key = .object key →
        exempt addr ∨ world.forwarded key = none →
          exemptAfter addr ∨ after.forwarded key = none) :
    ObjectOk graph after exemptAfter addr before object := by
  cases objectOk with
  | absent => exact .absent
  | ordinary tracks traced =>
      apply ObjectOk.ordinary (tracks.imp fun _ _ tracks => tracks.mono grows)
      intro forwarded index ref found
      exact (traced (stays forwarded) index ref found).imp grows.mem_work
        fun marked => marked.mono grows
  | ephemeron status traced touched =>
      apply ObjectOk.ephemeron (status.mono grows (published _ rfl)
        fun checks isPending key => unmarked checks _ _ key rfl rfl isPending)
      · exact fun forwarded => (traced (stays forwarded)).imp_left grows.mem_work
      · exact fun sameEpoch => grows.forwarded_ne_none (touched sameEpoch)

/-! ## One ephemeron changes -/

section Update

variable {buckets : ℕ → List ℕ} {resolved resolutions : List ℕ}

/-- An ephemeron changes, and with it the pending and resolved sets. -/
theorem Invariant.change (invariant : Invariant graph exempt claimed world)
    (isEphemeron : graph.objects addr = some (.ephemeron original))
    (self : claimedAfter = some (addr, now) ∧ now.state = .claimed ∧ now.epoch = graph.epoch ∧
        world.forwarded addr ≠ none ∨
      (∀ now, claimedAfter ≠ some (addr, now)) ∧
        ObjectOk graph
          { world with
            objects := update world.objects addr (some (.ephemeron now))
            buckets := buckets, resolved := resolved, resolutions := resolutions }
          exemptAfter addr (some (.ephemeron original)) (some (.ephemeron now)))
    (others : ∀ other now, other ≠ addr →
      (claimedAfter = some (other, now) ↔ claimed = some (other, now)))
    (exempted : ∀ other, other ≠ addr → exempt other → exemptAfter other)
    (keeps : Resolved graph world addr → original.key ≠ .null ∧ now.epoch = graph.epoch ∧
      (now.state = .resolved ∨ now.state = .traced))
    (published : ∀ other bucket, other ≠ addr → other ∈ world.buckets bucket →
      other ∈ buckets bucket)
    (resolvedMono : ∀ other ∈ world.resolved, other ∈ resolved)
    (resolvedNew : ∀ other ∈ resolved, other ∈ world.resolved ∨ other = addr ∧
      original.key ≠ .null ∧ Marked graph world original.key ∧ now.epoch = graph.epoch ∧
        (now.state = .resolved ∨ now.state = .traced))
    (resolutionsNew : ∀ other ∈ resolutions, other ∈ world.resolutions ∨ other = addr ∧
      original.key ≠ .null ∧ Marked graph world original.key ∧ now.epoch = graph.epoch ∧
        (now.state = .resolved ∨ now.state = .traced))
    (nodup : resolutions.Nodup) :
    Invariant graph exemptAfter claimedAfter
      { world with
        objects := update world.objects addr (some (.ephemeron now))
        buckets := buckets, resolved := resolved, resolutions := resolutions } := by
  generalize afterEq : ({ world with
        objects := update world.objects addr (some (.ephemeron now))
        buckets := buckets, resolved := resolved, resolutions := resolutions } : World) = after
    at self ⊢
  have atAddr : after.objects addr = some (.ephemeron now) := by
    rw [← afterEq]
    exact update_self _ _ _
  have elsewhere : ∀ other, other ≠ addr → after.objects other = world.objects other := by
    intro other different
    rw [← afterEq]
    exact update_of_ne different _ _
  have grows : Grows world after := by
    subst afterEq
    exact ⟨fun _ _ same => same, ⟨[], (List.append_nil _).symm⟩, resolvedMono, rfl, rfl, rfl⟩
  have forwardedEq : after.forwarded = world.forwarded := by rw [← afterEq]
  have workEq : after.work = world.work := by rw [← afterEq]
  have bucketsEq : after.buckets = buckets := by rw [← afterEq]
  have resolvedEq : after.resolved = resolved := by rw [← afterEq]
  have resolutionsEq : after.resolutions = resolutions := by rw [← afterEq]
  have remainingEq : after.finalizerRoots = world.finalizerRoots := by rw [← afterEq]
  have isResolved : original.key ≠ .null → Marked graph world original.key →
      now.epoch = graph.epoch → (now.state = .resolved ∨ now.state = .traced) →
        Resolved graph after addr := by
    intro notNull marked sameEpoch state
    exact ⟨original, now, isEphemeron, atAddr, notNull, marked.mono grows, sameEpoch, state⟩
  have resolvedKept : ∀ other, Resolved graph world other → Resolved graph after other := by
    intro other before
    by_cases same : other = addr
    · subst same
      obtain ⟨notNull, sameEpoch, state⟩ := keeps before
      obtain ⟨first, _, isFirst, _, _, marked, _⟩ := before
      rw [isEphemeron] at isFirst
      cases isFirst
      exact isResolved notNull marked sameEpoch state
    · exact before.mono grows (elsewhere other same)
  refine ⟨?_, ?_, ?_, ?_, ?_, ?_, ?_, ?_, ?_, ?_, ?_⟩
  · intro other
    by_cases same : other = addr
    · subst same
      rw [atAddr, isEphemeron]
      simp
    · rw [elsewhere other same]
      exact invariant.domain other
  · intro other notClaimed
    by_cases same : other = addr
    · subst same
      rcases self with ⟨isClaimed, -⟩ | ⟨-, objectOk⟩
      · exact absurd isClaimed (notClaimed now)
      · rw [atAddr, isEphemeron]
        exact objectOk
    · rw [elsewhere other same]
      apply (invariant.objects other _).mono grows
      · rw [forwardedEq]
        exact id
      · rw [bucketsEq]
        exact fun _ _ _ bucket => published other bucket same
      · intro _ _ _ key _ _ _ _ unmarked
        rw [forwardedEq]
        exact unmarked.imp_left (exempted other same)
      · exact fun now isClaimed => notClaimed now ((others other now same).mpr isClaimed)
  · intro other current isClaimed
    by_cases same : other = addr
    · subst same
      rcases self with ⟨isClaimedNow, state, sameEpoch, forwarded⟩ | ⟨notClaimed, -⟩
      · rw [isClaimedNow] at isClaimed
        cases isClaimed
        rw [forwardedEq]
        exact ⟨atAddr, state, sameEpoch, forwarded⟩
      · exact absurd isClaimed (notClaimed current)
    · rw [elsewhere other same, forwardedEq]
      exact invariant.claimedOk other current ((others other current same).mp isClaimed)
  · rw [forwardedEq]
    exact invariant.forwarded
  · rw [workEq]
    exact fun item isItem => (invariant.work item isItem).mono grows resolvedKept
  · intro other isMember
    rw [resolvedEq] at isMember
    rcases resolvedNew other isMember with before | ⟨rfl, notNull, marked, sameEpoch, state⟩
    · exact resolvedKept other (invariant.resolved other before)
    · exact isResolved notNull marked sameEpoch state
  · intro ref isRoot
    rw [workEq]
    exact (invariant.roots ref isRoot).imp_right fun marked => marked.mono grows
  · intro roots isBatch
    rw [remainingEq, workEq]
    refine (invariant.finalizerRoots roots isBatch).imp_right fun done ref isRoot => ?_
    exact (done ref isRoot).imp_right fun marked => marked.mono grows
  · rw [remainingEq]
    exact invariant.remaining
  · rw [resolutionsEq]
    exact nodup
  · intro other isMember
    rw [resolutionsEq] at isMember
    rcases resolutionsNew other isMember with before | ⟨rfl, notNull, marked, sameEpoch, state⟩
    · exact resolvedKept other (invariant.once other before)
    · exact isResolved notNull marked sameEpoch state

end Update

/-! ## Pending ephemerons -/

section Pending

variable {link : ℕ}

@[simp] theorem ephemeronAt_eq (found : world.objects addr = some (.ephemeron now)) :
    world.ephemeronAt addr = some now := by
  rw [World.ephemeronAt, found]

theorem keyOf_eq (found : world.objects addr = some (.ephemeron now)) :
    world.keyOf addr = now.key := by
  rw [World.keyOf, ephemeronAt_eq found]

theorem modify_eq (found : world.objects addr = some (.ephemeron now))
    (change : Ephemeron → Ephemeron) :
    world.modify addr change =
      { world with objects := update world.objects addr (some (.ephemeron (change now))) } := by
  rw [World.modify, ephemeronAt_eq found]

/-- What is known of a pending ephemeron. -/
theorem Invariant.of_isPending (invariant : Invariant graph exempt claimed world)
    (isPending : world.isPending link = true) :
    ∃ original key, graph.objects link = some (.ephemeron original) ∧
      original.key = .object key ∧ graph.objects key ≠ none ∧
        Marked graph world (graph.chainOf link original) ∧
          link ∈ world.buckets (graph.hash key) ∧ (∀ now, claimed ≠ some (link, now)) ∧
            world.forwarded link ≠ none ∧
              world.objects link = some (.ephemeron
                { state := .pending, epoch := graph.epoch
                  chain := graph.final (graph.chainOf link original)
                  key := original.key, value := original.value }) := by
  cases found : world.objects link with
  | none => simp [World.isPending, World.ephemeronAt, found] at isPending
  | some object =>
      cases object with
      | ordinary fields => simp [World.isPending, World.ephemeronAt, found] at isPending
      | ephemeron now =>
          simp only [World.isPending, ephemeronAt_eq found, beq_iff_eq] at isPending
          have notClaimed : ∀ current, claimed ≠ some (link, current) := by
            intro current isClaimed
            obtain ⟨isCurrent, state, -⟩ := invariant.claimedOk link current isClaimed
            rw [found] at isCurrent
            cases isCurrent
            rw [isPending] at state
            cases state
          have objectOk := invariant.objects link notClaimed
          rw [found] at objectOk
          generalize beforeEq : graph.objects link = before at objectOk
          cases objectOk with
          | ephemeron status traced touched =>
              cases status with
              | untouched =>
                  have ready := (graph.ready link now beforeEq).1
                  rw [isPending] at ready
                  cases ready
              | pending isKey collected chain published unmarked =>
                  exact ⟨_, _, rfl, isKey, collected, chain, published, notClaimed, touched rfl,
                    rfl⟩
              | _ => cases isPending

/-- Where a reference leads now. -/
theorem Invariant.tracedRef_eq (invariant : Invariant graph exempt claimed world) (ref : Ref) :
    (world.tracedRef ref = some (graph.final ref) ∧ Marked graph world ref) ∨
      (world.tracedRef ref = none ∧ ∃ addr, ref = .object addr ∧ graph.objects addr ≠ none ∧
        world.forwarded addr = none) := by
  by_cases refers : ∃ target, graph.Refers ref target
  · obtain ⟨target, refersTarget⟩ := refers
    obtain ⟨rfl, collected⟩ := refersTarget
    have present : world.objects target ≠ none := fun absent =>
      collected ((invariant.domain target).mp absent)
    obtain ⟨object, found⟩ := Option.ne_none_iff_exists'.mp present
    cases forwarded : world.forwarded target with
    | none =>
        right
        rw [World.tracedRef]
        simp only [found, forwarded]
        exact ⟨rfl, target, rfl, collected, forwarded⟩
    | some place =>
        left
        have placeEq := (invariant.forwarded target place forwarded).1
        rw [World.tracedRef]
        simp only [found, forwarded]
        refine ⟨?_, ?_⟩
        · rw [Graph.Refers.final ⟨rfl, collected⟩, ← placeEq]
          rfl
        · rintro other ⟨same, -⟩
          cases same
          rw [forwarded, placeEq]
  · left
    have none : ∀ target, ¬graph.Refers ref target := fun target is => refers ⟨target, is⟩
    refine ⟨?_, fun target is => absurd is (none target)⟩
    rw [Graph.final_of_not_refers none]
    cases ref with
    | object target =>
        cases found : world.objects target with
        | none => simp [World.tracedRef, found]
        | some object =>
            refine absurd ⟨rfl, ?_⟩ (none target)
            intro absent
            rw [(invariant.domain target).mpr absent] at found
            cases found
    | _ => rfl

theorem maybeResolve_eq {objects : ℕ → Option Object}
    (isPending : now.state = .pending) :
    World.maybeResolveEphemeron
        { world with objects := update objects addr (some (.ephemeron now)) } addr =
      { world with
        objects := update objects addr (some (.ephemeron { now with state := .resolved }))
        resolved := addr :: world.resolved
        resolutions := addr :: world.resolutions } := by
  have found : update objects addr (some (.ephemeron now)) addr = some (.ephemeron now) :=
    update_self _ _ _
  rw [World.maybeResolveEphemeron, if_pos]
  · rw [World.setState, modify_eq found]
    simp only [update_idem]
  · rw [World.isPending, ephemeronAt_eq found]
    exact beq_iff_eq.mpr isPending

/-- The ephemeron as it is when it is resolved. -/
def resolvedEphemeron (graph : Graph) (addr : ℕ) (original : Ephemeron) : Ephemeron :=
  { state := .resolved, epoch := graph.epoch
    chain := graph.final (graph.chainOf addr original)
    key := graph.final original.key, value := original.value }

/-- A pending ephemeron whose key is traced is resolved. -/
theorem Invariant.resolve (invariant : Invariant graph exempt claimed world)
    (isPending : world.isPending link = true)
    (markedKey : ∀ original, graph.objects link = some (.ephemeron original) →
      Marked graph world original.key) :
    Invariant graph exempt claimed
        ((world.gcVisitEphemeronKey link).2.maybeResolveEphemeron link) ∧
      Grows world ((world.gcVisitEphemeronKey link).2.maybeResolveEphemeron link) ∧
        ((world.gcVisitEphemeronKey link).2.maybeResolveEphemeron link).isPending link = false := by
  obtain ⟨original, key, isEphemeron, isKey, collected, chain, published, notClaimed, forwarded,
    found⟩ := invariant.of_isPending isPending
  have marked := markedKey original isEphemeron
  have traced : world.tracedRef original.key = some (graph.final original.key) := by
    rcases invariant.tracedRef_eq original.key with
      ⟨traced, -⟩ | ⟨-, addr, refers, present, missing⟩
    · exact traced
    · rw [marked addr ⟨refers, present⟩] at missing
      cases missing
  have notNull : original.key ≠ .null := by rw [isKey]; simp
  have resultEq : (world.gcVisitEphemeronKey link).2.maybeResolveEphemeron link =
      { world with
        objects := update world.objects link
          (some (.ephemeron (resolvedEphemeron graph link original)))
        resolved := link :: world.resolved
        resolutions := link :: world.resolutions } := by
    have afterKey : (world.gcVisitEphemeronKey link).2 =
        { world with
          objects := update world.objects link (some (.ephemeron
            { state := .pending, epoch := graph.epoch
              chain := graph.final (graph.chainOf link original)
              key := graph.final original.key, value := original.value })) } := by
      rw [World.gcVisitEphemeronKey, keyOf_eq found]
      simp only [traced]
      rw [modify_eq found]
    rw [afterKey]
    exact maybeResolve_eq rfl
  rw [resultEq]
  have keeps : original.key ≠ .null ∧ (resolvedEphemeron graph link original).epoch = graph.epoch ∧
      ((resolvedEphemeron graph link original).state = .resolved ∨
        (resolvedEphemeron graph link original).state = .traced) := ⟨notNull, rfl, .inl rfl⟩
  have neverBefore : link ∉ world.resolutions := by
    intro before
    obtain ⟨first, current, isFirst, isCurrent, -, -, -, state⟩ := invariant.once link before
    rw [found] at isCurrent
    cases isCurrent
    rcases state with state | state <;> cases state
  refine ⟨?_, ?_, ?_⟩
  · apply invariant.change isEphemeron
    · refine .inr ⟨notClaimed, .ephemeron ?_ (fun _ => .inr rfl) (fun _ => forwarded)⟩
      exact .resolved notNull marked chain (.inl (List.mem_cons_self ..))
    · exact fun _ _ _ => Iff.rfl
    · exact fun _ _ isExempt => isExempt
    · exact fun _ => keeps
    · exact fun _ _ _ isMember => isMember
    · exact fun _ isMember => List.mem_cons_of_mem _ isMember
    · intro other isMember
      rcases List.mem_cons.mp isMember with rfl | before
      · exact .inr ⟨rfl, notNull, marked, rfl, .inl rfl⟩
      · exact .inl before
    · intro other isMember
      rcases List.mem_cons.mp isMember with rfl | before
      · exact .inr ⟨rfl, notNull, marked, rfl, .inl rfl⟩
      · exact .inl before
    · exact List.nodup_cons.mpr ⟨neverBefore, invariant.resolutions⟩
  · exact ⟨fun _ _ same => same, ⟨[], (List.append_nil _).symm⟩,
      fun _ isMember => List.mem_cons_of_mem _ isMember, rfl, rfl, rfl⟩
  · rw [World.isPending, ephemeronAt_eq (update_self _ _ _)]
    rfl

/-- The exemption of ephemerons that are not pending, or whose keys are not traced, is idle. -/
theorem Invariant.reexempt (invariant : Invariant graph exempt claimed world)
    (covered : world.checkPendingEphemerons = true → ∀ link original key,
      world.isPending link = true → graph.objects link = some (.ephemeron original) →
        original.key = .object key → exempt link →
          exemptAfter link ∨ world.forwarded key = none) :
    Invariant graph exemptAfter claimed world := by
  refine { invariant with objects := ?_ }
  intro other notClaimed
  apply (invariant.objects other notClaimed).mono (Grows.refl world) id
  · exact fun _ _ _ _ isMember => isMember
  · intro checks original now key isEphemeron isNow state isKey unmarked
    have isPending : world.isPending other = true := by
      rw [World.isPending, ephemeronAt_eq isNow]
      exact beq_iff_eq.mpr state
    rcases unmarked with isExempt | missing
    · exact covered checks other original key isPending isEphemeron isKey isExempt
    · exact .inr missing

/-- A link of a bucket of pending ephemerons is followed. -/
theorem Invariant.resolveIfKeyTraced (invariant : Invariant graph exempt claimed world)
    (isPending : world.isPending link = true) :
    Invariant graph (fun other => exempt other ∧ other ≠ link) claimed
        (world.resolveIfKeyTraced link) ∧ Grows world (world.resolveIfKeyTraced link) := by
  obtain ⟨original, key, isEphemeron, isKey, -, -, -, -, -, found⟩ :=
    invariant.of_isPending isPending
  have keyEq : world.keyOf link = original.key := by rw [keyOf_eq found]
  rcases invariant.tracedRef_eq original.key with
    ⟨traced, marked⟩ | ⟨untraced, addr, isAddr, -, missing⟩
  · have resultEq : world.resolveIfKeyTraced link =
        (world.gcVisitEphemeronKey link).2.maybeResolveEphemeron link := by
      rw [World.resolveIfKeyTraced, World.gcVisitEphemeronKey, keyEq]
      simp only [traced]
    rw [resultEq]
    obtain ⟨resolved, grows, noLonger⟩ := invariant.resolve isPending (fun current isCurrent => by
      rw [isEphemeron] at isCurrent
      cases isCurrent
      exact marked)
    refine ⟨resolved.reexempt ?_, grows⟩
    intro _ other _ _ stillPending _ _ isExempt
    refine .inl ⟨isExempt, ?_⟩
    rintro rfl
    rw [noLonger] at stillPending
    cases stillPending
  · have resultEq : world.resolveIfKeyTraced link = world := by
      rw [World.resolveIfKeyTraced, World.gcVisitEphemeronKey, keyEq]
      simp only [untraced]
    rw [resultEq]
    refine ⟨invariant.reexempt ?_, Grows.refl world⟩
    intro _ other current otherKey _ isCurrent isOtherKey isExempt
    by_cases same : other = link
    · subst same
      rw [isEphemeron] at isCurrent
      cases isCurrent
      rw [isAddr] at isOtherKey
      cases isOtherKey
      exact .inr missing
    · exact .inl ⟨isExempt, same⟩

/-- Links are followed one after the other. `family rest` are the exempt ephemerons while `rest`
are still to be followed. -/
theorem Invariant.foldl_pending {body : World → ℕ → World} (family : List ℕ → ℕ → Prop)
    {start : World}
    (shrinks : ∀ link rest other, family (link :: rest) other → other = link ∨ family rest other)
    (follow : ∀ world link rest, Grows start world →
      Invariant graph (family (link :: rest)) claimed world → world.isPending link = true →
        Invariant graph (family rest) claimed (body world link) ∧ Grows world (body world link))
    (links : List ℕ) (since : Grows start world)
    (invariant : Invariant graph (family links) claimed world) :
    Invariant graph (family []) claimed
        (links.foldl
          (fun world link => if world.isPending link then body world link else world) world) ∧
      Grows world (links.foldl
        (fun world link => if world.isPending link then body world link else world) world) := by
  induction links generalizing world with
  | nil => exact ⟨invariant, Grows.refl world⟩
  | cons link rest inductionHypothesis =>
      rw [List.foldl_cons]
      by_cases isPending : world.isPending link = true
      · rw [if_pos isPending]
        obtain ⟨followed, grows⟩ := follow world link rest since invariant isPending
        obtain ⟨kept, growsMore⟩ := inductionHypothesis (since.trans grows) followed
        exact ⟨kept, grows.trans growsMore⟩
      · rw [if_neg isPending]
        apply inductionHypothesis since
        apply invariant.reexempt
        intro _ other _ _ otherPending _ _ isExempt
        rcases shrinks link rest other isExempt with rfl | isRest
        · exact absurd otherPending isPending
        · exact .inl isRest

/-- Links past ephemerons that are not pending are elided. -/
theorem Invariant.elide (invariant : Invariant graph exempt claimed world) (bucket : ℕ) :
    Invariant graph exempt claimed
      { world with
        buckets := update world.buckets bucket
          ((world.buckets bucket).filter world.isPending) } := by
  have grows : Grows world
      { world with
        buckets := update world.buckets bucket
          ((world.buckets bucket).filter world.isPending) } :=
    ⟨fun _ _ same => same, ⟨[], (List.append_nil _).symm⟩, fun _ isMember => isMember, rfl, rfl,
      rfl⟩
  refine
    { invariant with
      objects := ?_
      work := fun item isItem => (invariant.work item isItem).mono grows fun other resolved =>
        resolved.mono grows rfl
      resolved := fun other isMember => (invariant.resolved other isMember).mono grows rfl
      once := fun other isMember => (invariant.once other isMember).mono grows rfl }
  intro other notClaimed
  apply (invariant.objects other notClaimed).mono grows id
  · intro now isNow state atBucket isMember
    show other ∈ update world.buckets bucket _ atBucket
    by_cases same : atBucket = bucket
    · subst same
      rw [update_self, List.mem_filter]
      refine ⟨isMember, ?_⟩
      rw [World.isPending, ephemeronAt_eq isNow]
      exact beq_iff_eq.mpr state
    · rw [update_of_ne same]
      exact isMember
  · exact fun _ _ _ _ _ _ _ _ unmarked => unmarked

/-- The rule for following all links of a bucket. -/
theorem Invariant.forEachPending (body : World → ℕ → World) (family : List ℕ → ℕ → Prop)
    (bucket : ℕ)
    (shrinks : ∀ link rest other, family (link :: rest) other → other = link ∨ family rest other)
    (follow : ∀ after link rest, Grows world after →
      Invariant graph (family (link :: rest)) claimed after → after.isPending link = true →
        Invariant graph (family rest) claimed (body after link) ∧ Grows after (body after link))
    (invariant : Invariant graph exempt claimed world)
    (covered : ∀ link original key, world.isPending link = true →
      graph.objects link = some (.ephemeron original) → original.key = .object key →
        link ∈ world.buckets (graph.hash key) → exempt link →
          family ((world.buckets bucket).filter world.isPending) link) :
    Invariant graph (family []) claimed (world.forEachPending bucket body) ∧
      Grows world (world.forEachPending bucket body) := by
  have exempted : Invariant graph (family ((world.buckets bucket).filter world.isPending)) claimed
      world := by
    apply invariant.reexempt
    intro _ link original key isPending isEphemeron isKey isExempt
    obtain ⟨first, firstKey, isFirst, isFirstKey, -, -, published, -⟩ :=
      invariant.of_isPending isPending
    rw [isEphemeron] at isFirst
    cases isFirst
    rw [isKey] at isFirstKey
    cases isFirstKey
    exact .inl (covered link original key isPending isEphemeron isKey published isExempt)
  have since : Grows world
      { world with
        buckets := update world.buckets bucket
          ((world.buckets bucket).filter world.isPending) } :=
    ⟨fun _ _ same => same, ⟨[], (List.append_nil _).symm⟩, fun _ isMember => isMember, rfl, rfl,
      rfl⟩
  obtain ⟨kept, grows⟩ :=
    Invariant.foldl_pending family shrinks follow _ since (exempted.elide bucket)
  exact ⟨kept, since.trans grows⟩

/-- The ephemeron's key is the object. -/
def HasKey (graph : Graph) (key link : ℕ) : Prop :=
  ∃ original, graph.objects link = some (.ephemeron original) ∧ original.key = .object key

theorem Invariant.marked_of_forwarded {key : ℕ}
    (invariant : Invariant graph exempt claimed world) (traced : world.forwarded key ≠ none) :
    Marked graph world (.object key) := by
  rintro addr ⟨same, -⟩
  cases same
  obtain ⟨place, forwarded⟩ := Option.ne_none_iff_exists'.mp traced
  rw [forwarded, (invariant.forwarded _ place forwarded).1]

/-- The pending ephemerons of a key that was just traced are resolved. -/
theorem Invariant.gcResolvePendingEphemerons {key : ℕ}
    (invariant : Invariant graph (HasKey graph key) claimed world)
    (traced : world.forwarded key ≠ none) :
    Invariant graph (fun _ => False) claimed (world.gcResolvePendingEphemerons graph key) ∧
      Grows world (world.gcResolvePendingEphemerons graph key) := by
  have followed := Invariant.forEachPending
    (fun world link =>
      if world.keyOf link = .object key then
        (world.gcVisitEphemeronKey link).2.maybeResolveEphemeron link
      else world)
    (fun rest link => link ∈ rest ∧ HasKey graph key link) (graph.hash key) ?_ ?_ invariant ?_
  · refine ⟨followed.1.reexempt ?_, followed.2⟩
    rintro _ _ _ _ _ _ _ ⟨absurdity, -⟩
    cases absurdity
  · rintro link rest other ⟨isMember, hasKey⟩
    exact (List.mem_cons.mp isMember).imp_right fun isRest => ⟨isRest, hasKey⟩
  · intro current link rest since kept isPending
    obtain ⟨original, otherKey, isEphemeron, isKey, -, -, -, -, -, found⟩ :=
      kept.of_isPending isPending
    have keyEq : current.keyOf link = original.key := by rw [keyOf_eq found]
    rw [keyEq]
    split
    case isTrue same =>
      have marked : Marked graph current original.key := by
        rw [same]
        exact kept.marked_of_forwarded (since.forwarded_ne_none traced)
      obtain ⟨resolved, grows, noLonger⟩ := kept.resolve isPending (fun first isFirst => by
        rw [isEphemeron] at isFirst
        cases isFirst
        exact marked)
      refine ⟨resolved.reexempt ?_, grows⟩
      rintro _ other _ _ stillPending _ _ ⟨isMember, hasKey⟩
      refine .inl ⟨(List.mem_cons.mp isMember).resolve_left ?_, hasKey⟩
      rintro rfl
      rw [noLonger] at stillPending
      cases stillPending
    case isFalse different =>
      refine ⟨kept.reexempt ?_, Grows.refl current⟩
      rintro _ other first _ _ isFirst _ ⟨isMember, hasKey⟩
      refine .inl ⟨(List.mem_cons.mp isMember).resolve_left ?_, hasKey⟩
      rintro rfl
      obtain ⟨second, isSecond, isObject⟩ := hasKey
      rw [isEphemeron] at isSecond
      cases isSecond
      exact different isObject
  · rintro link original firstKey isPending isEphemeron isKey published ⟨second, isSecond, isObject⟩
    rw [isEphemeron] at isSecond
    cases isSecond
    rw [isKey] at isObject
    cases isObject
    exact ⟨List.mem_filter.mpr ⟨published, isPending⟩, original, isEphemeron, isKey⟩

/-- The ephemeron's key is in one of the buckets. -/
def HasKeyIn (graph : Graph) (buckets : List ℕ) (link : ℕ) : Prop :=
  ∃ key, HasKey graph key link ∧ graph.hash key ∈ buckets

theorem Invariant.scanBuckets (buckets : List ℕ)
    (invariant : Invariant graph (HasKeyIn graph buckets) claimed world) :
    Invariant graph (fun _ => False) claimed
        (buckets.foldl
          (fun world bucket => world.forEachPending bucket World.resolveIfKeyTraced) world) ∧
      Grows world (buckets.foldl
        (fun world bucket => world.forEachPending bucket World.resolveIfKeyTraced) world) := by
  induction buckets generalizing world with
  | nil =>
      refine ⟨invariant.reexempt ?_, Grows.refl world⟩
      rintro _ _ _ _ _ _ _ ⟨_, _, absurdity⟩
      cases absurdity
  | cons bucket rest inductionHypothesis =>
      have followed := Invariant.forEachPending World.resolveIfKeyTraced
        (fun links link => link ∈ links ∨ HasKeyIn graph rest link) bucket ?_ ?_ invariant ?_
      · have scanned : Invariant graph (HasKeyIn graph rest) claimed
            (world.forEachPending bucket World.resolveIfKeyTraced) := by
          apply followed.1.reexempt
          intro _ link _ _ _ _ _ isExempt
          exact .inl (isExempt.resolve_left (by simp))
        obtain ⟨kept, grows⟩ := inductionHypothesis scanned
        exact ⟨kept, followed.2.trans grows⟩
      · intro link links other isExempt
        rcases isExempt with isMember | isLater
        · exact (List.mem_cons.mp isMember).imp_right .inl
        · exact .inr (.inr isLater)
      · intro current link links _ kept isPending
        obtain ⟨resolved, grows⟩ := kept.resolveIfKeyTraced isPending
        refine ⟨resolved.reexempt ?_, grows⟩
        rintro _ other _ _ _ _ _ ⟨isExempt, different⟩
        rcases isExempt with isMember | isLater
        · exact .inl (.inl ((List.mem_cons.mp isMember).resolve_left different))
        · exact .inl (.inr isLater)
      · rintro link original key isPending isEphemeron isKey published
          ⟨other, ⟨second, isSecond, isOther⟩, inBuckets⟩
        rw [isEphemeron] at isSecond
        cases isSecond
        rw [isKey] at isOther
        cases isOther
        rcases List.mem_cons.mp inBuckets with here | later
        · left
          rw [here] at published
          exact List.mem_filter.mpr ⟨published, isPending⟩
        · exact .inr ⟨key, ⟨original, isEphemeron, isKey⟩, later⟩

/-- Every pending ephemeron is scanned. -/
theorem Invariant.gcScanPendingEphemerons
    (invariant : Invariant graph (fun _ => True) claimed world) :
    Invariant graph (fun _ => False) claimed (world.gcScanPendingEphemerons graph) ∧
      Grows world (world.gcScanPendingEphemerons graph) := by
  apply Invariant.scanBuckets
  apply invariant.reexempt
  intro _ link original key _ isEphemeron isKey _
  exact .inl ⟨key, ⟨original, isEphemeron, isKey⟩, List.mem_range.mpr (graph.hash_lt key)⟩

end Pending

/-! ## Visiting edges -/

section Visit

theorem fields_in_work (addr : ℕ) {fields : List Ref} {index : ℕ}
    (inRange : index < fields.length) :
    Work.field addr index ∈ World.itemsOf addr (.ordinary fields) := by
  apply List.mem_map.mpr
  exact ⟨index, List.mem_range.mpr inRange, rfl⟩

/-- An object is forwarded, and what is to be done for it becomes work. Pending ephemerons with
this key are exempt until they are resolved. -/
theorem Invariant.forward {object : Object}
    (invariant : Invariant graph (fun _ => False) claimed world)
    (found : world.objects addr = some object) (missing : world.forwarded addr = none)
    (live : graph.Live addr) :
    Invariant graph (HasKey graph addr) claimed
        { world with
          forwarded := update world.forwarded addr (some (graph.place addr))
          work := world.work ++ World.itemsOf addr object } ∧
      Grows world
        { world with
          forwarded := update world.forwarded addr (some (graph.place addr))
          work := world.work ++ World.itemsOf addr object } := by
  generalize afterEq : ({ world with
      forwarded := update world.forwarded addr (some (graph.place addr))
      work := world.work ++ World.itemsOf addr object } : World) = after
  have atAddr : after.forwarded addr = some (graph.place addr) := by
    rw [← afterEq]
    exact update_self _ _ _
  have elsewhere : ∀ other, other ≠ addr → after.forwarded other = world.forwarded other := by
    intro other different
    rw [← afterEq]
    exact update_of_ne different _ _
  have grows : Grows world after := by
    refine ⟨?_, ?_, ?_, ?_, ?_, ?_⟩
    · intro other place before
      rw [elsewhere other, before]
      rintro rfl
      rw [missing] at before
      cases before
    all_goals subst afterEq
    · exact ⟨_, rfl⟩
    · exact fun _ isMember => isMember
    · rfl
    · rfl
    · rfl
  have objectsEq : after.objects = world.objects := by rw [← afterEq]
  have bucketsEq : after.buckets = world.buckets := by rw [← afterEq]
  have workEq : after.work = world.work ++ World.itemsOf addr object := by rw [← afterEq]
  have collected : graph.objects addr ≠ none := by
    intro absent
    rw [(invariant.domain addr).mpr absent] at found
    cases found
  have resolvedKept : ∀ other, Resolved graph world other → Resolved graph after other :=
    fun other resolved => resolved.mono grows (by rw [objectsEq])
  have unmarkedLater : ∀ other original key, graph.objects other = some (.ephemeron original) →
      original.key = .object key → False ∨ world.forwarded key = none →
        HasKey graph addr other ∨ after.forwarded key = none := by
    intro other original key isOriginal isKey unmarked
    by_cases isAddr : key = addr
    · subst isAddr
      exact .inl ⟨original, isOriginal, isKey⟩
    · rw [elsewhere key isAddr]
      exact .inr (unmarked.resolve_left id)
  refine ⟨⟨?_, ?_, ?_, ?_, ?_, ?_, ?_, ?_, ?_, ?_, ?_⟩, grows⟩
  · rw [objectsEq]
    exact invariant.domain
  · intro other notClaimed
    rw [objectsEq]
    have objectOk := invariant.objects other notClaimed
    by_cases same : other = addr
    · subst same
      rw [found] at objectOk ⊢
      generalize beforeEq : graph.objects other = before at objectOk ⊢
      have forwardedNow : after.forwarded other ≠ none := by rw [atAddr]; simp
      cases objectOk with
      | ordinary tracks traced =>
          apply ObjectOk.ordinary (tracks.imp fun _ _ tracks => tracks.mono grows)
          intro _ index ref isOriginal
          left
          rw [workEq]
          apply List.mem_append_right
          apply fields_in_work
          rw [← tracks.length_eq]
          exact (List.getElem?_eq_some_iff.mp isOriginal).1
      | ephemeron status traced touched =>
          apply ObjectOk.ephemeron
          · apply status.mono grows
            · intro _ bucket isMember
              rw [bucketsEq]
              exact isMember
            · exact fun _ _ key isKey => unmarkedLater other _ key beforeEq isKey
          · intro _
            left
            rw [workEq]
            exact List.mem_append_right _ (List.mem_singleton.mpr rfl)
          · exact fun _ => forwardedNow
    · apply objectOk.mono grows
      · rw [elsewhere other same]
        exact id
      · rw [bucketsEq]
        exact fun _ _ _ _ isMember => isMember
      · exact fun _ original _ key isOriginal _ _ isKey =>
          unmarkedLater other original key isOriginal isKey
  · intro other now isClaimed
    rw [objectsEq]
    obtain ⟨isNow, state, sameEpoch, forwarded⟩ := invariant.claimedOk other now isClaimed
    exact ⟨isNow, state, sameEpoch, grows.forwarded_ne_none forwarded⟩
  · intro other place forwarded
    by_cases same : other = addr
    · subst same
      rw [atAddr] at forwarded
      cases forwarded
      exact ⟨rfl, collected, live⟩
    · rw [elsewhere other same] at forwarded
      exact invariant.forwarded other place forwarded
  · intro item isItem
    rw [workEq] at isItem
    rcases List.mem_append.mp isItem with before | isNew
    · exact (invariant.work item before).mono grows resolvedKept
    · have traced : after.forwarded addr ≠ none := by
        rw [atAddr]
        simp
      cases object with
      | ordinary fields =>
          obtain ⟨index, -, rfl⟩ := List.mem_map.mp isNew
          exact traced
      | ephemeron now =>
          cases List.mem_singleton.mp isNew
          exact traced
  · intro other isMember
    rw [← afterEq] at isMember
    exact resolvedKept other (invariant.resolved other isMember)
  · exact fun ref isRoot => (invariant.roots ref isRoot).imp grows.mem_work
      fun marked => marked.mono grows
  · intro roots isBatch
    rw [grows.finalizerRoots]
    refine (invariant.finalizerRoots roots isBatch).imp_right fun done ref isRoot => ?_
    exact (done ref isRoot).imp grows.mem_work fun marked => marked.mono grows
  · rw [grows.finalizerRoots]
    exact invariant.remaining
  · rw [← afterEq]
    exact invariant.resolutions
  · intro other isMember
    rw [← afterEq] at isMember
    exact resolvedKept other (invariant.once other isMember)

end Visit

end Whippet.Ephemerons
