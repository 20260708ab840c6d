import Whippet.Ephemeron.Work

/-!
A collection ends at the least fixpoint.

Owns: the invariant of a run, the sweep of the ephemerons that stay pending, and what is so of
live objects and ephemerons when a collection is over.
-/

namespace Whippet.Ephemerons

open Function

variable {graph : Graph} {world after : World} {addr : ℕ} {original now : Ephemeron} {ref : Ref}

/-! ## The list of work -/

section Requeue

variable {work : List Work} {resolved : List ℕ} {finalizerRoots : List (List Ref)}

/-- Work that is done is left out, and what is queued elsewhere becomes work. -/
theorem Invariant.requeue (invariant : Invariant graph noExempt none world)
    (kept : ∀ item ∈ world.work, item ∈ work ∨ ItemDone graph world item)
    (itemsOk : ∀ item ∈ work, ItemOk graph world item)
    (keptResolved : ∀ addr ∈ world.resolved, addr ∈ resolved ∨ Work.resolved addr ∈ work)
    (resolvedOk : ∀ addr ∈ resolved, Resolved graph world addr)
    (keptRoots : ∀ roots ∈ world.finalizerRoots,
      roots ∈ finalizerRoots ∨ ∀ ref ∈ roots, Work.root ref ∈ work)
    (rootsOk : ∀ roots ∈ finalizerRoots, roots ∈ graph.finalizerRoots) :
    Invariant graph noExempt none
      { world with work := work, resolved := resolved, finalizerRoots := finalizerRoots } := by
  have keptRoot : ∀ ref, Work.root ref ∈ world.work ∨ Marked graph world ref →
      Work.root ref ∈ work ∨ Marked graph world ref := by
    intro ref before
    rcases before with isItem | marked
    · exact kept _ isItem
    · exact .inr marked
  refine
    { invariant with
      objects := ?_
      work := itemsOk
      resolved := resolvedOk
      roots := fun ref isRoot => keptRoot ref (invariant.roots ref isRoot)
      finalizerRoots := ?_
      remaining := rootsOk }
  · intro other notClaimed
    have objectOk := invariant.objects other notClaimed
    generalize isOriginal : graph.objects other = before at objectOk ⊢
    generalize isObject : world.objects other = object at objectOk ⊢
    cases objectOk with
    | absent => exact .absent
    | ordinary tracks traced =>
        refine .ordinary tracks fun forwarded index ref isField => ?_
        rcases traced forwarded index ref isField with isItem | marked
        · exact (kept _ isItem).imp_right fun done => done _ ref isOriginal isField
        · exact .inr marked
    | ephemeron status traced touched =>
        refine .ephemeron ?_ (fun forwarded => ?_) touched
        · cases status with
          | untouched => exact .untouched
          | dead isDead markedChain => exact .dead isDead markedChain
          | pending isKey collected markedChain published unmarked =>
              exact .pending isKey collected markedChain published unmarked
          | traced notNull markedKey markedChain markedValue =>
              exact .traced notNull markedKey markedChain markedValue
          | resolved notNull markedKey markedChain queued =>
              refine .resolved notNull markedKey markedChain ?_
              rcases queued with isResolved | isItem
              · exact keptResolved other isResolved
              · exact .inr ((kept _ isItem).resolve_right fun done => done _ isObject rfl)
        · rcases traced forwarded with isItem | sameEpoch
          · exact (kept _ isItem).imp_right fun done => done _ isObject
          · exact .inr sameEpoch
  · intro roots isBatch
    rcases invariant.finalizerRoots roots isBatch with isQueued | done
    · exact (keptRoots roots isQueued).imp_right fun queued ref isRoot => .inl (queued ref isRoot)
    · exact .inr fun ref isRoot => keptRoot ref (done ref isRoot)

end Requeue

theorem mem_eraseIdx {items : List Work} {index : ℕ} {item other : Work}
    (found : items[index]? = some item) (isItem : other ∈ items) :
    other ∈ items.eraseIdx index ∨ other = item := by
  obtain ⟨position, atPosition⟩ := List.mem_iff_getElem?.mp isItem
  by_cases same : position = index
  · subst same
    rw [found] at atPosition
    cases atPosition
    exact .inr rfl
  · exact .inl (List.mem_eraseIdx_iff_getElem?.mpr ⟨position, same, atPosition⟩)

/-- The work that was done is taken from the list. -/
theorem Invariant.erase {index : ℕ} {item : Work} (invariant : Invariant graph noExempt none world)
    (found : world.work[index]? = some item) (done : ItemDone graph world item) :
    Invariant graph noExempt none { world with work := world.work.eraseIdx index } := by
  apply invariant.requeue
  · intro other isItem
    rcases mem_eraseIdx found isItem with isKept | rfl
    · exact .inl isKept
    · exact .inr done
  · exact fun other isItem => invariant.work other (List.mem_of_mem_eraseIdx isItem)
  · exact fun _ isMember => .inl isMember
  · exact invariant.resolved
  · exact fun _ isMember => .inl isMember
  · exact invariant.remaining

theorem Invariant.popResolved (invariant : Invariant graph noExempt none world)
    (idle : world.idle) :
    Invariant graph noExempt none
      { world with work := world.resolved.map .resolved, resolved := [] } := by
  apply invariant.requeue
  · intro other isItem
    rw [idle] at isItem
    cases isItem
  · intro item isItem
    obtain ⟨addr, isMember, rfl⟩ := List.mem_map.mp isItem
    exact invariant.resolved addr isMember
  · exact fun addr isMember => .inr (List.mem_map_of_mem isMember)
  · exact fun _ absurdity => absurd absurdity List.not_mem_nil
  · exact fun _ isMember => .inl isMember
  · exact invariant.remaining

theorem Invariant.resolveFinalizers {roots : List Ref} {rest : List (List Ref)}
    (invariant : Invariant graph noExempt none world) (idle : world.idle)
    (batches : world.finalizerRoots = roots :: rest) :
    Invariant graph noExempt none
      { world with work := roots.map .root, finalizerRoots := rest } := by
  apply invariant.requeue
  · intro other isItem
    rw [idle] at isItem
    cases isItem
  · intro item isItem
    obtain ⟨ref, isMember, rfl⟩ := List.mem_map.mp isItem
    have isBatch := invariant.remaining roots (by rw [batches]; exact List.mem_cons_self ..)
    exact List.mem_append_right _ (List.mem_flatten_of_mem isBatch isMember)
  · exact fun _ isMember => .inl isMember
  · exact invariant.resolved
  · intro other isBatch
    rw [batches] at isBatch
    rcases List.mem_cons.mp isBatch with rfl | isRest
    · exact .inr fun ref isRoot => List.mem_map_of_mem isRoot
    · exact .inl isRest
  · intro other isRest
    exact invariant.remaining other (by rw [batches]; exact List.mem_cons_of_mem _ isRest)

/-- From here on, objects that are newly traced resolve their ephemerons. -/
theorem Invariant.resolveEagerly (invariant : Invariant graph noExempt none world) :
    Invariant graph noExempt none
        (World.gcScanPendingEphemerons graph
          { world with checkPendingEphemerons := true, phase := .resolving }) ∧
      Grows { world with checkPendingEphemerons := true, phase := .resolving }
        (World.gcScanPendingEphemerons graph
          { world with checkPendingEphemerons := true, phase := .resolving }) := by
  have checking : Invariant graph (fun _ => True) none
      { world with checkPendingEphemerons := true, phase := .resolving } := by
    refine { invariant with objects := ?_ }
    intro other notClaimed
    have objectOk := invariant.objects other notClaimed
    generalize graph.objects other = before at objectOk ⊢
    show ObjectOk graph _ _ other before (world.objects other)
    generalize world.objects other = object at objectOk ⊢
    cases objectOk with
    | absent => exact .absent
    | ordinary tracks traced => exact .ordinary tracks traced
    | ephemeron status traced touched =>
        refine .ephemeron ?_ traced touched
        cases status with
        | untouched => exact .untouched
        | dead isDead markedChain => exact .dead isDead markedChain
        | pending isKey collected markedChain published _ =>
            exact .pending isKey collected markedChain published fun _ => .inl trivial
        | resolved notNull markedKey markedChain queued =>
            exact .resolved notNull markedKey markedChain queued
        | traced notNull markedKey markedChain markedValue =>
            exact .traced notNull markedKey markedChain markedValue
  exact checking.gcScanPendingEphemerons

/-! ## Sweeping -/

/-- Some pending ephemerons were found to be dead. -/
structure Sweeps (world after : World) : Prop where
  forwarded : after.forwarded = world.forwarded
  work : after.work = world.work
  resolved : after.resolved = world.resolved
  finalizerRoots : after.finalizerRoots = world.finalizerRoots
  resolutions : after.resolutions = world.resolutions
  phase : after.phase = world.phase
  objects : ∀ addr, after.objects addr = world.objects addr ∨
    ∃ now, world.objects addr = some (.ephemeron now) ∧ now.state = .pending ∧
      after.objects addr = some (.ephemeron { now with key := .null, state := .traced })

theorem Sweeps.refl (world : World) : Sweeps world world :=
  ⟨rfl, rfl, rfl, rfl, rfl, rfl, fun _ => .inl rfl⟩

theorem Sweeps.trans {middle : World} (left : Sweeps world middle) (right : Sweeps middle after) :
    Sweeps world after := by
  refine ⟨right.forwarded.trans left.forwarded, right.work.trans left.work,
    right.resolved.trans left.resolved, right.finalizerRoots.trans left.finalizerRoots,
    right.resolutions.trans left.resolutions, right.phase.trans left.phase, ?_⟩
  intro addr
  rcases right.objects addr with same | ⟨now, found, isPending, swept⟩
  · rw [same]
    exact left.objects addr
  · rcases left.objects addr with same | ⟨before, _, _, sweptBefore⟩
    · rw [same] at found
      exact .inr ⟨now, found, isPending, swept⟩
    · rw [found] at sweptBefore
      cases sweptBefore
      cases isPending

theorem isPending_iff : world.isPending addr = true ↔
    ∃ now, world.objects addr = some (.ephemeron now) ∧ now.state = .pending := by
  rw [World.isPending, World.ephemeronAt]
  cases found : world.objects addr with
  | none => simp
  | some object => cases object <;> simp

theorem Sweeps.isPending (sweeps : Sweeps world after) (isPending : after.isPending addr = true) :
    world.isPending addr = true := by
  obtain ⟨now, found, state⟩ := isPending_iff.mp isPending
  rcases sweeps.objects addr with same | ⟨_, _, _, swept⟩
  · rw [same] at found
    exact isPending_iff.mpr ⟨now, found, state⟩
  · rw [found] at swept
    cases swept
    cases state

theorem Sweeps.kept (sweeps : Sweeps world after)
    (found : world.objects addr = some (.ephemeron now)) (notPending : now.state ≠ .pending) :
    after.objects addr = some (.ephemeron now) := by
  rcases sweeps.objects addr with same | ⟨before, foundBefore, isPending, -⟩
  · rw [same, found]
  · rw [found] at foundBefore
    cases foundBefore
    exact absurd isPending notPending

theorem Sweeps.markDead (isPending : world.isPending addr = true) :
    Sweeps world (world.markDead addr) ∧ (world.markDead addr).buckets = world.buckets ∧
      (world.markDead addr).isPending addr ≠ true := by
  obtain ⟨now, found, state⟩ := isPending_iff.mp isPending
  rw [World.markDead, modify_eq found]
  refine ⟨⟨rfl, rfl, rfl, rfl, rfl, rfl, ?_⟩, rfl, ?_⟩
  · intro other
    by_cases same : other = addr
    · subst same
      exact .inr ⟨now, found, state, update_self ..⟩
    · exact .inl (update_of_ne same _ _)
  · intro stillPending
    obtain ⟨later, foundLater, stateLater⟩ := isPending_iff.mp stillPending
    cases (update_self ..).symm.trans foundLater
    cases stateLater

theorem Sweeps.links (links : List ℕ) (world : World) :
    let after := links.foldl
      (fun world link => if world.isPending link then world.markDead link else world) world
    Sweeps world after ∧ after.buckets = world.buckets ∧
      ∀ link ∈ links, after.isPending link ≠ true := by
  induction links generalizing world with
  | nil => exact ⟨Sweeps.refl world, rfl, by simp⟩
  | cons link rest inductionHypothesis =>
      dsimp only
      rw [List.foldl_cons]
      split
      case isTrue isPending =>
        obtain ⟨marks, sameBuckets, noLonger⟩ := Sweeps.markDead isPending
        obtain ⟨sweeps, restBuckets, none⟩ := inductionHypothesis (world.markDead link)
        refine ⟨marks.trans sweeps, restBuckets.trans sameBuckets, ?_⟩
        intro other isMember
        rcases List.mem_cons.mp isMember with rfl | isRest
        · exact fun stillPending => noLonger (sweeps.isPending stillPending)
        · exact none other isRest
      case isFalse notPending =>
        obtain ⟨sweeps, restBuckets, none⟩ := inductionHypothesis world
        refine ⟨sweeps, restBuckets, ?_⟩
        intro other isMember
        rcases List.mem_cons.mp isMember with rfl | isRest
        · exact fun stillPending => notPending (sweeps.isPending stillPending)
        · exact none other isRest

theorem Sweeps.bucket (bucket : ℕ) (world : World) :
    Sweeps world (world.sweepBucket bucket) ∧
      (world.sweepBucket bucket).buckets = update world.buckets bucket [] ∧
        ∀ link ∈ world.buckets bucket, (world.sweepBucket bucket).isPending link ≠ true := by
  rw [World.sweepBucket, World.forEachPending]
  obtain ⟨sweeps, sameBuckets, none⟩ := Sweeps.links
    ((world.buckets bucket).filter world.isPending)
    { world with
      buckets := update world.buckets bucket ((world.buckets bucket).filter world.isPending) }
  dsimp only
  generalize ((world.buckets bucket).filter world.isPending).foldl _ _ = swept at *
  have sweepsAll : Sweeps world { swept with buckets := update swept.buckets bucket [] } :=
    ⟨sweeps.forwarded, sweeps.work, sweeps.resolved, sweeps.finalizerRoots, sweeps.resolutions,
      sweeps.phase, sweeps.objects⟩
  refine ⟨sweepsAll, ?_, ?_⟩
  · rw [sameBuckets, update_idem]
  · intro link isMember stillPending
    have before := sweepsAll.isPending stillPending
    exact none link (List.mem_filter.mpr ⟨isMember, before⟩) stillPending

theorem Sweeps.buckets (buckets : List ℕ) (world : World) :
    Sweeps world (buckets.foldl World.sweepBucket world) ∧
      (∀ bucket, bucket ∈ buckets ∨ world.buckets bucket = [] →
        (buckets.foldl World.sweepBucket world).buckets bucket = []) ∧
        ∀ bucket ∈ buckets, ∀ link ∈ world.buckets bucket,
          (buckets.foldl World.sweepBucket world).isPending link ≠ true := by
  induction buckets generalizing world with
  | nil => exact ⟨Sweeps.refl world, by simp, by simp⟩
  | cons first rest inductionHypothesis =>
      rw [List.foldl_cons]
      obtain ⟨sweepsFirst, firstBuckets, noneFirst⟩ := Sweeps.bucket first world
      obtain ⟨sweepsRest, empty, none⟩ := inductionHypothesis (world.sweepBucket first)
      refine ⟨sweepsFirst.trans sweepsRest, ?_, ?_⟩
      · intro bucket isSwept
        apply empty
        rw [firstBuckets]
        by_cases same : bucket = first
        · subst same
          exact .inr (update_self ..)
        · rw [update_of_ne same]
          exact isSwept.imp_left fun isMember => (List.mem_cons.mp isMember).resolve_left same
      · intro bucket isMember link isLink
        by_cases same : bucket = first
        · subst same
          exact fun stillPending => noneFirst link isLink (sweepsRest.isPending stillPending)
        · apply none bucket ((List.mem_cons.mp isMember).resolve_left same)
          rw [firstBuckets, update_of_ne same]
          exact isLink

/-! ## The fixpoint -/

/-- The tracer has nothing left to do. -/
structure Finished (graph : Graph) (world : World) : Prop where
  invariant : Invariant graph noExempt none world
  checking : world.checkPendingEphemerons = true
  idle : world.idle
  resolved : world.resolved = []
  finalizerRoots : world.finalizerRoots = []

/-- What a traced ephemeron has become when the tracer has finished. -/
theorem Finished.status (finished : Finished graph world)
    (isOriginal : graph.objects addr = some (.ephemeron original))
    (forwarded : world.forwarded addr ≠ none) :
    ∃ now, world.objects addr = some (.ephemeron now) ∧ now.epoch = graph.epoch ∧
      Status graph world noExempt addr original now := by
  cases found : world.objects addr with
  | none =>
      rw [(finished.invariant.domain addr).mp found] at isOriginal
      cases isOriginal
  | some object =>
      have objectOk := finished.invariant.objects addr (by simp)
      rw [found, isOriginal] at objectOk
      cases objectOk with
      | ephemeron status traced touched =>
          refine ⟨_, rfl, (traced forwarded).resolve_left fun isItem => ?_, status⟩
          rw [finished.idle] at isItem
          cases isItem

/-- The value of an ephemeron with a marked key is marked. -/
theorem Finished.markedValue (finished : Finished graph world)
    (isOriginal : graph.objects addr = some (.ephemeron original))
    (forwarded : world.forwarded addr ≠ none) (notNull : original.key ≠ .null)
    (markedKey : Marked graph world original.key) :
    Marked graph world original.value ∧
      world.objects addr = some (.ephemeron (tracedEphemeron graph addr original)) := by
  obtain ⟨now, found, sameEpoch, status⟩ := finished.status isOriginal forwarded
  cases status with
  | untouched => exact absurd sameEpoch (graph.ready addr _ isOriginal).2
  | dead isDead => exact absurd isDead notNull
  | pending isKey collected _ _ unmarked =>
      have missing := (unmarked finished.checking).resolve_left id
      rw [markedKey _ ⟨isKey, collected⟩] at missing
      cases missing
  | resolved _ _ _ queued =>
      rw [finished.resolved, finished.idle] at queued
      simp at queued
  | traced _ _ _ markedValue => exact ⟨markedValue, found⟩

theorem Finished.markedChain (finished : Finished graph world)
    (isOriginal : graph.objects addr = some (.ephemeron original))
    (forwarded : world.forwarded addr ≠ none) :
    Marked graph world (graph.chainOf addr original) := by
  obtain ⟨now, found, sameEpoch, status⟩ := finished.status isOriginal forwarded
  cases status with
  | untouched => exact absurd sameEpoch (graph.ready addr _ isOriginal).2
  | dead _ markedChain => exact markedChain
  | pending _ _ markedChain => exact markedChain
  | resolved _ _ markedChain => exact markedChain
  | traced _ _ markedChain => exact markedChain

theorem Marked.forwarded_ne_none {target : ℕ} (marked : Marked graph world ref)
    (refers : graph.Refers ref target) : world.forwarded target ≠ none := by
  rw [marked target refers]
  simp

theorem Finished.markedRoot (finished : Finished graph world) (isRoot : ref ∈ graph.allRoots) :
    Marked graph world ref := by
  have notItem : Work.root ref ∉ world.work := by
    rw [finished.idle]
    exact List.not_mem_nil
  rcases List.mem_append.mp isRoot with isFirst | isLater
  · exact (finished.invariant.roots ref isFirst).resolve_left notItem
  · obtain ⟨roots, isBatch, isMember⟩ := List.mem_flatten.mp isLater
    rcases finished.invariant.finalizerRoots roots isBatch with queued | done
    · rw [finished.finalizerRoots] at queued
      cases queued
    · exact (done ref isMember).resolve_left notItem

theorem Finished.closed (finished : Finished graph world) :
    ClosedUnder graph.Rule {addr | world.forwarded addr ≠ none} := by
  intro premises target isRule premisesForwarded
  cases isRule with
  | root isRoot refers => exact (finished.markedRoot isRoot).forwarded_ne_none refers
  | @field addr _ fields ref found isField refers =>
      have forwarded : world.forwarded addr ≠ none := premisesForwarded addr (by simp)
      obtain ⟨index, atIndex⟩ := List.mem_iff_getElem?.mp isField
      obtain ⟨-, -, -, traced⟩ := finished.invariant.ordinaryAt found
      apply ((traced forwarded index ref atIndex).resolve_left _).forwarded_ne_none refers
      rw [finished.idle]
      exact List.not_mem_nil
  | @chain addr _ ephemeron found refers =>
      have forwarded : world.forwarded addr ≠ none := premisesForwarded addr (by simp)
      exact (finished.markedChain found forwarded).forwarded_ne_none refers
  | @value addr key _ ephemeron found refersKey refers =>
      have forwarded : world.forwarded addr ≠ none := premisesForwarded addr (by simp)
      have keyForwarded : world.forwarded key ≠ none := premisesForwarded key (by simp)
      have markedKey := finished.invariant.marked_of_forwarded keyForwarded
      have notNull : ephemeron.key ≠ .null := by
        rw [refersKey.1]
        simp
      rw [← refersKey.1] at markedKey
      exact (finished.markedValue found forwarded notNull markedKey).1.forwarded_ne_none refers
  | @valueOfRetained addr _ ephemeron found notNull retained refers =>
      have forwarded : world.forwarded addr ≠ none := premisesForwarded addr (by simp)
      have markedKey : Marked graph world ephemeron.key := fun key is => absurd is (retained key)
      exact (finished.markedValue found forwarded notNull markedKey).1.forwarded_ne_none refers

theorem Finished.isLeast (finished : Finished graph world) :
    IsLeast {live | ClosedUnder graph.Rule live} {addr | world.forwarded addr ≠ none} := by
  apply isLeast_of_derivable _ finished.closed
  intro addr forwarded
  obtain ⟨place, isPlace⟩ := Option.ne_none_iff_exists'.mp forwarded
  exact (finished.invariant.forwarded addr place isPlace).2.2

/-- What is so when a collection is over. -/
structure Collected (graph : Graph) (world : World) : Prop where
  isLeast : IsLeast {live | ClosedUnder graph.Rule live} {addr | world.forwarded addr ≠ none}
  place : ∀ addr place, world.forwarded addr = some place → place = graph.place addr
  traced : ∀ addr original, graph.objects addr = some (.ephemeron original) →
    world.forwarded addr ≠ none →
      ∃ now, world.objects addr = some (.ephemeron now) ∧ now.state = .traced ∧
        now.epoch = graph.epoch ∧
          (graph.KeyLive {addr | world.forwarded addr ≠ none} original.key →
            now.key = graph.final original.key ∧ now.value = graph.final original.value ∧
              ∀ target, graph.Refers original.value target → world.forwarded target ≠ none) ∧
            (¬graph.KeyLive {addr | world.forwarded addr ≠ none} original.key → now.key = .null)
  buckets : ∀ bucket < graph.nbuckets, world.buckets bucket = []
  resolved : world.resolved = []
  once : world.resolutions.Nodup

theorem Invariant.marked_of_keyLive {exempt : ℕ → Prop} {claimed : Option (ℕ × Ephemeron)}
    (invariant : Invariant graph exempt claimed world)
    (keyLive : graph.KeyLive {addr | world.forwarded addr ≠ none} ref) : Marked graph world
      ref := by
  intro addr refers
  exact invariant.marked_of_forwarded (keyLive.2 addr refers) addr ⟨rfl, refers.2⟩

/-- The sweep leaves no ephemeron pending. -/
theorem Finished.swept (finished : Finished graph world) :
    Sweeps world (world.gcSweepPendingEphemerons graph) ∧
      (∀ bucket < graph.nbuckets,
        (world.gcSweepPendingEphemerons graph).buckets bucket = []) ∧
        ∀ addr, (world.gcSweepPendingEphemerons graph).isPending addr ≠ true := by
  obtain ⟨sweeps, empty, none⟩ := Sweeps.buckets (List.range graph.nbuckets) world
  refine ⟨sweeps, fun bucket inRange => empty bucket (.inl (List.mem_range.mpr inRange)), ?_⟩
  intro addr stillPending
  obtain ⟨original, key, -, -, -, -, published, -⟩ :=
    finished.invariant.of_isPending (sweeps.isPending stillPending)
  exact none _ (List.mem_range.mpr (graph.hash_lt key)) addr published stillPending

theorem Finished.collected (finished : Finished graph world) :
    Collected graph { world.gcSweepPendingEphemerons graph with phase := .swept } := by
  obtain ⟨sweeps, empty, none⟩ := finished.swept
  generalize world.gcSweepPendingEphemerons graph = swept at *
  refine ⟨?_, ?_, ?_, empty, sweeps.resolved.trans finished.resolved, ?_⟩
  · show IsLeast _ {addr | swept.forwarded addr ≠ Option.none}
    rw [sweeps.forwarded]
    exact finished.isLeast
  · show ∀ addr place, swept.forwarded addr = some place → _
    rw [sweeps.forwarded]
    exact fun addr place isPlace => (finished.invariant.forwarded addr place isPlace).1
  · intro addr original isOriginal forwarded
    show ∃ now, swept.objects addr = some (.ephemeron now) ∧ now.state = .traced ∧
      now.epoch = graph.epoch ∧ (graph.KeyLive {addr | swept.forwarded addr ≠ Option.none} _ → _ ∧
        _ ∧ ∀ target, _ → swept.forwarded target ≠ Option.none) ∧
        (¬graph.KeyLive {addr | swept.forwarded addr ≠ Option.none} _ → _)
    replace forwarded : swept.forwarded addr ≠ Option.none := forwarded
    rw [sweeps.forwarded] at forwarded ⊢
    by_cases keyLive : graph.KeyLive {addr | world.forwarded addr ≠ Option.none} original.key
    · have markedKey := finished.invariant.marked_of_keyLive keyLive
      obtain ⟨markedValue, found⟩ :=
        finished.markedValue isOriginal forwarded keyLive.1 markedKey
      refine ⟨tracedEphemeron graph addr original, sweeps.kept found (by simp [tracedEphemeron]),
        rfl, rfl, fun _ => ⟨rfl, rfl, ?_⟩, absurd keyLive⟩
      exact fun _ refers => markedValue.forwarded_ne_none refers
    · obtain ⟨now, found, sameEpoch, status⟩ := finished.status isOriginal forwarded
      suffices swept : ∃ now, swept.objects addr = some (.ephemeron now) ∧ now.state = .traced ∧
          now.epoch = graph.epoch ∧ now.key = .null by
        obtain ⟨now, isNow, state, sameEpoch, isNull⟩ := swept
        exact ⟨now, isNow, state, sameEpoch, fun live => absurd live keyLive, fun _ => isNull⟩
      cases status with
      | untouched => exact absurd sameEpoch (graph.ready addr _ isOriginal).2
      | dead => exact ⟨_, sweeps.kept found (by simp), rfl, rfl, rfl⟩
      | pending =>
          rcases sweeps.objects addr with same | ⟨before, foundBefore, -, isSwept⟩
          · rw [found] at same
            exact absurd (isPending_iff.mpr ⟨_, same, rfl⟩) (none addr)
          · rw [found] at foundBefore
            cases foundBefore
            exact ⟨_, isSwept, rfl, rfl, rfl⟩
      | resolved _ _ _ queued =>
          rw [finished.resolved, finished.idle] at queued
          simp at queued
      | traced notNull markedKey =>
          refine absurd ⟨notNull, ?_⟩ keyLive
          exact fun _ refers => markedKey.forwarded_ne_none refers
  · show swept.resolutions.Nodup
    rw [sweeps.resolutions]
    exact finished.invariant.resolutions

/-! ## Runs -/

/-- The invariant of a run. -/
structure RunInvariant (graph : Graph) (world : World) : Prop where
  tracer : world.phase ≠ .swept → Invariant graph noExempt none world
  checking : world.phase = .resolving → world.checkPendingEphemerons = true
  collected : world.phase = .swept → Collected graph world ∧ world.idle

theorem RunInvariant.initial (graph : Graph) : RunInvariant graph (initialWorld graph) := by
  refine ⟨fun _ => ?_, fun absurdity => ?_, fun absurdity => ?_⟩
  · refine ⟨fun _ => Iff.rfl, ?_, ?_, ?_, ?_, ?_, ?_, ?_, ?_, ?_, ?_⟩
    · intro addr _
      show ObjectOk graph (initialWorld graph) noExempt addr (graph.objects addr)
        (graph.objects addr)
      cases isOriginal : graph.objects addr with
      | none => exact .absent
      | some object =>
          cases object with
          | ordinary fields =>
              exact .ordinary (List.forall₂_same.mpr fun _ _ => .inl rfl)
                fun forwarded => absurd rfl forwarded
          | ephemeron original =>
              exact .ephemeron .untouched (fun forwarded => absurd rfl forwarded)
                fun sameEpoch => absurd sameEpoch (graph.ready addr original isOriginal).2
    · exact fun _ _ absurdity => by cases absurdity
    · exact fun _ _ absurdity => by cases absurdity
    · intro item isItem
      obtain ⟨ref, isRoot, rfl⟩ := List.mem_map.mp isItem
      exact List.mem_append_left _ isRoot
    · exact fun _ absurdity => by cases absurdity
    · exact fun ref isRoot => .inl (List.mem_map_of_mem isRoot)
    · exact fun _ isBatch => .inl isBatch
    · exact fun _ isBatch => isBatch
    · exact List.nodup_nil
    · exact fun _ absurdity => by cases absurdity
  · cases absurdity
  · cases absurdity

theorem RunInvariant.afterStep {action : Action} (invariant : RunInvariant graph world)
    (stepped : step graph world action = .next after) : RunInvariant graph after := by
  cases action with
  | work index =>
      simp only [Ephemerons.step] at stepped
      split at stepped
      case h_2 => cases stepped
      case h_1 item found =>
        cases stepped
        have isItem := List.mem_of_getElem? found
        have running : world.phase ≠ .swept := by
          intro swept
          have idle := (invariant.collected swept).2
          rw [idle] at isItem
          cases isItem
        obtain ⟨done, grows, isDone⟩ := (invariant.tracer running).doWork isItem
        obtain ⟨more, workEq⟩ := grows.work
        refine ⟨fun _ => done.erase ?_ isDone, ?_, ?_⟩
        · rw [workEq, List.getElem?_append_left (List.getElem?_eq_some_iff.mp found).1, found]
        · intro resolving
          exact grows.checkPendingEphemerons.trans
            (invariant.checking (grows.phase.symm.trans resolving))
        · exact fun swept => absurd (grows.phase.symm.trans swept) running
  | resolveEagerly =>
      simp only [Ephemerons.step, Outcome.require_bind_eq_next, Outcome.pure_eq_next,
        Outcome.next.injEq] at stepped
      obtain ⟨⟨tracing, -⟩, rfl⟩ := stepped
      have running : world.phase ≠ .swept := by rw [tracing]; simp
      obtain ⟨scanned, grows⟩ := (invariant.tracer running).resolveEagerly
      refine ⟨fun _ => scanned, fun _ => grows.checkPendingEphemerons, ?_⟩
      intro swept
      cases grows.phase.symm.trans swept
  | popResolved =>
      simp only [Ephemerons.step, Outcome.require_bind_eq_next, Outcome.pure_eq_next,
        Outcome.next.injEq] at stepped
      obtain ⟨⟨resolving, idle, -⟩, rfl⟩ := stepped
      have running : world.phase ≠ .swept := by rw [resolving]; simp
      exact ⟨fun _ => (invariant.tracer running).popResolved idle,
        fun _ => invariant.checking resolving, fun swept => absurd swept running⟩
  | resolveFinalizers =>
      simp only [Ephemerons.step, Outcome.require_bind_eq_next] at stepped
      obtain ⟨⟨resolving, idle, -⟩, stepped⟩ := stepped
      have running : world.phase ≠ .swept := by rw [resolving]; simp
      split at stepped
      case h_1 => cases stepped
      case h_2 roots rest batches =>
        cases stepped
        exact ⟨fun _ => (invariant.tracer running).resolveFinalizers idle batches,
          fun _ => invariant.checking resolving, fun swept => absurd swept running⟩
  | sweep =>
      simp only [Ephemerons.step, Outcome.require_bind_eq_next, Outcome.pure_eq_next,
        Outcome.next.injEq] at stepped
      obtain ⟨⟨resolving, idle, resolved, finalizerRoots⟩, rfl⟩ := stepped
      have running : world.phase ≠ .swept := by rw [resolving]; simp
      have finished : Finished graph world :=
        ⟨invariant.tracer running, invariant.checking resolving, idle, resolved, finalizerRoots⟩
      refine ⟨fun absurdity => absurd rfl absurdity, fun absurdity => ?_, fun _ => ?_⟩
      · cases absurdity
      · exact ⟨finished.collected, finished.swept.1.work.trans idle⟩

theorem reachable_runInvariant (reached : (system graph).Reachable world) :
    RunInvariant graph world := by
  apply reached.invariant
  · rintro state rfl
    exact RunInvariant.initial graph
  · exact fun _ _ _ kept _ stepped => kept.afterStep stepped

end Whippet.Ephemerons
