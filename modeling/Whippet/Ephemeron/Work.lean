import Whippet.Ephemeron.Invariant

/-!
Every piece of work keeps the invariant, and is done afterwards.

Owns: visiting edges, following chains, tracing ephemerons, and taking work that is done from the
list.
-/

namespace Whippet.Ephemerons

open Function

variable {graph : Graph} {world after : World} {claimed : Option (ℕ × Ephemeron)} {addr : ℕ}
variable {original now : Ephemeron} {ref : Ref}

/-- No ephemeron is exempt. -/
abbrev noExempt : ℕ → Prop := fun _ => False

/-! ## Visiting edges -/

theorem Invariant.shade {object : Object} (invariant : Invariant graph noExempt claimed world)
    (found : world.objects addr = some object) (missing : world.forwarded addr = none)
    (live : graph.Live addr) :
    Invariant graph noExempt claimed (world.shade graph addr object) ∧
      Grows world (world.shade graph addr object) ∧
        (world.shade graph addr object).forwarded addr = some (graph.place addr) := by
  obtain ⟨forwarded, grows⟩ := invariant.forward found missing live
  rw [World.shade]
  generalize worldEq : ({ world with
      forwarded := update world.forwarded addr (some (graph.place addr))
      work := world.work ++ World.itemsOf addr object } : World) = shaded at forwarded grows ⊢
  have atAddr : shaded.forwarded addr = some (graph.place addr) := by
    rw [← worldEq]
    exact update_self _ _ _
  split
  case isTrue =>
    obtain ⟨resolved, growsMore⟩ := forwarded.gcResolvePendingEphemerons (by rw [atAddr]; simp)
    exact ⟨resolved, grows.trans growsMore, growsMore.forwarded addr _ atAddr⟩
  case isFalse unchecked =>
    refine ⟨forwarded.reexempt ?_, grows, atAddr⟩
    exact fun checks => absurd checks unchecked

/-- A visited edge becomes final, and what it is to is forwarded. -/
theorem Invariant.visit {before : Ref} (invariant : Invariant graph noExempt claimed world)
    (tracks : Tracks graph world before ref)
    (live : ∀ target, graph.Refers before target → graph.Live target) :
    Invariant graph noExempt claimed (world.visit graph ref).1 ∧
      Grows world (world.visit graph ref).1 ∧ Marked graph (world.visit graph ref).1 before ∧
        (world.visit graph ref).2 = graph.final before := by
  by_cases refers : ∃ target, graph.Refers ref target
  · obtain ⟨target, refersTarget⟩ := refers
    have refersBefore : graph.Refers before target := by
      rcases tracks with rfl | ⟨rfl, -⟩
      · exact refersTarget
      · exact refersTarget.of_final
    obtain ⟨rfl, collected⟩ := refersTarget
    have present : world.objects target ≠ none := fun absent =>
      collected ((invariant.domain target).mp absent)
    obtain ⟨object, found⟩ := Option.ne_none_iff_exists'.mp present
    rw [refersBefore.final]
    have markedOf : ∀ later : World, later.forwarded target = some (graph.place target) →
        Marked graph later before := by
      rintro later forwarded other ⟨isOther, -⟩
      rw [refersBefore.1] at isOther
      cases isOther
      exact forwarded
    cases forwarded : world.forwarded target with
    | none =>
        have visitEq : world.visit graph (.object target) =
            (world.shade graph target object, .object (graph.place target)) := by
          simp only [World.visit, found, forwarded]
        obtain ⟨kept, grows, atTarget⟩ := invariant.shade found forwarded (live target refersBefore)
        rw [visitEq]
        exact ⟨kept, grows, markedOf _ atTarget, rfl⟩
    | some place =>
        have visitEq : world.visit graph (.object target) = (world, .object place) := by
          simp only [World.visit, found, forwarded]
        have placeEq := (invariant.forwarded target place forwarded).1
        rw [visitEq, ← placeEq]
        exact ⟨invariant, Grows.refl world, markedOf world (by rw [forwarded, placeEq]), rfl⟩
  · have none : ∀ target, ¬graph.Refers ref target := fun target is => refers ⟨target, is⟩
    have visitEq : world.visit graph ref = (world, ref) := by
      cases ref with
      | object target =>
          cases found : world.objects target with
          | none => simp [World.visit, found]
          | some object =>
              refine absurd ⟨rfl, ?_⟩ (none target)
              intro absent
              rw [(invariant.domain target).mpr absent] at found
              cases found
      | _ => rfl
    rw [visitEq]
    refine ⟨invariant, Grows.refl world, ?_⟩
    rcases tracks with rfl | ⟨isFinal, marked⟩
    · exact ⟨fun target is => absurd is (none target), (Graph.final_of_not_refers none).symm⟩
    · exact ⟨marked, isFinal⟩

/-! ## Fields -/

theorem Invariant.ordinaryAt {before : List Ref} (invariant : Invariant graph noExempt none world)
    (isOriginal : graph.objects addr = some (.ordinary before)) :
    ∃ fields, world.objects addr = some (.ordinary fields) ∧
      List.Forall₂ (Tracks graph world) before fields ∧
        (world.forwarded addr ≠ none → ∀ index ref, before[index]? = some ref →
          Work.field addr index ∈ world.work ∨ Marked graph world ref) := by
  have objectOk := invariant.objects addr (by simp)
  rw [isOriginal] at objectOk
  generalize world.objects addr = object at objectOk ⊢
  cases objectOk with
  | ordinary tracks traced => exact ⟨_, rfl, tracks, traced⟩

/-- The fields of an ordinary object change. -/
theorem Invariant.changeFields {before fields : List Ref}
    (invariant : Invariant graph noExempt none world)
    (isOriginal : graph.objects addr = some (.ordinary before))
    (tracks : List.Forall₂ (Tracks graph world) before fields) :
    Invariant graph noExempt none
        { world with objects := update world.objects addr (some (.ordinary fields)) } ∧
      Grows world
        { world with objects := update world.objects addr (some (.ordinary fields)) } := by
  have grows : Grows world
      { world with objects := update world.objects addr (some (.ordinary fields)) } :=
    ⟨fun _ _ same => same, ⟨[], (List.append_nil _).symm⟩, fun _ isMember => isMember, rfl, rfl,
      rfl⟩
  have resolvedKept : ∀ other, Resolved graph world other → Resolved graph
      { world with objects := update world.objects addr (some (.ordinary fields)) } other := by
    intro other resolved
    apply resolved.mono grows
    apply update_of_ne
    rintro rfl
    obtain ⟨original, -, isEphemeron, -⟩ := resolved
    rw [isOriginal] at isEphemeron
    cases isEphemeron
  refine ⟨?_, grows⟩
  refine
    { invariant with
      domain := ?_
      objects := ?_
      claimedOk := fun _ _ absurdity => by cases absurdity
      work := fun item isItem => (invariant.work item isItem).mono grows resolvedKept
      resolved := fun other isMember => resolvedKept other (invariant.resolved other isMember)
      once := fun other isMember => resolvedKept other (invariant.once other isMember) }
  · intro other
    show update world.objects addr _ other = none ↔ _
    by_cases same : other = addr
    · subst same
      rw [update_self, isOriginal]
      simp
    · rw [update_of_ne same]
      exact invariant.domain other
  · intro other notClaimed
    show ObjectOk graph _ _ other _ (update world.objects addr _ other)
    by_cases same : other = addr
    · subst same
      rw [update_self, isOriginal]
      apply ObjectOk.ordinary (tracks.imp fun _ _ tracks => tracks.mono grows)
      obtain ⟨-, -, -, traced⟩ := invariant.ordinaryAt isOriginal
      exact traced
    · rw [update_of_ne same]
      apply (invariant.objects other notClaimed).mono grows id
      · exact fun _ _ _ _ isMember => isMember
      · exact fun _ _ _ _ _ _ _ _ unmarked => unmarked

theorem tracks_set {before fields : List Ref} {index : ℕ} {final : Ref}
    (tracks : List.Forall₂ (Tracks graph world) before fields)
    (tracksFinal : ∀ ref, before[index]? = some ref → Tracks graph world ref final) :
    List.Forall₂ (Tracks graph world) before (fields.set index final) := by
  induction tracks generalizing index with
  | nil => exact .nil
  | cons tracksHead tracksTail inductionHypothesis =>
      cases index with
      | zero => exact .cons (tracksFinal _ rfl) tracksTail
      | succ index => exact .cons tracksHead (inductionHypothesis tracksFinal)

theorem tracks_getElem {before fields : List Ref} {index : ℕ}
    (tracks : List.Forall₂ (Tracks graph world) before fields)
    (isField : before[index]? = some ref) :
    Tracks graph world ref (fields.getD index .null) := by
  induction tracks generalizing index with
  | nil => cases isField
  | cons tracksHead _ inductionHypothesis =>
      cases index with
      | zero =>
          cases isField
          exact tracksHead
      | succ index => exact inductionHypothesis isField

/-! ## Work that is done -/

/-- Nothing is left to do for a piece of work. -/
def ItemDone (graph : Graph) (world : World) : Work → Prop
  | .root ref => Marked graph world ref
  | .field addr index => ∀ before ref, graph.objects addr = some (.ordinary before) →
      before[index]? = some ref → Marked graph world ref
  | .ephemeron addr => ∀ now, world.objects addr = some (.ephemeron now) → now.epoch = graph.epoch
  | .resolved addr => ∀ now, world.objects addr = some (.ephemeron now) → now.state ≠ .resolved

theorem setField_eq {fields : List Ref} {index : ℕ}
    (found : world.objects addr = some (.ordinary fields)) :
    world.setField addr index ref =
      { world with
        objects := update world.objects addr (some (.ordinary (fields.set index ref))) } := by
  rw [World.setField, found]

theorem fieldAt_eq {fields : List Ref} {index : ℕ}
    (found : world.objects addr = some (.ordinary fields)) :
    world.fieldAt addr index = fields.getD index .null := by
  rw [World.fieldAt, found]

theorem visitField_eq (graph : Graph) (world : World) (addr index : ℕ) :
    world.visitField graph addr index =
      (world.visit graph (world.fieldAt addr index)).1.setField addr index
        (world.visit graph (world.fieldAt addr index)).2 := rfl

/-- There is no such field. -/
theorem Invariant.visitField_of_absent {index : ℕ}
    (invariant : Invariant graph noExempt none world)
    (absent : ∀ before ref, graph.objects addr = some (.ordinary before) →
      before[index]? ≠ some ref) :
    world.visitField graph addr index = world := by
  cases isOriginal : graph.objects addr with
  | none =>
      have found := (invariant.domain addr).mpr isOriginal
      simp [World.visitField, World.fieldAt, World.visit, World.setField, found]
  | some object =>
      cases object with
      | ephemeron before =>
          have objectOk := invariant.objects addr (by simp)
          rw [isOriginal] at objectOk
          cases found : world.objects addr with
          | none => simp [World.visitField, World.fieldAt, World.visit, World.setField, found]
          | some object =>
              rw [found] at objectOk
              cases objectOk
              simp [World.visitField, World.fieldAt, World.visit, World.setField, found]
      | ordinary before =>
          obtain ⟨fields, found, tracks, -⟩ := invariant.ordinaryAt isOriginal
          have outside : fields.length ≤ index := by
            rw [← tracks.length_eq]
            by_contra inside
            exact absent before _ isOriginal (List.getElem?_eq_getElem (not_le.mp inside))
          have fieldEq : world.fieldAt addr index = .null := by
            rw [fieldAt_eq found, List.getD_eq_getElem?_getD, List.getElem?_eq_none outside]
            rfl
          rw [visitField_eq, fieldEq]
          show world.setField addr index .null = world
          rw [setField_eq found, List.set_eq_of_length_le outside, ← found, update_eq_self]

theorem Invariant.visitField {index : ℕ} (invariant : Invariant graph noExempt none world)
    (traced : world.forwarded addr ≠ none) :
    Invariant graph noExempt none (world.visitField graph addr index) ∧
      Grows world (world.visitField graph addr index) ∧
        ItemDone graph (world.visitField graph addr index) (.field addr index) := by
  by_cases present : ∃ before ref, graph.objects addr = some (.ordinary before) ∧
      before[index]? = some ref
  · obtain ⟨before, ref, isOriginal, isField⟩ := present
    obtain ⟨fields, found, tracks, -⟩ := invariant.ordinaryAt isOriginal
    obtain ⟨place, forwarded⟩ := Option.ne_none_iff_exists'.mp traced
    obtain ⟨-, -, live⟩ := invariant.forwarded addr place forwarded
    obtain ⟨visited, grows, marked, isFinal⟩ := invariant.visit
      (tracks_getElem tracks isField)
      (fun _ refers => Graph.live_of_field live isOriginal (List.mem_of_getElem? isField) refers)
    obtain ⟨later, foundLater, tracksLater, -⟩ := visited.ordinaryAt isOriginal
    rw [visitField_eq, fieldAt_eq found]
    generalize world.visit graph (fields.getD index .null) = pair at *
    have tracksSet : List.Forall₂ (Tracks graph pair.1) before (later.set index pair.2) := by
      apply tracks_set tracksLater
      intro other isOther
      rw [isField] at isOther
      cases isOther
      exact .inr ⟨isFinal, marked⟩
    obtain ⟨changed, growsMore⟩ := visited.changeFields isOriginal tracksSet
    rw [setField_eq foundLater]
    refine ⟨changed, grows.trans growsMore, ?_⟩
    intro other otherRef isOther isOtherField
    rw [isOriginal] at isOther
    cases isOther
    rw [isField] at isOtherField
    cases isOtherField
    exact marked.mono growsMore
  · have absent : ∀ before ref, graph.objects addr = some (.ordinary before) →
        before[index]? ≠ some ref :=
      fun before ref isOriginal isField => present ⟨before, ref, isOriginal, isField⟩
    rw [invariant.visitField_of_absent absent]
    exact ⟨invariant, Grows.refl world,
      fun before ref isOriginal isField => absurd isField (absent before ref isOriginal)⟩

/-! ## Chains -/

/-- The reference is to an ephemeron that is dead. -/
def DeadAt (objects : ℕ → Option Object) (ref : Ref) : Prop :=
  ∃ addr ephemeron, ref = .object addr ∧ objects addr = some (.ephemeron ephemeron) ∧
    ephemeron.key = .null

theorem followChain_of_not_dead {objects : ℕ → Option Object} (notDead : ¬DeadAt objects ref)
    (fuel : ℕ) : followChain objects fuel ref = ref := by
  cases fuel with
  | zero => rfl
  | succ fuel =>
      cases ref with
      | object addr =>
          cases found : objects addr with
          | none => simp only [followChain, found]
          | some object =>
              cases object with
              | ordinary fields => simp only [followChain, found]
              | ephemeron now =>
                  have notNull : now.key ≠ .null := fun isNull =>
                    notDead ⟨addr, now, rfl, found, isNull⟩
                  simp only [followChain, found, if_neg notNull]
      | _ => rfl

theorem followChain_of_dead {objects : ℕ → Option Object}
    (found : objects addr = some (.ephemeron now)) (isDead : now.key = .null) (fuel : ℕ) :
    followChain objects (fuel + 1) (.object addr) = followChain objects fuel now.chain := by
  simp only [followChain, found, if_pos isDead]

/-- The fuel is enough to follow a chain from the reference. -/
def Enough (graph : Graph) (fuel : ℕ) (ref : Ref) : Prop :=
  ∀ addr, ref = .object addr → graph.depth addr < fuel

theorem Enough.next {fuel : ℕ} (enough : Enough graph (fuel + 1) (.object addr))
    (found : graph.objects addr = some (.ephemeron now)) : Enough graph fuel now.chain := by
  intro next isNext
  have shallower := graph.depth_lt addr now next found isNext
  have bound := enough addr rfl
  omega

/-- Following a chain stops before the fuel runs out, at nothing that is dead. -/
theorem followChain_stops (fuel : ℕ) (enough : Enough graph fuel ref) :
    ¬DeadAt graph.objects (followChain graph.objects fuel ref) ∧
      Enough graph fuel (followChain graph.objects fuel ref) := by
  induction fuel generalizing ref with
  | zero =>
      refine ⟨?_, enough⟩
      rintro ⟨addr, _, isObject, _⟩
      exact absurd (enough addr isObject) (Nat.not_lt_zero _)
  | succ fuel inductionHypothesis =>
      by_cases isDead : DeadAt graph.objects ref
      · obtain ⟨addr, ephemeron, rfl, found, isNull⟩ := isDead
        rw [followChain_of_dead found isNull]
        obtain ⟨stops, stays⟩ := inductionHypothesis (enough.next found)
        exact ⟨stops, fun other isOther => Nat.lt_succ_of_lt (stays other isOther)⟩
      · rw [followChain_of_not_dead isDead]
        exact ⟨isDead, enough⟩

theorem followChain_congr (fuel more : ℕ) (enough : Enough graph fuel ref)
    (alsoEnough : Enough graph more ref) :
    followChain graph.objects fuel ref = followChain graph.objects more ref := by
  induction fuel generalizing ref more with
  | zero =>
      have notDead : ¬DeadAt graph.objects ref := (followChain_stops 0 enough).1
      rw [followChain_of_not_dead notDead, followChain_of_not_dead notDead]
  | succ fuel inductionHypothesis =>
      by_cases isDead : DeadAt graph.objects ref
      · obtain ⟨addr, ephemeron, rfl, found, isNull⟩ := isDead
        cases more with
        | zero => exact absurd (alsoEnough addr rfl) (Nat.not_lt_zero _)
        | succ more =>
            rw [followChain_of_dead found isNull, followChain_of_dead found isNull]
            exact inductionHypothesis more (enough.next found) (alsoEnough.next found)
      · rw [followChain_of_not_dead isDead, followChain_of_not_dead isDead]

theorem enough_of_found (found : graph.objects addr = some (.ephemeron original)) :
    Enough graph (graph.depth addr) original.chain :=
  fun next isNext => graph.depth_lt addr original next found isNext

/-- What the chain link of an ephemeron leads to. -/
theorem chainOf_stops (found : graph.objects addr = some (.ephemeron original)) :
    ¬DeadAt graph.objects (graph.chainOf addr original) ∧
      Enough graph (graph.depth addr) (graph.chainOf addr original) :=
  followChain_stops _ (enough_of_found found)

/-- What is known of an ephemeron's links while it is not being traced. -/
theorem Invariant.ephemeronAt {exempt : ℕ → Prop} (invariant : Invariant graph exempt claimed world)
    (notClaimed : ∀ now, claimed ≠ some (addr, now))
    (found : world.objects addr = some (.ephemeron now)) :
    ∃ original, graph.objects addr = some (.ephemeron original) ∧
      Status graph world exempt addr original now ∧
        (world.forwarded addr ≠ none →
          Work.ephemeron addr ∈ world.work ∨ now.epoch = graph.epoch) ∧
            (now.epoch = graph.epoch → world.forwarded addr ≠ none) := by
  have objectOk := invariant.objects addr notClaimed
  rw [found] at objectOk
  generalize graph.objects addr = before at objectOk ⊢
  cases objectOk with
  | ephemeron status traced touched => exact ⟨_, rfl, status, traced, touched⟩

theorem Status.key_eq_null {exempt : ℕ → Prop}
    (status : Status graph world exempt addr original now) :
    now.key = .null ↔ original.key = .null := by
  cases status with
  | untouched => rfl
  | dead isDead _ => simp [isDead]
  | pending => rfl
  | resolved => exact Graph.final_eq_null
  | traced => exact Graph.final_eq_null

/-- The chain of an ephemeron is what it was, or is final. -/
theorem Status.tracksChain {exempt : ℕ → Prop}
    (status : Status graph world exempt addr original now) :
    now.chain = original.chain ∨ now.chain = graph.final (graph.chainOf addr original) ∧
      Marked graph world (graph.chainOf addr original) := by
  cases status with
  | untouched => exact .inl rfl
  | dead _ markedChain => exact .inr ⟨rfl, markedChain⟩
  | pending _ _ markedChain => exact .inr ⟨rfl, markedChain⟩
  | resolved _ _ markedChain => exact .inr ⟨rfl, markedChain⟩
  | traced _ _ markedChain => exact .inr ⟨rfl, markedChain⟩

theorem Invariant.dead_iff {exempt : ℕ → Prop} (invariant : Invariant graph exempt claimed world)
    (notClaimed : ∀ addr, ref = .object addr → ∀ now, claimed ≠ some (addr, now)) :
    DeadAt world.objects ref ↔ DeadAt graph.objects ref := by
  constructor
  · rintro ⟨addr, now, rfl, found, isNull⟩
    obtain ⟨original, isOriginal, status, -⟩ := invariant.ephemeronAt (notClaimed addr rfl) found
    exact ⟨addr, original, rfl, isOriginal, status.key_eq_null.mp isNull⟩
  · rintro ⟨addr, original, rfl, isOriginal, isNull⟩
    have objectOk := invariant.objects addr (notClaimed addr rfl)
    rw [isOriginal] at objectOk
    cases found : world.objects addr with
    | none =>
        rw [found] at objectOk
        cases objectOk
    | some object =>
        rw [found] at objectOk
        cases objectOk with
        | ephemeron status =>
            exact ⟨addr, _, rfl, found, status.key_eq_null.mpr isNull⟩

/-- Some links of a chain may be final already when it is followed. -/
theorem Invariant.tracks_followChain {exempt : ℕ → Prop}
    (invariant : Invariant graph exempt claimed world) (fuel : ℕ) (enough : Enough graph fuel ref)
    (apart : ∀ addr now, claimed = some (addr, now) → fuel ≤ graph.depth addr) :
    Tracks graph world (followChain graph.objects fuel ref)
      (followChain world.objects fuel ref) := by
  have notClaimed : ∀ addr, graph.depth addr < fuel → ∀ now, claimed ≠ some (addr, now) := by
    intro addr shallow now isClaimed
    have deep := apart addr now isClaimed
    omega
  induction fuel generalizing ref with
  | zero => exact .inl rfl
  | succ fuel inductionHypothesis =>
      have deadIff := invariant.dead_iff fun addr isObject => notClaimed addr (enough addr isObject)
      by_cases isDead : DeadAt graph.objects ref
      · obtain ⟨addr, now, rfl, found, isNull⟩ := deadIff.mpr isDead
        have shallow := enough addr rfl
        obtain ⟨original, isOriginal, status, -⟩ :=
          invariant.ephemeronAt (notClaimed addr shallow) found
        rw [followChain_of_dead isOriginal (status.key_eq_null.mp isNull),
          followChain_of_dead found isNull]
        have enoughNext := enough.next isOriginal
        rcases status.tracksChain with isOriginalChain | ⟨isFinal, marked⟩
        · rw [isOriginalChain]
          apply inductionHypothesis enoughNext
          · exact fun other current isClaimed => Nat.le_of_succ_le (apart other current isClaimed)
          · exact fun other shallower => notClaimed other (Nat.lt_succ_of_lt shallower)
        · obtain ⟨stops, within⟩ := chainOf_stops isOriginal
          have chainEq : followChain graph.objects fuel original.chain =
              graph.chainOf addr original :=
            followChain_congr fuel _ enoughNext (enough_of_found isOriginal)
          have stopsNow : ¬DeadAt world.objects (graph.final (graph.chainOf addr original)) := by
            rintro ⟨other, current, isObject, foundOther, isNullOther⟩
            have refers : graph.Refers (graph.chainOf addr original) other := by
              apply Graph.Refers.of_final
              refine ⟨isObject, fun absent => ?_⟩
              rw [(invariant.domain other).mpr absent] at foundOther
              cases foundOther
            have shallower := within other refers.1
            apply stops
            rw [refers.1]
            refine (invariant.dead_iff ?_).mp ⟨other, current, rfl, foundOther, isNullOther⟩
            intro _ same
            cases same
            exact notClaimed other (by omega)
          rw [isFinal, chainEq, followChain_of_not_dead stopsNow]
          exact .inr ⟨rfl, marked⟩
      · rw [followChain_of_not_dead isDead, followChain_of_not_dead (deadIff.not.mpr isDead)]
        exact .inl rfl

/-! ## Ephemerons -/

section Claimed

theorem Grows.ofEphemeron (world : World) (objects : ℕ → Option Object)
    (buckets : ℕ → List ℕ) : Grows world { world with objects := objects, buckets := buckets } :=
  ⟨fun _ _ same => same, ⟨[], (List.append_nil _).symm⟩, fun _ isMember => isMember, rfl, rfl, rfl⟩

theorem Invariant.not_resolved {exempt : ℕ → Prop}
    (invariant : Invariant graph exempt (some (addr, now)) world) : ¬Resolved graph world addr := by
  obtain ⟨found, isClaimed, -⟩ := invariant.claimedOk addr now rfl
  rintro ⟨_, current, -, isCurrent, -, -, -, state⟩
  rw [found] at isCurrent
  cases isCurrent
  rw [isClaimed] at state
  simp at state

/-- An ephemeron that the collection has not touched is claimed. -/
theorem Invariant.claim (invariant : Invariant graph noExempt none world)
    (isOriginal : graph.objects addr = some (.ephemeron original))
    (found : world.objects addr = some (.ephemeron original))
    (forwarded : world.forwarded addr ≠ none) :
    Invariant graph noExempt
      (some (addr, { original with state := .claimed, epoch := graph.epoch }))
      { world with
        objects := update world.objects addr
          (some (.ephemeron { original with state := .claimed, epoch := graph.epoch })) } := by
  apply invariant.change isOriginal
  · exact .inl ⟨rfl, rfl, rfl, forwarded⟩
  · intro other now different
    simp only [Option.some.injEq, Prod.mk.injEq, reduceCtorEq, iff_false]
    exact fun ⟨same, _⟩ => different same.symm
  · exact fun _ _ absurdity => absurdity
  · rintro ⟨_, current, -, isCurrent, -, -, sameEpoch, -⟩
    rw [found] at isCurrent
    cases isCurrent
    exact absurd sameEpoch (graph.ready addr _ isOriginal).2
  · exact fun _ _ _ isMember => isMember
  · exact fun _ isMember => isMember
  · exact fun _ isMember => .inl isMember
  · exact fun _ isMember => .inl isMember
  · exact invariant.resolutions

/-- The ephemeron that is being traced changes. -/
theorem Invariant.changeClaimed {next : Ephemeron}
    (invariant : Invariant graph noExempt (some (addr, now)) world)
    (isOriginal : graph.objects addr = some (.ephemeron original)) (state : next.state = .claimed)
    (sameEpoch : next.epoch = graph.epoch) :
    Invariant graph noExempt (some (addr, next))
      { world with objects := update world.objects addr (some (.ephemeron next)) } := by
  obtain ⟨-, -, -, forwarded⟩ := invariant.claimedOk addr now rfl
  apply invariant.change isOriginal
  · exact .inl ⟨rfl, state, sameEpoch, forwarded⟩
  · intro other current different
    simp only [Option.some.injEq, Prod.mk.injEq]
    constructor <;> exact fun ⟨same, _⟩ => absurd same.symm different
  · exact fun _ _ absurdity => absurdity
  · exact fun isResolved => absurd isResolved invariant.not_resolved
  · exact fun _ _ _ isMember => isMember
  · exact fun _ isMember => isMember
  · exact fun _ isMember => .inl isMember
  · exact fun _ isMember => .inl isMember
  · exact invariant.resolutions

/-- The ephemeron that was being traced is set free. -/
theorem Invariant.finishClaimed {next : Ephemeron} {buckets : ℕ → List ℕ}
    (invariant : Invariant graph noExempt (some (addr, now)) world)
    (isOriginal : graph.objects addr = some (.ephemeron original))
    (published : ∀ other bucket, other ∈ world.buckets bucket → other ∈ buckets bucket)
    (status : Status graph
      { world with
        objects := update world.objects addr (some (.ephemeron next))
        buckets := buckets }
      noExempt addr original next)
    (sameEpoch : next.epoch = graph.epoch) :
    Invariant graph noExempt none
      { world with
        objects := update world.objects addr (some (.ephemeron next))
        buckets := buckets } := by
  obtain ⟨-, -, -, forwarded⟩ := invariant.claimedOk addr now rfl
  apply invariant.change isOriginal
  · exact .inr ⟨by simp, .ephemeron status (fun _ => .inr sameEpoch) (fun _ => forwarded)⟩
  · intro other current different
    simp only [Option.some.injEq, Prod.mk.injEq, reduceCtorEq, false_iff]
    exact fun ⟨same, _⟩ => different same.symm
  · exact fun _ _ absurdity => absurdity
  · exact fun isResolved => absurd isResolved invariant.not_resolved
  · exact fun other bucket _ isMember => published other bucket isMember
  · exact fun _ isMember => isMember
  · exact fun _ isMember => .inl isMember
  · exact fun _ isMember => .inl isMember
  · exact invariant.resolutions

theorem visitChain_eq (graph : Graph) (world : World) (addr : ℕ) (chain : Ref) :
    world.visitChain graph addr chain =
      (world.visit graph (followChain world.objects (graph.depth addr) chain)).1.modify addr
        fun ephemeron => { ephemeron with
          chain := (world.visit graph (followChain world.objects (graph.depth addr) chain)).2 } :=
  rfl

theorem Invariant.visitChain
    (invariant : Invariant graph noExempt (some (addr, now)) world)
    (isOriginal : graph.objects addr = some (.ephemeron original)) :
    Invariant graph noExempt
        (some (addr, { now with chain := graph.final (graph.chainOf addr original) }))
        (world.visitChain graph addr original.chain) ∧
      Grows world (world.visitChain graph addr original.chain) ∧
        Marked graph (world.visitChain graph addr original.chain)
            (graph.chainOf addr original) := by
  obtain ⟨-, state, sameEpoch, forwarded⟩ := invariant.claimedOk addr now rfl
  obtain ⟨place, isPlace⟩ := Option.ne_none_iff_exists'.mp forwarded
  obtain ⟨-, -, live⟩ := invariant.forwarded addr place isPlace
  have tracks : Tracks graph world (graph.chainOf addr original)
      (followChain world.objects (graph.depth addr) original.chain) := by
    apply invariant.tracks_followChain _ (enough_of_found isOriginal)
    intro other current isClaimed
    cases isClaimed
    exact le_refl _
  obtain ⟨visited, grows, marked, isFinal⟩ := invariant.visit tracks fun _ refers =>
    Graph.live_of_chain live isOriginal refers
  rw [visitChain_eq, isFinal]
  generalize (world.visit graph
    (followChain world.objects (graph.depth addr) original.chain)).1 = later at *
  obtain ⟨found, -⟩ := visited.claimedOk addr now rfl
  rw [modify_eq found]
  have growsMore := Grows.ofEphemeron later
    (update later.objects addr
      (some (.ephemeron { now with chain := graph.final (graph.chainOf addr original) })))
    later.buckets
  exact ⟨visited.changeClaimed isOriginal state sameEpoch, grows.trans growsMore,
    marked.mono growsMore⟩

theorem visitValue_eq (graph : Graph) (world : World) (addr : ℕ) :
    world.visitValue graph addr =
      ((world.visit graph (world.valueOf addr)).1.modify addr fun ephemeron =>
        { ephemeron with value := (world.visit graph (world.valueOf addr)).2 }).setState addr
          .traced := rfl

theorem modify_setState_eq (found : world.objects addr = some (.ephemeron now))
    (change : Ephemeron → Ephemeron) (state : EphemeronState) :
    (world.modify addr change).setState addr state =
      { world with
        objects := update world.objects addr
          (some (.ephemeron { change now with state := state })) } := by
  rw [World.setState, modify_eq found, modify_eq (update_self _ _ _)]
  simp only [update_idem]

theorem valueOf_eq (found : world.objects addr = some (.ephemeron now)) :
    world.valueOf addr = now.value := by
  rw [World.valueOf, ephemeronAt_eq found]

/-- The key of an ephemeron is marked, and so live. -/
theorem Invariant.keyLive {exempt : ℕ → Prop} (invariant : Invariant graph exempt claimed world)
    (notNull : original.key ≠ .null) (marked : Marked graph world original.key) :
    graph.KeyLive {addr | graph.Live addr} original.key :=
  ⟨notNull, fun key refers => (invariant.forwarded key _ (marked key refers)).2.2⟩

/-- The ephemeron as it is when it is traced. -/
def tracedEphemeron (graph : Graph) (addr : ℕ) (original : Ephemeron) : Ephemeron :=
  { state := .traced, epoch := graph.epoch
    chain := graph.final (graph.chainOf addr original)
    key := graph.final original.key, value := graph.final original.value }

/-- The ephemeron is still to trace its value, and its key is traced. -/
theorem Invariant.visitValueClaimed
    (invariant : Invariant graph noExempt (some (addr,
      { state := .claimed, epoch := graph.epoch
        chain := graph.final (graph.chainOf addr original)
        key := graph.final original.key, value := original.value })) world)
    (isOriginal : graph.objects addr = some (.ephemeron original))
    (notNull : original.key ≠ .null) (markedKey : Marked graph world original.key)
    (markedChain : Marked graph world (graph.chainOf addr original)) :
    Invariant graph noExempt none (world.visitValue graph addr) ∧
      Grows world (world.visitValue graph addr) ∧
        ItemDone graph (world.visitValue graph addr) (.ephemeron addr) := by
  obtain ⟨found, -, -, forwarded⟩ := invariant.claimedOk addr _ rfl
  obtain ⟨place, isPlace⟩ := Option.ne_none_iff_exists'.mp forwarded
  obtain ⟨-, -, live⟩ := invariant.forwarded addr place isPlace
  have keyLive := invariant.keyLive notNull markedKey
  have tracks : Tracks graph world original.value original.value := .inl rfl
  obtain ⟨visited, grows, markedValue, isFinal⟩ := invariant.visit tracks fun _ refers =>
    Graph.live_of_value live isOriginal keyLive refers
  rw [visitValue_eq, valueOf_eq found, isFinal]
  generalize (world.visit graph original.value).1 = later at *
  obtain ⟨foundLater, -⟩ := visited.claimedOk addr _ rfl
  rw [modify_setState_eq foundLater]
  have growsMore := Grows.ofEphemeron later
    (update later.objects addr (some (.ephemeron (tracedEphemeron graph addr original))))
    later.buckets
  have growsAll := grows.trans growsMore
  have finished := visited.finishClaimed isOriginal (fun _ _ isMember => isMember)
    (.traced notNull (markedKey.mono growsAll) (markedChain.mono growsAll)
      (markedValue.mono growsMore)) rfl
  refine ⟨finished, growsAll, ?_⟩
  intro now isNow
  cases (update_self ..).symm.trans isNow
  rfl

/-- The ephemeron has no traced key, and is published. The second look at the key finds what the
first one found. -/
theorem Invariant.publishClaimed
    (invariant : Invariant graph noExempt (some (addr,
      { state := .claimed, epoch := graph.epoch
        chain := graph.final (graph.chainOf addr original)
        key := original.key, value := original.value })) world)
    (isOriginal : graph.objects addr = some (.ephemeron original))
    (untraced : world.tracedRef original.key = none)
    (markedChain : Marked graph world (graph.chainOf addr original)) :
    Invariant graph noExempt none (world.publish graph addr) ∧
      Grows world (world.publish graph addr) ∧
        ItemDone graph (world.publish graph addr) (.ephemeron addr) := by
  obtain ⟨found, -, -, -⟩ := invariant.claimedOk addr _ rfl
  obtain ⟨key, isKey, collected, missing⟩ : ∃ key, original.key = .object key ∧
      graph.objects key ≠ none ∧ world.forwarded key = none := by
    rcases invariant.tracedRef_eq original.key with ⟨traced, -⟩ | ⟨-, untracedKey⟩
    · rw [untraced] at traced
      cases traced
    · exact untracedKey
  generalize nextEq : ({ state := .pending, epoch := graph.epoch
                         chain := graph.final (graph.chainOf addr original)
                         key := original.key, value := original.value } : Ephemeron) = next
  generalize bucketsEq : update world.buckets (graph.hash key)
    (addr :: world.buckets (graph.hash key)) = buckets
  have addEq : world.addPendingEphemeron graph addr =
      { world with
        objects := update world.objects addr (some (.ephemeron next)), buckets := buckets } := by
    rw [World.addPendingEphemeron, keyOf_eq found]
    simp only [isKey]
    rw [World.setState, modify_eq found, ← nextEq, ← bucketsEq, isKey]
  have published : ∀ other bucket, other ∈ world.buckets bucket → other ∈ buckets bucket := by
    intro other bucket isMember
    rw [← bucketsEq]
    by_cases same : bucket = graph.hash key
    · subst same
      rw [update_self]
      exact List.mem_cons_of_mem _ isMember
    · rw [update_of_ne same]
      exact isMember
  have inBucket : addr ∈ buckets (graph.hash key) := by
    rw [← bucketsEq, update_self]
    exact List.mem_cons_self ..
  have grows := Grows.ofEphemeron world (update world.objects addr (some (.ephemeron next))) buckets
  have finished : Invariant graph noExempt none
      { world with
        objects := update world.objects addr (some (.ephemeron next)), buckets := buckets } := by
    subst nextEq
    exact invariant.finishClaimed isOriginal published
      (.pending isKey collected (markedChain.mono grows) inBucket fun _ => .inr missing) rfl
  have keyEq : next.key = .object key := by
    rw [← nextEq]
    exact isKey
  rw [World.publish, addEq]
  generalize afterEq : ({ world with
    objects := update world.objects addr (some (.ephemeron next))
    buckets := buckets } : World) = after at *
  have foundNext : after.objects addr = some (.ephemeron next) := by
    rw [← afterEq]
    exact update_self ..
  have missingNow : after.forwarded key = none := by
    rw [← afterEq]
    exact missing
  have untracedNow : after.tracedRef (.object key) = none := by
    rcases finished.tracedRef_eq (.object key) with ⟨-, marked⟩ | ⟨untracedKey, -⟩
    · rw [marked key ⟨rfl, collected⟩] at missingNow
      cases missingNow
    · exact untracedKey
  have resolveEq : after.resolveIfKeyTraced addr = after := by
    rw [World.resolveIfKeyTraced, World.gcVisitEphemeronKey, keyOf_eq foundNext, keyEq]
    simp only [untracedNow]
  rw [resolveEq]
  refine ⟨finished, grows, ?_⟩
  intro now isNow
  rw [foundNext] at isNow
  cases isNow
  rw [← nextEq]

theorem gcTraceEphemeron_of_done (done : ∀ now, world.objects addr = some (.ephemeron now) →
    now.epoch = graph.epoch) : world.gcTraceEphemeron graph addr = world := by
  rw [World.gcTraceEphemeron]
  cases isNow : world.ephemeronAt addr with
  | none => rfl
  | some now =>
      have found : world.objects addr = some (.ephemeron now) := by
        rw [World.ephemeronAt] at isNow
        split at isNow <;> simp_all
      dsimp only
      split
      · rfl
      · rw [if_pos (done now found)]

theorem Status.eq_of_epoch_ne {exempt : ℕ → Prop}
    (status : Status graph world exempt addr original now) (different : now.epoch ≠ graph.epoch) :
    now = original := by
  cases status with
  | untouched => rfl
  | _ => exact absurd rfl different

theorem Invariant.gcTraceEphemeron (invariant : Invariant graph noExempt none world)
    (forwarded : world.forwarded addr ≠ none) :
    Invariant graph noExempt none (world.gcTraceEphemeron graph addr) ∧
      Grows world (world.gcTraceEphemeron graph addr) ∧
        ItemDone graph (world.gcTraceEphemeron graph addr) (.ephemeron addr) := by
  by_cases done : ∀ now, world.objects addr = some (.ephemeron now) → now.epoch = graph.epoch
  · rw [gcTraceEphemeron_of_done done]
    exact ⟨invariant, Grows.refl world, done⟩
  rw [not_forall] at done
  obtain ⟨now, notDone⟩ := done
  obtain ⟨found, notTouched⟩ := Classical.not_imp.mp notDone
  obtain ⟨original, isOriginal, status, -⟩ := invariant.ephemeronAt (by simp) found
  cases status.eq_of_epoch_ne notTouched
  obtain ⟨state, -⟩ := graph.ready addr now isOriginal
  have claimed := invariant.claim isOriginal found forwarded
  have grows := Grows.ofEphemeron world
    (update world.objects addr
      (some (.ephemeron { now with state := .claimed, epoch := graph.epoch }))) world.buckets
  obtain ⟨chained, growsChain, markedChain⟩ := claimed.visitChain isOriginal
  have growsAll := grows.trans growsChain
  rw [World.gcTraceEphemeron, ephemeronAt_eq found]
  dsimp only
  rw [if_neg (not_not.mpr state), if_neg notTouched, modify_eq found]
  generalize World.visitChain graph _ addr now.chain = later at *
  obtain ⟨foundLater, -⟩ := chained.claimedOk addr _ rfl
  have keyEq : later.keyOf addr = now.key := by rw [keyOf_eq foundLater]
  rw [keyEq]
  split
  case isTrue isDead =>
    have growsDead := Grows.ofEphemeron later
      (update later.objects addr (some (.ephemeron
        { now with
          state := .traced, epoch := graph.epoch
          chain := graph.final (graph.chainOf addr now) }))) later.buckets
    rw [World.setState, modify_eq foundLater]
    refine ⟨?_, growsAll.trans growsDead, ?_⟩
    · apply chained.finishClaimed isOriginal (fun _ _ isMember => isMember) _ rfl
      have dead : Status graph _ noExempt addr now _ :=
        .dead isDead (markedChain.mono growsDead)
      rwa [← isDead] at dead
    · intro current isCurrent
      cases (update_self ..).symm.trans isCurrent
      rfl
  case isFalse notNull =>
    rcases chained.tracedRef_eq now.key with ⟨traced, markedKey⟩ | ⟨untraced, -⟩
    · have keyed : later.gcVisitEphemeronKey addr =
          (true, later.modify addr fun ephemeron =>
            { ephemeron with key := graph.final now.key }) := by
        rw [World.gcVisitEphemeronKey, keyEq]
        simp only [traced]
      rw [keyed, modify_eq foundLater]
      have growsKey := Grows.ofEphemeron later
        (update later.objects addr (some (.ephemeron
          { now with
            state := .claimed, epoch := graph.epoch
            chain := graph.final (graph.chainOf addr now), key := graph.final now.key })))
        later.buckets
      have valued := (chained.changeClaimed isOriginal rfl rfl).visitValueClaimed isOriginal notNull
        (markedKey.mono growsKey) (markedChain.mono growsKey)
      exact ⟨valued.1, (growsAll.trans growsKey).trans valued.2.1, valued.2.2⟩
    · have keyed : later.gcVisitEphemeronKey addr = (false, later) := by
        rw [World.gcVisitEphemeronKey, keyEq]
        simp only [untraced]
      rw [keyed]
      obtain ⟨published, growsPublished, done⟩ :=
        chained.publishClaimed isOriginal untraced markedChain
      exact ⟨published, growsAll.trans growsPublished, done⟩

end Claimed

section Resolved

theorem Status.of_resolved {exempt : ℕ → Prop}
    (status : Status graph world exempt addr original now)
    (isOriginal : graph.objects addr = some (.ephemeron original)) (notNull : original.key ≠ .null)
    (sameEpoch : now.epoch = graph.epoch) (state : now.state = .resolved ∨ now.state = .traced) :
    Marked graph world (graph.chainOf addr original) ∧
      Tracks graph world original.value now.value ∧
        ({ now with value := graph.final original.value, state := .traced } : Ephemeron) =
          tracedEphemeron graph addr original := by
  cases status with
  | untouched => exact absurd sameEpoch (graph.ready addr _ isOriginal).2
  | dead isDead => exact absurd isDead notNull
  | pending => simp at state
  | resolved _ _ markedChain => exact ⟨markedChain, .inl rfl, rfl⟩
  | traced _ _ markedChain markedValue => exact ⟨markedChain, .inr ⟨rfl, markedValue⟩, rfl⟩

/-- The value of a resolved ephemeron is visited. -/
theorem Invariant.visitResolved (invariant : Invariant graph noExempt none world)
    (isItem : Work.resolved addr ∈ world.work) :
    Invariant graph noExempt none (world.visitValue graph addr) ∧
      Grows world (world.visitValue graph addr) ∧
        ItemDone graph (world.visitValue graph addr) (.resolved addr) := by
  obtain ⟨original, now, isOriginal, found, notNull, markedKey, sameEpoch, state⟩ :=
    invariant.work _ isItem
  obtain ⟨_, isSame, status, -, touched⟩ := invariant.ephemeronAt (by simp) found
  cases isOriginal.symm.trans isSame
  obtain ⟨-, tracks, -⟩ := status.of_resolved isOriginal notNull sameEpoch state
  obtain ⟨place, isPlace⟩ := Option.ne_none_iff_exists'.mp (touched sameEpoch)
  obtain ⟨-, -, live⟩ := invariant.forwarded addr place isPlace
  have keyLive := invariant.keyLive notNull markedKey
  obtain ⟨visited, grows, markedValue, isFinal⟩ := invariant.visit tracks fun _ refers =>
    Graph.live_of_value live isOriginal keyLive refers
  rw [visitValue_eq, valueOf_eq found, isFinal]
  generalize (world.visit graph now.value).1 = later at *
  -- The ephemeron is still in the work, so it is still resolved.
  obtain ⟨_, next, isSame, foundNext, -, markedKeyNext, sameEpochNext, stateNext⟩ :=
    visited.work _ (grows.mem_work isItem)
  cases isOriginal.symm.trans isSame
  obtain ⟨_, isSame, statusNext, -, touchedNext⟩ := visited.ephemeronAt (by simp) foundNext
  cases isOriginal.symm.trans isSame
  obtain ⟨markedChain, -, nextEq⟩ :=
    statusNext.of_resolved isOriginal notNull sameEpochNext stateNext
  rw [modify_setState_eq foundNext, nextEq]
  have growsMore := Grows.ofEphemeron later
    (update later.objects addr (some (.ephemeron (tracedEphemeron graph addr original))))
    later.buckets
  have traced : Status graph
      { later with
        objects := update later.objects addr
          (some (.ephemeron (tracedEphemeron graph addr original))) }
      noExempt addr original (tracedEphemeron graph addr original) :=
    .traced notNull (markedKeyNext.mono growsMore) (markedChain.mono growsMore)
      (markedValue.mono growsMore)
  refine ⟨?_, grows.trans growsMore, ?_⟩
  · apply visited.change isOriginal
    · exact .inr ⟨by simp,
        .ephemeron traced (fun _ => .inr rfl) (fun _ => touchedNext sameEpochNext)⟩
    · exact fun _ _ _ => Iff.rfl
    · exact fun _ _ absurdity => absurdity
    · exact fun _ => ⟨notNull, rfl, .inr rfl⟩
    · exact fun _ _ _ isMember => isMember
    · exact fun _ isMember => isMember
    · exact fun _ isMember => .inl isMember
    · exact fun _ isMember => .inl isMember
    · exact visited.resolutions
  · intro current isCurrent
    cases (update_self ..).symm.trans isCurrent
    simp [tracedEphemeron]

end Resolved

/-! ## All work -/

theorem Invariant.doWork {item : Work} (invariant : Invariant graph noExempt none world)
    (isItem : item ∈ world.work) :
    Invariant graph noExempt none (world.doWork graph item) ∧
      Grows world (world.doWork graph item) ∧ ItemDone graph (world.doWork graph item) item := by
  have itemOk := invariant.work item isItem
  cases item with
  | root ref =>
      obtain ⟨visited, grows, marked, -⟩ := invariant.visit (.inl rfl)
        fun _ refers => Graph.live_of_root itemOk refers
      exact ⟨visited, grows, marked⟩
  | field addr index => exact invariant.visitField itemOk
  | ephemeron addr => exact invariant.gcTraceEphemeron itemOk
  | resolved addr => exact invariant.visitResolved isItem

end Whippet.Ephemerons
