import Whippet.Mmc.CollectionKind

/-!
The kinds of the collections of a run.

Each choice depends on the one before it. A build without generations does not do minor collections
on its own, and asserts that it never did one; but it does one if it is asked to.

Owns: what holds of all kinds that are chosen in a run, whatever is requested and whatever the
spaces report. Does not own: what a collection of a kind does.
-/

namespace Whippet.Mmc

/-- The collections so far, the latest first: the kind of each, and whether the heap had ambiguous
edges when it was chosen. -/
structure KindRun where
  heap : Heap
  hasAmbiguousEdges : Bool
  chosen : List (CollectionKind × Bool)
  deriving DecidableEq

inductive KindAction where
  /-- `nofl_space_set_heap_has_ambiguous_edges`. -/
  | setHeapHasAmbiguousEdges
  | resizeHeap (size : ℕ)
  /-- `collect`, as far as the kind goes. -/
  | collect (requested : CollectionKind) (statistics : Statistics)

def kindStep (generational : Bool) (run : KindRun) : KindAction → Outcome Assertion KindRun
  | .setHeapHasAmbiguousEdges => pure { run with hasAmbiguousEdges := true }
  | .resizeHeap size => pure { run with heap := { run.heap with size := size } }
  | .collect requested statistics => do
      Outcome.require (statistics.hasAmbiguousEdges = run.hasAmbiguousEdges)
      let (heap, kind) ← determineCollectionKind generational statistics run.heap requested
      pure { run with
        heap := { heap with count := heap.count + 1 }
        chosen := (kind, run.hasAmbiguousEdges) :: run.chosen }

def kindSystem (generational : Bool) : System KindRun KindAction Assertion :=
  { initial := fun run => run.heap.count = 0 ∧ run.chosen = []
    step := kindStep generational }

/-- What should hold of the kinds chosen. -/
structure KindRun.WellChosen (generational : Bool) (run : KindRun) : Prop where
  starts_major : ∀ choice, run.chosen.getLast? = some choice → choice.1 = .major
  never_any : ∀ choice ∈ run.chosen, choice.1 ≠ .any
  never_compacting : ∀ choice ∈ run.chosen, choice.2 = true → choice.1 ≠ .compacting
  never_minor : generational = false → ∀ choice ∈ run.chosen, choice.1 ≠ .minor

/-- And no assertion fails in the next choice. -/
structure KindsSound (generational : Bool) (run : KindRun) : Prop
    extends run.WellChosen generational where
  asserts_nothing_wrong : ∀ action failure, kindStep generational run action ≠ .failed failure

/-- A build without generations is not asked for a minor collection, except for the first one, which
is major anyway. -/
def KindAction.IsSupported (generational : Bool) (run : KindRun) : KindAction → Prop
  | .collect requested _ => generational = false → run.heap.count ≠ 0 → requested ≠ .minor
  | _ => True

instance (generational : Bool) (run : KindRun) :
    (action : KindAction) → Decidable (action.IsSupported generational run)
  | .collect requested _ =>
      inferInstanceAs (Decidable (generational = false → run.heap.count ≠ 0 → requested ≠ .minor))
  | .setHeapHasAmbiguousEdges | .resizeHeap _ => .isTrue trivial

section Choice

variable {generational : Bool} {statistics : Statistics} {heap : Heap} {run after : KindRun}
variable {requested kind : CollectionKind} {action : KindAction}

/-! ## One choice -/

/-- The kind of the last collection is one that the build does on its own. -/
def PreviousFits (generational : Bool) (heap : Heap) : Prop :=
  generational = false → heap.count ≠ 0 → heap.gcKind = .major ∨ heap.gcKind = .compacting

/-- No assertion fails. -/
theorem choose_ne_failed (fits : PreviousFits generational heap) {failure : Assertion} :
    chooseCollectionKind generational statistics heap requested ≠ .failed failure := by
  intro failed
  rw [chooseCollectionKind] at failed
  by_cases first : heap.count = 0
  · rw [if_pos first] at failed
    cases failed
  · rw [if_neg first] at failed
    split at failed
    · cases failed
    · split at failed
      · cases failed
      · split at failed
        · cases failed
        · split at failed
          · cases failed
          · split at failed
            · cases failed
            · rename_i notCompacting
              split at failed
              · rename_i notGenerational
                rw [Outcome.check_bind_eq_failed] at failed
                rcases failed with ⟨notMajor, -⟩ | ⟨-, continued⟩
                · exact notMajor ((fits notGenerational first).resolve_right notCompacting)
                · cases continued
              · split at failed
                · cases failed
                · rename_i isMinor
                  split at failed
                  · cases failed
                  · rw [Outcome.check_bind_eq_failed] at failed
                    rcases failed with ⟨notMinor, -⟩ | ⟨-, continued⟩
                    · exact isMinor notMinor
                    · cases continued

/-- What a choice that goes on chose. -/
theorem choose_eq_next
    (chose : chooseCollectionKind generational statistics heap requested = .next kind) :
    (heap.count = 0 ∧ kind = .major) ∨
    (heap.count ≠ 0 ∧ requested ≠ .any ∧ kind = requested) ∨
    (heap.count ≠ 0 ∧ requested = .any ∧
      (kind = .major ∨ kind = .compacting ∨ (kind = .minor ∧ generational = true))) := by
  rw [chooseCollectionKind] at chose
  by_cases first : heap.count = 0
  · rw [if_pos first] at chose
    cases chose
    exact .inl ⟨first, rfl⟩
  rw [if_neg first] at chose
  by_cases isRequested : requested ≠ .any
  · rw [if_pos isRequested] at chose
    cases chose
    exact .inr (.inl ⟨first, isRequested, rfl⟩)
  rw [if_neg isRequested] at chose
  refine .inr (.inr ⟨first, not_not.mp isRequested, ?_⟩)
  split at chose
  · cases chose
    exact .inr (.inl rfl)
  split at chose
  · cases chose
    exact .inr (.inl rfl)
  split at chose
  · cases chose
    exact .inr (.inl rfl)
  split at chose
  · cases chose
    cases generational with
    | true => exact .inr (.inr ⟨rfl, rfl⟩)
    | false => exact .inl rfl
  split at chose
  · rw [Outcome.check_bind_eq_next] at chose
    cases chose.2
    exact .inl rfl
  rename_i isGenerational
  have generates : generational = true := Bool.eq_true_of_not_eq_false isGenerational
  split at chose
  · cases chose
    exact .inr (.inr ⟨rfl, generates⟩)
  split at chose
  · cases chose
    exact .inl rfl
  · rw [Outcome.check_bind_eq_next] at chose
    cases chose.2
    exact .inr (.inr ⟨rfl, generates⟩)

/-- The kind of a collection is the choice, unless ambiguous edges stand against it. -/
theorem determine_kind {result : Heap}
    (determined : determineCollectionKind generational statistics heap requested =
      .next (result, kind)) :
    ∃ choice, chooseCollectionKind generational statistics heap requested = .next choice ∧
      kind = if statistics.hasAmbiguousEdges = true ∧ choice = .compacting then .major
        else choice := by
  simp only [determineCollectionKind, Outcome.bind_eq_next, Outcome.pure_eq_next,
    Outcome.next.injEq, Prod.mk.injEq] at determined
  obtain ⟨choice, chose, -, kindEq⟩ := determined
  exact ⟨choice, chose, kindEq.symm⟩

/-- A kind that is neither asked for nor made of what was asked for: never `any`, compacting only
without ambiguous edges, and minor without generations only if that was asked for. -/
theorem kind_fits {result : Heap}
    (determined : determineCollectionKind generational statistics heap requested =
      .next (result, kind)) :
    (heap.count = 0 → kind = .major) ∧ kind ≠ .any ∧
      (statistics.hasAmbiguousEdges = true → kind ≠ .compacting) ∧
      (generational = false →
        (kind = .minor ↔ heap.count ≠ 0 ∧ requested = .minor)) := by
  obtain ⟨choice, chose, rfl⟩ := determine_kind determined
  by_cases discarded : statistics.hasAmbiguousEdges = true ∧ choice = .compacting
  · rw [if_pos discarded]
    refine ⟨fun _ => rfl, by decide, fun _ => by decide, fun notGenerational => ?_⟩
    rcases choose_eq_next chose with ⟨-, isMajor⟩ | ⟨-, -, isRequested⟩ | ⟨-, isAny, -⟩
    · exact absurd (isMajor.symm.trans discarded.2) (by decide)
    · constructor
      · intro isMinor
        cases isMinor
      · rintro ⟨-, minorRequested⟩
        rw [minorRequested, discarded.2] at isRequested
        cases isRequested
    · constructor
      · intro isMinor
        cases isMinor
      · rintro ⟨-, minorRequested⟩
        rw [isAny] at minorRequested
        cases minorRequested
  · rw [if_neg discarded]
    rcases choose_eq_next chose with ⟨first, isMajor⟩ | ⟨later, notAny, isRequested⟩ |
      ⟨later, isAny, own⟩
    · rw [isMajor]
      refine ⟨fun _ => rfl, by decide, fun _ => by decide, fun _ => ?_⟩
      constructor
      · intro isMinor
        cases isMinor
      · exact fun asked => absurd first asked.1
    · rw [isRequested] at discarded ⊢
      exact ⟨fun first => absurd first later, notAny,
        fun ambiguous isCompacting => discarded ⟨ambiguous, isCompacting⟩,
        fun _ => ⟨fun isMinor => ⟨later, isMinor⟩, fun asked => asked.2⟩⟩
    · refine ⟨fun first => absurd first later, ?_,
        fun ambiguous isCompacting => discarded ⟨ambiguous, isCompacting⟩, ?_⟩
      · rcases own with rfl | rfl | ⟨rfl, -⟩ <;> decide
      · intro notGenerational
        constructor
        · intro isMinor
          rcases own with rfl | rfl | ⟨-, generates⟩
          · cases isMinor
          · cases isMinor
          · rw [notGenerational] at generates
            cases generates
        · rintro ⟨-, minorRequested⟩
          rw [isAny] at minorRequested
          cases minorRequested

/-! ## Runs -/

/-- The heap remembers the choices. -/
structure KindRun.Recorded (run : KindRun) : Prop where
  counted : run.heap.count = run.chosen.length
  latest : ∀ choice, run.chosen.head? = some choice → run.heap.gcKind = choice.1

theorem KindRun.Recorded.previousFits (recorded : run.Recorded)
    (wellChosen : run.WellChosen generational) : PreviousFits generational run.heap := by
  intro notGenerational later
  rw [recorded.counted] at later
  obtain ⟨choice, rest, chosenEq⟩ := List.exists_cons_of_ne_nil
    (List.ne_nil_of_length_pos (Nat.pos_of_ne_zero later))
  have isMember : choice ∈ run.chosen := by
    rw [chosenEq]
    exact List.mem_cons_self
  have kindEq : run.heap.gcKind = choice.1 := by
    apply recorded.latest
    rw [chosenEq]
    rfl
  have notAny := wellChosen.never_any choice isMember
  have notMinor := wellChosen.never_minor notGenerational choice isMember
  rw [kindEq]
  cases kindOf : choice.1 with
  | any => exact absurd kindOf notAny
  | minor => exact absurd kindOf notMinor
  | major => exact .inl rfl
  | compacting => exact .inr rfl

/-- Then no choice fails an assertion, whatever is asked for. -/
theorem KindRun.Recorded.sound (recorded : run.Recorded)
    (wellChosen : run.WellChosen generational) : KindsSound generational run := by
  refine ⟨wellChosen, ?_⟩
  intro action failure failed
  cases action with
  | setHeapHasAmbiguousEdges => cases failed
  | resizeHeap size => cases failed
  | collect requested statistics =>
      rw [kindStep, Outcome.require_bind_eq_failed, Outcome.bind_eq_failed] at failed
      obtain ⟨-, failed | ⟨result, -, continued⟩⟩ := failed
      · rw [determineCollectionKind, Outcome.bind_eq_failed] at failed
        obtain failed | ⟨choice, -, continued⟩ := failed
        · exact choose_ne_failed (recorded.previousFits wellChosen) failed
        · cases continued
      · cases continued

theorem step_collect {statistics : Statistics}
    (stepped : kindStep generational run (.collect requested statistics) = .next after) :
    ∃ result kind, statistics.hasAmbiguousEdges = run.hasAmbiguousEdges ∧
      determineCollectionKind generational statistics run.heap requested = .next (result, kind) ∧
      after.heap.count = run.heap.count + 1 ∧ after.heap.gcKind = kind ∧
      after.chosen = (kind, run.hasAmbiguousEdges) :: run.chosen := by
  rw [kindStep, Outcome.require_bind_eq_next, Outcome.bind_eq_next] at stepped
  obtain ⟨reported, ⟨result, kind⟩, determined, continued⟩ := stepped
  have resultEq := determineCollectionKind_eq_next determined
  cases continued
  refine ⟨result, kind, reported, determined, ?_, ?_, rfl⟩
  · rw [resultEq]
  · rw [resultEq]

theorem KindRun.Recorded.step (recorded : run.Recorded)
    (stepped : kindStep generational run action = .next after) : after.Recorded := by
  cases action with
  | setHeapHasAmbiguousEdges =>
      cases stepped
      exact ⟨recorded.counted, recorded.latest⟩
  | resizeHeap size =>
      cases stepped
      exact ⟨recorded.counted, recorded.latest⟩
  | collect requested statistics =>
      obtain ⟨result, kind, -, -, countEq, kindEq, chosenEq⟩ := step_collect stepped
      constructor
      · rw [countEq, chosenEq, recorded.counted, List.length_cons]
      · intro choice isLatest
        rw [chosenEq, List.head?_cons, Option.some.injEq] at isLatest
        rw [kindEq, ← isLatest]

/-- A step that is supported chooses well, and no other one does. -/
theorem KindRun.WellChosen.step_iff (recorded : run.Recorded)
    (wellChosen : run.WellChosen generational)
    (stepped : kindStep generational run action = .next after) :
    after.WellChosen generational ↔ action.IsSupported generational run := by
  cases action with
  | setHeapHasAmbiguousEdges =>
      cases stepped
      exact ⟨fun _ => trivial, fun _ => ⟨wellChosen.starts_major, wellChosen.never_any,
        wellChosen.never_compacting, wellChosen.never_minor⟩⟩
  | resizeHeap size =>
      cases stepped
      exact ⟨fun _ => trivial, fun _ => ⟨wellChosen.starts_major, wellChosen.never_any,
        wellChosen.never_compacting, wellChosen.never_minor⟩⟩
  | collect requested statistics =>
      obtain ⟨result, kind, reported, determined, -, -, chosenEq⟩ := step_collect stepped
      obtain ⟨firstIsMajor, notAny, notCompacting, minor_iff⟩ := kind_fits determined
      rw [reported] at notCompacting
      constructor
      · intro chosenWell notGenerational later isMinor
        apply chosenWell.never_minor notGenerational (kind, run.hasAmbiguousEdges)
        · rw [chosenEq]
          exact List.mem_cons_self
        · exact (minor_iff notGenerational).mpr ⟨later, isMinor⟩
      · intro supported
        refine ⟨?_, ?_, ?_, ?_⟩
        · intro choice isFirst
          rw [chosenEq] at isFirst
          cases chosenBefore : run.chosen with
          | nil =>
              rw [chosenBefore, List.getLast?_singleton, Option.some.injEq] at isFirst
              rw [← isFirst]
              apply firstIsMajor
              rw [recorded.counted, chosenBefore, List.length_nil]
          | cons latest earlier =>
              rw [chosenBefore, List.getLast?_cons_cons] at isFirst
              apply wellChosen.starts_major
              rw [chosenBefore]
              exact isFirst
        · rw [chosenEq, List.forall_mem_cons]
          exact ⟨notAny, wellChosen.never_any⟩
        · rw [chosenEq, List.forall_mem_cons]
          exact ⟨notCompacting, wellChosen.never_compacting⟩
        · intro notGenerational
          rw [chosenEq, List.forall_mem_cons]
          refine ⟨?_, wellChosen.never_minor notGenerational⟩
          intro isMinor
          obtain ⟨later, minorRequested⟩ := (minor_iff notGenerational).mp isMinor
          exact supported notGenerational later minorRequested

theorem recorded_of_initial (start : (kindSystem generational).initial run) :
    run.Recorded ∧ run.WellChosen generational := by
  obtain ⟨noneCounted, noneChosen⟩ := start
  refine ⟨⟨?_, ?_⟩, ⟨?_, ?_, ?_, ?_⟩⟩
  · rw [noneCounted, noneChosen, List.length_nil]
  · rw [noneChosen]
    rintro choice ⟨⟩
  · rw [noneChosen]
    rintro choice ⟨⟩
  · rw [noneChosen]
    rintro choice ⟨⟩
  · rw [noneChosen]
    rintro choice ⟨⟩
  · rw [noneChosen]
    rintro - choice ⟨⟩

theorem recorded_of_supported
    (reached : (kindSystem generational).ReachableBy
      (fun run action => action.IsSupported generational run)
      run) :
    run.Recorded ∧ run.WellChosen generational := by
  induction reached with
  | initial start => exact recorded_of_initial start
  | step _ supported stepped inductionHypothesis =>
      obtain ⟨recorded, wellChosen⟩ := inductionHypothesis
      exact ⟨recorded.step stepped, (wellChosen.step_iff recorded stepped).mpr supported⟩

/-- In a run that is supported the choices are sound, and the first step that is not supported ends
that: without generations, a minor collection is done where one is asked for. -/
theorem kinds_sound_iff_supported (generational : Bool) (run : KindRun)
    (reached : (kindSystem generational).ReachableBy
      (fun run action => action.IsSupported generational run) run) :
    KindsSound generational run ∧
      ∀ action after, kindStep generational run action = .next after →
        (KindsSound generational after ↔ action.IsSupported generational run) := by
  obtain ⟨recorded, wellChosen⟩ := recorded_of_supported reached
  refine ⟨recorded.sound wellChosen, ?_⟩
  intro action after stepped
  rw [← wellChosen.step_iff recorded stepped]
  exact ⟨KindsSound.toWellChosen, (recorded.step stepped).sound⟩

end Choice

/-! ## A collection that was asked for -/

namespace AskedForMinor

def heap : Heap where
  collecting := false
  gcKind := .any
  size := 2 ^ 24
  count := 0
  countAtLastGrowth := 0
  mutatorCount := 1
  pausedMutatorCount := 0
  inactiveMutatorCount := 0
  majorGcYieldThreshold := 0

def run : KindRun := ⟨heap, false, []⟩

/-- Half of the heap is free, and nothing is fragmented. -/
def statistics : Statistics := ⟨1 / 2, 0, 0, false⟩

/-- The first collection of a run, which is major. -/
def afterFirst : KindRun := ⟨{ heap with gcKind := .major, count := 1 }, false, [(.major, false)]⟩

/-- The minor collection that was asked for afterwards. -/
def afterMinor : KindRun :=
  ⟨{ heap with gcKind := .minor, count := 2, majorGcYieldThreshold := 15 / 100 }, false,
    [(.minor, false), (.major, false)]⟩

theorem first_step : kindStep false run (.collect .any statistics) = .next afterFirst := by
  decide +kernel

theorem minor_step :
    kindStep false afterFirst (.collect .minor statistics) = .next afterMinor := by
  decide +kernel

theorem starts : (kindSystem false).initial run := ⟨rfl, rfl⟩

theorem reached : (kindSystem false).ReachableBy
    (fun run action => action.IsSupported false run) afterFirst := by
  apply System.ReachableBy.afterAction _ (.initial starts) (.collect .any statistics) _ first_step
  intro _ later
  exact absurd rfl later

end AskedForMinor

open AskedForMinor in
theorem kinds_sound_iff_supported_asked_for_minor :
    KindsSound false afterFirst ∧ ¬KindsSound false afterMinor := by
  obtain ⟨sound, sound_iff⟩ := kinds_sound_iff_supported false afterFirst reached
  refine ⟨sound, ?_⟩
  intro soundAfter
  have supported := (sound_iff _ _ minor_step).mp soundAfter
  exact supported rfl (by decide) rfl

open AskedForMinor in
/-- Without generations, a minor collection that is asked for is chosen, and the next automatic
choice asserts that the one before it was major. -/
theorem kinds_not_sound_in_every_run :
    ¬∀ generational run, (kindSystem generational).Reachable run → KindsSound generational run := by
  intro claimed
  have reachedFirst : (kindSystem false).Reachable afterFirst :=
    System.ReachableBy.afterAction _ (.initial starts) (.collect .any statistics) trivial first_step
  have reachedMinor : (kindSystem false).Reachable afterMinor :=
    reachedFirst.afterAction _ (.collect .minor statistics) trivial minor_step
  have sound := claimed false afterMinor reachedMinor
  apply sound.asserts_nothing_wrong (.collect .any statistics) .previousMajor
  decide +kernel

end Whippet.Mmc
