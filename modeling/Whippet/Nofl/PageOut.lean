import Mathlib.Data.List.Perm.Basic
import Whippet.Nofl.Space

/-!
The background tasks that age unavailable blocks and page them out (`nofl-space.h`).

The task that ages the queue moves one block of an age at most, and none of the younger ages once
it finds an age without blocks.

Owns: the tasks together with the memory that they give back, what a tick does to each age, the
promise that all blocks of an age move together, and the exact condition for it. Does not own:
how blocks become unavailable.
-/

namespace Whippet.Nofl

open Function

/-- The space, and the blocks whose memory the platform has taken back. -/
structure PagedSpace where
  space : NoflSpace
  discarded : ℕ → Bool

namespace PagedSpace

variable {state : PagedSpace}

/-! ## Tasks -/

/-- `nofl_space_advance_page_out_queue`. -/
def advance (state : PagedSpace) : PagedSpace :=
  { state with space := state.space.noflSpaceAdvancePageOutQueue }

/-- `gc_platform_discard_memory`, for the memory of a block. -/
def discardMemory (state : PagedSpace) (block : ℕ) : PagedSpace :=
  { state with discarded := update state.discarded block true }

/-- The loop of `nofl_space_page_out_blocks`, over the blocks of the second oldest stack. -/
def pageOutLoop : List ℕ → PagedSpace → PagedSpace
  | [], state => state
  | block :: rest, state =>
      let popped := { state.space with pagedOut := update state.space.pagedOut 2 rest }
      let cleared := { state with space := popped.setPagedOut block }.discardMemory block
      pageOutLoop rest { cleared with space := cleared.space.pushPagedOut 3 block }

def pageOut (state : PagedSpace) : PagedSpace := pageOutLoop (state.space.pagedOut 2) state

/-- What the background thread does every second: the task for the start of a tick and the one for
its end. -/
def tick (state : PagedSpace) : PagedSpace := state.advance.pageOut

def runTicks : ℕ → PagedSpace → PagedSpace
  | 0, state => state
  | ticks + 1, state => runTicks ticks state.tick

/-- The memory aside, this is what `NoflSpace` says. -/
theorem space_pageOut (state : PagedSpace) :
    state.pageOut.space = state.space.noflSpacePageOutBlocks := by
  have looped : ∀ (blocks : List ℕ) (state : PagedSpace),
      (pageOutLoop blocks state).space = NoflSpace.pageOutLoop blocks state.space := by
    intro blocks
    induction blocks with
    | nil => exact fun _ => rfl
    | cons block rest inductionHypothesis => exact fun state => inductionHypothesis _
  exact looped _ state

/-! ## What the tasks do -/

/-- The memory of the block is discarded, and its flags say so. -/
structure IsPagedOut (state : PagedSpace) (block : ℕ) : Prop where
  zero : (state.space.summary block).zero = true
  pagedOut : (state.space.summary block).pagedOut = true
  discarded : state.discarded block = true

/-- The tasks change the stacks of unavailable blocks and mark blocks as paged out; no other list
changes, and no block becomes available. -/
structure Keeps (before after : PagedSpace) : Prop where
  space_eq : after.space =
    { before.space with pagedOut := after.space.pagedOut, summary := after.space.summary }
  unavailable_eq : ∀ block,
    (after.space.summary block).unavailable = (before.space.summary block).unavailable
  pagedOut_of_pagedOut : ∀ block, before.IsPagedOut block → after.IsPagedOut block

theorem Keeps.refl (state : PagedSpace) : Keeps state state where
  space_eq := rfl
  unavailable_eq := fun _ => rfl
  pagedOut_of_pagedOut := fun _ => id

theorem Keeps.trans {before middle after : PagedSpace} (first : Keeps before middle)
    (second : Keeps middle after) : Keeps before after where
  space_eq := by
    rw [second.space_eq, first.space_eq]
  unavailable_eq := fun block => (second.unavailable_eq block).trans (first.unavailable_eq block)
  pagedOut_of_pagedOut := fun block isPagedOut =>
    second.pagedOut_of_pagedOut block (first.pagedOut_of_pagedOut block isPagedOut)

/-- The loop empties the second oldest stack onto the oldest. -/
theorem pageOutLoop_spec (blocks : List ℕ) (state : PagedSpace)
    (isStack : state.space.pagedOut 2 = blocks) :
    Keeps state (pageOutLoop blocks state) ∧
      (pageOutLoop blocks state).space.pagedOut =
        update (update state.space.pagedOut 2 []) 3 (blocks.reverse ++ state.space.pagedOut 3) ∧
      ∀ block ∈ blocks, (pageOutLoop blocks state).IsPagedOut block := by
  induction blocks generalizing state with
  | nil =>
      refine ⟨.refl state, ?_, nofun⟩
      funext age
      match age with
      | 0 | 1 | 3 => rfl
      | 2 => exact isStack
  | cons block rest inductionHypothesis =>
      rw [pageOutLoop]
      generalize isMoved : PagedSpace.mk _ _ = moved
      have queue : moved.space.pagedOut =
          update (update state.space.pagedOut 2 rest) 3 (block :: state.space.pagedOut 3) := by
        rw [← isMoved]
        rfl
      have same : moved.space = { state.space with
          pagedOut := moved.space.pagedOut, summary := moved.space.summary } := by
        rw [← isMoved]
        rfl
      have summary : moved.space.summary = update state.space.summary block
          { state.space.summary block with zero := true, pagedOut := true } := by
        rw [← isMoved]
        rfl
      have memory : moved.discarded = update state.discarded block true := by
        rw [← isMoved]
        rfl
      have paged : moved.IsPagedOut block := by
        constructor
        · rw [summary, update_self]
        · rw [summary, update_self]
        · rw [memory, update_self]
      have kept : Keeps state moved := by
        refine ⟨same, ?_, ?_⟩
        · intro other
          rw [summary]
          by_cases isBlock : other = block
          · rw [isBlock, update_self]
          · rw [update_of_ne isBlock]
        · intro other isPagedOut
          by_cases isBlock : other = block
          · rw [isBlock]
            exact paged
          · refine ⟨?_, ?_, ?_⟩
            · rw [summary, update_of_ne isBlock]
              exact isPagedOut.zero
            · rw [summary, update_of_ne isBlock]
              exact isPagedOut.pagedOut
            · rw [memory, update_of_ne isBlock]
              exact isPagedOut.discarded
      have stack : moved.space.pagedOut 2 = rest := by
        rw [queue]
        rfl
      obtain ⟨keptRest, queueRest, pagedRest⟩ := inductionHypothesis moved stack
      refine ⟨kept.trans keptRest, ?_, ?_⟩
      · rw [queueRest, queue]
        funext age
        match age with
        | 0 | 1 | 2 => rfl
        | 3 => simp [update]
      · intro other member
        rcases List.mem_cons.mp member with rfl | inRest
        · exact keptRest.pagedOut_of_pagedOut _ paged
        · exact pagedRest other inRest

/-- At most one block of each age moves, and the youngest only together with an older one. -/
theorem advance_cases (space : NoflSpace) :
    (space.pagedOut 1 = [] ∧ space.noflSpaceAdvancePageOutQueue = space) ∨
      ∃ block rest, space.pagedOut 1 = block :: rest ∧
        ((space.pagedOut 0 = [] ∧ space.noflSpaceAdvancePageOutQueue = { space with
            pagedOut := update (update space.pagedOut 1 rest) 2 (block :: space.pagedOut 2) }) ∨
          ∃ young younger, space.pagedOut 0 = young :: younger ∧
            space.noflSpaceAdvancePageOutQueue = { space with
              pagedOut := update (update (update (update space.pagedOut 1 rest) 2
                (block :: space.pagedOut 2)) 0 younger) 1 (young :: rest) }) := by
  cases stack : space.pagedOut 1 with
  | nil =>
      refine .inl ⟨rfl, ?_⟩
      simp only [NoflSpace.noflSpaceAdvancePageOutQueue, NoflSpace.advanceAge, stack]
  | cons block rest =>
      refine .inr ⟨block, rest, rfl, ?_⟩
      cases youngest : space.pagedOut 0 with
      | nil =>
          refine .inl ⟨rfl, ?_⟩
          simp only [NoflSpace.noflSpaceAdvancePageOutQueue, NoflSpace.advanceAge, stack,
            NoflSpace.pushPagedOut]
          simp [update, youngest]
      | cons young younger =>
          refine .inr ⟨young, younger, rfl, ?_⟩
          simp only [NoflSpace.noflSpaceAdvancePageOutQueue, NoflSpace.advanceAge, stack,
            NoflSpace.pushPagedOut]
          simp [update, youngest]

theorem advance_keeps (state : PagedSpace) : Keeps state state.advance := by
  have space_eq : state.advance.space =
      { state.space with pagedOut := state.advance.space.pagedOut } := by
    show state.space.noflSpaceAdvancePageOutQueue =
      { state.space with pagedOut := state.space.noflSpaceAdvancePageOutQueue.pagedOut }
    rcases advance_cases state.space with ⟨-, same⟩ | ⟨_, _, -, ⟨-, same⟩ | ⟨_, _, -, same⟩⟩
    · rw [same]
    · rw [same]
    · rw [same]
  have summary_eq : state.advance.space.summary = state.space.summary := by
    rw [space_eq]
  refine ⟨?_, ?_, ?_⟩
  · rw [summary_eq]
    exact space_eq
  · intro block
    rw [summary_eq]
  · intro block isPagedOut
    refine ⟨?_, ?_, isPagedOut.discarded⟩
    · rw [summary_eq]
      exact isPagedOut.zero
    · rw [summary_eq]
      exact isPagedOut.pagedOut

/-- All blocks that are unavailable, the youngest first. -/
def unavailable (state : PagedSpace) : List ℕ :=
  state.space.pagedOut 0 ++ state.space.pagedOut 1 ++ state.space.pagedOut 2 ++
    state.space.pagedOut 3

theorem advance_unavailable (state : PagedSpace) :
    state.advance.unavailable.Perm state.unavailable := by
  rw [List.perm_iff_count]
  intro block
  simp only [unavailable, advance, List.count_append]
  rcases advance_cases state.space with
    ⟨-, same⟩ | ⟨_, _, second, ⟨-, same⟩ | ⟨_, _, youngest, same⟩⟩
  · rw [same]
  · rw [same, second]
    simp [update, List.count_cons]
    omega
  · rw [same, second, youngest]
    simp [update, List.count_cons]
    omega

theorem pageOut_unavailable (state : PagedSpace) :
    state.pageOut.unavailable.Perm state.unavailable := by
  obtain ⟨-, queue, -⟩ := pageOutLoop_spec _ state rfl
  rw [List.perm_iff_count]
  intro block
  simp only [unavailable, pageOut, List.count_append]
  rw [queue]
  simp [update, List.count_append, List.count_reverse]
  omega

/-- A tick loses no block and duplicates none. -/
theorem tick_unavailable (state : PagedSpace) : state.tick.unavailable.Perm state.unavailable :=
  (pageOut_unavailable state.advance).trans (advance_unavailable state)

/-- The oldest blocks are paged out. -/
def OldestPagedOut (state : PagedSpace) : Prop :=
  ∀ block ∈ state.space.pagedOut 3, state.IsPagedOut block

theorem tick_spec (state : PagedSpace) :
    Keeps state state.tick ∧
      state.tick.space.pagedOut = update (update state.advance.space.pagedOut 2 []) 3
        ((state.advance.space.pagedOut 2).reverse ++ state.space.pagedOut 3) ∧
      (state.OldestPagedOut → state.tick.OldestPagedOut) := by
  obtain ⟨kept, queue, paged⟩ := pageOutLoop_spec _ state.advance rfl
  have advanced := advance_keeps state
  have oldest : state.advance.space.pagedOut 3 = state.space.pagedOut 3 := by
    show state.space.noflSpaceAdvancePageOutQueue.pagedOut 3 = _
    rcases advance_cases state.space with ⟨-, same⟩ | ⟨_, _, -, ⟨-, same⟩ | ⟨_, _, -, same⟩⟩
    · rw [same]
    · rw [same]
      rfl
    · rw [same]
      rfl
  rw [oldest] at queue
  refine ⟨advanced.trans kept, queue, ?_⟩
  intro isPagedOut block member
  have inQueue : block ∈ (state.advance.space.pagedOut 2).reverse ++ state.space.pagedOut 3 := by
    have stack := congrFun queue 3
    rw [update_self] at stack
    rw [← stack]
    exact member
  rcases List.mem_append.mp inQueue with moved | wasOldest
  · exact paged block (List.mem_reverse.mp moved)
  · exact (advanced.trans kept).pagedOut_of_pagedOut block (isPagedOut block wasOldest)

/-! ## Whole ages -/

/-- In a tick, all blocks of an age move together to the next age, and those that reach the end of
the queue are paged out. -/
structure AgesTogether (before after : NoflSpace) : Prop where
  youngest : after.pagedOut 0 = []
  second : (after.pagedOut 1).Perm (before.pagedOut 0)
  third : after.pagedOut 2 = []
  oldest : (after.pagedOut 3).Perm
    (before.pagedOut 1 ++ before.pagedOut 2 ++ before.pagedOut 3)

/-- No age has more blocks than a tick can move. -/
def MovesWhole (space : NoflSpace) : Prop :=
  (space.pagedOut 0).length ≤ (space.pagedOut 1).length ∧ (space.pagedOut 1).length ≤ 1

instance (space : NoflSpace) : Decidable (MovesWhole space) :=
  inferInstanceAs (Decidable (_ ∧ _))

/-- The condition is the exact one for a tick. -/
theorem agesTogether_iff (state : PagedSpace) :
    AgesTogether state.space state.tick.space ↔ MovesWhole state.space := by
  obtain ⟨-, queue, -⟩ := tick_spec state
  have advanced : state.advance.space = state.space.noflSpaceAdvancePageOutQueue := rfl
  rw [advanced] at queue
  constructor
  · rintro ⟨youngest, second, -, -⟩
    rw [queue] at youngest second
    have lengths := second.length_eq
    rcases advance_cases state.space with
      ⟨stack, same⟩ | ⟨_, rest, stack, ⟨bare, same⟩ | ⟨_, younger, young, same⟩⟩
    · rw [same] at youngest
      have none : state.space.pagedOut 0 = [] := youngest
      rw [MovesWhole, none, stack]
      simp
    · rw [same] at lengths
      simp [update, bare] at lengths
      rw [MovesWhole, stack, bare, lengths]
      simp
    · rw [same] at youngest lengths
      simp [update, young] at youngest lengths
      rw [youngest] at lengths young
      rw [MovesWhole, stack, young]
      simp_all
  · rintro ⟨fewer, atMostOne⟩
    rcases advance_cases state.space with
      ⟨stack, same⟩ | ⟨block, rest, stack, ⟨bare, same⟩ | ⟨young, younger, youngest, same⟩⟩
    · have none : state.space.pagedOut 0 = [] := by
        apply List.eq_nil_of_length_eq_zero
        simpa [stack] using fewer
      rw [same] at queue
      refine ⟨?_, ?_, ?_, ?_⟩ <;> rw [queue]
      · exact none
      · simp [update, stack, none]
      · rfl
      · rw [stack, List.nil_append]
        exact (List.reverse_perm _).append_right _
    · have only : rest = [] := by
        apply List.eq_nil_of_length_eq_zero
        simpa [stack] using atMostOne
      rw [same] at queue
      refine ⟨?_, ?_, ?_, ?_⟩ <;> rw [queue]
      · exact bare
      · simp [update, bare, only]
      · rfl
      · simp [update, stack, only, List.perm_iff_count, List.count_cons, List.count_append]
        omega
    · have only : rest = [] := by
        apply List.eq_nil_of_length_eq_zero
        simpa [stack] using atMostOne
      have onlyYoung : younger = [] := by
        apply List.eq_nil_of_length_eq_zero
        simpa [stack, youngest, only] using fewer
      rw [same] at queue
      refine ⟨?_, ?_, ?_, ?_⟩ <;> rw [queue]
      · simp [update, onlyYoung]
      · simp [update, youngest, only, onlyYoung]
      · rfl
      · simp [update, stack, only, List.perm_iff_count, List.count_cons, List.count_append]
        omega

/-- Ages that move whole go on to do so. -/
theorem movesWhole_tick (whole : MovesWhole state.space) : MovesWhole state.tick.space := by
  obtain ⟨youngest, second, -, -⟩ := (agesTogether_iff state).mpr whole
  refine ⟨?_, ?_⟩
  · rw [youngest]
    exact Nat.zero_le _
  · rw [second.length_eq]
    exact whole.1.trans whole.2

/-! ## Whole runs of the background thread -/

/-- What the tasks are to do in a number of ticks: every age moves as a whole, what was unavailable
ends in the oldest stack and is paged out, and no block is lost, duplicated or made available. -/
structure PagesOutByAge (ticks : ℕ) (state : PagedSpace) : Prop where
  together : ∀ earlier < ticks,
    AgesTogether (runTicks earlier state).space (runTicks (earlier + 1) state).space
  inOldest : ∀ block ∈ state.unavailable, block ∈ (runTicks ticks state).space.pagedOut 3
  pagedOut : ∀ block ∈ state.unavailable, (runTicks ticks state).IsPagedOut block
  conserved : (runTicks ticks state).unavailable.Perm state.unavailable
  keeps : Keeps state (runTicks ticks state)

theorem runTicks_keeps (ticks : ℕ) (state : PagedSpace) :
    Keeps state (runTicks ticks state) ∧
      (runTicks ticks state).unavailable.Perm state.unavailable ∧
      (state.OldestPagedOut → (runTicks ticks state).OldestPagedOut) := by
  induction ticks generalizing state with
  | zero => exact ⟨.refl state, .refl _, id⟩
  | succ ticks inductionHypothesis =>
      obtain ⟨keptFirst, -, pagedFirst⟩ := tick_spec state
      obtain ⟨kept, conserved, paged⟩ := inductionHypothesis state.tick
      exact ⟨keptFirst.trans kept, conserved.trans (tick_unavailable state),
        fun oldest => paged (pagedFirst oldest)⟩

theorem runTicks_succ (ticks : ℕ) (state : PagedSpace) :
    runTicks (ticks + 1) state = (runTicks ticks state).tick := by
  induction ticks generalizing state with
  | zero => rfl
  | succ ticks inductionHypothesis => exact inductionHypothesis state.tick

theorem movesWhole_runTicks (whole : MovesWhole state.space) (ticks : ℕ) :
    MovesWhole (runTicks ticks state).space := by
  induction ticks with
  | zero => exact whole
  | succ ticks inductionHypothesis =>
      rw [runTicks_succ]
      exact movesWhole_tick inductionHypothesis

/-- Two ticks bring the youngest blocks to the end of the queue. -/
theorem onlyOldest_of_movesWhole (whole : MovesWhole state.space) (ticks : ℕ) :
    (runTicks (ticks + 2) state).unavailable = (runTicks (ticks + 2) state).space.pagedOut 3 := by
  have first := (agesTogether_iff _).mpr (movesWhole_runTicks whole ticks)
  have second := (agesTogether_iff _).mpr (movesWhole_runTicks whole (ticks + 1))
  rw [← runTicks_succ] at first second
  have none : (runTicks (ticks + 2) state).space.pagedOut 1 = [] := by
    apply List.eq_nil_of_length_eq_zero
    rw [second.second.length_eq, first.youngest, List.length_nil]
  rw [unavailable, second.youngest, none, second.third]
  rfl

/-- From every state of the four stacks, the tasks page out by age if and only if no age has more
blocks than a tick can move. -/
theorem pages_out_by_age_iff (oldest : state.OldestPagedOut) {ticks : ℕ} (enough : 2 ≤ ticks) :
    PagesOutByAge ticks state ↔ MovesWhole state.space := by
  obtain ⟨keeps, conserved, paged⟩ := runTicks_keeps ticks state
  constructor
  · intro promised
    have first := promised.together 0 (by omega)
    exact (agesTogether_iff state).mp first
  · intro whole
    obtain ⟨earlier, rfl⟩ := Nat.exists_eq_add_of_le' enough
    have inOldest : ∀ block ∈ state.unavailable,
        block ∈ (runTicks (earlier + 2) state).space.pagedOut 3 := by
      intro block member
      rw [← onlyOldest_of_movesWhole whole]
      exact conserved.symm.subset member
    refine ⟨?_, inOldest, fun block member => paged oldest block (inOldest block member),
      conserved, keeps⟩
    intro tick _
    rw [runTicks_succ]
    exact (agesTogether_iff _).mpr (movesWhole_runTicks whole tick)

/-- A space of one slab whose first blocks are unavailable, with the given numbers of blocks of age
0 and 1; the memory of none is discarded. -/
def unavailableSpace (young older : ℕ) : PagedSpace :=
  let block (index : ℕ) : ℕ :=
    NOFL_SLAB_SIZE + (NOFL_META_BLOCKS_PER_SLAB + index) * NOFL_BLOCK_SIZE
  { space :=
      { empty := [], toSweep := [], partlyFull := [], full := [], promoted := [], old := [],
        evacuationTargets := [], held := []
        pagedOut := fun age =>
          if age = 0 then (List.range young).map block
          else if age = 1 then (List.range older).map fun index => block (young + index)
          else []
        summary := fun _ =>
          { holeCount := 0, holeGranules := 0, holesWithFragmentation := 0,
            fragmentationGranules := 0, evacuate := false, zero := false, unavailable := true,
            pagedOut := false }
        slabs := [NOFL_SLAB_SIZE], evacuationMinimumReserve := 0, evacuationReserve := 0
        pendingUnavailableBytes := 0 }
    discarded := fun _ => false }

theorem oldestPagedOut_unavailableSpace (young older : ℕ) :
    (unavailableSpace young older).OldestPagedOut := by
  intro block member
  simp [unavailableSpace] at member

/-- One block of each of the two youngest ages. -/
theorem pages_out_by_age_one_each : PagesOutByAge 2 (unavailableSpace 1 1) :=
  (pages_out_by_age_iff (oldestPagedOut_unavailableSpace 1 1) (le_refl 2)).mpr (by decide)

/-- A single young block stays where it is. -/
theorem pages_out_by_age_fails : ¬∀ (state : PagedSpace) (ticks : ℕ), state.OldestPagedOut →
    2 ≤ ticks → PagesOutByAge ticks state := by
  intro promised
  have oldest := oldestPagedOut_unavailableSpace 1 0
  have whole := (promised _ 2 oldest (le_refl 2)).together 0 (by decide)
  have notWhole : ¬MovesWhole (unavailableSpace 1 0).space := by decide
  exact notWhole ((agesTogether_iff _).mp whole)

end PagedSpace

end Whippet.Nofl
