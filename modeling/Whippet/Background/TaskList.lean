import Mathlib
import Whippet.Library.Checked

/-!
The tasks of the background thread (`background-thread.h`).

The tasks are the first `count` entries of an array with room for `capacity`, in the order in which
a tick runs them. All operations hold the lock of the thread.

Owns: adding and removing tasks, what a tick runs, and how that compares with the tasks that were
added and not removed. Does not own: the thread itself and what tasks do.
-/

namespace Whippet.Background

def GC_BACKGROUND_TASK_START : ℤ := 0
def GC_BACKGROUND_TASK_MIDDLE : ℤ := 100
def GC_BACKGROUND_TASK_END : ℤ := 200

/-- `struct gc_background_task`, with the addresses of the function and of its data. -/
structure BackgroundTask where
  id : ℤ
  priority : ℤ
  run : ℕ
  data : ℕ
  deriving DecidableEq, Repr, Inhabited

def INT_MAX : ℤ := 2 ^ 31 - 1

/-- `sizeof(struct gc_background_task)`. -/
def taskSize : ℕ := 24

/-- `struct gc_background_thread`, but for its state and what it waits with. -/
structure BackgroundThread where
  count : ℕ
  capacity : ℕ
  tasks : ℕ → BackgroundTask
  nextId : ℤ

inductive TaskFailure where
  /-- `realloc` fails. -/
  | outOfMemory
  /-- `next_id` overflows. -/
  | idOverflow
  /-- There is no task with the id. -/
  | noSuchTask
  deriving DecidableEq, Repr

/-- `gc_make_background_thread`. -/
def BackgroundThread.make : BackgroundThread :=
  { count := 0, capacity := 0, tasks := fun _ => default, nextId := 0 }

/-- `memmove (&tasks[target], &tasks[source], length * sizeof(struct gc_background_task))`. -/
def memmove (tasks : ℕ → BackgroundTask) (target source length : ℕ) : ℕ → BackgroundTask :=
  fun index =>
    if target ≤ index ∧ index < target + length then tasks (source + (index - target))
    else tasks index

namespace BackgroundThread

variable (thread : BackgroundThread)

/-- What the loop over the tasks runs in a tick. -/
def tick : List BackgroundTask := (List.range thread.count).map thread.tasks

/-- Makes room for one more task. -/
def grow (memory : ℕ → Bool) : Outcome TaskFailure BackgroundThread :=
  if thread.count = thread.capacity then do
    let newCapacity := thread.capacity * 2 + 1
    Outcome.check (memory (taskSize * newCapacity) = true) .outOfMemory
    pure { thread with capacity := newCapacity }
  else pure thread

/-- `for (; insert < thread->count; insert++)`, with as many turns as there are tasks left. -/
def findInsert (priority : ℤ) : ℕ → ℕ → ℕ
  | 0, insert => insert
  | turns + 1, insert =>
      if priority < (thread.tasks insert).priority then insert
      else findInsert priority turns (insert + 1)

/-- `gc_background_thread_add_task`. -/
def addTask (memory : ℕ → Bool) (priority : ℤ) (run data : ℕ) :
    Outcome TaskFailure (BackgroundThread × ℤ) := do
  let thread ← thread.grow memory
  let insert := thread.findInsert priority thread.count 0
  let moved := memmove thread.tasks (insert + 1) insert (thread.count - insert)
  let id := thread.nextId
  Outcome.check (thread.nextId < INT_MAX) .idOverflow
  pure ({ thread with
    tasks := Function.update moved insert
      { id := id, priority := priority, run := run, data := data }
    count := thread.count + 1
    nextId := thread.nextId + 1 }, id)

/-- `for (; remove < thread->count; remove++)`, with as many turns as there are tasks left. -/
def findTask (id : ℤ) : ℕ → ℕ → ℕ
  | 0, remove => remove
  | turns + 1, remove =>
      if (thread.tasks remove).id = id then remove else findTask id turns (remove + 1)

/-- `gc_background_thread_remove_task`. The count stays as it is. -/
def removeTask (id : ℤ) : Outcome TaskFailure BackgroundThread := do
  let remove := thread.findTask id thread.count 0
  Outcome.check (remove ≠ thread.count) .noSuchTask
  pure { thread with
    tasks := memmove thread.tasks remove (remove + 1) (thread.count - (remove + 1)) }

end BackgroundThread

/-! ## Runs -/

/-- The thread with the tasks that were added and not removed, in the order in which they were
added, and the ids that were removed. -/
structure TaskWorld where
  thread : BackgroundThread
  present : List BackgroundTask
  removed : List ℤ

inductive TaskAction where
  | add (memory : ℕ → Bool) (priority : ℤ) (run data : ℕ)
  | remove (id : ℤ)

/-- Only tasks that are present are removed. -/
def TaskWorld.step (world : TaskWorld) : TaskAction → Outcome TaskFailure TaskWorld
  | .add memory priority run data => do
      let (thread, id) ← world.thread.addTask memory priority run data
      pure { world with
        thread := thread
        present := world.present ++
          [{ id := id, priority := priority, run := run, data := data }] }
  | .remove id => do
      Outcome.require (id ∈ world.present.map BackgroundTask.id)
      let thread ← world.thread.removeTask id
      pure {
        thread := thread
        present := world.present.eraseP fun task => task.id = id
        removed := id :: world.removed }

def taskSystem : System TaskWorld TaskAction TaskFailure :=
  { initial := fun world => world = { thread := .make, present := [], removed := [] }
    step := TaskWorld.step }

/-- A tick runs the present tasks by priority, and those of one priority in the order in which they
were added. Their ids are distinct, and a task that is not present cannot be removed. -/
structure RunsPresent (world : TaskWorld) : Prop where
  byPriority : world.thread.tick.Pairwise fun first second => first.priority ≤ second.priority
  inOrder : ∀ priority, (world.thread.tick.filter fun task => task.priority = priority) =
    world.present.filter fun task => task.priority = priority
  count : world.thread.count = world.present.length
  ids : (world.present.map BackgroundTask.id).Nodup
  detected : ∀ id, id ∉ world.present.map BackgroundTask.id →
    world.thread.removeTask id = .failed .noSuchTask

/-! ## Insertion -/

namespace BackgroundThread

variable {thread grown : BackgroundThread} {task : BackgroundTask} {priority : ℤ} {insert : ℕ}

theorem grow_spec {memory : ℕ → Bool} (grows : thread.grow memory = .next grown) :
    grown.count = thread.count ∧ grown.tasks = thread.tasks ∧ grown.nextId = thread.nextId := by
  rw [grow] at grows
  by_cases isFull : thread.count = thread.capacity
  · rw [if_pos isFull, Outcome.check_bind_eq_next, Outcome.pure_eq_next,
      Outcome.next.injEq] at grows
    rw [← grows.2]
    exact ⟨rfl, rfl, rfl⟩
  · rw [if_neg isFull, Outcome.pure_eq_next, Outcome.next.injEq] at grows
    rw [← grows]
    exact ⟨rfl, rfl, rfl⟩

/-- A task goes after those whose priority is not greater. -/
theorem findInsert_eq (thread : BackgroundThread) (priority : ℤ) (turns start : ℕ) :
    thread.findInsert priority turns start = start +
      (((List.range' start turns).map thread.tasks).takeWhile
        fun task => task.priority ≤ priority).length := by
  induction turns generalizing start with
  | zero => rfl
  | succ turns inductionHypothesis =>
      rw [findInsert, List.range'_succ, List.map_cons]
      by_cases isLess : priority < (thread.tasks start).priority
      · rw [if_pos isLess, List.takeWhile_cons_of_neg]
        · rfl
        · simpa using isLess
      · rw [if_neg isLess, inductionHypothesis, List.takeWhile_cons_of_pos, List.length_cons]
        · omega
        · simpa using isLess

theorem length_tick (thread : BackgroundThread) : thread.tick.length = thread.count := by
  rw [tick, List.length_map, List.length_range]

theorem findInsert_zero (thread : BackgroundThread) (priority : ℤ) :
    thread.findInsert priority thread.count 0 =
      (thread.tick.takeWhile fun task => task.priority ≤ priority).length := by
  rw [findInsert_eq, Nat.zero_add, tick, List.range_eq_range']

theorem getElem?_tick (thread : BackgroundThread) (index : ℕ) :
    thread.tick[index]? = if index < thread.count then some (thread.tasks index) else none := by
  rw [tick, List.getElem?_map]
  split
  next inRange => rw [List.getElem?_range inRange, Option.map_some]
  next outside => rw [List.getElem?_eq_none (by simpa using outside), Option.map_none]

/-- The tasks after the new one move up by one. -/
theorem tick_insert {result : BackgroundThread} (atMost : insert ≤ thread.count)
    (isCount : result.count = thread.count + 1)
    (isTasks : result.tasks = Function.update
      (memmove thread.tasks (insert + 1) insert (thread.count - insert)) insert task) :
    result.tick = thread.tick.take insert ++ task :: thread.tick.drop insert := by
  have isLength : (thread.tick.take insert).length = insert := by
    rw [List.length_take, length_tick, Nat.min_eq_left atMost]
  apply List.ext_getElem?
  intro index
  rw [getElem?_tick, isCount, isTasks, List.getElem?_append, isLength]
  rcases Nat.lt_trichotomy index insert with before | rfl | after
  · rw [if_pos before, if_pos (by omega), List.getElem?_take_of_lt before, getElem?_tick,
      if_pos (by omega), Function.update_of_ne before.ne, memmove, if_neg (by omega)]
  · rw [if_neg (Nat.lt_irrefl index), if_pos (by omega), Function.update_self, Nat.sub_self,
      List.getElem?_cons_zero]
  · obtain ⟨rest, rfl⟩ : ∃ rest, index = insert + 1 + rest := ⟨index - (insert + 1), by omega⟩
    have isNext : insert + 1 + rest - insert = rest + 1 := by omega
    have notBefore : ¬insert + 1 + rest < insert := by omega
    rw [if_neg notBefore, isNext, List.getElem?_cons_succ, List.getElem?_drop, getElem?_tick]
    by_cases inRange : insert + rest < thread.count
    · rw [if_pos (by omega), if_pos inRange, Function.update_of_ne (by omega), memmove,
        if_pos (by omega), Nat.add_sub_cancel_left]
    · rw [if_neg (by omega), if_neg inRange]

theorem drop_length_takeWhile (keeps : BackgroundTask → Bool) (tasks : List BackgroundTask) :
    tasks.drop (tasks.takeWhile keeps).length = tasks.dropWhile keeps := by
  induction tasks with
  | nil => rfl
  | cons first rest inductionHypothesis =>
      by_cases isKept : keeps first = true
      · rw [List.takeWhile_cons_of_pos isKept, List.dropWhile_cons_of_pos isKept, List.length_cons,
          List.drop_succ_cons, inductionHypothesis]
      · rw [List.takeWhile_cons_of_neg isKept, List.dropWhile_cons_of_neg isKept, List.length_nil,
          List.drop_zero]

/-- What adding a task does to the tick. -/
theorem addTask_spec {memory : ℕ → Bool} {run data : ℕ} {after : BackgroundThread} {id : ℤ}
    (added : thread.addTask memory priority run data = .next (after, id)) :
    id = thread.nextId ∧ after.nextId = thread.nextId + 1 ∧ after.count = thread.count + 1 ∧
      after.tick = thread.tick.takeWhile (fun task => task.priority ≤ priority) ++
        { id := id, priority := priority, run := run, data := data } ::
          thread.tick.dropWhile fun task => task.priority ≤ priority := by
  rw [addTask, Outcome.bind_eq_next] at added
  obtain ⟨grown, grows, added⟩ := added
  rw [Outcome.check_bind_eq_next, Outcome.pure_eq_next, Outcome.next.injEq, Prod.mk.injEq] at added
  obtain ⟨-, rfl, rfl⟩ := added
  obtain ⟨sameCount, sameTasks, sameId⟩ := grow_spec grows
  have sameTick : grown.tick = thread.tick := by rw [tick, tick, sameCount, sameTasks]
  have atMost : grown.findInsert priority grown.count 0 ≤ grown.count := by
    rw [findInsert_zero, ← length_tick]
    exact (List.takeWhile_prefix _).length_le
  refine ⟨sameId, congrArg (· + 1) sameId, congrArg (· + 1) sameCount, ?_⟩
  rw [tick_insert atMost rfl rfl, findInsert_zero, sameTick]
  congr 1
  · exact (List.prefix_iff_eq_take.mp (List.takeWhile_prefix _)).symm
  · congr 1
    exact drop_length_takeWhile _ _

theorem findTask_of_not_mem (thread : BackgroundThread) {id : ℤ} (turns start : ℕ)
    (absent : ∀ index, start ≤ index → index < start + turns → (thread.tasks index).id ≠ id) :
    thread.findTask id turns start = start + turns := by
  induction turns generalizing start with
  | zero => rfl
  | succ turns inductionHypothesis =>
      rw [findTask, if_neg (absent start (Nat.le_refl _) (by omega)), inductionHypothesis]
      · omega
      · exact fun index atLeast below => absent index (by omega) (by omega)

/-- To remove what a tick does not run is a crash. -/
theorem removeTask_of_not_mem {id : ℤ} (absent : id ∉ thread.tick.map BackgroundTask.id) :
    thread.removeTask id = .failed .noSuchTask := by
  have notFound : thread.findTask id thread.count 0 = thread.count := by
    rw [findTask_of_not_mem thread thread.count 0, Nat.zero_add]
    intro index _ inRange isId
    apply absent
    rw [tick, List.map_map, List.mem_map]
    exact ⟨index, List.mem_range.mpr (by omega), isId⟩
  rw [removeTask, notFound]
  simp [Outcome.check]

theorem removeTask_count {id : ℤ} {after : BackgroundThread}
    (removed : thread.removeTask id = .next after) : after.count = thread.count := by
  rw [removeTask, Outcome.check_bind_eq_next, Outcome.pure_eq_next, Outcome.next.injEq] at removed
  rw [← removed.2]

end BackgroundThread

/-! ## What a tick runs -/

section Insertion

variable {tasks : List BackgroundTask}

/-- A task between those that are not later and those that are later. -/
theorem pairwise_insert (task : BackgroundTask)
    (ordered : tasks.Pairwise fun first second => first.priority ≤ second.priority) :
    (tasks.takeWhile (fun other => other.priority ≤ task.priority) ++
      task :: tasks.dropWhile fun other => other.priority ≤ task.priority).Pairwise
        fun first second => first.priority ≤ second.priority := by
  induction tasks with
  | nil => exact List.pairwise_singleton _ _
  | cons first rest inductionHypothesis =>
      rw [List.pairwise_cons] at ordered
      by_cases isBefore : first.priority ≤ task.priority
      · rw [List.takeWhile_cons_of_pos (by simpa using isBefore),
          List.dropWhile_cons_of_pos (by simpa using isBefore), List.cons_append,
            List.pairwise_cons]
        refine ⟨?_, inductionHypothesis ordered.2⟩
        intro other member
        rw [List.mem_append, List.mem_cons] at member
        rcases member with isEarly | rfl | isLate
        · exact ordered.1 other (List.takeWhile_subset _ isEarly)
        · exact isBefore
        · exact ordered.1 other (List.dropWhile_subset _ isLate)
      · rw [List.takeWhile_cons_of_neg (by simpa using isBefore),
          List.dropWhile_cons_of_neg (by simpa using isBefore), List.nil_append, List.pairwise_cons]
        refine ⟨?_, List.pairwise_cons.mpr ordered⟩
        intro other member
        rcases List.mem_cons.mp member with rfl | isLate
        · omega
        · have later := ordered.1 other isLate
          omega

/-- It comes last among those of its priority. -/
theorem filter_insert (task : BackgroundTask) (priority : ℤ)
    (ordered : tasks.Pairwise fun first second => first.priority ≤ second.priority) :
    ((tasks.takeWhile (fun other => other.priority ≤ task.priority) ++
      task :: tasks.dropWhile fun other => other.priority ≤ task.priority).filter
        fun other => other.priority = priority) =
      (tasks.filter fun other => other.priority = priority) ++
        [task].filter fun other => other.priority = priority := by
  induction tasks with
  | nil => rfl
  | cons first rest inductionHypothesis =>
      rw [List.pairwise_cons] at ordered
      by_cases isBefore : first.priority ≤ task.priority
      · rw [List.takeWhile_cons_of_pos (by simpa using isBefore),
          List.dropWhile_cons_of_pos (by simpa using isBefore), List.cons_append, List.filter_cons,
          List.filter_cons, inductionHypothesis ordered.2]
        split <;> rfl
      · rw [List.takeWhile_cons_of_neg (by simpa using isBefore),
          List.dropWhile_cons_of_neg (by simpa using isBefore), List.nil_append, List.filter_cons]
        by_cases isPriority : task.priority = priority
        · have noneLater : ((first :: rest).filter fun other => other.priority = priority) =
              [] := by
            rw [List.filter_eq_nil_iff]
            intro other member
            have later : task.priority < other.priority := by
              rcases List.mem_cons.mp member with rfl | isLate
              · omega
              · have notEarlier := ordered.1 other isLate
                omega
            simp
            omega
          rw [noneLater, if_pos (by simpa using isPriority)]
          simp [isPriority]
        · rw [if_neg (by simpa using isPriority)]
          simp [isPriority]

end Insertion

/-! ## Runs without removals -/

namespace TaskWorld

variable {world after : TaskWorld} {action : TaskAction}

/-- Every task that was added is counted, also if it was removed. -/
def CountsAll (world : TaskWorld) : Prop :=
  world.thread.count = world.present.length + world.removed.length

/-- What a tick runs, and how ids are given out. -/
structure InStep (world : TaskWorld) : Prop where
  byPriority : world.thread.tick.Pairwise fun first second => first.priority ≤ second.priority
  inOrder : ∀ priority, (world.thread.tick.filter fun task => task.priority = priority) =
    world.present.filter fun task => task.priority = priority
  earlier : ∀ task ∈ world.present, task.id < world.thread.nextId
  ids : (world.present.map BackgroundTask.id).Nodup

theorem countsAll_of_step (countsAll : CountsAll world)
    (stepped : world.step action = .next after) : CountsAll after := by
  cases action with
  | add memory priority run data =>
      rw [step, Outcome.bind_eq_next] at stepped
      obtain ⟨⟨thread, id⟩, added, stepped⟩ := stepped
      obtain rfl := Outcome.next.inj stepped
      obtain ⟨-, -, count, -⟩ := BackgroundThread.addTask_spec added
      rw [CountsAll] at countsAll ⊢
      dsimp only
      rw [count, List.length_append, List.length_singleton]
      omega
  | remove id =>
      rw [step, Outcome.require_bind_eq_next, Outcome.bind_eq_next] at stepped
      obtain ⟨isPresent, thread, removed, stepped⟩ := stepped
      obtain rfl := Outcome.next.inj stepped
      obtain ⟨task, member, isId⟩ := List.mem_map.mp isPresent
      have shorter : (world.present.eraseP fun task => task.id = id).length =
          world.present.length - 1 :=
        List.length_eraseP_of_mem member (decide_eq_true isId)
      have nonempty := List.length_pos_of_mem member
      rw [CountsAll] at countsAll ⊢
      rw [BackgroundThread.removeTask_count removed, shorter, List.length_cons]
      omega

theorem inStep_of_step (inStep : world.removed = [] → InStep world)
    (stepped : world.step action = .next after) (noneRemoved : after.removed = []) :
    InStep after := by
  cases action with
  | remove id =>
      rw [step, Outcome.require_bind_eq_next, Outcome.bind_eq_next] at stepped
      obtain ⟨-, thread, -, stepped⟩ := stepped
      obtain rfl := Outcome.next.inj stepped
      cases noneRemoved
  | add memory priority run data =>
      rw [step, Outcome.bind_eq_next] at stepped
      obtain ⟨⟨thread, id⟩, added, stepped⟩ := stepped
      obtain rfl := Outcome.next.inj stepped
      obtain ⟨byPriority, inOrder, earlier, ids⟩ := inStep noneRemoved
      obtain ⟨rfl, nextId, -, tick⟩ := BackgroundThread.addTask_spec added
      have byPriorityAfter := pairwise_insert
        { id := world.thread.nextId, priority := priority, run := run, data := data } byPriority
      have inOrderAfter := fun other => filter_insert
        { id := world.thread.nextId, priority := priority, run := run, data := data } other
          byPriority
      rw [← tick] at byPriorityAfter
      rw [← tick] at inOrderAfter
      refine ⟨byPriorityAfter, ?_, ?_, ?_⟩
      · intro other
        dsimp only
        rw [inOrderAfter, List.filter_append, inOrder]
      · intro task member
        dsimp only
        rw [nextId]
        rcases List.mem_append.mp member with isOld | isNew
        · have before := earlier task isOld
          omega
        · rw [List.mem_singleton.mp isNew]
          exact Int.lt_succ _
      · rw [List.map_append, List.nodup_append]
        refine ⟨ids, List.pairwise_singleton _ _, ?_⟩
        intro oldId isOld newId isNew
        obtain ⟨task, member, rfl⟩ := List.mem_map.mp isOld
        rw [List.map_singleton, List.mem_singleton] at isNew
        rw [isNew]
        exact Int.ne_of_lt (earlier task member)

theorem reachable_invariant (reached : taskSystem.Reachable world) :
    CountsAll world ∧ (world.removed = [] → InStep world) := by
  apply System.ReachableBy.invariant taskSystem _ _ reached
  · rintro state rfl
    refine ⟨rfl, fun _ => ⟨.nil, fun _ => rfl, nofun, .nil⟩⟩
  · intro before action after invariant _ stepped
    exact ⟨countsAll_of_step invariant.1 stepped, inStep_of_step invariant.2 stepped⟩

end TaskWorld

/-- In every state that is reached, a tick runs what it is to run if and only if no task was ever
removed. -/
theorem background_tasks_iff {world : TaskWorld} (reached : taskSystem.Reachable world) :
    RunsPresent world ↔ world.removed = [] := by
  obtain ⟨countsAll, inStep⟩ := TaskWorld.reachable_invariant reached
  constructor
  · intro runs
    have count := runs.count
    rw [TaskWorld.CountsAll] at countsAll
    exact List.eq_nil_of_length_eq_zero (by omega)
  · intro noneRemoved
    obtain ⟨byPriority, inOrder, earlier, ids⟩ := inStep noneRemoved
    refine ⟨byPriority, inOrder, ?_, ids, ?_⟩
    · rw [TaskWorld.CountsAll, noneRemoved] at countsAll
      exact countsAll
    · intro id notPresent
      apply BackgroundThread.removeTask_of_not_mem
      intro isRun
      obtain ⟨task, member, rfl⟩ := List.mem_map.mp isRun
      apply notPresent
      have inFilter : task ∈ world.thread.tick.filter fun other => other.priority = task.priority :=
        List.mem_filter.mpr ⟨member, decide_eq_true rfl⟩
      rw [inOrder] at inFilter
      exact List.mem_map_of_mem (List.mem_of_mem_filter inFilter)

/-- Two tasks, of which the second runs first. -/
theorem background_tasks_iff_two : ∃ world : TaskWorld,
    world.thread.tick.map BackgroundTask.run = [0x2000, 0x1000] ∧ RunsPresent world := by
  let actions : List TaskAction :=
    [.add (fun _ => true) GC_BACKGROUND_TASK_END 0x1000 0,
      .add (fun _ => true) GC_BACKGROUND_TASK_START 0x2000 0]
  have ran : (System.runBy taskSystem.step (fun _ _ => True) ⟨.make, [], []⟩ actions).leadsTo
      (fun world => world.thread.tick.map BackgroundTask.run = [0x2000, 0x1000] ∧
        world.removed = []) = true := by
    decide +kernel
  obtain ⟨world, ran, facts⟩ := Outcome.exists_next_of_leadsTo ran
  obtain ⟨runs, noneRemoved⟩ := of_decide_eq_true facts
  have start : taskSystem.Reachable ⟨.make, [], []⟩ := .initial rfl
  have reached := System.ReachableBy.of_runBy taskSystem (fun _ _ => True) (fun _ _ _ => trivial)
    start actions ran
  exact ⟨world, runs, (background_tasks_iff reached).mpr noneRemoved⟩

/-- The one task was removed. It still runs, and it can be removed again. -/
theorem background_tasks_fails :
    ¬∀ world : TaskWorld, taskSystem.Reachable world → RunsPresent world := by
  intro holds
  let actions : List TaskAction :=
    [.add (fun _ => true) GC_BACKGROUND_TASK_MIDDLE 0x1000 0, .remove 0]
  have ran : (System.runBy taskSystem.step (fun _ _ => True) ⟨.make, [], []⟩ actions).leadsTo
      (fun world => world.thread.tick.map BackgroundTask.run = [0x1000] ∧
        (world.thread.removeTask 0).leadsTo (fun _ => true) = true ∧ world.present = []) =
          true := by
    decide +kernel
  obtain ⟨world, ran, facts⟩ := Outcome.exists_next_of_leadsTo ran
  obtain ⟨stillRuns, -, nonePresent⟩ := of_decide_eq_true facts
  have start : taskSystem.Reachable ⟨.make, [], []⟩ := .initial rfl
  have reached := System.ReachableBy.of_runBy taskSystem (fun _ _ => True) (fun _ _ _ => trivial)
    start actions ran
  have count := (holds world reached).count
  rw [← BackgroundThread.length_tick, nonePresent,
    ← world.thread.tick.length_map BackgroundTask.run, stillRuns] at count
  cases count

end Whippet.Background
