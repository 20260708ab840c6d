import Mathlib.Logic.Relation
import Whippet.Library.Population

/-!
Stop-the-world rendezvous.

Threads register and unregister, and one of them at a time may ask all others to stop. Registered
threads are running, paused at a safepoint, or inactive (outside managed code); the asking thread
waits until the paused and the inactive threads account for every registered one, and then works
alone until it lets them go.

Owns: the protocol as a step relation over roles and three counters, the invariant that the
counters are the populations of their classes, that there is at most one asking thread, and that
nothing runs beside a thread that works alone. Does not own: linked lists of threads, condition
variables, or what the thread does while it works alone.
-/

namespace Whippet

open Function

/-- What a thread is doing, as far as the rendezvous is concerned. -/
inductive Role where
  | absent
  | running
  | paused
  | inactive
  /-- Asked the others to stop and waits for them. -/
  | stopping
  /-- Works alone. -/
  | collecting
  deriving DecidableEq, Repr

namespace Role

def Registered (role : Role) : Prop := role ≠ absent

/-- The roles that the paused counter counts: the asking thread is one of them. -/
def Paused (role : Role) : Prop := role = paused ∨ role = stopping ∨ role = collecting

def Inactive (role : Role) : Prop := role = inactive

/-- The asking thread. -/
def Collector (role : Role) : Prop := role = stopping ∨ role = collecting

@[simp] theorem registered_absent : ¬Registered absent := by simp [Registered]
@[simp] theorem registered_running : Registered running := by simp [Registered]
@[simp] theorem registered_paused : Registered paused := by simp [Registered]
@[simp] theorem registered_inactive : Registered inactive := by simp [Registered]
@[simp] theorem registered_stopping : Registered stopping := by simp [Registered]
@[simp] theorem registered_collecting : Registered collecting := by simp [Registered]

theorem registered_of_paused {role : Role} (isPaused : role.Paused) : role.Registered := by
  rcases isPaused with rfl | rfl | rfl <;> simp

theorem registered_of_inactive {role : Role} (isInactive : role.Inactive) : role.Registered := by
  cases isInactive
  simp

theorem not_inactive_of_paused {role : Role} (isPaused : role.Paused) : ¬role.Inactive := by
  rcases isPaused with rfl | rfl | rfl <;> simp [Inactive]

end Role

/-- The state of the protocol. -/
structure Rendezvous (Thread : Type) where
  role : Thread → Role
  stopRequested : Bool
  /-- The thread that holds the lock between two of its critical sections. -/
  lock : Option Thread
  registered : ℕ
  paused : ℕ
  inactive : ℕ

namespace Rendezvous

variable {Thread : Type}

/-- Every registered thread is accounted for by the two other counters. -/
def AllStopped (state : Rendezvous Thread) : Prop :=
  state.registered = state.paused + state.inactive

/-- The three counters are the populations of their classes. -/
structure Counted (state : Rendezvous Thread) : Prop where
  finite : (members state.role Role.Registered).Finite
  registered_eq : state.registered = population state.role Role.Registered
  paused_eq : state.paused = population state.role Role.Paused
  inactive_eq : state.inactive = population state.role Role.Inactive

/-- Who asks, who holds the lock, and who may run beside whom. -/
structure Exclusive (state : Rendezvous Thread) : Prop where
  lock_iff : ∀ thread, state.lock = some thread ↔ state.role thread = .collecting
  requested_iff : state.stopRequested = true ↔ ∃ thread, (state.role thread).Collector
  unique : ∀ left right, (state.role left).Collector → (state.role right).Collector →
    left = right
  quiet : ∀ thread other, state.role thread = .collecting → other ≠ thread →
    state.role other ≠ .running

/-- The invariant of the protocol. -/
structure Consistent (state : Rendezvous Thread) : Prop extends Counted state, Exclusive state

namespace Counted

variable {state : Rendezvous Thread}

theorem finite_paused (counted : state.Counted) : (members state.role Role.Paused).Finite :=
  counted.finite.subset fun _ => Role.registered_of_paused

theorem finite_inactive (counted : state.Counted) : (members state.role Role.Inactive).Finite :=
  counted.finite.subset fun _ => Role.registered_of_inactive

/-- When the counters say that all have stopped, a registered thread is paused or inactive. -/
theorem stopped_of_allStopped (counted : state.Counted) (stopped : state.AllStopped)
    {thread : Thread} (registered : (state.role thread).Registered) :
    (state.role thread).Paused ∨ (state.role thread).Inactive := by
  refine member_of_population_eq_add counted.finite (fun _ => Role.registered_of_paused)
    (fun _ => Role.registered_of_inactive) (fun _ => Role.not_inactive_of_paused) ?_ registered
  rw [← counted.registered_eq, ← counted.paused_eq, ← counted.inactive_eq]
  exact stopped

/-- A running thread keeps the counters from saying that all have stopped. -/
theorem not_allStopped_of_running (counted : state.Counted) {thread : Thread}
    (isRunning : state.role thread = .running) : ¬state.AllStopped := by
  intro stopped
  have registered : (state.role thread).Registered := by simp [isRunning]
  rcases counted.stopped_of_allStopped stopped registered with isPaused | isInactive
  · simp [isRunning, Role.Paused] at isPaused
  · simp [isRunning, Role.Inactive] at isInactive

/-- With no thread running, the counters say that all have stopped. -/
theorem allStopped_of_not_running (counted : state.Counted)
    (stopped : ∀ thread, state.role thread ≠ .running) : state.AllStopped := by
  rw [AllStopped, counted.registered_eq, counted.paused_eq, counted.inactive_eq]
  refine population_eq_add counted.finite ?_ fun _ => Role.not_inactive_of_paused
  intro thread
  have notRunning := stopped thread
  cases roleEq : state.role thread <;>
    simp_all [Role.Registered, Role.Paused, Role.Inactive]

theorem paused_pos (counted : state.Counted) (thread : Thread)
    (isPaused : (state.role thread).Paused) : 0 < state.paused := by
  rw [counted.paused_eq]
  exact population_pos counted.finite_paused isPaused

theorem inactive_pos (counted : state.Counted) (thread : Thread)
    (isInactive : (state.role thread).Inactive) : 0 < state.inactive := by
  rw [counted.inactive_eq]
  exact population_pos counted.finite_inactive isInactive

theorem registered_pos (counted : state.Counted) (thread : Thread)
    (isRegistered : (state.role thread).Registered) : 0 < state.registered := by
  rw [counted.registered_eq]
  exact population_pos counted.finite isRegistered

/-- A registered thread that is not inactive keeps the inactive below the registered. -/
theorem inactive_lt_registered (counted : state.Counted) (thread : Thread)
    (isRegistered : (state.role thread).Registered)
    (isActive : ¬(state.role thread).Inactive) : state.inactive < state.registered := by
  rw [counted.inactive_eq, counted.registered_eq]
  refine Set.ncard_lt_ncard ?_ counted.finite
  refine ⟨fun _ => Role.registered_of_inactive, ?_⟩
  intro subset
  exact isActive (subset isRegistered)

end Counted

namespace Exclusive

variable {state : Rendezvous Thread}

/-- With the lock free nobody works alone. -/
theorem not_collecting (exclusive : state.Exclusive) (free : state.lock = none)
    (other : Thread) : state.role other ≠ .collecting := by
  intro isCollecting
  have held := (exclusive.lock_iff other).mpr isCollecting
  simp [free] at held

/-- With no stop requested there is no asking thread. -/
theorem not_collector (exclusive : state.Exclusive)
    (calm : state.stopRequested = false) (other : Thread) : ¬(state.role other).Collector := by
  intro isCollector
  have requested := exclusive.requested_iff.mpr ⟨other, isCollector⟩
  simp [calm] at requested

/-- Beside a thread that works alone, a registered thread is paused or inactive. -/
theorem stopped_beside (exclusive : state.Exclusive) {thread other : Thread}
    (isCollecting : state.role thread = .collecting) (different : other ≠ thread)
    (registered : (state.role other).Registered) :
    state.role other = .paused ∨ state.role other = .inactive := by
  have notRunning := exclusive.quiet thread other isCollecting different
  have notCollector : ¬(state.role other).Collector := by
    intro otherCollector
    exact different (exclusive.unique other thread otherCollector (Or.inr isCollecting))
  cases roleEq : state.role other <;>
    simp_all [Role.Registered, Role.Collector]

end Exclusive

/-- Before any thread registers. -/
def empty : Rendezvous Thread :=
  { role := fun _ => .absent, stopRequested := false, lock := none,
    registered := 0, paused := 0, inactive := 0 }

theorem consistent_empty : (empty : Rendezvous Thread).Consistent := by
  have noMembers : ∀ inClass : Role → Prop, ¬inClass .absent →
      members (empty : Rendezvous Thread).role inClass = ∅ := by
    intro inClass outside
    ext thread
    simp [members, empty, outside]
  refine { finite := ?_, registered_eq := ?_, paused_eq := ?_, inactive_eq := ?_,
           lock_iff := ?_, requested_iff := ?_, unique := ?_, quiet := ?_ }
  · rw [noMembers _ (by simp)]
    exact Set.finite_empty
  · rw [population, noMembers _ (by simp), Set.ncard_empty]
    rfl
  · rw [population, noMembers _ (by simp [Role.Paused]), Set.ncard_empty]
    rfl
  · rw [population, noMembers _ (by simp [Role.Inactive]), Set.ncard_empty]
    rfl
  · simp [empty]
  · simp [empty, Role.Collector]
  · intro left _ leftCollector
    simp [empty, Role.Collector] at leftCollector
  · intro thread _ isCollecting
    simp [empty] at isCollecting

/-! ## Steps -/

variable [DecidableEq Thread]

def setRole (state : Rendezvous Thread) (thread : Thread) (role : Role) : Rendezvous Thread :=
  { state with role := update state.role thread role }

/-- The steps of the protocol. All but `finish` need the lock to be free. -/
inductive Step : Rendezvous Thread → Rendezvous Thread → Prop where
  | join {state : Rendezvous Thread} (thread : Thread) (free : state.lock = none)
      (calm : state.stopRequested = false) (was : state.role thread = .absent) :
      Step state { state.setRole thread .running with registered := state.registered + 1 }
  | leave {state : Rendezvous Thread} (thread : Thread) (free : state.lock = none)
      (was : state.role thread = .running) :
      Step state { state.setRole thread .absent with registered := state.registered - 1 }
  | leaveInactive {state : Rendezvous Thread} (thread : Thread) (free : state.lock = none)
      (was : state.role thread = .inactive) :
      Step state { state.setRole thread .absent with
        registered := state.registered - 1, inactive := state.inactive - 1 }
  | deactivate {state : Rendezvous Thread} (thread : Thread) (free : state.lock = none)
      (was : state.role thread = .running) :
      Step state { state.setRole thread .inactive with inactive := state.inactive + 1 }
  | reactivate {state : Rendezvous Thread} (thread : Thread) (free : state.lock = none)
      (calm : state.stopRequested = false) (was : state.role thread = .inactive) :
      Step state { state.setRole thread .running with inactive := state.inactive - 1 }
  | pause {state : Rendezvous Thread} (thread : Thread) (free : state.lock = none)
      (asked : state.stopRequested = true) (was : state.role thread = .running) :
      Step state { state.setRole thread .paused with paused := state.paused + 1 }
  | resume {state : Rendezvous Thread} (thread : Thread) (free : state.lock = none)
      (calm : state.stopRequested = false) (was : state.role thread = .paused) :
      Step state { state.setRole thread .running with paused := state.paused - 1 }
  | request {state : Rendezvous Thread} (thread : Thread) (free : state.lock = none)
      (calm : state.stopRequested = false) (was : state.role thread = .running) :
      Step state { state.setRole thread .stopping with
        stopRequested := true, paused := state.paused + 1 }
  | proceed {state : Rendezvous Thread} (thread : Thread) (free : state.lock = none)
      (was : state.role thread = .stopping) (stopped : state.AllStopped) :
      Step state { state.setRole thread .collecting with lock := some thread }
  | finish {state : Rendezvous Thread} (thread : Thread)
      (was : state.role thread = .collecting) :
      Step state { state.setRole thread .running with
        lock := none, stopRequested := false, paused := state.paused - 1 }

section Counting

variable {role : Thread → Role} {inClass : Role → Prop} {count : ℕ} {thread : Thread} {new : Role}

private theorem counted_enter (finite : (members role inClass).Finite)
    (counted : count = population role inClass) (outside : ¬inClass (role thread))
    (inside : inClass new) : count + 1 = population (update role thread new) inClass := by
  rw [population_enter finite outside inside, counted]

private theorem counted_leave (finite : (members role inClass).Finite)
    (counted : count = population role inClass) (inside : inClass (role thread))
    (outside : ¬inClass new) : count - 1 = population (update role thread new) inClass := by
  have balance := population_leave finite inside outside
  omega

private theorem counted_stay (counted : count = population role inClass)
    (unchanged : inClass new ↔ inClass (role thread)) :
    count = population (update role thread new) inClass := by
  rw [population_stay unchanged, counted]

end Counting

/-- Every step keeps the counters equal to the populations. -/
theorem Counted.step {before after : Rendezvous Thread} (counted : before.Counted)
    (stepped : Step before after) : after.Counted := by
  have finite := counted.finite
  have finitePaused := counted.finite_paused
  have finiteInactive := counted.finite_inactive
  obtain ⟨_, registeredEq, pausedEq, inactiveEq⟩ := counted
  cases stepped with
  | join thread _ _ was =>
      exact
        { finite := finite_members_update finite
          registered_eq := counted_enter finite registeredEq (by simp [was]) (by simp)
          paused_eq := counted_stay pausedEq (by simp [was, Role.Paused])
          inactive_eq := counted_stay inactiveEq (by simp [was, Role.Inactive]) }
  | leave thread _ was =>
      exact
        { finite := finite_members_update finite
          registered_eq := counted_leave finite registeredEq (by simp [was]) (by simp)
          paused_eq := counted_stay pausedEq (by simp [was, Role.Paused])
          inactive_eq := counted_stay inactiveEq (by simp [was, Role.Inactive]) }
  | leaveInactive thread _ was =>
      exact
        { finite := finite_members_update finite
          registered_eq := counted_leave finite registeredEq (by simp [was]) (by simp)
          paused_eq := counted_stay pausedEq (by simp [was, Role.Paused])
          inactive_eq := counted_leave finiteInactive inactiveEq (by simp [was, Role.Inactive])
            (by simp [Role.Inactive]) }
  | deactivate thread _ was =>
      exact
        { finite := finite_members_update finite
          registered_eq := counted_stay registeredEq (by simp [was])
          paused_eq := counted_stay pausedEq (by simp [was, Role.Paused])
          inactive_eq := counted_enter finiteInactive inactiveEq (by simp [was, Role.Inactive])
            (by simp [Role.Inactive]) }
  | reactivate thread _ _ was =>
      exact
        { finite := finite_members_update finite
          registered_eq := counted_stay registeredEq (by simp [was])
          paused_eq := counted_stay pausedEq (by simp [was, Role.Paused])
          inactive_eq := counted_leave finiteInactive inactiveEq (by simp [was, Role.Inactive])
            (by simp [Role.Inactive]) }
  | pause thread _ _ was =>
      exact
        { finite := finite_members_update finite
          registered_eq := counted_stay registeredEq (by simp [was])
          paused_eq := counted_enter finitePaused pausedEq (by simp [was, Role.Paused])
            (by simp [Role.Paused])
          inactive_eq := counted_stay inactiveEq (by simp [was, Role.Inactive]) }
  | resume thread _ _ was =>
      exact
        { finite := finite_members_update finite
          registered_eq := counted_stay registeredEq (by simp [was])
          paused_eq := counted_leave finitePaused pausedEq (by simp [was, Role.Paused])
            (by simp [Role.Paused])
          inactive_eq := counted_stay inactiveEq (by simp [was, Role.Inactive]) }
  | request thread _ _ was =>
      exact
        { finite := finite_members_update finite
          registered_eq := counted_stay registeredEq (by simp [was])
          paused_eq := counted_enter finitePaused pausedEq (by simp [was, Role.Paused])
            (by simp [Role.Paused])
          inactive_eq := counted_stay inactiveEq (by simp [was, Role.Inactive]) }
  | proceed thread _ was _ =>
      exact
        { finite := finite_members_update finite
          registered_eq := counted_stay registeredEq (by simp [was])
          paused_eq := counted_stay pausedEq (by simp [was, Role.Paused])
          inactive_eq := counted_stay inactiveEq (by simp [was, Role.Inactive]) }
  | finish thread was =>
      exact
        { finite := finite_members_update finite
          registered_eq := counted_stay registeredEq (by simp [was])
          paused_eq := counted_leave finitePaused pausedEq (by simp [was, Role.Paused])
            (by simp [Role.Paused])
          inactive_eq := counted_stay inactiveEq (by simp [was, Role.Inactive]) }

/-! ## Exclusion -/

section Exclusion

variable {state : Rendezvous Thread} {thread : Thread} {new : Role}

/-- A change of role that neither makes nor unmakes an asking thread, made with the lock free,
keeps the exclusion facts. -/
private theorem Exclusive.change (exclusive : state.Exclusive) (free : state.lock = none)
    (wasNot : ¬(state.role thread).Collector) (isNot : ¬new.Collector) {result : Rendezvous Thread}
    (roleEq : result.role = update state.role thread new) (lockEq : result.lock = state.lock)
    (requestedEq : result.stopRequested = state.stopRequested) : result.Exclusive := by
  have collector_iff : ∀ other, (result.role other).Collector ↔ (state.role other).Collector := by
    intro other
    by_cases same : other = thread
    · subst same
      simp [roleEq, wasNot, isNot]
    · simp [roleEq, same]
  have noneCollecting : ∀ other, result.role other ≠ .collecting := by
    intro other isCollecting
    by_cases same : other = thread
    · subst same
      rw [roleEq, update_self] at isCollecting
      exact isNot (Or.inr isCollecting)
    · rw [roleEq, update_of_ne same] at isCollecting
      exact exclusive.not_collecting free other isCollecting
  refine ⟨?_, ?_, ?_, ?_⟩
  · intro other
    simp [lockEq, free, noneCollecting other]
  · rw [requestedEq, exclusive.requested_iff]
    simp only [collector_iff]
  · intro left right leftCollector rightCollector
    exact exclusive.unique left right ((collector_iff left).mp leftCollector)
      ((collector_iff right).mp rightCollector)
  · intro other _ isCollecting
    exact absurd isCollecting (noneCollecting other)

end Exclusion

/-- Every step keeps the exclusion facts. -/
theorem Consistent.exclusive_step {before after : Rendezvous Thread}
    (consistent : before.Consistent) (stepped : Step before after) : after.Exclusive := by
  have exclusive := consistent.toExclusive
  cases stepped with
  | join thread free _ was =>
      exact exclusive.change free (by simp [was, Role.Collector]) (by simp [Role.Collector])
        rfl rfl rfl
  | leave thread free was =>
      exact exclusive.change free (by simp [was, Role.Collector]) (by simp [Role.Collector])
        rfl rfl rfl
  | leaveInactive thread free was =>
      exact exclusive.change free (by simp [was, Role.Collector]) (by simp [Role.Collector])
        rfl rfl rfl
  | deactivate thread free was =>
      exact exclusive.change free (by simp [was, Role.Collector]) (by simp [Role.Collector])
        rfl rfl rfl
  | reactivate thread free _ was =>
      exact exclusive.change free (by simp [was, Role.Collector]) (by simp [Role.Collector])
        rfl rfl rfl
  | pause thread free _ was =>
      exact exclusive.change free (by simp [was, Role.Collector]) (by simp [Role.Collector])
        rfl rfl rfl
  | resume thread free _ was =>
      exact exclusive.change free (by simp [was, Role.Collector]) (by simp [Role.Collector])
        rfl rfl rfl
  | request thread free calm was =>
      have others : ∀ other, other ≠ thread → ¬(before.role other).Collector :=
        fun other _ => exclusive.not_collector calm other
      refine ⟨?_, ?_, ?_, ?_⟩
      · intro other
        by_cases same : other = thread
        · subst same
          simp [setRole, free]
        · simp [setRole, same, free, exclusive.not_collecting free other]
      · simp only [setRole, true_iff]
        exact ⟨thread, by simp [Role.Collector]⟩
      · intro left right leftCollector rightCollector
        by_cases leftSame : left = thread
        · by_cases rightSame : right = thread
          · rw [leftSame, rightSame]
          · simp only [setRole, update_of_ne rightSame] at rightCollector
            exact absurd rightCollector (others right rightSame)
        · simp only [setRole, update_of_ne leftSame] at leftCollector
          exact absurd leftCollector (others left leftSame)
      · intro other _ isCollecting
        by_cases same : other = thread
        · subst same
          simp [setRole] at isCollecting
        · simp only [setRole, update_of_ne same] at isCollecting
          exact absurd isCollecting (exclusive.not_collecting free other)
  | proceed thread free was stopped =>
      have collector_iff : ∀ other,
          (update before.role thread .collecting other).Collector ↔
            (before.role other).Collector := by
        intro other
        by_cases same : other = thread
        · subst same
          simp [was, Role.Collector]
        · simp [same]
      refine ⟨?_, ?_, ?_, ?_⟩
      · intro other
        by_cases same : other = thread
        · subst same
          simp [setRole]
        · have different : thread ≠ other := fun equal => same equal.symm
          simp [setRole, same, different, exclusive.not_collecting free other]
      · simp only [setRole, exclusive.requested_iff, collector_iff]
      · intro left right leftCollector rightCollector
        simp only [setRole, collector_iff] at leftCollector rightCollector
        exact exclusive.unique left right leftCollector rightCollector
      · intro collector other isCollecting different isRunning
        simp only [setRole] at isCollecting isRunning
        by_cases same : other = thread
        · subst same
          simp at isRunning
        · rw [update_of_ne same] at isRunning
          exact consistent.toCounted.not_allStopped_of_running isRunning stopped
  | finish thread was =>
      have isCollector : (before.role thread).Collector := Or.inr was
      have others : ∀ other, ¬(update before.role thread .running other).Collector := by
        intro other otherCollector
        by_cases same : other = thread
        · subst same
          simp [Role.Collector] at otherCollector
        · rw [update_of_ne same] at otherCollector
          exact same (exclusive.unique other thread otherCollector isCollector)
      refine ⟨?_, ?_, ?_, ?_⟩
      · intro other
        have notCollecting : update before.role thread .running other ≠ .collecting :=
          fun isCollecting => others other (Or.inr isCollecting)
        simp [setRole, notCollecting]
      · simp [setRole, others]
      · intro left _ leftCollector
        exact absurd leftCollector (others left)
      · intro other _ isCollecting
        exact absurd (Or.inr isCollecting) (others other)

theorem Consistent.step {before after : Rendezvous Thread} (consistent : before.Consistent)
    (stepped : Step before after) : after.Consistent :=
  { toCounted := consistent.toCounted.step stepped
    toExclusive := consistent.exclusive_step stepped }

/-- The invariant holds along any number of steps. -/
theorem Consistent.steps {before after : Rendezvous Thread} (consistent : before.Consistent)
    (stepped : Relation.ReflTransGen Step before after) : after.Consistent := by
  induction stepped with
  | refl => exact consistent
  | tail _ last inductionHypothesis => exact inductionHypothesis.step last

end Rendezvous

end Whippet
