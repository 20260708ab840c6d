import Mathlib.Logic.Function.Basic
import Whippet.Library.Histories

/-!
Concurrent lists of ephemerons (`gc-ephemeron.c`, the operations on ephemeron lists).

A node is a nonzero number and is pushed at most once. The chain of a node and its pending link are
lists of their own; the functions are the same, and so is what is said here of a node that is dead
or not pending any more. Every atomic operation is a step, and so is the plain store to the link of
a node that is about to be pushed.

Owns: `ephemeron_list_push`, `ephemeron_list_follow` and the death of nodes as the steps of any
number of threads. Does not own: what holds in their runs, and `ephemeron_list_pop`.
-/

namespace Whippet.EphemeronList

open Function

/-- A `struct gc_ephemeron **loc`: the head of a list, or the link of a node. -/
inductive Loc where
  | head (list : ℕ)
  | link (node : ℕ)
  deriving DecidableEq, Repr

/-- Where a thread is in `ephemeron_list_push`. -/
inductive PushPoint where
  /-- Before the load of the head. -/
  | load
  /-- Before the store to the link. -/
  | store (tail : ℕ)
  /-- Before the weak compare-exchange. -/
  | exchange (tail : ℕ)
  deriving DecidableEq, Repr

/-- Where a thread is in `ephemeron_list_follow`. -/
inductive FollowPoint where
  /-- Before the load of the location. -/
  | load
  /-- Before the call of `is_live`. -/
  | check (head newHead : ℕ)
  /-- Before the load of the link of a node that is dead. -/
  | advance (head newHead : ℕ)
  /-- After the inner loop. -/
  | chosen (head newHead : ℕ)
  | returned (result : ℕ)
  deriving DecidableEq, Repr

inductive Thread where
  | idle
  | push (list node : ℕ) (point : PushPoint)
  | follow (loc : Loc) (point : FollowPoint)
  deriving DecidableEq, Repr

structure State where
  value : Loc → ℕ
  /-- When a node was marked dead. The code keeps that it was. -/
  diedAt : ℕ → Option ℕ
  clock : ℕ
  /-- The nodes that a push was called with. -/
  started : List ℕ
  /-- Of each head, the nodes that were pushed there, newest first; of the link of such a node,
  those that were pushed before it. The code does not keep this. -/
  behind : Loc → List ℕ
  pushed : List ℕ
  threads : ℕ → Thread

namespace State

variable (state : State)

/-- `is_live`. -/
def isLive (node : ℕ) : Bool := (state.diedAt node).isNone

def setThread (thread : ℕ) (now : Thread) : State :=
  { state with threads := update state.threads thread now }

def store (loc : Loc) (node : ℕ) : State :=
  { state with value := update state.value loc node }

@[simp] theorem store_value_self (loc : Loc) (node : ℕ) :
    (state.store loc node).value loc = node := update_self ..

@[simp] theorem store_value_of_ne {loc other : Loc} (different : other ≠ loc) (node : ℕ) :
    (state.store loc node).value other = state.value other := update_of_ne different ..

/-- The head of a list, or the link of a node that was pushed. -/
def Known : Loc → Prop
  | .head _ => True
  | .link node => node ∈ state.pushed

instance : (loc : Loc) → Decidable (state.Known loc)
  | .head _ => inferInstanceAs (Decidable True)
  | .link node => inferInstanceAs (Decidable (node ∈ state.pushed))

/-- The compare-exchange of a push succeeds. -/
def publish (list node : ℕ) : State :=
  { state with
    value := update state.value (.head list) node
    behind := update (update state.behind (.link node) (state.behind (.head list))) (.head list)
      (node :: state.behind (.head list))
    pushed := node :: state.pushed }

@[simp] theorem publish_value_head (list node : ℕ) :
    (state.publish list node).value (.head list) = node := update_self ..

@[simp] theorem publish_value_of_ne {list : ℕ} {other : Loc} (different : other ≠ .head list)
    (node : ℕ) : (state.publish list node).value other = state.value other :=
  update_of_ne different ..

@[simp] theorem publish_value_link (list node other : ℕ) :
    (state.publish list node).value (.link other) = state.value (.link other) := by
  apply publish_value_of_ne
  exact nofun

@[simp] theorem publish_behind_head (list node : ℕ) :
    (state.publish list node).behind (.head list) = node :: state.behind (.head list) :=
  update_self ..

@[simp] theorem publish_behind_link (list node : ℕ) :
    (state.publish list node).behind (.link node) = state.behind (.head list) := by
  have different : Loc.link node ≠ .head list := nofun
  rw [publish]
  dsimp only
  rw [update_of_ne different, update_self]

@[simp] theorem publish_behind_of_ne {list node : ℕ} {other : Loc} (notHead : other ≠ .head list)
    (notLink : other ≠ .link node) : (state.publish list node).behind other =
      state.behind other := by
  rw [publish]
  dsimp only
  rw [update_of_ne notHead, update_of_ne notLink]

/-- One step of `ephemeron_list_push`. The exchange may fail for no reason. -/
def stepPush (thread list node : ℕ) (spurious : Bool) : PushPoint → State
  | .load => state.setThread thread (.push list node (.store (state.value (.head list))))
  | .store tail =>
      (state.store (.link node) tail).setThread thread (.push list node (.exchange tail))
  | .exchange tail =>
      if state.value (.head list) = tail ∧ spurious = false then
        (state.publish list node).setThread thread .idle
      else state.setThread thread (.push list node (.store (state.value (.head list))))

/-- The start of the outer loop, or the end at an empty location. -/
def loop (head : ℕ) : FollowPoint :=
  if head = 0 then .chosen 0 0 else .check head head

/-- One step of `ephemeron_list_follow`. -/
def stepFollow (thread : ℕ) (loc : Loc) : FollowPoint → State
  | .load =>
      if state.value loc = 0 then state.setThread thread (.follow loc (.returned 0))
      else state.setThread thread (.follow loc (loop (state.value loc)))
  | .check head newHead =>
      if state.isLive newHead then state.setThread thread (.follow loc (.chosen head newHead))
      else state.setThread thread (.follow loc (.advance head newHead))
  | .advance head newHead =>
      if state.value (.link newHead) = 0 then
        state.setThread thread (.follow loc (.chosen head 0))
      else state.setThread thread (.follow loc (.check head (state.value (.link newHead))))
  | .chosen head newHead =>
      if head = newHead then state.setThread thread (.follow loc (.returned newHead))
      else if state.value loc = head then
        (state.store loc newHead).setThread thread (.follow loc (.returned newHead))
      else if state.value loc = newHead then
        state.setThread thread (.follow loc (.returned newHead))
      else state.setThread thread (.follow loc (loop (state.value loc)))
  | .returned _ => state.setThread thread .idle

/-- `gc_ephemeron_mark_dead`. -/
def markDead (node : ℕ) : State :=
  if state.isLive node then
    { state with diedAt := update state.diedAt node (some state.clock), clock := state.clock + 1 }
  else state

@[simp] theorem markDead_value (node : ℕ) : (state.markDead node).value = state.value := by
  rw [markDead]
  split <;> rfl

@[simp] theorem markDead_started (node : ℕ) : (state.markDead node).started = state.started := by
  rw [markDead]
  split <;> rfl

@[simp] theorem markDead_pushed (node : ℕ) : (state.markDead node).pushed = state.pushed := by
  rw [markDead]
  split <;> rfl

@[simp] theorem markDead_behind (node : ℕ) : (state.markDead node).behind = state.behind := by
  rw [markDead]
  split <;> rfl

@[simp] theorem markDead_threads (node : ℕ) : (state.markDead node).threads = state.threads := by
  rw [markDead]
  split <;> rfl

end State

inductive Action where
  | callPush (thread list node : ℕ)
  | callFollow (thread : ℕ) (loc : Loc)
  /-- The next step of the call that the thread is in; what a call of `ephemeron_list_follow`
  returned is taken in a step of its own. -/
  | go (thread : ℕ) (spurious : Bool)
  | markDead (node : ℕ)
  deriving DecidableEq, Repr

namespace State

def step (state : State) : Action → Outcome Empty State
  | .callPush thread list node => do
      Outcome.require (state.threads thread = .idle)
      Outcome.require (node ≠ 0 ∧ node ∉ state.started)
      pure { state.setThread thread (.push list node .load) with
        started := node :: state.started }
  | .callFollow thread loc => do
      Outcome.require (state.threads thread = .idle)
      Outcome.require (state.Known loc)
      pure (state.setThread thread (.follow loc .load))
  | .go thread spurious =>
      match state.threads thread with
      | .idle => .disabled
      | .push list node point => .next (state.stepPush thread list node spurious point)
      | .follow loc point => .next (state.stepFollow thread loc point)
  | .markDead node => do
      Outcome.require (node ≠ 0)
      pure (state.markDead node)

def initial : State :=
  { value := fun _ => 0, diedAt := fun _ => none, clock := 0, started := [],
    behind := fun _ => [], pushed := [], threads := fun _ => .idle }

end State

/-- Threads that push nodes, follow lists and mark nodes dead, from empty lists on. -/
def system : System State Action Empty where
  initial state := state = State.initial
  step state action := state.step action

/-! ## What a list is -/

/-- From the location, links lead to the node. -/
inductive State.Reaches (state : State) : Loc → ℕ → Prop where
  | here {loc : Loc} {node : ℕ} (isValue : state.value loc = node) (isNode : node ≠ 0) :
      Reaches state loc node
  | later {loc : Loc} {node other : ℕ} (isValue : state.value loc = other) (isNode : other ≠ 0)
      (reaches : Reaches state (.link other) node) : Reaches state loc node

/-- From the location, the first node that is live, or null if there is none. -/
inductive State.FirstLive (state : State) : Loc → ℕ → Prop where
  | none {loc : Loc} (isValue : state.value loc = 0) : FirstLive state loc 0
  | here {loc : Loc} {node : ℕ} (isValue : state.value loc = node) (isNode : node ≠ 0)
      (live : state.isLive node = true) : FirstLive state loc node
  | later {loc : Loc} {node other : ℕ} (isValue : state.value loc = other) (isNode : other ≠ 0)
      (dead : state.isLive other = false) (first : FirstLive state (.link other) node) :
      FirstLive state loc node

end Whippet.EphemeronList
