import Mathlib.Data.List.Nodup
import Mathlib.Logic.Function.Basic
import Whippet.Library.Links

/-!
Stacks that several threads push to and pop from by compare-and-swap.

A push reads the head, links its node to it and then swaps the head for the node, if the head is
still what was read. A pop reads the head and its link, and swaps the head for the link. A swap may
also fail for no reason, and the thread then starts again from the head that it has found.

If the head has been away and is back when a pop swaps it, the link that the pop has read is not its
link any more. Users keep a node that some pop has read from being pushed again to the same stack.

Owns: the stages of a push and a pop, and that they put each node on one stack at most and lose
none, if no node comes back. Does not own: who begins a push or a pop, and why no node comes back.
-/

namespace Whippet

open Function

/-- The heads of several stacks, and the links of all nodes. -/
structure AtomicStacks (Name Node : Type*) where
  head : Name → Node
  next : Node → Node

/-- Where a push or a pop is. -/
inductive StackStage (Name Node : Type*) where
  /-- A push has read the head. -/
  | linking (name : Name) (node seen : Node)
  /-- A push has linked its node to what it has read. -/
  | pushing (name : Name) (node seen : Node)
  | pushed (node : Node)
  /-- A pop has read the head. -/
  | reading (name : Name) (seen : Node)
  /-- A pop has read the head and its link. -/
  | popping (name : Name) (seen link : Node)
  /-- A pop has taken its node off the stack. -/
  | clearing (node : Node)
  | popped (node : Node)
  deriving DecidableEq, Repr

namespace StackStage

variable {Name Node : Type*}

/-- The node that is on no stack because of the push or the pop. -/
def held : StackStage Name Node → Option Node
  | linking _ node _ | pushing _ node _ | clearing node => some node
  | _ => none

/-- The node that a pop is about to take off a stack. -/
def target : StackStage Name Node → Option (Name × Node)
  | popping name seen _ => some (name, seen)
  | _ => none

end StackStage

namespace AtomicStacks

variable {Name Node : Type*}

section Steps

variable [DecidableEq Name] [DecidableEq Node]

/-- One step of a push or a pop. A swap fails for no reason if `spurious` says so. -/
def step (null : Node) (state : AtomicStacks Name Node) (spurious : Bool) :
    StackStage Name Node → AtomicStacks Name Node × StackStage Name Node
  | .linking name node seen =>
      ({ state with next := update state.next node seen }, .pushing name node seen)
  | .pushing name node seen =>
      if state.head name = seen ∧ spurious = false then
        ({ state with head := update state.head name node }, .pushed node)
      else (state, .linking name node (state.head name))
  | .pushed node => (state, .pushed node)
  | .reading name seen =>
      if seen = null then (state, .popped null) else (state, .popping name seen (state.next seen))
  | .popping name seen link =>
      if state.head name = seen ∧ spurious = false then
        ({ state with head := update state.head name link }, .clearing seen)
      else (state, .reading name (state.head name))
  | .clearing node => ({ state with next := update state.next node null }, .popped node)
  | .popped node => (state, .popped node)

/-- Where the nodes are after the step. -/
def listedAfter (state : AtomicStacks Name Node) (spurious : Bool) (listed : Node → Option Name) :
    StackStage Name Node → Node → Option Name
  | .pushing name node seen =>
      if state.head name = seen ∧ spurious = false then update listed node (some name) else listed
  | .popping name seen _ =>
      if state.head name = seen ∧ spurious = false then update listed seen none else listed
  | _ => listed

end Steps

/-- Each stack has exactly the nodes that `listed` puts on it. -/
def Stacked (null : Node) (state : AtomicStacks Name Node) (listed : Node → Option Name) : Prop :=
  ∀ name, ∃ nodes, Chained state.next null (state.head name) nodes ∧ nodes.Nodup ∧
    ∀ node, node ∈ nodes ↔ listed node = some name

/-- What a push or a pop knows. -/
def Knows (null : Node) (state : AtomicStacks Name Node) (listed : Node → Option Name) :
    StackStage Name Node → Prop
  | .linking _ node _ => node ≠ null ∧ listed node = none
  | .pushing _ node seen => node ≠ null ∧ listed node = none ∧ state.next node = seen
  | .popping name seen link =>
      seen ≠ null ∧ (listed seen = some name → state.next seen = link)
  | .clearing node => node ≠ null ∧ listed node = none
  | _ => True

/-- The stacks depend on their heads and on the links of their nodes alone. -/
theorem Stacked.congr {null : Node} {state after : AtomicStacks Name Node}
    {listed listedAfter : Node → Option Name} (stacked : state.Stacked null listed)
    (heads : ∀ name, after.head name = state.head name)
    (links : ∀ node, listed node ≠ none → after.next node = state.next node)
    (places : ∀ node, listedAfter node = listed node) : after.Stacked null listedAfter := by
  intro name
  obtain ⟨nodes, chain, nodup, members⟩ := stacked name
  refine ⟨nodes, ?_, nodup, ?_⟩
  · rw [heads]
    apply chain.frame
    intro node member
    apply links
    rw [(members node).mp member]
    exact nofun
  · intro node
    rw [places, members]

section Rules

variable {null : Node} {state : AtomicStacks Name Node} {listed : Node → Option Name}
variable {stage other : StackStage Name Node} [DecidableEq Node]

/-- The link of a node that is on no stack may change. -/
theorem Stacked.relink (stacked : state.Stacked null listed) {node : Node}
    (free : listed node = none) (link : Node) :
    ({ state with next := update state.next node link } : AtomicStacks Name Node).Stacked null
      listed := by
  intro name
  obtain ⟨nodes, chain, nodup, members⟩ := stacked name
  refine ⟨nodes, ?_, nodup, members⟩
  apply chain.frame
  intro member isMember
  apply update_of_ne
  rintro rfl
  rw [members, free] at isMember
  cases isMember

variable [DecidableEq Name]

theorem Stacked.push (stacked : state.Stacked null listed) (name : Name) {node : Node}
    (proper : node ≠ null) (free : listed node = none)
    (linked : state.next node = state.head name) :
    ({ state with head := update state.head name node } : AtomicStacks Name Node).Stacked null
      (update listed node (some name)) := by
  intro other
  obtain ⟨nodes, chain, nodup, members⟩ := stacked other
  have absent : node ∉ nodes := by
    rw [members, free]
    exact nofun
  by_cases same : other = name
  · subst same
    refine ⟨node :: nodes, ?_, List.nodup_cons.mpr ⟨absent, nodup⟩, ?_⟩
    · rw [← linked] at chain
      dsimp only
      rw [update_self]
      exact .cons proper chain
    · intro member
      by_cases isNode : member = node
      · subst isNode
        simp
      · simp [isNode, members]
  · refine ⟨nodes, ?_, nodup, ?_⟩
    · dsimp only
      rw [update_of_ne same]
      exact chain
    · intro member
      by_cases isNode : member = node
      · subst isNode
        simpa [absent] using Ne.symm same
      · simp [isNode, members]

theorem Stacked.pop (stacked : state.Stacked null listed) {name : Name} {node : Node}
    (proper : node ≠ null) (isHead : state.head name = node) :
    listed node = some name ∧
      ({ state with head := update state.head name (state.next node) } :
        AtomicStacks Name Node).Stacked null (update listed node none) := by
  subst isHead
  have onStack : listed (state.head name) = some name := by
    obtain ⟨nodes, chain, -, members⟩ := stacked name
    obtain ⟨rest, rfl, -⟩ := chain.exists_cons proper
    exact (members _).mp List.mem_cons_self
  refine ⟨onStack, ?_⟩
  intro other
  obtain ⟨nodes, chain, nodup, members⟩ := stacked other
  by_cases same : other = name
  · subst same
    obtain ⟨rest, rfl, tail⟩ := chain.exists_cons proper
    obtain ⟨absent, restNodup⟩ := List.nodup_cons.mp nodup
    refine ⟨rest, ?_, restNodup, ?_⟩
    · dsimp only
      rw [update_self]
      exact tail
    · intro member
      by_cases isNode : member = state.head other
      · subst isNode
        simp [absent]
      · rw [update_of_ne isNode, ← members, List.mem_cons]
        exact (or_iff_right isNode).symm
  · have absent : state.head name ∉ nodes := by
      rw [members, onStack, Option.some.injEq]
      exact Ne.symm same
    refine ⟨nodes, ?_, nodup, ?_⟩
    · dsimp only
      rw [update_of_ne same]
      exact chain
    · intro member
      by_cases isNode : member = state.head name
      · subst isNode
        simp [absent]
      · rw [update_of_ne isNode, members]

/-- A step changes the link of no other node than the one that is held. -/
theorem next_step {node : Node} (spurious : Bool) (notHeld : stage.held ≠ some node) :
    (state.step null spurious stage).1.next node = state.next node := by
  have different {held : Node} (isHeld : stage.held = some held) : node ≠ held := by
    rintro rfl
    exact notHeld isHeld
  cases stage with
  | linking name held seen => exact update_of_ne (different rfl) _ _
  | pushing name held seen =>
      dsimp only [AtomicStacks.step]
      split <;> rfl
  | pushed held => rfl
  | reading name seen =>
      dsimp only [AtomicStacks.step]
      split <;> rfl
  | popping name seen link =>
      dsimp only [AtomicStacks.step]
      split <;> rfl
  | clearing held => exact update_of_ne (different rfl) _ _
  | popped held => rfl

/-- A step of a push or a pop keeps the stacks, and the thread knows what it needs next. -/
theorem Stacked.step (stacked : state.Stacked null listed) (knows : state.Knows null listed stage)
    (spurious : Bool) :
    (state.step null spurious stage).1.Stacked null (state.listedAfter spurious listed stage) ∧
      (state.step null spurious stage).1.Knows null (state.listedAfter spurious listed stage)
        (state.step null spurious stage).2 := by
  cases stage with
  | linking name node seen =>
      obtain ⟨proper, free⟩ := knows
      exact ⟨stacked.relink free seen, proper, free, update_self _ _ _⟩
  | pushing name node seen =>
      obtain ⟨proper, free, linked⟩ := knows
      by_cases swaps : state.head name = seen ∧ spurious = false
      · simp only [AtomicStacks.step, listedAfter, if_pos swaps]
        rw [← swaps.1] at linked
        exact ⟨stacked.push name proper free linked, trivial⟩
      · simp only [AtomicStacks.step, listedAfter, if_neg swaps]
        exact ⟨stacked, proper, free⟩
  | pushed node => exact ⟨stacked, trivial⟩
  | reading name seen =>
      by_cases isEmpty : seen = null
      · simp only [AtomicStacks.step, listedAfter, if_pos isEmpty]
        exact ⟨stacked, trivial⟩
      · simp only [AtomicStacks.step, listedAfter, if_neg isEmpty]
        exact ⟨stacked, isEmpty, fun _ => rfl⟩
  | popping name seen link =>
      obtain ⟨proper, linked⟩ := knows
      by_cases swaps : state.head name = seen ∧ spurious = false
      · obtain ⟨onStack, popped⟩ := stacked.pop proper swaps.1
        rw [linked onStack] at popped
        simp only [AtomicStacks.step, listedAfter, if_pos swaps]
        exact ⟨popped, proper, update_self _ _ _⟩
      · simp only [AtomicStacks.step, listedAfter, if_neg swaps]
        exact ⟨stacked, trivial⟩
  | clearing node => exact ⟨stacked.relink knows.2 null, trivial⟩
  | popped node => exact ⟨stacked, trivial⟩

/-- What another thread knows stays so, if the two hold different nodes and the step pushes no node
that the other one is about to pop. -/
theorem Knows.frame (otherKnows : state.Knows null listed other)
    (knows : state.Knows null listed stage) (spurious : Bool)
    (apart : ∀ node, stage.held = some node → other.held ≠ some node)
    (away : ∀ name node seen, stage = .pushing name node seen → other.target ≠ some (name, node)) :
    (state.step null spurious stage).1.Knows null (state.listedAfter spurious listed stage)
      other := by
  -- the node whose link or place changes is not one that the other thread holds
  have relinked {node link : Node} (isHeld : stage.held = some node) (free : listed node = none) :
      ({ state with next := update state.next node link } : AtomicStacks Name Node).Knows null
        listed other := by
    have different := apart node isHeld
    cases other with
    | pushing name held seen =>
        obtain ⟨proper, isFree, linked⟩ := otherKnows
        refine ⟨proper, isFree, ?_⟩
        dsimp only
        rw [update_of_ne, linked]
        rintro rfl
        exact different rfl
    | popping name seen read =>
        obtain ⟨proper, linked⟩ := otherKnows
        refine ⟨proper, ?_⟩
        intro onStack
        dsimp only
        rw [update_of_ne, linked onStack]
        rintro rfl
        rw [free] at onStack
        cases onStack
    | linking => exact otherKnows
    | pushed => exact otherKnows
    | reading => exact otherKnows
    | clearing => exact otherKnows
    | popped => exact otherKnows
  cases stage with
  | linking name node seen => exact relinked rfl knows.2
  | pushing name node seen =>
      by_cases swaps : state.head name = seen ∧ spurious = false
      · have different := apart node rfl
        have elsewhere := away name node seen rfl
        simp only [AtomicStacks.step, listedAfter, if_pos swaps]
        cases other with
        | linking _ held _ =>
            refine ⟨otherKnows.1, ?_⟩
            rw [update_of_ne, otherKnows.2]
            rintro rfl
            exact different rfl
        | pushing _ held _ =>
            obtain ⟨proper, isFree, linked⟩ := otherKnows
            refine ⟨proper, ?_, linked⟩
            rw [update_of_ne, isFree]
            rintro rfl
            exact different rfl
        | popping stack target read =>
            obtain ⟨proper, linked⟩ := otherKnows
            refine ⟨proper, ?_⟩
            intro onStack
            by_cases same : target = node
            · subst same
              rw [update_self] at onStack
              cases onStack
              exact absurd rfl elsewhere
            · rw [update_of_ne same] at onStack
              exact linked onStack
        | clearing held =>
            refine ⟨otherKnows.1, ?_⟩
            rw [update_of_ne, otherKnows.2]
            rintro rfl
            exact different rfl
        | pushed => exact trivial
        | reading => exact trivial
        | popped => exact trivial
      · simp only [AtomicStacks.step, listedAfter, if_neg swaps]
        exact otherKnows
  | pushed node => exact otherKnows
  | reading name seen =>
      by_cases isEmpty : seen = null
      · simp only [AtomicStacks.step, listedAfter, if_pos isEmpty]
        exact otherKnows
      · simp only [AtomicStacks.step, listedAfter, if_neg isEmpty]
        exact otherKnows
  | popping name seen link =>
      by_cases swaps : state.head name = seen ∧ spurious = false
      · have stillFree {node : Node} (free : listed node = none) :
            update listed seen none node = none := by
          by_cases same : node = seen
          · rw [same, update_self]
          · rw [update_of_ne same, free]
        simp only [AtomicStacks.step, listedAfter, if_pos swaps]
        cases other with
        | linking => exact ⟨otherKnows.1, stillFree otherKnows.2⟩
        | pushing => exact ⟨otherKnows.1, stillFree otherKnows.2.1, otherKnows.2.2⟩
        | popping stack target read =>
            refine ⟨otherKnows.1, ?_⟩
            intro onStack
            by_cases same : target = seen
            · rw [same, update_self] at onStack
              cases onStack
            · rw [update_of_ne same] at onStack
              exact otherKnows.2 onStack
        | clearing => exact ⟨otherKnows.1, stillFree otherKnows.2⟩
        | pushed => exact trivial
        | reading => exact trivial
        | popped => exact trivial
      · simp only [AtomicStacks.step, listedAfter, if_neg swaps]
        exact otherKnows
  | clearing node => exact relinked rfl knows.2
  | popped node => exact otherKnows

end Rules

end AtomicStacks

end Whippet
