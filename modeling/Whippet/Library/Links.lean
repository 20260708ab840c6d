import Mathlib.Data.List.Nodup
import Mathlib.Logic.Function.Basic

/-!
Singly linked lists whose links are in their nodes.

A node has one link, so it is on one list at a time, and which list that is must be kept by those
who push and pop. A family of such lists is told apart by names; `listed` says for each node on
which list it is.

Owns: chains of links with their frame rule, pushing and popping, and that both keep the lists
apart and their counts right. Does not own: how the link is stored in the node.
-/

namespace Whippet

open Function

/-- The nodes from a node on, up to the null node. -/
inductive Chained {Node : Type*} (next : Node → Node) (null : Node) : Node → List Node → Prop where
  | nil : Chained next null null []
  | cons {node : Node} {rest : List Node} (proper : node ≠ null)
      (tail : Chained next null (next node) rest) : Chained next null node (node :: rest)

namespace Chained

variable {Node : Type*} {next other : Node → Node} {null head : Node} {nodes rest : List Node}

/-- A chain depends on the links of its own nodes alone. -/
theorem frame (chain : Chained next null head nodes)
    (same : ∀ node ∈ nodes, other node = next node) : Chained other null head nodes := by
  induction chain with
  | nil => exact .nil
  | cons proper tail inductionHypothesis =>
      apply Chained.cons proper
      rw [same _ List.mem_cons_self]
      apply inductionHypothesis
      intro node member
      exact same node (List.mem_cons_of_mem _ member)

theorem unique (left : Chained next null head nodes) (right : Chained next null head rest) :
    nodes = rest := by
  induction left generalizing rest with
  | nil =>
      cases right with
      | nil => rfl
      | cons proper => exact absurd rfl proper
  | cons proper tail inductionHypothesis =>
      cases right with
      | nil => exact absurd rfl proper
      | cons _ otherTail => rw [inductionHypothesis otherTail]

theorem eq_nil_iff (chain : Chained next null head nodes) : nodes = [] ↔ head = null := by
  cases chain with
  | nil => simp
  | cons proper => simp [proper]

theorem ne_null (chain : Chained next null head nodes) {node : Node} (member : node ∈ nodes) :
    node ≠ null := by
  induction chain with
  | nil => cases member
  | cons proper _ inductionHypothesis =>
      rcases List.mem_cons.mp member with rfl | inTail
      · exact proper
      · exact inductionHypothesis inTail

/-- What a chain with a head looks like. -/
theorem exists_cons (chain : Chained next null head nodes) (nonempty : head ≠ null) :
    ∃ rest, nodes = head :: rest ∧ Chained next null (next head) rest := by
  cases chain with
  | nil => exact absurd rfl nonempty
  | cons _ tail => exact ⟨_, rfl, tail⟩

/-- The nodes that following the links from `head` visits, `count` of them at most. -/
def walk [DecidableEq Node] (next : Node → Node) (null : Node) : ℕ → Node → List Node
  | 0, _ => []
  | count + 1, head => if head = null then [] else head :: walk next null count (next head)

/-- Following the links of a chain visits its nodes. -/
theorem walk_eq [DecidableEq Node] (chain : Chained next null head nodes) :
    walk next null nodes.length head = nodes := by
  induction chain with
  | nil => rfl
  | cons proper _ inductionHypothesis =>
      rw [List.length_cons, walk, if_neg proper, inductionHypothesis]

end Chained

/-- A family of lists: the head and the count of each, and the links of all nodes. -/
structure LinkedLists (Name Node : Type*) where
  head : Name → Node
  count : Name → ℕ
  next : Node → Node

namespace LinkedLists

variable {Name Node : Type*}

section Operations

variable [DecidableEq Name] [DecidableEq Node] (lists : LinkedLists Name Node)

def push (name : Name) (node : Node) : LinkedLists Name Node :=
  { head := update lists.head name node
    count := update lists.count name (lists.count name + 1)
    next := update lists.next node (lists.head name) }

/-- Takes the head off a list that has one. -/
def pop (null : Node) (name : Name) : LinkedLists Name Node :=
  { head := update lists.head name (lists.next (lists.head name))
    count := update lists.count name (lists.count name - 1)
    next := update lists.next (lists.head name) null }

/-- A whole list takes the place of another one, and is empty after that. -/
def moveAll (null : Node) (source target : Name) : LinkedLists Name Node :=
  { lists with
    head := update (update lists.head target (lists.head source)) source null
    count := update (update lists.count target (lists.count source)) source 0 }

variable (null node : Node) (name : Name)

theorem head_push : (lists.push name node).head = update lists.head name node := rfl

theorem count_push :
    (lists.push name node).count = update lists.count name (lists.count name + 1) := rfl

theorem next_push : (lists.push name node).next = update lists.next node (lists.head name) := rfl

theorem head_pop :
    (lists.pop null name).head = update lists.head name (lists.next (lists.head name)) := rfl

theorem count_pop :
    (lists.pop null name).count = update lists.count name (lists.count name - 1) := rfl

theorem next_pop : (lists.pop null name).next = update lists.next (lists.head name) null := rfl

end Operations

/-- Each list has exactly the nodes that `listed` puts on it, as many as its count says, and the
link of a node on no list is null. -/
structure Listed (lists : LinkedLists Name Node) (null : Node) (listed : Node → Option Name) :
    Prop where
  chain : ∀ name, ∃ nodes, Chained lists.next null (lists.head name) nodes ∧ nodes.Nodup ∧
    nodes.length = lists.count name ∧ ∀ node, node ∈ nodes ↔ listed node = some name
  loose : ∀ node, listed node = none → lists.next node = null

variable {lists : LinkedLists Name Node} {null node : Node} {name : Name}
variable {listed : Node → Option Name}

namespace Listed

theorem head_eq_null_iff (holds : lists.Listed null listed) :
    lists.head name = null ↔ ∀ node, listed node ≠ some name := by
  obtain ⟨nodes, chain, -, -, members⟩ := holds.chain name
  rw [← chain.eq_nil_iff, List.eq_nil_iff_forall_not_mem]
  simp only [members, ne_eq]

theorem count_eq_zero_iff (holds : lists.Listed null listed) :
    lists.count name = 0 ↔ lists.head name = null := by
  obtain ⟨nodes, chain, -, counted, -⟩ := holds.chain name
  rw [← chain.eq_nil_iff, ← counted, List.length_eq_zero_iff]

theorem listed_head (holds : lists.Listed null listed) (nonempty : lists.head name ≠ null) :
    listed (lists.head name) = some name := by
  obtain ⟨nodes, chain, -, -, members⟩ := holds.chain name
  obtain ⟨rest, rfl, -⟩ := chain.exists_cons nonempty
  exact (members _).mp List.mem_cons_self

section Renaming

variable {Other : Type*} {others : LinkedLists Other Node}

/-- The same lists under other names. Names of empty lists may be lost, and added. -/
theorem rename (holds : lists.Listed null listed) (naming : Name → Other)
    (source : Other → Option Name) (sameNext : others.next = lists.next)
    (sameHead : ∀ other, others.head other = (source other).elim null lists.head)
    (named : ∀ name other, lists.head name ≠ null →
      (naming name = other ↔ source other = some name))
    (counted : ∀ other, others.count other = (source other).elim 0 lists.count) :
    others.Listed null fun node => (listed node).map naming := by
  have hasHead {node : Node} {name : Name} (onList : listed node = some name) :
      lists.head name ≠ null := by
    intro isEmpty
    exact holds.head_eq_null_iff.mp isEmpty node onList
  constructor
  · intro other
    have members (node : Node) : (listed node).map naming = some other ↔
        ∃ name, source other = some name ∧ listed node = some name := by
      rw [Option.map_eq_some_iff]
      constructor
      · rintro ⟨name, onList, isNamed⟩
        exact ⟨name, (named name other (hasHead onList)).mp isNamed, onList⟩
      · rintro ⟨name, isSource, onList⟩
        exact ⟨name, onList, (named name other (hasHead onList)).mpr isSource⟩
    cases isSource : source other with
    | none =>
        refine ⟨[], ?_, List.nodup_nil, ?_, ?_⟩
        · rw [sameHead, isSource]
          exact .nil
        · rw [counted, isSource]
          rfl
        · simp [members, isSource]
    | some name =>
        obtain ⟨nodes, chain, nodup, length, onList⟩ := holds.chain name
        refine ⟨nodes, ?_, nodup, ?_, ?_⟩
        · rw [sameHead, sameNext, isSource]
          exact chain
        · rw [counted, isSource]
          exact length
        · simp [members, isSource, onList]
  · intro node isLoose
    rw [sameNext]
    exact holds.loose node (Option.map_eq_none_iff.mp isLoose)

end Renaming

variable [DecidableEq Name] [DecidableEq Node]

/-- Pushing a node that is on no list puts it on the list. -/
theorem push (holds : lists.Listed null listed) (proper : node ≠ null)
    (free : listed node = none) :
    (lists.push name node).Listed null (update listed node (some name)) := by
  constructor
  · intro other
    obtain ⟨nodes, chain, nodup, counted, members⟩ := holds.chain other
    have absent : node ∉ nodes := by
      rw [members, free]
      exact nofun
    have framed : Chained (lists.push name node).next null (lists.head other) nodes := by
      apply chain.frame
      intro member isMember
      exact update_of_ne (ne_of_mem_of_not_mem isMember absent) _ _
    by_cases same : other = name
    · subst same
      refine ⟨node :: nodes, ?_, List.nodup_cons.mpr ⟨absent, nodup⟩, ?_, ?_⟩
      · rw [head_push, update_self]
        apply Chained.cons proper
        rw [next_push, update_self]
        exact framed
      · rw [count_push, update_self, List.length_cons, counted]
      · intro member
        by_cases isNode : member = node
        · subst isNode
          simp
        · simp [isNode, members]
    · refine ⟨nodes, ?_, nodup, ?_, ?_⟩
      · rw [head_push, update_of_ne same]
        exact framed
      · rw [count_push, update_of_ne same, counted]
      · intro member
        by_cases isNode : member = node
        · subst isNode
          simpa [absent] using fun equal => same equal.symm
        · simp [isNode, members]
  · intro member isLoose
    have different : member ≠ node := by
      rintro rfl
      simp at isLoose
    rw [update_of_ne different] at isLoose
    rw [next_push, update_of_ne different]
    exact holds.loose member isLoose

/-- Popping takes the head off its list. -/
theorem pop (holds : lists.Listed null listed) (nonempty : lists.head name ≠ null) :
    (lists.pop null name).Listed null (update listed (lists.head name) none) := by
  have onList := holds.listed_head nonempty
  constructor
  · intro other
    obtain ⟨nodes, chain, nodup, counted, members⟩ := holds.chain other
    by_cases same : other = name
    · subst same
      obtain ⟨rest, rfl, tail⟩ := chain.exists_cons nonempty
      have absent : lists.head other ∉ rest := (List.nodup_cons.mp nodup).1
      refine ⟨rest, ?_, (List.nodup_cons.mp nodup).2, ?_, ?_⟩
      · rw [head_pop, update_self]
        apply tail.frame
        intro member isMember
        exact update_of_ne (ne_of_mem_of_not_mem isMember absent) _ _
      · rw [count_pop, update_self, ← counted, List.length_cons, Nat.add_sub_cancel]
      · intro member
        by_cases isHead : member = lists.head other
        · subst isHead
          simp [absent]
        · rw [update_of_ne isHead, ← members, List.mem_cons]
          exact (or_iff_right isHead).symm
    · have absent : lists.head name ∉ nodes := by
        rw [members, onList, Option.some.injEq]
        exact Ne.symm same
      refine ⟨nodes, ?_, nodup, ?_, ?_⟩
      · rw [head_pop, update_of_ne same]
        apply chain.frame
        intro member isMember
        exact update_of_ne (ne_of_mem_of_not_mem isMember absent) _ _
      · rw [count_pop, update_of_ne same, counted]
      · intro member
        by_cases isHead : member = lists.head name
        · subst isHead
          simp [absent]
        · rw [update_of_ne isHead, members]
  · intro member isLoose
    by_cases isHead : member = lists.head name
    · subst isHead
      exact update_self _ _ _
    · rw [update_of_ne isHead] at isLoose
      rw [next_pop, update_of_ne isHead]
      exact holds.loose member isLoose

omit [DecidableEq Node] in
/-- Moving a whole list to an empty one renames it. -/
theorem moveAll (holds : lists.Listed null listed) {source target : Name}
    (different : source ≠ target) (isEmpty : lists.head target = null) :
    (lists.moveAll null source target).Listed null fun node =>
      if listed node = some source then some target else listed node := by
  have noneThere := holds.head_eq_null_iff.mp isEmpty
  constructor
  · intro other
    by_cases isSource : other = source
    · subst isSource
      refine ⟨[], ?_, List.nodup_nil, ?_, ?_⟩
      · rw [LinkedLists.moveAll]
        simp only [update_self]
        exact .nil
      · simp [LinkedLists.moveAll]
      · intro node
        by_cases onSource : listed node = some other
        · simpa [onSource] using Ne.symm different
        · simp [onSource]
    by_cases isTarget : other = target
    · subst isTarget
      obtain ⟨nodes, chain, nodup, counted, members⟩ := holds.chain source
      refine ⟨nodes, ?_, nodup, ?_, ?_⟩
      · rw [LinkedLists.moveAll]
        simp only [update_of_ne isSource, update_self]
        exact chain
      · simp [LinkedLists.moveAll, update_of_ne isSource, counted]
      · intro node
        by_cases onSource : listed node = some source
        · simp [onSource, members]
        · simp [onSource, members, noneThere]
    · obtain ⟨nodes, chain, nodup, counted, members⟩ := holds.chain other
      refine ⟨nodes, ?_, nodup, ?_, ?_⟩
      · rw [LinkedLists.moveAll]
        simp only [update_of_ne isSource, update_of_ne isTarget]
        exact chain
      · simp [LinkedLists.moveAll, update_of_ne isSource, update_of_ne isTarget, counted]
      · intro node
        by_cases onSource : listed node = some source
        · simp [onSource, members, Ne.symm isSource, Ne.symm isTarget]
        · simp [onSource, members]
  · intro node isLoose
    apply holds.loose
    by_cases onSource : listed node = some source
    · simp [onSource] at isLoose
    · simpa [onSource] using isLoose

end Listed

end LinkedLists

end Whippet
