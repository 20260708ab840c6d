import Mathlib.Data.List.Nodup
import Mathlib.Logic.Function.Basic

/-!
Doubly linked lists whose links are in their nodes.

A node has the next node, and where it is linked from: the head of a list, or the link of the node
before it. So a node can be taken off without going through the list. A family of such lists is told
apart by names; `listed` says for each node on which list it is.

Owns: chains of links with their frame rule, pushing and unlinking, and that both keep the lists
apart and the back pointers right. Does not own: how the links are stored in the node.
-/

namespace Whippet

open Function

/-- Where a node is linked from. -/
inductive Link (Name Node : Type*) where
  | head (name : Name)
  | next (node : Node)
  deriving DecidableEq, Repr

/-- A family of lists: the head of each, and the links of all nodes. -/
structure BackLinkedLists (Name Node : Type*) where
  head : Name → Node
  next : Node → Node
  prev : Node → Option (Link Name Node)

namespace BackLinkedLists

variable {Name Node : Type*}

/-- The node at a link. -/
def read (lists : BackLinkedLists Name Node) : Link Name Node → Node
  | .head name => lists.head name
  | .next node => lists.next node

/-- The nodes from a link on, up to the null node. Each knows the link to it. -/
def Chain (lists : BackLinkedLists Name Node) (null : Node) : Link Name Node → List Node → Prop
  | link, [] => lists.read link = null
  | link, node :: rest =>
      lists.read link = node ∧ node ≠ null ∧ lists.prev node = some link ∧
        Chain lists null (.next node) rest

section Operations

variable [DecidableEq Name] [DecidableEq Node] (lists : BackLinkedLists Name Node)

def write (node : Node) : Link Name Node → BackLinkedLists Name Node
  | .head name => { lists with head := update lists.head name node }
  | .next before => { lists with next := update lists.next before node }

/-- The node at a link gets to know the link, if there is one. -/
def linkBack (null node : Node) (link : Option (Link Name Node)) : BackLinkedLists Name Node :=
  if node = null then lists else { lists with prev := update lists.prev node link }

def push (null : Node) (name : Name) (node : Node) : BackLinkedLists Name Node :=
  let linked := { lists with next := update lists.next node (lists.head name) }
  let back := linked.linkBack null (lists.head name) (some (.next node))
  { back with
    head := update back.head name node
    prev := update back.prev node (some (.head name)) }

def unlink (null node : Node) (link : Link Name Node) : BackLinkedLists Name Node :=
  let back := lists.linkBack null (lists.next node) (lists.prev node)
  let written := back.write (lists.next node) link
  { written with
    prev := update written.prev node none
    next := update written.next node null }

end Operations

/-! ## Chains -/

section Chains

variable {lists other : BackLinkedLists Name Node} {null node head : Node} {name : Name}
variable {link : Link Name Node} {nodes before after : List Node}

/-- A chain depends on its first link and on the links of its own nodes alone. -/
theorem Chain.frame (chain : lists.Chain null link nodes)
    (sameRead : other.read link = lists.read link)
    (sameNext : ∀ node ∈ nodes, other.next node = lists.next node)
    (samePrev : ∀ node ∈ nodes, other.prev node = lists.prev node) :
    other.Chain null link nodes := by
  induction nodes generalizing link with
  | nil => exact sameRead.trans chain
  | cons head rest inductionHypothesis =>
      obtain ⟨reads, proper, back, tail⟩ := chain
      refine ⟨sameRead.trans reads, proper, (samePrev head List.mem_cons_self).trans back, ?_⟩
      apply inductionHypothesis tail (sameNext head List.mem_cons_self)
      · intro node member
        exact sameNext node (List.mem_cons_of_mem _ member)
      · intro node member
        exact samePrev node (List.mem_cons_of_mem _ member)

/-- The link to what comes after some nodes of a chain. -/
def linkAfter (link : Link Name Node) (before : List Node) : Link Name Node :=
  before.foldl (fun _ node => .next node) link

theorem linkAfter_append (link : Link Name Node) (before : List Node) (node : Node) :
    linkAfter link (before ++ [node]) = .next node := by
  rw [linkAfter, List.foldl_append]
  rfl

theorem Chain.ne_null (chain : lists.Chain null link nodes) (member : node ∈ nodes) :
    node ≠ null := by
  induction nodes generalizing link with
  | nil => cases member
  | cons first rest inductionHypothesis =>
      obtain ⟨-, proper, -, tail⟩ := chain
      rcases List.mem_cons.mp member with rfl | inRest
      · exact proper
      · exact inductionHypothesis tail inRest

/-- The part of a chain after some of its nodes. -/
theorem Chain.drop (chain : lists.Chain null link (before ++ after)) :
    lists.Chain null (linkAfter link before) after := by
  induction before generalizing link with
  | nil => exact chain
  | cons first rest inductionHypothesis => exact inductionHypothesis chain.2.2.2

/-- A link of a chain is its first link or that of one of the nodes passed. -/
theorem linkAfter_eq (link : Link Name Node) (before : List Node) :
    linkAfter link before = link ∨ ∃ node ∈ before, linkAfter link before = .next node := by
  induction before generalizing link with
  | nil => exact .inl rfl
  | cons first rest inductionHypothesis =>
      right
      rcases inductionHypothesis (.next first) with same | ⟨node, member, same⟩
      · exact ⟨first, List.mem_cons_self, same⟩
      · exact ⟨node, List.mem_cons_of_mem _ member, same⟩

end Chains

/-! ## Unlinking -/

section Unlinking

variable [DecidableEq Name] [DecidableEq Node]
variable {lists : BackLinkedLists Name Node} {null node other : Node} {name : Name}
variable {link far : Link Name Node} {before after nodes : List Node}

theorem next_unlink : (lists.unlink null node link).next =
    update (match link with
      | .head _ => lists.next
      | .next target => update lists.next target (lists.next node)) node null := by
  cases link <;> simp only [unlink, write, linkBack] <;> split <;> rfl

theorem head_unlink : (lists.unlink null node link).head =
    match link with
      | .head name => update lists.head name (lists.next node)
      | .next _ => lists.head := by
  cases link <;> simp only [unlink, write, linkBack] <;> split <;> rfl

theorem prev_unlink : (lists.unlink null node link).prev =
    update (if lists.next node = null then lists.prev
      else update lists.prev (lists.next node) (lists.prev node)) node none := by
  cases link <;> simp only [unlink, write, linkBack] <;> split <;> rfl

theorem prev_unlink_of_ne (different : other ≠ node) (notNext : other ≠ lists.next node) :
    (lists.unlink null node link).prev other = lists.prev other := by
  rw [prev_unlink, update_of_ne different]
  split
  · rfl
  · rw [update_of_ne notNext]

theorem next_unlink_of_ne (different : other ≠ node) (notLink : link ≠ .next other) :
    (lists.unlink null node link).next other = lists.next other := by
  rw [next_unlink, update_of_ne different]
  cases link with
  | head name => rfl
  | next target =>
      have apart : other ≠ target := fun same => notLink (by rw [same])
      exact update_of_ne apart _ _

theorem read_unlink (lists : BackLinkedLists Name Node) (null : Node)
    (different : link ≠ .next node) :
    (lists.unlink null node link).read link = lists.next node := by
  cases link with
  | head name =>
      rw [read, head_unlink]
      exact update_self _ _ _
  | next target =>
      have apart : target ≠ node := fun same => different (by rw [same])
      rw [read, next_unlink, update_of_ne apart]
      exact update_self _ _ _

theorem read_unlink_of_ne (notNode : far ≠ .next node) (different : far ≠ link) :
    (lists.unlink null node link).read far = lists.read far := by
  cases far with
  | head name =>
      rw [read, read, head_unlink]
      cases link with
      | head target =>
          have apart : name ≠ target := fun same => different (by rw [same])
          exact update_of_ne apart _ _
      | next target => rfl
  | next other =>
      apply next_unlink_of_ne
      · rintro rfl
        exact notNode rfl
      · exact fun same => different same.symm

omit [DecidableEq Name] [DecidableEq Node] in
/-- The next node is among the nodes after, if there is one. -/
theorem Chain.next_cases (chain : lists.Chain null far (before ++ node :: after)) :
    lists.next node = null ∨ lists.next node ∈ after := by
  obtain ⟨-, -, -, tail⟩ := chain.drop
  cases after with
  | nil => exact .inl tail
  | cons first rest =>
      have isFirst : lists.next node = first := tail.1
      rw [isFirst]
      exact .inr List.mem_cons_self

/-- Unlinking a node takes it off its chain. -/
theorem Chain.unlink (chain : lists.Chain null far (before ++ node :: after))
    (nodup : (before ++ node :: after).Nodup)
    (outside : ∀ other ∈ before ++ node :: after, far ≠ .next other) :
    (lists.unlink null node (linkAfter far before)).Chain null far (before ++ after) := by
  induction before generalizing far with
  | nil =>
      obtain ⟨-, -, isPrev, tail⟩ := chain
      obtain ⟨notAfter, nodupAfter⟩ := List.nodup_cons.mp nodup
      have farRead := read_unlink lists null (outside node List.mem_cons_self)
      cases after with
      | nil => exact farRead.trans tail
      | cons first rest =>
          obtain ⟨isFirst, proper, firstPrev, restTail⟩ := tail
          have firstOff : first ≠ node := fun same => notAfter (same ▸ List.mem_cons_self)
          have firstNotLater := (List.nodup_cons.mp nodupAfter).1
          refine ⟨farRead.trans isFirst, proper, ?_, ?_⟩
          · have someNext : lists.next node ≠ null := isFirst.trans_ne proper
            rw [prev_unlink, update_of_ne firstOff, if_neg someNext]
            exact (congrArg _ isFirst.symm).trans ((update_self _ _ _).trans isPrev)
          · apply restTail.frame
            · apply read_unlink_of_ne
              · exact fun same => firstOff (Link.next.inj same)
              · exact fun same => outside first (by simp) same.symm
            · intro other member
              apply next_unlink_of_ne
              · exact fun same => notAfter (same ▸ List.mem_cons_of_mem _ member)
              · exact outside other (by simp [member])
            · intro other member
              apply prev_unlink_of_ne
              · exact fun same => notAfter (same ▸ List.mem_cons_of_mem _ member)
              · intro same
                exact firstNotLater ((same.trans isFirst) ▸ member)
  | cons first rest inductionHypothesis =>
      obtain ⟨reads, proper, isPrev, tail⟩ := chain
      obtain ⟨notLater, nodupLater⟩ := List.nodup_cons.mp nodup
      have notNode : first ≠ node := by
        rintro rfl
        exact notLater (List.mem_append_right _ List.mem_cons_self)
      refine ⟨?_, proper, ?_, ?_⟩
      · refine (read_unlink_of_ne (outside node (by simp)) ?_).trans reads
        intro same
        rcases linkAfter_eq (.next first) rest with isLink | ⟨other, member, isLink⟩
        · exact outside first List.mem_cons_self (same.trans isLink)
        · exact outside other (by simp [member]) (same.trans isLink)
      · refine (prev_unlink_of_ne notNode ?_).trans isPrev
        intro same
        rcases tail.next_cases with isNull | member
        · exact proper (same.trans isNull)
        · rw [← same] at member
          exact notLater (List.mem_append_right _ (List.mem_cons_of_mem _ member))
      · apply inductionHypothesis tail nodupLater
        rintro other member same
        cases same
        exact notLater member

end Unlinking

/-! ## Families -/

/-- Each list has exactly the nodes that `listed` puts on it, each once and with the right back
pointer. -/
def Listed (lists : BackLinkedLists Name Node) (null : Node) (listed : Node → Option Name) : Prop :=
  ∀ name, ∃ nodes, lists.Chain null (.head name) nodes ∧ nodes.Nodup ∧
    ∀ node, node ∈ nodes ↔ listed node = some name

section Families

variable {lists : BackLinkedLists Name Node} {null node : Node} {name : Name}
variable {listed : Node → Option Name}

/-- The place of a node on its list. -/
theorem Listed.exists_chain (holds : lists.Listed null listed) (onList : listed node = some name) :
    ∃ before after, lists.Chain null (.head name) (before ++ node :: after) ∧
      (before ++ node :: after).Nodup ∧
      ∀ other, other ∈ before ++ node :: after ↔ listed other = some name := by
  obtain ⟨nodes, chain, nodup, members⟩ := holds name
  obtain ⟨before, after, rfl⟩ := List.append_of_mem ((members node).mpr onList)
  exact ⟨before, after, chain, nodup, members⟩

/-- A node is linked from the head of its list, or from a node before it and not from the one after
it. -/
theorem Listed.exists_prev (holds : lists.Listed null listed) (onList : listed node = some name) :
    ∃ link, lists.prev node = some link ∧ lists.read link = node ∧
      (link = .head name ∨ ∃ before, link = .next before ∧ listed before = some name ∧
        before ≠ node ∧ before ≠ lists.next node) := by
  obtain ⟨before, after, chain, nodup, members⟩ := holds.exists_chain onList
  obtain ⟨reads, -, isPrev, -⟩ := chain.drop
  refine ⟨_, isPrev, reads, ?_⟩
  apply (linkAfter_eq (.head name) before).imp_right
  rintro ⟨last, member, isLast⟩
  obtain ⟨-, -, apart⟩ := List.nodup_append.mp nodup
  have onName := (members last).mp (List.mem_append_left _ member)
  refine ⟨last, isLast, onName, apart last member node List.mem_cons_self, ?_⟩
  rcases chain.next_cases with isNull | inAfter
  · rw [isNull]
    exact chain.ne_null (List.mem_append_left _ member)
  · exact apart last member _ (List.mem_cons_of_mem _ inAfter)

/-- The next node of a list is another one of the same list. -/
theorem Listed.next_cases (holds : lists.Listed null listed) (onList : listed node = some name) :
    lists.next node = null ∨ listed (lists.next node) = some name ∧ lists.next node ≠ node := by
  obtain ⟨before, after, chain, nodup, members⟩ := holds.exists_chain onList
  apply chain.next_cases.imp_right
  intro member
  constructor
  · rw [← members]
    exact List.mem_append_right _ (List.mem_cons_of_mem _ member)
  · have notAfter := (List.nodup_cons.mp (List.nodup_append.mp nodup).2.1).1
    exact fun same => notAfter (same ▸ member)

theorem Listed.head_cases (holds : lists.Listed null listed) (name : Name) :
    lists.head name = null ∨ listed (lists.head name) = some name := by
  obtain ⟨nodes, chain, -, members⟩ := holds name
  cases nodes with
  | nil => exact .inl chain
  | cons first rest =>
      have isFirst : lists.head name = first := chain.1
      rw [isFirst]
      exact .inr ((members first).mp List.mem_cons_self)

theorem Listed.congr {other : BackLinkedLists Name Node} {otherListed : Node → Option Name}
    (holds : lists.Listed null listed) (sameListed : ∀ node, otherListed node = listed node)
    (sameHead : other.head = lists.head)
    (sameNext : ∀ node, listed node ≠ none → other.next node = lists.next node)
    (samePrev : ∀ node, listed node ≠ none → other.prev node = lists.prev node) :
    other.Listed null otherListed := by
  intro name
  obtain ⟨nodes, chain, nodup, members⟩ := holds name
  have onList : ∀ node ∈ nodes, listed node ≠ none := by
    intro node member
    rw [(members node).mp member]
    exact nofun
  refine ⟨nodes, ?_, nodup, ?_⟩
  · apply chain.frame (congrFun sameHead name)
    · exact fun node member => sameNext node (onList node member)
    · exact fun node member => samePrev node (onList node member)
  · intro node
    rw [sameListed]
    exact members node

variable [DecidableEq Name] [DecidableEq Node]

theorem next_push : (lists.push null name node).next =
    update lists.next node (lists.head name) := by
  simp only [BackLinkedLists.push, linkBack]
  split <;> rfl

theorem head_push : (lists.push null name node).head = update lists.head name node := by
  simp only [BackLinkedLists.push, linkBack]
  split <;> rfl

theorem prev_push : (lists.push null name node).prev =
    update (if lists.head name = null then lists.prev
      else update lists.prev (lists.head name) (some (.next node))) node (some (.head name)) := by
  simp only [BackLinkedLists.push, linkBack]
  split <;> rfl

theorem prev_push_of_ne {other : Node} (different : other ≠ node)
    (notHead : other ≠ lists.head name) :
    (lists.push null name node).prev other = lists.prev other := by
  rw [prev_push, update_of_ne different]
  split
  · rfl
  · rw [update_of_ne notHead]

/-- Pushing a node in front of a chain. -/
theorem Chain.push {nodes : List Node} (chain : lists.Chain null (.head name) nodes)
    (nodup : nodes.Nodup) (proper : node ≠ null) (absent : node ∉ nodes) :
    (lists.push null name node).Chain null (.head name) (node :: nodes) := by
  have notNode : ∀ other ∈ nodes, other ≠ node := by
    rintro other member rfl
    exact absent member
  refine ⟨?_, proper, ?_, ?_⟩
  · rw [read, head_push]
    exact update_self _ _ _
  · rw [prev_push]
    exact update_self _ _ _
  · have readsHead : (lists.push null name node).read (.next node) = lists.head name := by
      rw [read, next_push]
      exact update_self _ _ _
    cases nodes with
    | nil => exact readsHead.trans chain
    | cons first rest =>
        obtain ⟨isFirst, firstProper, -, tail⟩ := chain
        have firstOff := notNode first List.mem_cons_self
        have notLater := (List.nodup_cons.mp nodup).1
        have someHead : lists.head name ≠ null := isFirst.trans_ne firstProper
        refine ⟨readsHead.trans isFirst, firstProper, ?_, ?_⟩
        · rw [prev_push, update_of_ne firstOff, if_neg someHead]
          exact (congrArg _ isFirst.symm).trans (update_self _ _ _)
        · apply tail.frame
          · rw [read, next_push]
            exact update_of_ne firstOff _ _
          · intro other member
            rw [next_push]
            exact update_of_ne (notNode other (List.mem_cons_of_mem _ member)) _ _
          · intro other member
            apply prev_push_of_ne (notNode other (List.mem_cons_of_mem _ member))
            rintro rfl
            exact notLater (isFirst ▸ member)

/-- Pushing a node that is on no list puts it on the list. -/
theorem Listed.push (holds : lists.Listed null listed) (name : Name) (proper : node ≠ null)
    (free : listed node = none) :
    (lists.push null name node).Listed null (update listed node (some name)) := by
  intro other
  obtain ⟨nodes, chain, nodup, members⟩ := holds other
  have absent : node ∉ nodes := by
    rw [members, free]
    exact nofun
  have notNode : ∀ member ∈ nodes, member ≠ node := by
    rintro member isMember rfl
    exact absent isMember
  by_cases same : other = name
  · subst same
    refine ⟨node :: nodes, chain.push nodup proper absent, List.nodup_cons.mpr ⟨absent, nodup⟩, ?_⟩
    intro member
    by_cases isNode : member = node
    · subst isNode
      simp
    · simp [isNode, members]
  · refine ⟨nodes, ?_, nodup, ?_⟩
    · apply chain.frame
      · rw [read, head_push]
        exact update_of_ne same _ _
      · intro member isMember
        rw [next_push]
        exact update_of_ne (notNode member isMember) _ _
      · intro member isMember
        apply prev_push_of_ne (notNode member isMember)
        rintro rfl
        rcases holds.head_cases name with isNull | onName
        · exact chain.ne_null isMember isNull
        · exact same (Option.some.inj (((members _).mp isMember).symm.trans onName))
    · intro member
      by_cases isNode : member = node
      · subst isNode
        simpa [absent] using fun equal => same equal.symm
      · simp [isNode, members]

/-- Unlinking takes a node off its list. -/
theorem Listed.unlink (holds : lists.Listed null listed) (onList : listed node = some name)
    {link : Link Name Node} (isPrev : lists.prev node = some link) :
    (lists.unlink null node link).Listed null (update listed node none) := by
  obtain ⟨before, after, chain, nodup, members⟩ := holds.exists_chain onList
  have linkEq : link = linkAfter (.head name) before := by
    obtain ⟨-, -, back, -⟩ := chain.drop
    exact Option.some.inj (isPrev.symm.trans back)
  subst linkEq
  intro other
  by_cases same : other = name
  · subst same
    obtain ⟨nodupBefore, nodupRest, apart⟩ := List.nodup_append.mp nodup
    obtain ⟨notAfter, nodupAfter⟩ := List.nodup_cons.mp nodupRest
    refine ⟨before ++ after, chain.unlink nodup nofun, ?_, ?_⟩
    · exact nodup.sublist ((List.sublist_cons_self node after).append_left before)
    · intro member
      by_cases isNode : member = node
      · subst isNode
        have notBefore : member ∉ before := fun inBefore =>
          apart member inBefore member List.mem_cons_self rfl
        simp [notBefore, notAfter]
      · rw [update_of_ne isNode, ← members]
        simp [isNode]
  · obtain ⟨nodes, otherChain, otherNodup, otherMembers⟩ := holds other
    have outside : ∀ member ∈ nodes, listed member ≠ some name := by
      intro member isMember onName
      exact same (Option.some.inj (((otherMembers _).mp isMember).symm.trans onName))
    have notNode : ∀ member ∈ nodes, member ≠ node := by
      rintro member isMember rfl
      exact outside member isMember onList
    refine ⟨nodes, ?_, otherNodup, ?_⟩
    · apply otherChain.frame
      · have atOther : Link.head other ≠ .next node := nofun
        apply read_unlink_of_ne atOther
        intro isLink
        rcases linkAfter_eq (.head name) before with atHead | ⟨_, _, inside⟩
        · exact same (Link.head.inj (isLink.trans atHead))
        · cases isLink.trans inside
      · intro member isMember
        apply next_unlink_of_ne (notNode member isMember)
        intro isLink
        rcases linkAfter_eq (.head name) before with atHead | ⟨target, inBefore, inside⟩
        · cases isLink.symm.trans atHead
        · obtain rfl := Link.next.inj (isLink.symm.trans inside)
          exact outside member isMember ((members member).mp (List.mem_append_left _ inBefore))
      · intro member isMember
        apply prev_unlink_of_ne (notNode member isMember)
        rintro rfl
        rcases holds.next_cases onList with isNull | ⟨onName, -⟩
        · exact otherChain.ne_null isMember isNull
        · exact outside _ isMember onName
    · intro member
      by_cases isNode : member = node
      · subst isNode
        have notMember : member ∉ nodes := fun isMember => notNode member isMember rfl
        simp [notMember]
      · rw [update_of_ne isNode]
        exact otherMembers member

end Families

end BackLinkedLists

end Whippet
