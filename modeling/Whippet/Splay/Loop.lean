import Mathlib.Data.List.Nodup
import Whippet.Library.SplayTree

/-!
Splaying in memory (`splay-tree.h`).

The nodes are known by their addresses, and zero is the null pointer. Going down the tree, the loop
links what it passes to two chains that start in a dummy node.

Owns: the loop with its reads and writes of child pointers, and that it does what splaying does to
the tree that is in memory. Does not own: the operations on a map.
-/

namespace Whippet.Splay

open Function SplayTree

/-- The address of a node. -/
abbrev Pointer := ℕ

/-- The nodes in memory, field by field. -/
structure Memory (Span Value : Type) where
  key : Pointer → Span
  value : Pointer → Value
  left : Pointer → Pointer
  right : Pointer → Pointer

namespace Memory

variable {Span Value : Type} (memory : Memory Span Value)

def setLeft (node child : Pointer) : Memory Span Value :=
  { memory with left := update memory.left node child }

def setRight (node child : Pointer) : Memory Span Value :=
  { memory with right := update memory.right node child }

end Memory

variable {Span Value : Type}

/-! ## The loop -/

/-- The local variables of the loop. For `left` and `right`, `none` is the address of the dummy
node. -/
structure Locals (Span Value : Type) where
  memory : Memory Span Value
  dummyLeft : Pointer
  dummyRight : Pointer
  left : Option Pointer
  right : Option Pointer
  current : Pointer

namespace Locals

variable (locals : Locals Span Value)

def compareAt (compare : Span → Ordering) (node : Pointer) : Ordering :=
  compare (locals.memory.key node)

/-- `right->left = child`. -/
def setLeftOfRight (child : Pointer) : Locals Span Value :=
  match locals.right with
  | none => { locals with dummyLeft := child }
  | some node => { locals with memory := locals.memory.setLeft node child }

/-- `left->right = child`. -/
def setRightOfLeft (child : Pointer) : Locals Span Value :=
  match locals.left with
  | none => { locals with dummyRight := child }
  | some node => { locals with memory := locals.memory.setRight node child }

def rotateRight : Locals Span Value :=
  let tmp := locals.memory.left locals.current
  { locals with
    memory := (locals.memory.setLeft locals.current (locals.memory.right tmp)).setRight tmp
      locals.current
    current := tmp }

def rotateLeft : Locals Span Value :=
  let tmp := locals.memory.right locals.current
  { locals with
    memory := (locals.memory.setRight locals.current (locals.memory.left tmp)).setLeft tmp
      locals.current
    current := tmp }

def linkRight : Locals Span Value :=
  let linked := locals.setLeftOfRight locals.current
  { linked with right := some locals.current, current := linked.memory.left locals.current }

def linkLeft : Locals Span Value :=
  let linked := locals.setRightOfLeft locals.current
  { linked with left := some locals.current, current := linked.memory.right locals.current }

/-- The loop, for a number of rounds. -/
def loop (compare : Span → Ordering) : ℕ → Locals Span Value → Option (Locals Span Value)
  | 0, _ => none
  | rounds + 1, locals =>
      match locals.compareAt compare locals.current with
      | .lt =>
          if locals.memory.left locals.current = 0 then some locals
          else if locals.compareAt compare (locals.memory.left locals.current) = .lt then
            let rotated := locals.rotateRight
            if rotated.memory.left rotated.current = 0 then some rotated
            else loop compare rounds rotated.linkRight
          else loop compare rounds locals.linkRight
      | .eq => some locals
      | .gt =>
          if locals.memory.right locals.current = 0 then some locals
          else if locals.compareAt compare (locals.memory.right locals.current) = .gt then
            let rotated := locals.rotateLeft
            if rotated.memory.right rotated.current = 0 then some rotated
            else loop compare rounds rotated.linkLeft
          else loop compare rounds locals.linkLeft

/-- What comes after the loop. -/
def finish : Locals Span Value :=
  let leftLinked := locals.setRightOfLeft (locals.memory.left locals.current)
  let linked := leftLinked.setLeftOfRight (leftLinked.memory.right locals.current)
  { linked with
    memory := (linked.memory.setLeft locals.current linked.dummyRight).setRight locals.current
      linked.dummyLeft }

end Locals

/-- `SPLAY_SPLAY`: the memory and the root after it. -/
def splay (compare : Span → Ordering) (rounds : ℕ) (memory : Memory Span Value) (root : Pointer) :
    Option (Memory Span Value × Pointer) :=
  if root = 0 then some (memory, 0)
  else
    (Locals.loop compare rounds
      { memory := memory, dummyLeft := 0, dummyRight := 0, left := none, right := none,
        current := root }).map fun locals => (locals.finish.memory, locals.current)

/-! ## Trees in memory -/

/-- The tree is at `pointer`. -/
inductive At (memory : Memory Span Value) : Pointer → BinaryTree Pointer → Prop where
  | nil : At memory 0 .nil
  | node {node : Pointer} {left right : BinaryTree Pointer} (isNode : node ≠ 0)
      (leftAt : At memory (memory.left node) left) (rightAt : At memory (memory.right node) right) :
      At memory node (.node node left right)

namespace At

variable {memory changed : Memory Span Value} {pointer : Pointer} {tree : BinaryTree Pointer}

theorem congr (isAt : At memory pointer tree)
    (left : ∀ node ∈ inorder tree, changed.left node = memory.left node)
    (right : ∀ node ∈ inorder tree, changed.right node = memory.right node) :
    At changed pointer tree := by
  induction isAt with
  | nil => exact .nil
  | node isNode leftAt rightAt leftHypothesis rightHypothesis =>
      apply At.node isNode
      · rw [left _ (by simp)]
        apply leftHypothesis
        · intro other member
          exact left other (by simp [member])
        · intro other member
          exact right other (by simp [member])
      · rw [right _ (by simp)]
        apply rightHypothesis
        · intro other member
          exact left other (by simp [member])
        · intro other member
          exact right other (by simp [member])

/-- Writes to other nodes do not matter. -/
theorem setLeft (isAt : At memory pointer tree) {node : Pointer} (child : Pointer)
    (other : node ∉ inorder tree) : At (memory.setLeft node child) pointer tree := by
  apply isAt.congr
  · intro member isMember
    apply update_of_ne
    rintro rfl
    exact other isMember
  · exact fun _ _ => rfl

theorem setRight (isAt : At memory pointer tree) {node : Pointer} (child : Pointer)
    (other : node ∉ inorder tree) : At (memory.setRight node child) pointer tree := by
  apply isAt.congr
  · exact fun _ _ => rfl
  · intro member isMember
    apply update_of_ne
    rintro rfl
    exact other isMember

theorem eq_zero_iff (isAt : At memory pointer tree) : pointer = 0 ↔ tree = .nil := by
  cases isAt with
  | nil => simp
  | node isNode => simp [isNode]

theorem node_iff {node : Pointer} {left right : BinaryTree Pointer} :
    At memory pointer (.node node left right) ↔ pointer = node ∧ node ≠ 0 ∧
      At memory (memory.left node) left ∧ At memory (memory.right node) right := by
  constructor
  · rintro (_ | ⟨isNode, leftAt, rightAt⟩)
    exact ⟨rfl, isNode, leftAt, rightAt⟩
  · rintro ⟨rfl, isNode, leftAt, rightAt⟩
    exact .node isNode leftAt rightAt

section Rotations

variable {node tmp : Pointer} {outer inner side : BinaryTree Pointer}

theorem rotateRight (isAt : At memory pointer (.node node (.node tmp outer inner) side))
    (nodup : (inorder (.node node (.node tmp outer inner) side)).Nodup) :
    At ((memory.setLeft node (memory.right tmp)).setRight tmp node) tmp
      (.node tmp outer (.node node inner side)) := by
  simp only [inorder_node, List.append_assoc, List.cons_append, List.nodup_append, List.nodup_cons,
    List.mem_append, List.mem_cons] at nodup
  obtain ⟨-, isNode, leftAt, sideAt⟩ := node_iff.mp isAt
  obtain ⟨-, isTmp, outerAt, innerAt⟩ := node_iff.mp leftAt
  have different : node ≠ tmp := by grind
  have left : ((memory.setLeft node (memory.right tmp)).setRight tmp node).left tmp =
      memory.left tmp := update_of_ne different.symm _ _
  have leftNode : ((memory.setLeft node (memory.right tmp)).setRight tmp node).left node =
      memory.right tmp := update_self _ _ _
  have right : ((memory.setLeft node (memory.right tmp)).setRight tmp node).right tmp = node :=
    update_self _ _ _
  have rightNode : ((memory.setLeft node (memory.right tmp)).setRight tmp node).right node =
      memory.right node := update_of_ne different _ _
  refine node_iff.mpr ⟨rfl, isTmp, ?_, node_iff.mpr ⟨right, isNode, ?_, ?_⟩⟩
  · rw [left]
    exact (outerAt.setLeft _ (by grind)).setRight _ (by grind)
  · rw [leftNode]
    exact (innerAt.setLeft _ (by grind)).setRight _ (by grind)
  · rw [rightNode]
    exact (sideAt.setLeft _ (by grind)).setRight _ (by grind)

theorem rotateLeft (isAt : At memory pointer (.node node side (.node tmp inner outer)))
    (nodup : (inorder (.node node side (.node tmp inner outer))).Nodup) :
    At ((memory.setRight node (memory.left tmp)).setLeft tmp node) tmp
      (.node tmp (.node node side inner) outer) := by
  simp only [inorder_node, List.nodup_append, List.nodup_cons, List.mem_append,
    List.mem_cons] at nodup
  obtain ⟨-, isNode, sideAt, rightAt⟩ := node_iff.mp isAt
  obtain ⟨-, isTmp, innerAt, outerAt⟩ := node_iff.mp rightAt
  have different : node ≠ tmp := by grind
  have right : ((memory.setRight node (memory.left tmp)).setLeft tmp node).right tmp =
      memory.right tmp := update_of_ne different.symm _ _
  have rightNode : ((memory.setRight node (memory.left tmp)).setLeft tmp node).right node =
      memory.left tmp := update_self _ _ _
  have left : ((memory.setRight node (memory.left tmp)).setLeft tmp node).left tmp = node :=
    update_self _ _ _
  have leftNode : ((memory.setRight node (memory.left tmp)).setLeft tmp node).left node =
      memory.left node := update_of_ne different _ _
  refine node_iff.mpr ⟨rfl, isTmp, node_iff.mpr ⟨left, isNode, ?_, ?_⟩, ?_⟩
  · rw [leftNode]
    exact (sideAt.setRight _ (by grind)).setLeft _ (by grind)
  · rw [rightNode]
    exact (innerAt.setRight _ (by grind)).setLeft _ (by grind)
  · rw [right]
    exact (outerAt.setRight _ (by grind)).setLeft _ (by grind)

end Rotations

end At

/-! ## Chains in memory -/

/-- The field in which a chain has the subtrees that it passed. -/
inductive Side where
  | left
  | right

namespace Side

def outer (side : Side) (memory : Memory Span Value) : Pointer → Pointer :=
  match side with
  | left => memory.left
  | right => memory.right

/-- The field that links a chain. -/
def inner (side : Side) (memory : Memory Span Value) : Pointer → Pointer :=
  match side with
  | left => memory.right
  | right => memory.left

def setInner (side : Side) (memory : Memory Span Value) (node child : Pointer) :
    Memory Span Value :=
  match side with
  | left => memory.setRight node child
  | right => memory.setLeft node child

@[simp] theorem outer_setInner (side : Side) (memory : Memory Span Value) (node child : Pointer) :
    side.outer (side.setInner memory node child) = side.outer memory := by
  cases side <;> rfl

@[simp] theorem inner_setInner (side : Side) (memory : Memory Span Value) (node child : Pointer) :
    side.inner (side.setInner memory node child) = update (side.inner memory) node child := by
  cases side <;> rfl

theorem at_setInner (side : Side) {memory : Memory Span Value} {pointer node : Pointer}
    {tree : BinaryTree Pointer} (isAt : At memory pointer tree) (child : Pointer)
    (other : node ∉ inorder tree) : At (side.setInner memory node child) pointer tree := by
  cases side with
  | left => exact isAt.setRight child other
  | right => exact isAt.setLeft child other

/-- Where a chain goes on from a link. -/
def follow (side : Side) (memory : Memory Span Value) (dummy : Pointer) : Option Pointer → Pointer
  | none => dummy
  | some node => side.inner memory node

end Side

/-- What was passed hangs on a chain that starts in `dummy`, with its last node at `link`. -/
def Chain (memory : Memory Span Value) (side : Side) (dummy : Pointer) :
    List (Pointer × BinaryTree Pointer) → Option Pointer → Prop
  | [], link => link = none
  | (node, tree) :: passed, link => link = some node ∧ node ≠ 0 ∧
      At memory (side.outer memory node) tree ∧ ∃ earlier, Chain memory side dummy passed earlier ∧
        side.follow memory dummy earlier = node

def chainNodes (passed : List (Pointer × BinaryTree Pointer)) : List Pointer :=
  passed.flatMap fun entry => entry.1 :: inorder entry.2

@[simp] theorem chainNodes_nil : chainNodes [] = [] := rfl

@[simp] theorem chainNodes_cons (node : Pointer) (tree : BinaryTree Pointer)
    (passed : List (Pointer × BinaryTree Pointer)) :
    chainNodes ((node, tree) :: passed) = node :: (inorder tree ++ chainNodes passed) := by
  simp [chainNodes]

namespace Chain

variable {memory changed : Memory Span Value} {side : Side} {dummy : Pointer}
variable {passed : List (Pointer × BinaryTree Pointer)} {link : Option Pointer} {node : Pointer}

theorem link_mem (chain : Chain memory side dummy passed (some node)) :
    node ∈ chainNodes passed := by
  cases passed with
  | nil => cases chain
  | cons entry passed =>
      cases chain.1
      rw [chainNodes_cons]
      exact List.mem_cons_self

theorem congr (chain : Chain memory side dummy passed link)
    (left : ∀ node ∈ chainNodes passed, changed.left node = memory.left node)
    (right : ∀ node ∈ chainNodes passed, changed.right node = memory.right node) :
    Chain changed side dummy passed link ∧
      side.follow changed dummy link = side.follow memory dummy link := by
  induction passed generalizing link with
  | nil =>
      cases chain
      exact ⟨rfl, rfl⟩
  | cons entry passed inductionHypothesis =>
      obtain ⟨node, tree⟩ := entry
      obtain ⟨rfl, isNode, isAt, earlier, chainEarlier, followed⟩ := chain
      simp only [chainNodes_cons, List.mem_cons, List.mem_append, or_imp, forall_and,
        forall_eq] at left right
      obtain ⟨kept, sameEarlier⟩ := inductionHypothesis chainEarlier left.2.2 right.2.2
      have sameOuter : side.outer changed node = side.outer memory node := by
        cases side with
        | left => exact left.1
        | right => exact right.1
      have sameInner : side.inner changed node = side.inner memory node := by
        cases side with
        | left => exact right.1
        | right => exact left.1
      refine ⟨⟨rfl, isNode, ?_, earlier, kept, sameEarlier.trans followed⟩, sameInner⟩
      rw [sameOuter]
      exact isAt.congr left.2.1 right.2.1

/-- A write to a node that is not on the chain. -/
theorem setLeft (chain : Chain memory side dummy passed link) (child : Pointer)
    (other : node ∉ chainNodes passed) :
    Chain (memory.setLeft node child) side dummy passed link ∧
      side.follow (memory.setLeft node child) dummy link = side.follow memory dummy link := by
  apply chain.congr
  · intro member isMember
    apply update_of_ne
    rintro rfl
    exact other isMember
  · exact fun _ _ => rfl

theorem setRight (chain : Chain memory side dummy passed link) (child : Pointer)
    (other : node ∉ chainNodes passed) :
    Chain (memory.setRight node child) side dummy passed link ∧
      side.follow (memory.setRight node child) dummy link = side.follow memory dummy link := by
  apply chain.congr
  · exact fun _ _ => rfl
  · intro member isMember
    apply update_of_ne
    rintro rfl
    exact other isMember

theorem setInner (chain : Chain memory side dummy passed link) (child : Pointer)
    (other : node ∉ chainNodes passed) :
    Chain (side.setInner memory node child) side dummy passed link ∧
      side.follow (side.setInner memory node child) dummy link =
        side.follow memory dummy link := by
  cases side with
  | left => exact chain.setRight child other
  | right => exact chain.setLeft child other

/-- The end of a chain can be linked to anything. -/
theorem linkEnd (chain : Chain memory side dummy passed (some node)) (child : Pointer)
    (nodup : (chainNodes passed).Nodup) :
    Chain (side.setInner memory node child) side dummy passed (some node) := by
  cases passed with
  | nil => cases chain
  | cons entry passed =>
      obtain ⟨last, tree⟩ := entry
      obtain ⟨isLast, isNode, isAt, earlier, chainEarlier, followed⟩ := chain
      cases isLast
      rw [chainNodes_cons, List.nodup_cons, List.mem_append, not_or] at nodup
      obtain ⟨kept, sameEarlier⟩ := chainEarlier.setInner child nodup.1.2
      refine ⟨rfl, isNode, ?_, earlier, kept, sameEarlier.trans followed⟩
      rw [Side.outer_setInner]
      exact side.at_setInner isAt child nodup.1.1

/-- An empty chain can start anywhere. -/
theorem start (chain : Chain memory side dummy passed none) (other : Pointer) :
    Chain memory side other passed none := by
  cases passed with
  | nil => rfl
  | cons entry passed => cases chain.1

end Chain

/-- A chain that ends in a tree is what hanging the tree gives. -/
theorem at_hangLeft {memory : Memory Span Value} {dummy : Pointer}
    {passed : List (Pointer × BinaryTree Pointer)} {link : Option Pointer}
    {tree : BinaryTree Pointer} (chain : Chain memory .left dummy passed link)
    (isAt : At memory (Side.left.follow memory dummy link) tree) :
    At memory dummy (hangLeft passed tree) := by
  induction passed generalizing link tree with
  | nil =>
      cases chain
      exact isAt
  | cons entry passed inductionHypothesis =>
      obtain ⟨node, left⟩ := entry
      obtain ⟨rfl, isNode, leftAt, earlier, chainEarlier, followed⟩ := chain
      apply inductionHypothesis chainEarlier
      rw [followed]
      exact .node isNode leftAt isAt

theorem at_hangRight {memory : Memory Span Value} {dummy : Pointer}
    {passed : List (Pointer × BinaryTree Pointer)} {link : Option Pointer}
    {tree : BinaryTree Pointer} (chain : Chain memory .right dummy passed link)
    (isAt : At memory (Side.right.follow memory dummy link) tree) :
    At memory dummy (hangRight passed tree) := by
  induction passed generalizing link tree with
  | nil =>
      cases chain
      exact isAt
  | cons entry passed inductionHypothesis =>
      obtain ⟨node, right⟩ := entry
      obtain ⟨rfl, isNode, rightAt, earlier, chainEarlier, followed⟩ := chain
      apply inductionHypothesis chainEarlier
      rw [followed]
      exact .node isNode isAt rightAt

/-! ## What the loop keeps -/

/-- The loop, started in `memory` on a tree with the nodes `nodes`, has the rest `tree` of the tree
at hand, with what it passed on the two chains. -/
structure Holding (memory : Memory Span Value) (nodes : List Pointer) (locals : Locals Span Value)
    (before : List (Pointer × BinaryTree Pointer)) (tree : BinaryTree Pointer)
    (after : List (Pointer × BinaryTree Pointer)) : Prop where
  currentAt : At locals.memory locals.current tree
  leftChain : Chain locals.memory .left locals.dummyRight before locals.left
  rightChain : Chain locals.memory .right locals.dummyLeft after locals.right
  perm : (chainNodes before ++ inorder tree ++ chainNodes after).Perm nodes
  key : locals.memory.key = memory.key
  value : locals.memory.value = memory.value
  /-- Nothing is written to other nodes. -/
  frame : ∀ node, node ∉ nodes →
    locals.memory.left node = memory.left node ∧ locals.memory.right node = memory.right node

namespace Holding

variable {memory : Memory Span Value} {nodes : List Pointer} {locals : Locals Span Value}
variable {before after : List (Pointer × BinaryTree Pointer)}
variable {tree left right inner outer : BinaryTree Pointer} {node tmp : Pointer}

theorem nodup (holding : Holding memory nodes locals before tree after) (distinct : nodes.Nodup) :
    (chainNodes before ++ inorder tree ++ chainNodes after).Nodup :=
  holding.perm.nodup_iff.mpr distinct

theorem mem_nodes (holding : Holding memory nodes locals before tree after)
    (member : node ∈ chainNodes before ++ inorder tree ++ chainNodes after) : node ∈ nodes :=
  holding.perm.mem_iff.mp member

/-- The tree at hand has no nodes of the chains. -/
theorem apart (holding : Holding memory nodes locals before tree after) (distinct : nodes.Nodup)
    (member : node ∈ inorder tree) : node ∉ chainNodes before ∧ node ∉ chainNodes after := by
  have nodup := holding.nodup distinct
  simp only [List.nodup_append, List.mem_append] at nodup
  exact ⟨fun isBefore => nodup.1.2.2 node isBefore node member rfl,
    fun isAfter => nodup.2.2 node (.inr member) node isAfter rfl⟩

theorem nodup_tree (holding : Holding memory nodes locals before tree after)
    (distinct : nodes.Nodup) : (inorder tree).Nodup := by
  have nodup := holding.nodup distinct
  rw [List.nodup_append, List.nodup_append] at nodup
  exact nodup.1.2.1

/-- The writes of a rotation: to two nodes of the tree at hand. -/
theorem rotated (distinct : nodes.Nodup) {first second child other : Pointer}
    {newTree : BinaryTree Pointer} {changed : Memory Span Value}
    (holding : Holding memory nodes locals before tree after)
    (firstMember : first ∈ inorder tree) (secondMember : second ∈ inorder tree)
    (isChanged : changed = (locals.memory.setLeft first child).setRight second other)
    {current : Pointer} (currentAt : At changed current newTree)
    (same : (inorder newTree).Perm (inorder tree)) :
    Holding memory nodes { locals with memory := changed, current := current } before newTree
      after := by
  obtain ⟨notBefore, notAfter⟩ := holding.apart distinct firstMember
  obtain ⟨secondNotBefore, secondNotAfter⟩ := holding.apart distinct secondMember
  have owned : first ∈ nodes := holding.mem_nodes (by simp [firstMember])
  have secondOwned : second ∈ nodes := holding.mem_nodes (by simp [secondMember])
  subst isChanged
  refine ⟨currentAt, ?_, ?_, ?_, holding.key, holding.value, ?_⟩
  · exact ((holding.leftChain.setLeft child notBefore).1.setRight other secondNotBefore).1
  · exact ((holding.rightChain.setLeft child notAfter).1.setRight other secondNotAfter).1
  · exact ((same.append_left _).append_right _).trans holding.perm
  · intro node notOwned
    have differentFirst : node ≠ first := fun isFirst => notOwned (isFirst ▸ owned)
    have differentSecond : node ≠ second := fun isSecond => notOwned (isSecond ▸ secondOwned)
    have kept := holding.frame node notOwned
    exact ⟨(update_of_ne differentFirst _ _).trans kept.1,
      (update_of_ne differentSecond _ _).trans kept.2⟩

/-- Rotating right, where the left child has `outer` and `inner`. -/
theorem rotateRight (distinct : nodes.Nodup)
    (holding : Holding memory nodes locals before (.node node (.node tmp outer inner) right)
      after) :
    Holding memory nodes locals.rotateRight before (.node tmp outer (.node node inner right))
      after := by
  obtain ⟨isCurrent, isNode, leftAt, rightAt⟩ := At.node_iff.mp holding.currentAt
  obtain ⟨isTmp, -⟩ := At.node_iff.mp leftAt
  have rotatedAt := holding.currentAt.rotateRight (holding.nodup_tree distinct)
  rw [Locals.rotateRight, isCurrent, isTmp]
  exact holding.rotated distinct (by simp) (by simp) rfl rotatedAt (by simp)

theorem rotateLeft (distinct : nodes.Nodup)
    (holding : Holding memory nodes locals before (.node node left (.node tmp inner outer))
      after) :
    Holding memory nodes locals.rotateLeft before (.node tmp (.node node left inner) outer)
      after := by
  obtain ⟨isCurrent, isNode, leftAt, rightAt⟩ := At.node_iff.mp holding.currentAt
  obtain ⟨isTmp, -⟩ := At.node_iff.mp rightAt
  have rotatedAt := holding.currentAt.rotateLeft (holding.nodup_tree distinct)
  rw [Locals.rotateLeft, isCurrent, isTmp]
  exact holding.rotated distinct (by simp) (by simp) rfl rotatedAt (by simp)

/-- Linking the end of the chain of what is after. -/
theorem setLeftOfRight (distinct : nodes.Nodup) (child : Pointer)
    (holding : Holding memory nodes locals before tree after) :
    Holding memory nodes (locals.setLeftOfRight child) before tree after ∧
      Side.right.follow (locals.setLeftOfRight child).memory
        (locals.setLeftOfRight child).dummyLeft locals.right = child ∧
      ∀ node ∈ inorder tree,
        (locals.setLeftOfRight child).memory.left node = locals.memory.left node := by
  have nodup := holding.nodup distinct
  have rightChain := holding.rightChain
  rw [Locals.setLeftOfRight]
  cases link : locals.right with
  | none =>
      rw [link] at rightChain
      refine ⟨⟨holding.currentAt, holding.leftChain, ?_, holding.perm, holding.key, holding.value,
        holding.frame⟩, rfl, fun _ _ => rfl⟩
      exact rightChain.start child
  | some last =>
      rw [link] at rightChain
      have isAfter := rightChain.link_mem
      have notInTree : last ∉ inorder tree := fun inTree =>
        (holding.apart distinct inTree).2 isAfter
      have notBefore : last ∉ chainNodes before := by
        intro isBefore
        rw [List.nodup_append] at nodup
        exact nodup.2.2 last (List.mem_append_left _ isBefore) last isAfter rfl
      have afterNodup : (chainNodes after).Nodup := (List.nodup_append.mp nodup).2.1
      refine ⟨⟨holding.currentAt.setLeft child notInTree,
        (holding.leftChain.setLeft child notBefore).1, ?_, holding.perm, holding.key,
        holding.value, ?_⟩, update_self _ _ _, ?_⟩
      · exact rightChain.linkEnd child afterNodup
      · intro node notOwned
        have different : node ≠ last := by
          rintro rfl
          exact notOwned (holding.mem_nodes (by simp [isAfter]))
        exact ⟨(update_of_ne different _ _).trans (holding.frame node notOwned).1,
          (holding.frame node notOwned).2⟩
      · intro node inTree
        apply update_of_ne
        rintro rfl
        exact notInTree inTree

/-- Linking the end of the chain of what is before. -/
theorem setRightOfLeft (distinct : nodes.Nodup) (child : Pointer)
    (holding : Holding memory nodes locals before tree after) :
    Holding memory nodes (locals.setRightOfLeft child) before tree after ∧
      Side.left.follow (locals.setRightOfLeft child).memory
        (locals.setRightOfLeft child).dummyRight locals.left = child ∧
      ∀ node ∈ inorder tree,
        (locals.setRightOfLeft child).memory.right node = locals.memory.right node := by
  have nodup := holding.nodup distinct
  have leftChain := holding.leftChain
  rw [Locals.setRightOfLeft]
  cases link : locals.left with
  | none =>
      rw [link] at leftChain
      refine ⟨⟨holding.currentAt, ?_, holding.rightChain, holding.perm, holding.key, holding.value,
        holding.frame⟩, rfl, fun _ _ => rfl⟩
      exact leftChain.start child
  | some last =>
      rw [link] at leftChain
      have isBefore := leftChain.link_mem
      have notInTree : last ∉ inorder tree :=
        fun inTree => (holding.apart distinct inTree).1 isBefore
      have notAfter : last ∉ chainNodes after := by
        intro isAfter
        rw [List.nodup_append] at nodup
        exact nodup.2.2 last (List.mem_append_left _ isBefore) last isAfter rfl
      have beforeNodup : (chainNodes before).Nodup :=
        (List.nodup_append.mp (List.nodup_append.mp nodup).1).1
      refine ⟨⟨holding.currentAt.setRight child notInTree, ?_,
        (holding.rightChain.setRight child notAfter).1, holding.perm, holding.key, holding.value,
        ?_⟩, update_self _ _ _, ?_⟩
      · exact leftChain.linkEnd child beforeNodup
      · intro node notOwned
        have different : node ≠ last := by
          rintro rfl
          exact notOwned (holding.mem_nodes (by simp [isBefore]))
        exact ⟨(holding.frame node notOwned).1,
          (update_of_ne different _ _).trans (holding.frame node notOwned).2⟩
      · intro node inTree
        apply update_of_ne
        rintro rfl
        exact notInTree inTree

@[simp] theorem right_setLeftOfRight (locals : Locals Span Value) (child : Pointer) :
    (locals.setLeftOfRight child).right = locals.right := by
  rw [Locals.setLeftOfRight]
  cases locals.right <;> rfl

@[simp] theorem left_setRightOfLeft (locals : Locals Span Value) (child : Pointer) :
    (locals.setRightOfLeft child).left = locals.left := by
  rw [Locals.setRightOfLeft]
  cases locals.left <;> rfl

@[simp] theorem left_setLeftOfRight (locals : Locals Span Value) (child : Pointer) :
    (locals.setLeftOfRight child).left = locals.left := by
  rw [Locals.setLeftOfRight]
  cases locals.right <;> rfl

@[simp] theorem current_setLeftOfRight (locals : Locals Span Value) (child : Pointer) :
    (locals.setLeftOfRight child).current = locals.current := by
  rw [Locals.setLeftOfRight]
  cases locals.right <;> rfl

@[simp] theorem current_setRightOfLeft (locals : Locals Span Value) (child : Pointer) :
    (locals.setRightOfLeft child).current = locals.current := by
  rw [Locals.setRightOfLeft]
  cases locals.left <;> rfl

@[simp] theorem left_memory_setRightOfLeft (locals : Locals Span Value) (child : Pointer) :
    (locals.setRightOfLeft child).memory.left = locals.memory.left := by
  rw [Locals.setRightOfLeft]
  cases locals.left <;> rfl

@[simp] theorem right_memory_setLeftOfRight (locals : Locals Span Value) (child : Pointer) :
    (locals.setLeftOfRight child).memory.right = locals.memory.right := by
  rw [Locals.setLeftOfRight]
  cases locals.right <;> rfl

/-- Linking one chain leaves where the other ends. -/
theorem follow_setLeftOfRight (locals : Locals Span Value) (child : Pointer)
    (link : Option Pointer) :
    Side.left.follow (locals.setLeftOfRight child).memory (locals.setLeftOfRight child).dummyRight
        link = Side.left.follow locals.memory locals.dummyRight link := by
  rw [Locals.setLeftOfRight]
  cases locals.right <;> rfl

/-- Linking right: the current node and its right subtree go to the chain of what is after. -/
theorem linkRight (distinct : nodes.Nodup)
    (holding : Holding memory nodes locals before (.node node left right) after) :
    Holding memory nodes locals.linkRight before left ((node, right) :: after) := by
  obtain ⟨isCurrent, isNode, -⟩ := At.node_iff.mp holding.currentAt
  obtain ⟨linked, followed, sameLeft⟩ := holding.setLeftOfRight distinct locals.current
  obtain ⟨-, -, leftAt, rightAt⟩ := At.node_iff.mp linked.currentAt
  refine ⟨?_, linked.leftChain, ?_, ?_, linked.key, linked.value, linked.frame⟩
  · rw [Locals.linkRight, isCurrent]
    rw [isCurrent] at leftAt
    exact leftAt
  · refine ⟨congrArg some isCurrent, isNode, rightAt, locals.right, ?_, followed.trans isCurrent⟩
    have chain := linked.rightChain
    rw [right_setLeftOfRight] at chain
    exact chain
  · have same : chainNodes before ++ inorder left ++ chainNodes ((node, right) :: after) =
        chainNodes before ++ inorder (.node node left right) ++ chainNodes after := by
      simp
    rw [same]
    exact linked.perm

/-- Linking left: the current node and its left subtree go to the chain of what is before. -/
theorem linkLeft (distinct : nodes.Nodup)
    (holding : Holding memory nodes locals before (.node node left right) after) :
    Holding memory nodes locals.linkLeft ((node, left) :: before) right after := by
  obtain ⟨isCurrent, isNode, -⟩ := At.node_iff.mp holding.currentAt
  obtain ⟨linked, followed, sameRight⟩ := holding.setRightOfLeft distinct locals.current
  obtain ⟨-, -, leftAt, rightAt⟩ := At.node_iff.mp linked.currentAt
  refine ⟨?_, ?_, linked.rightChain, ?_, linked.key, linked.value, linked.frame⟩
  · rw [Locals.linkLeft, isCurrent]
    rw [isCurrent] at rightAt
    exact rightAt
  · refine ⟨congrArg some isCurrent, isNode, leftAt, locals.left, ?_, followed.trans isCurrent⟩
    have chain := linked.leftChain
    rw [left_setRightOfLeft] at chain
    exact chain
  · have same : (chainNodes ((node, left) :: before) ++ inorder right ++ chainNodes after).Perm
        (chainNodes before ++ inorder (.node node left right) ++ chainNodes after) := by
      apply List.Perm.append_right
      rw [List.perm_iff_count]
      intro other
      simp only [chainNodes_cons, inorder_node, List.count_append, List.count_cons]
      omega
    exact same.trans linked.perm

/-- The loop ends at the node at which splaying stops, with the same nodes passed. -/
theorem loop_spec (distinct : nodes.Nodup) (compare : Span → Ordering) {rounds : ℕ}
    (holding : Holding memory nodes locals before tree after) (nonempty : tree ≠ .nil)
    (enough : tree.numNodes ≤ rounds) :
    ∃ final finalBefore finalAfter node left right,
      Locals.loop compare rounds locals = some final ∧
      Holding memory nodes final finalBefore (.node node left right) finalAfter ∧
      splayFrom (fun node => compare (memory.key node)) tree before after =
        assemble finalBefore finalAfter node left right := by
  have compareAt : ∀ {locals : Locals Span Value} {before tree after},
      Holding memory nodes locals before tree after → ∀ node,
      locals.compareAt compare node = compare (memory.key node) := by
    intro locals before tree after holding node
    rw [Locals.compareAt, holding.key]
  have positive : ∀ {rounds : ℕ} {node : Pointer} {left right : BinaryTree Pointer},
      (BinaryTree.node node left right).numNodes ≤ rounds → ∃ fewer, rounds = fewer + 1 :=
    fun enough => Nat.exists_eq_add_one.mpr (Nat.lt_of_lt_of_le (Nat.succ_pos _) enough)
  fun_induction splayFrom (fun node => compare (memory.key node)) tree before after
      generalizing locals rounds with
  | case1 => exact absurd rfl nonempty
  | case2 current right before after isLt =>
      obtain ⟨rounds, rfl⟩ := positive enough
      obtain ⟨isCurrent, -, leftAt, -⟩ := At.node_iff.mp holding.currentAt
      refine ⟨locals, before, after, current, .nil, right, ?_, holding, rfl⟩
      rw [Locals.loop, compareAt holding, isCurrent, isLt]
      exact if_pos (leftAt.eq_zero_iff.mpr rfl)
  | case3 current right before after isLt tmp inner tmpLt =>
      obtain ⟨rounds, rfl⟩ := positive enough
      obtain ⟨isCurrent, -, leftAt, -⟩ := At.node_iff.mp holding.currentAt
      obtain ⟨isTmp, isNode, -⟩ := At.node_iff.mp leftAt
      have rotated := holding.rotateRight distinct
      obtain ⟨isRotated, -, outerAt, -⟩ := At.node_iff.mp rotated.currentAt
      refine ⟨locals.rotateRight, before, after, tmp, .nil, .node current inner right, ?_, rotated,
        rfl⟩
      rw [Locals.loop, compareAt holding, isCurrent, isLt, isTmp]
      dsimp only
      rw [compareAt holding, if_neg isNode, if_pos tmpLt, isRotated]
      exact if_pos (outerAt.eq_zero_iff.mpr rfl)
  | case4 current right before after isLt tmp inner tmpLt next nextLeft nextRight
      inductionHypothesis =>
      obtain ⟨rounds, rfl⟩ := positive enough
      obtain ⟨isCurrent, -, leftAt, -⟩ := At.node_iff.mp holding.currentAt
      obtain ⟨isTmp, isNode, -⟩ := At.node_iff.mp leftAt
      have rotated := holding.rotateRight distinct
      obtain ⟨isRotated, -, outerAt, -⟩ := At.node_iff.mp rotated.currentAt
      have fewer : (BinaryTree.node next nextLeft nextRight).numNodes ≤ rounds := by
        simp only [BinaryTree.numNodes] at enough ⊢
        omega
      obtain ⟨final, finalBefore, finalAfter, node, left, finalRight, ends, kept, same⟩ :=
        inductionHypothesis (rotated.linkRight distinct) (by rintro ⟨⟩) fewer
      refine ⟨final, finalBefore, finalAfter, node, left, finalRight, ?_, kept, same⟩
      rw [Locals.loop, compareAt holding, isCurrent, isLt, isTmp]
      dsimp only
      rw [compareAt holding, if_neg isNode, if_pos tmpLt, isRotated,
        if_neg (mt outerAt.eq_zero_iff.mp (by rintro ⟨⟩))]
      exact ends
  | case5 current right before after isLt tmp outer inner notLt inductionHypothesis =>
      obtain ⟨rounds, rfl⟩ := positive enough
      obtain ⟨isCurrent, -, leftAt, -⟩ := At.node_iff.mp holding.currentAt
      obtain ⟨isTmp, isNode, -⟩ := At.node_iff.mp leftAt
      have fewer : (BinaryTree.node tmp outer inner).numNodes ≤ rounds := by
        simp only [BinaryTree.numNodes] at enough ⊢
        omega
      obtain ⟨final, finalBefore, finalAfter, node, left, finalRight, ends, kept, same⟩ :=
        inductionHypothesis (holding.linkRight distinct) (by rintro ⟨⟩) fewer
      refine ⟨final, finalBefore, finalAfter, node, left, finalRight, ?_, kept, same⟩
      rw [Locals.loop, compareAt holding, isCurrent, isLt, isTmp]
      dsimp only
      rw [compareAt holding, if_neg isNode, if_neg notLt]
      exact ends
  | case6 current left right before after isEq =>
      obtain ⟨rounds, rfl⟩ := positive enough
      obtain ⟨isCurrent, -⟩ := At.node_iff.mp holding.currentAt
      refine ⟨locals, before, after, current, left, right, ?_, holding, rfl⟩
      rw [Locals.loop, compareAt holding, isCurrent, isEq]
  | case7 current left before after isGt =>
      obtain ⟨rounds, rfl⟩ := positive enough
      obtain ⟨isCurrent, -, -, rightAt⟩ := At.node_iff.mp holding.currentAt
      refine ⟨locals, before, after, current, left, .nil, ?_, holding, rfl⟩
      rw [Locals.loop, compareAt holding, isCurrent, isGt]
      exact if_pos (rightAt.eq_zero_iff.mpr rfl)
  | case8 current left before after isGt tmp inner tmpGt =>
      obtain ⟨rounds, rfl⟩ := positive enough
      obtain ⟨isCurrent, -, -, rightAt⟩ := At.node_iff.mp holding.currentAt
      obtain ⟨isTmp, isNode, -⟩ := At.node_iff.mp rightAt
      have rotated := holding.rotateLeft distinct
      obtain ⟨isRotated, -, -, outerAt⟩ := At.node_iff.mp rotated.currentAt
      refine ⟨locals.rotateLeft, before, after, tmp, .node current left inner, .nil, ?_, rotated,
        rfl⟩
      rw [Locals.loop, compareAt holding, isCurrent, isGt, isTmp]
      dsimp only
      rw [compareAt holding, if_neg isNode, if_pos tmpGt, isRotated]
      exact if_pos (outerAt.eq_zero_iff.mpr rfl)
  | case9 current left before after isGt tmp inner tmpGt next nextLeft nextRight
      inductionHypothesis =>
      obtain ⟨rounds, rfl⟩ := positive enough
      obtain ⟨isCurrent, -, -, rightAt⟩ := At.node_iff.mp holding.currentAt
      obtain ⟨isTmp, isNode, -⟩ := At.node_iff.mp rightAt
      have rotated := holding.rotateLeft distinct
      obtain ⟨isRotated, -, -, outerAt⟩ := At.node_iff.mp rotated.currentAt
      have fewer : (BinaryTree.node next nextLeft nextRight).numNodes ≤ rounds := by
        simp only [BinaryTree.numNodes] at enough ⊢
        omega
      obtain ⟨final, finalBefore, finalAfter, node, finalLeft, right, ends, kept, same⟩ :=
        inductionHypothesis (rotated.linkLeft distinct) (by rintro ⟨⟩) fewer
      refine ⟨final, finalBefore, finalAfter, node, finalLeft, right, ?_, kept, same⟩
      rw [Locals.loop, compareAt holding, isCurrent, isGt, isTmp]
      dsimp only
      rw [compareAt holding, if_neg isNode, if_pos tmpGt, isRotated,
        if_neg (mt outerAt.eq_zero_iff.mp (by rintro ⟨⟩))]
      exact ends
  | case10 current left before after isGt tmp inner outer notGt inductionHypothesis =>
      obtain ⟨rounds, rfl⟩ := positive enough
      obtain ⟨isCurrent, -, -, rightAt⟩ := At.node_iff.mp holding.currentAt
      obtain ⟨isTmp, isNode, -⟩ := At.node_iff.mp rightAt
      have fewer : (BinaryTree.node tmp inner outer).numNodes ≤ rounds := by
        simp only [BinaryTree.numNodes] at enough ⊢
        omega
      obtain ⟨final, finalBefore, finalAfter, node, finalLeft, right, ends, kept, same⟩ :=
        inductionHypothesis (holding.linkLeft distinct) (by rintro ⟨⟩) fewer
      refine ⟨final, finalBefore, finalAfter, node, finalLeft, right, ?_, kept, same⟩
      rw [Locals.loop, compareAt holding, isCurrent, isGt, isTmp]
      dsimp only
      rw [compareAt holding, if_neg isNode, if_neg notGt]
      exact ends

/-- Where both chains are linked to the subtrees of the current node, the dummy node has the two
sides of the tree. -/
theorem assembled (distinct : nodes.Nodup)
    (holding : Holding memory nodes locals before (.node node left right) after)
    (leftEnd : Side.left.follow locals.memory locals.dummyRight locals.left =
      locals.memory.left node)
    (rightEnd : Side.right.follow locals.memory locals.dummyLeft locals.right =
      locals.memory.right node) :
    At ((locals.memory.setLeft node locals.dummyRight).setRight node locals.dummyLeft) node
      (assemble before after node left right) := by
  obtain ⟨-, isNode, leftAt, rightAt⟩ := At.node_iff.mp holding.currentAt
  obtain ⟨notBefore, notAfter⟩ : node ∉ chainNodes before ∧ node ∉ chainNodes after :=
    holding.apart distinct (by simp)
  have nodup := holding.nodup_tree distinct
  simp only [inorder_node, List.nodup_append, List.nodup_cons, List.mem_cons] at nodup
  have notLeft : node ∉ inorder left := fun inLeft => nodup.2.2 node inLeft node (.inl rfl) rfl
  have notRight : node ∉ inorder right := nodup.2.1.1
  obtain ⟨leftOnce, leftFollowOnce⟩ := holding.leftChain.setLeft locals.dummyRight notBefore
  obtain ⟨leftChain, leftFollow⟩ := leftOnce.setRight locals.dummyLeft notBefore
  obtain ⟨rightOnce, rightFollowOnce⟩ := holding.rightChain.setLeft locals.dummyRight notAfter
  obtain ⟨rightChain, rightFollow⟩ := rightOnce.setRight locals.dummyLeft notAfter
  refine At.node_iff.mpr ⟨rfl, isNode, ?_, ?_⟩
  · have isLeft : ((locals.memory.setLeft node locals.dummyRight).setRight node
        locals.dummyLeft).left node = locals.dummyRight := update_self _ _ _
    rw [isLeft]
    apply at_hangLeft leftChain
    rw [leftFollow, leftFollowOnce, leftEnd]
    exact (leftAt.setLeft _ notLeft).setRight _ notLeft
  · have isRight : ((locals.memory.setLeft node locals.dummyRight).setRight node
        locals.dummyLeft).right node = locals.dummyLeft := update_self _ _ _
    rw [isRight]
    apply at_hangRight rightChain
    rw [rightFollow, rightFollowOnce, rightEnd]
    exact (rightAt.setLeft _ notRight).setRight _ notRight

/-- What comes after the loop puts the tree together. -/
theorem finish (distinct : nodes.Nodup)
    (holding : Holding memory nodes locals before (.node node left right) after) :
    At locals.finish.memory node (assemble before after node left right) ∧
      locals.finish.memory.key = memory.key ∧ locals.finish.memory.value = memory.value ∧
      ∀ other, other ∉ nodes → locals.finish.memory.left other = memory.left other ∧
        locals.finish.memory.right other = memory.right other := by
  obtain ⟨isCurrent, isNode, -⟩ := At.node_iff.mp holding.currentAt
  obtain ⟨leftLinked, followedLeft, -⟩ := holding.setRightOfLeft distinct
    (locals.memory.left node)
  have sameLeft := left_memory_setRightOfLeft locals (locals.memory.left node)
  have sameLink := left_setRightOfLeft locals (locals.memory.left node)
  rw [Locals.finish, isCurrent]
  dsimp only
  generalize locals.setRightOfLeft (locals.memory.left node) = first
    at leftLinked followedLeft sameLeft sameLink ⊢
  obtain ⟨linked, followedRight, keptLeft⟩ := leftLinked.setLeftOfRight distinct
    (first.memory.right node)
  have leftEnd := follow_setLeftOfRight first (first.memory.right node) first.left
  have sameRight := right_memory_setLeftOfRight first (first.memory.right node)
  have sameLeftLink := left_setLeftOfRight first (first.memory.right node)
  have sameRightLink := right_setLeftOfRight first (first.memory.right node)
  have leftOfNode := keptLeft node (by simp)
  generalize first.setLeftOfRight (first.memory.right node) = second
    at linked followedRight leftEnd sameRight sameLeftLink sameRightLink leftOfNode ⊢
  have owned : node ∈ nodes := linked.mem_nodes (by simp)
  refine ⟨linked.assembled distinct ?_ ?_, linked.key, linked.value, ?_⟩
  · rw [sameLeftLink, leftEnd, sameLink, followedLeft, leftOfNode, sameLeft]
  · rw [sameRightLink, followedRight, sameRight]
  · intro other notOwned
    have different : other ≠ node := fun same => notOwned (same ▸ owned)
    have kept := linked.frame other notOwned
    exact ⟨(update_of_ne different _ _).trans kept.1, (update_of_ne different _ _).trans kept.2⟩

end Holding

/-- Splaying in memory does to the tree what splaying does, if it has a round for each node. Keys
and values stay, and so do the nodes of other trees. -/
theorem splay_spec {memory : Memory Span Value} {root : Pointer} {tree : BinaryTree Pointer}
    (isAt : At memory root tree) (distinct : (inorder tree).Nodup) (compare : Span → Ordering)
    {rounds : ℕ} (enough : tree.numNodes ≤ rounds) :
    ∃ after newRoot, splay compare rounds memory root = some (after, newRoot) ∧
      At after newRoot (SplayTree.splay (fun node => compare (memory.key node)) tree) ∧
      after.key = memory.key ∧ after.value = memory.value ∧
      ∀ other, other ∉ inorder tree →
        after.left other = memory.left other ∧ after.right other = memory.right other := by
  by_cases isNull : root = 0
  · have isNil := isAt.eq_zero_iff.mp isNull
    subst isNil isNull
    exact ⟨memory, 0, rfl, .nil, rfl, rfl, fun _ _ => ⟨rfl, rfl⟩⟩
  · have nonempty : tree ≠ .nil := mt isAt.eq_zero_iff.mpr isNull
    have holding : Holding memory (inorder tree)
        { memory := memory, dummyLeft := 0, dummyRight := 0, left := none, right := none,
          current := root } [] tree [] :=
      ⟨isAt, rfl, rfl, by simp, rfl, rfl, fun _ _ => ⟨rfl, rfl⟩⟩
    obtain ⟨final, before, after, node, left, right, ends, kept, same⟩ :=
      holding.loop_spec distinct compare nonempty enough
    obtain ⟨assembled, key, value, frame⟩ := kept.finish distinct
    obtain ⟨isCurrent, -⟩ := At.node_iff.mp kept.currentAt
    refine ⟨final.finish.memory, final.current, ?_, ?_, key, value, frame⟩
    · rw [splay, if_neg isNull, ends]
      rfl
    · rw [isCurrent, SplayTree.splay, same]
      exact assembled

end Whippet.Splay
