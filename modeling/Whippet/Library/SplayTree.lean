import Mathlib.Data.List.Basic
import Mathlib.Data.Tree.Basic

/-!
Top-down splaying.

A tree is searched with a function that compares the key with a node. Splaying goes down the tree
and hangs what it passes on two trees, of the nodes before and of the nodes after the key; in the
end these are the subtrees of the node it stops at.

Owns: splaying, insertion and removal, that splaying keeps the nodes in order, and that it separates
the nodes by the key. Does not own: costs, and what the keys are.
-/

namespace Whippet.SplayTree

variable {Node : Type*}

/-- The nodes from left to right. -/
def inorder : BinaryTree Node → List Node
  | .nil => []
  | .node node left right => inorder left ++ node :: inorder right

@[simp] theorem inorder_nil : inorder (.nil : BinaryTree Node) = [] := rfl

@[simp] theorem inorder_node (node : Node) (left right : BinaryTree Node) :
    inorder (.node node left right) = inorder left ++ node :: inorder right := rfl

theorem length_inorder (tree : BinaryTree Node) : (inorder tree).length = tree.numNodes := by
  induction tree with
  | nil => rfl
  | node root left right leftHypothesis rightHypothesis =>
      rw [inorder_node, List.length_append, List.length_cons, leftHypothesis, rightHypothesis,
        BinaryTree.numNodes]
      omega

/-! ## Splaying -/

/-- The nodes passed to their right with their left subtrees, the last one first, and `tree` to the
right of them all. -/
def hangLeft : List (Node × BinaryTree Node) → BinaryTree Node → BinaryTree Node
  | [], tree => tree
  | (node, left) :: passed, tree => hangLeft passed (.node node left tree)

/-- The same for the nodes passed to their left. -/
def hangRight : List (Node × BinaryTree Node) → BinaryTree Node → BinaryTree Node
  | [], tree => tree
  | (node, right) :: passed, tree => hangRight passed (.node node tree right)

/-- The node at which splaying stops becomes the root. -/
def assemble (before after : List (Node × BinaryTree Node)) (current : Node)
    (left right : BinaryTree Node) : BinaryTree Node :=
  .node current (hangLeft before left) (hangRight after right)

/-- The loop. `compare` says where the key is from a node. -/
def splayFrom (compare : Node → Ordering) : BinaryTree Node → List (Node × BinaryTree Node) →
    List (Node × BinaryTree Node) → BinaryTree Node
  | .nil, _, _ => .nil
  | .node current left right, before, after =>
      match compare current with
      | .lt =>
          match left with
          | .nil => assemble before after current .nil right
          | .node tmp outer inner =>
              if compare tmp = .lt then
                -- Rotate right.
                match outer with
                | .nil => assemble before after tmp .nil (.node current inner right)
                | .node next nextLeft nextRight =>
                    splayFrom compare (.node next nextLeft nextRight) before
                      ((tmp, .node current inner right) :: after)
              else splayFrom compare (.node tmp outer inner) before ((current, right) :: after)
      | .eq => assemble before after current left right
      | .gt =>
          match right with
          | .nil => assemble before after current left .nil
          | .node tmp inner outer =>
              if compare tmp = .gt then
                -- Rotate left.
                match outer with
                | .nil => assemble before after tmp (.node current left inner) .nil
                | .node next nextLeft nextRight =>
                    splayFrom compare (.node next nextLeft nextRight)
                      ((tmp, .node current left inner) :: before) after
              else splayFrom compare (.node tmp inner outer) ((current, left) :: before) after

def splay (compare : Node → Ordering) (tree : BinaryTree Node) : BinaryTree Node :=
  splayFrom compare tree [] []

/-! ## Operations -/

/-- The node at the key. -/
def lookup (compare : Node → Ordering) (tree : BinaryTree Node) : BinaryTree Node × Option Node :=
  match splay compare tree with
  | .nil => (.nil, none)
  | .node root left right =>
      (.node root left right, if compare root = .eq then some root else none)

/-- Insertion at a key. A node that is at the key already stays, and is returned. -/
def insert (compare : Node → Ordering) (fresh : Node) (tree : BinaryTree Node) :
    BinaryTree Node × Node :=
  match splay compare tree with
  | .nil => (.node fresh .nil .nil, fresh)
  | .node root left right =>
      match compare root with
      | .lt => (.node fresh left (.node root .nil right), fresh)
      | .eq => (.node root left right, root)
      | .gt => (.node fresh (.node root left .nil) right, fresh)

/-- Removal of the root after splaying. Splaying once more leaves the new root without a right
child. -/
def remove (compare : Node → Ordering) (tree : BinaryTree Node) :
    Option (Node × BinaryTree Node) :=
  match splay compare tree with
  | .nil => none
  | .node removed .nil right => some (removed, right)
  | .node removed left right =>
      match splay compare left with
      | .nil => none
      | .node root newLeft _ => some (removed, .node root newLeft right)

/-! ## Order -/

section Order

variable {compare : Node → Ordering} {tree left right : BinaryTree Node} {root node : Node}
variable {before after : List (Node × BinaryTree Node)}

theorem inorder_hangLeft (before : List (Node × BinaryTree Node)) (tree : BinaryTree Node) :
    inorder (hangLeft before tree) = inorder (hangLeft before .nil) ++ inorder tree := by
  induction before generalizing tree with
  | nil => rfl
  | cons passed rest inductionHypothesis =>
      rw [hangLeft, hangLeft, inductionHypothesis,
        inductionHypothesis (.node passed.1 passed.2 .nil)]
      simp

theorem inorder_hangRight (after : List (Node × BinaryTree Node)) (tree : BinaryTree Node) :
    inorder (hangRight after tree) = inorder tree ++ inorder (hangRight after .nil) := by
  induction after generalizing tree with
  | nil => simp [hangRight]
  | cons passed rest inductionHypothesis =>
      rw [hangRight, hangRight, inductionHypothesis,
        inductionHypothesis (.node passed.1 .nil passed.2)]
      simp

theorem inorder_assemble : inorder (assemble before after node left right) =
    inorder (hangLeft before .nil) ++ (inorder left ++ node :: inorder right) ++
      inorder (hangRight after .nil) := by
  rw [assemble, inorder_node, inorder_hangLeft, inorder_hangRight]
  simp

/-- Splaying keeps the nodes in order. -/
theorem inorder_splayFrom (compare : Node → Ordering) (tree : BinaryTree Node)
    (before after : List (Node × BinaryTree Node)) (nonempty : tree ≠ .nil) :
    inorder (splayFrom compare tree before after) =
      inorder (hangLeft before .nil) ++ inorder tree ++ inorder (hangRight after .nil) := by
  fun_induction splayFrom compare tree before after <;>
    simp_all [inorder_assemble, hangLeft, hangRight, inorder_hangLeft _ (.node _ _ _),
      inorder_hangRight _ (.node _ _ _)]

theorem inorder_splay (compare : Node → Ordering) (tree : BinaryTree Node) :
    inorder (splay compare tree) = inorder tree := by
  cases tree with
  | nil => rfl
  | node root left right =>
      rw [splay, inorder_splayFrom compare (.node root left right) [] [] nofun]
      simp [hangLeft, hangRight]

theorem splay_eq_nil_iff : splay compare tree = .nil ↔ tree = .nil := by
  have same := inorder_splay compare tree
  constructor
  · intro isNil
    rw [isNil] at same
    cases tree with
    | nil => rfl
    | node root left right => simp at same
  · rintro rfl
    rfl

end Order

/-! ## Separation -/

/-- The key cuts the nodes in two: of two nodes, the first is before the key or the second is after
it. -/
def Cut (compare : Node → Ordering) (nodes : List Node) : Prop :=
  nodes.Pairwise fun first second => compare first = .gt ∨ compare second = .lt

/-- The root parts the nodes before the key from those after it. -/
def Parted (compare : Node → Ordering) : BinaryTree Node → Prop
  | .nil => True
  | .node _ left right =>
      (∀ node ∈ inorder left, compare node = .gt) ∧ ∀ node ∈ inorder right, compare node = .lt

section Separation

variable {compare : Node → Ordering} {tree left right : BinaryTree Node} {root node fresh : Node}
variable {before after : List (Node × BinaryTree Node)}

theorem parted_assemble
    (cut : ∀ first ∈ inorder left, compare first = .gt)
    (rest : ∀ second ∈ inorder right, compare second = .lt)
    (isBefore : ∀ node ∈ inorder (hangLeft before .nil), compare node = .gt)
    (isAfter : ∀ node ∈ inorder (hangRight after .nil), compare node = .lt) :
    Parted compare (assemble before after root left right) := by
  constructor
  · intro node member
    rw [inorder_hangLeft, List.mem_append] at member
    exact member.elim (isBefore node) (cut node)
  · intro node member
    rw [inorder_hangRight, List.mem_append] at member
    exact member.elim (rest node) (isAfter node)

/-- Nodes after a node that the key is not behind are after the key. -/
theorem Cut.after_lt {first second : List Node}
    (cut : Cut compare (first ++ node :: second)) (notBehind : compare node ≠ .gt) :
    ∀ other ∈ second, compare other = .lt := by
  intro other member
  have pairs := (List.pairwise_append.mp cut).2.1
  exact ((List.pairwise_cons.mp pairs).1 other member).resolve_left notBehind

/-- Nodes before a node that the key is not ahead of are before the key. -/
theorem Cut.before_gt {first second : List Node}
    (cut : Cut compare (first ++ node :: second)) (notAhead : compare node ≠ .lt) :
    ∀ other ∈ first, compare other = .gt := by
  intro other member
  have pairs := (List.pairwise_append.mp cut).2.2 other member node List.mem_cons_self
  exact pairs.resolve_right notAhead

theorem Cut.sublist {nodes part : List Node} (cut : Cut compare nodes)
    (isPart : part.Sublist nodes) : Cut compare part :=
  List.Pairwise.sublist isPart cut

/-- Hanging a node that is before the key with its left subtree. -/
theorem before_cons (isBefore : ∀ node ∈ inorder (hangLeft before .nil), compare node = .gt)
    (rootGt : compare root = .gt) (leftGt : ∀ node ∈ inorder left, compare node = .gt) :
    ∀ node ∈ inorder (hangLeft ((root, left) :: before) .nil), compare node = .gt := by
  intro node member
  rw [hangLeft, inorder_hangLeft, inorder_node, inorder_nil, List.mem_append, List.mem_append,
    List.mem_singleton] at member
  rcases member with inBefore | inLeft | rfl
  · exact isBefore node inBefore
  · exact leftGt node inLeft
  · exact rootGt

/-- Hanging a node that is after the key with its right subtree. -/
theorem after_cons (isAfter : ∀ node ∈ inorder (hangRight after .nil), compare node = .lt)
    (rootLt : compare root = .lt) (rightLt : ∀ node ∈ inorder right, compare node = .lt) :
    ∀ node ∈ inorder (hangRight ((root, right) :: after) .nil), compare node = .lt := by
  intro node member
  rw [hangRight, inorder_hangRight, inorder_node, inorder_nil, List.nil_append, List.cons_append,
    List.mem_cons, List.mem_append] at member
  rcases member with rfl | inRight | inAfter
  · exact rootLt
  · exact rightLt node inRight
  · exact isAfter node inAfter

/-- Splaying a tree that the key cuts in two parts it at the root. -/
theorem parted_splayFrom (compare : Node → Ordering) (tree : BinaryTree Node)
    (before after : List (Node × BinaryTree Node)) (cut : Cut compare (inorder tree))
    (isBefore : ∀ node ∈ inorder (hangLeft before .nil), compare node = .gt)
    (isAfter : ∀ node ∈ inorder (hangRight after .nil), compare node = .lt) :
    Parted compare (splayFrom compare tree before after) := by
  fun_induction splayFrom compare tree before after with
  | case1 => trivial
  | case2 current right before after isLt =>
      apply parted_assemble (by simp) _ isBefore isAfter
      exact cut.after_lt (by rw [isLt]; decide)
  | case3 current right before after isLt tmp inner tmpLt =>
      have cutTmp : Cut compare ([] ++ tmp :: inorder (.node current inner right)) := by
        simpa using cut
      apply parted_assemble (by simp) _ isBefore isAfter
      exact cutTmp.after_lt (by rw [tmpLt]; decide)
  | case4 current right before after isLt tmp inner tmpLt next nextLeft nextRight
      inductionHypothesis =>
      have cutTmp : Cut compare (inorder (.node next nextLeft nextRight) ++
          tmp :: inorder (.node current inner right)) := by
        simpa using cut
      apply inductionHypothesis (cutTmp.sublist (List.sublist_append_left _ _)) isBefore
      exact after_cons isAfter tmpLt (cutTmp.after_lt (by rw [tmpLt]; decide))
  | case5 current right before after isLt tmp outer inner notLt inductionHypothesis =>
      apply inductionHypothesis (cut.sublist (List.sublist_append_left _ _)) isBefore
      exact after_cons isAfter isLt (cut.after_lt (by rw [isLt]; decide))
  | case6 current left right before after isEq =>
      apply parted_assemble _ _ isBefore isAfter
      · exact cut.before_gt (by rw [isEq]; decide)
      · exact cut.after_lt (by rw [isEq]; decide)
  | case7 current left before after isGt =>
      apply parted_assemble _ (by simp) isBefore isAfter
      exact cut.before_gt (by rw [isGt]; decide)
  | case8 current left before after isGt tmp inner tmpGt =>
      have cutTmp : Cut compare (inorder (.node current left inner) ++ tmp :: []) := by
        simpa using cut
      apply parted_assemble _ (by simp) isBefore isAfter
      exact cutTmp.before_gt (by rw [tmpGt]; decide)
  | case9 current left before after isGt tmp inner tmpGt next nextLeft nextRight
      inductionHypothesis =>
      have cutTmp : Cut compare (inorder (.node current left inner) ++
          tmp :: inorder (.node next nextLeft nextRight)) := by
        simpa using cut
      apply inductionHypothesis
        (cutTmp.sublist ((List.sublist_cons_self _ _).trans (List.sublist_append_right _ _))) _
        isAfter
      exact before_cons isBefore tmpGt (cutTmp.before_gt (by rw [tmpGt]; decide))
  | case10 current left before after isGt tmp inner outer notGt inductionHypothesis =>
      apply inductionHypothesis
        (cut.sublist ((List.sublist_cons_self _ _).trans (List.sublist_append_right _ _))) _ isAfter
      exact before_cons isBefore isGt (cut.before_gt (by rw [isGt]; decide))

theorem parted_splay (cut : Cut compare (inorder tree)) : Parted compare (splay compare tree) :=
  parted_splayFrom compare tree [] [] cut nofun nofun

/-- A node at the key is at the root after splaying. -/
theorem Parted.root_eq (parted : Parted compare (.node root left right))
    (member : node ∈ inorder (.node root left right)) (isEq : compare node = .eq) :
    root = node := by
  rw [inorder_node, List.mem_append, List.mem_cons] at member
  rcases member with inLeft | rfl | inRight
  · have isGt := parted.1 node inLeft
    rw [isEq] at isGt
    cases isGt
  · rfl
  · have isLt := parted.2 node inRight
    rw [isEq] at isLt
    cases isLt

/-! ## What the operations do -/

theorem inorder_lookup : inorder (lookup compare tree).1 = inorder tree := by
  rw [← inorder_splay compare tree, lookup]
  cases splay compare tree <;> rfl

/-- Looking a key up finds the node at it. -/
theorem lookup_eq_some_iff (cut : Cut compare (inorder tree)) :
    (lookup compare tree).2 = some node ↔ node ∈ inorder tree ∧ compare node = .eq := by
  have parted := parted_splay cut
  rw [← inorder_splay compare tree, lookup]
  cases splayed : splay compare tree with
  | nil => simp
  | node root left right =>
      rw [splayed] at parted
      constructor
      · intro found
        by_cases isEq : compare root = .eq
        · simp only [isEq, ↓reduceIte, Option.some.injEq] at found
          subst found
          exact ⟨by simp, isEq⟩
        · simp [isEq] at found
      · rintro ⟨member, isEq⟩
        obtain rfl := parted.root_eq member isEq
        simp [isEq]

/-- Inserting at a key that no node is at puts the node between those before and those after. -/
theorem insert_spec (cut : Cut compare (inorder tree))
    (absent : ∀ node ∈ inorder tree, compare node ≠ .eq) (fresh : Node) :
    (insert compare fresh tree).2 = fresh ∧ ∃ lower upper, inorder tree = lower ++ upper ∧
      inorder (insert compare fresh tree).1 = lower ++ fresh :: upper ∧
      (∀ node ∈ lower, compare node = .gt) ∧ ∀ node ∈ upper, compare node = .lt := by
  have parted := parted_splay cut
  rw [← inorder_splay compare tree] at absent ⊢
  rw [insert]
  cases splayed : splay compare tree with
  | nil => exact ⟨rfl, [], [], rfl, rfl, nofun, nofun⟩
  | node root left right =>
      rw [splayed] at parted absent
      have notEq := absent root (by simp)
      cases side : compare root with
      | lt =>
          simp only [side]
          refine ⟨trivial, inorder left, root :: inorder right, rfl, by simp, parted.1, ?_⟩
          exact List.forall_mem_cons.mpr ⟨side, parted.2⟩
      | eq => exact absurd side notEq
      | gt =>
          simp only [side]
          refine ⟨trivial, inorder left ++ [root], inorder right, by simp, by simp, ?_, parted.2⟩
          intro node member
          rcases List.mem_append.mp member with inLeft | isRoot
          · exact parted.1 node inLeft
          · rwa [List.mem_singleton.mp isRoot]

/-- Removing the node at the key leaves the others in order. -/
theorem remove_spec (cut : Cut compare (inorder tree)) (member : node ∈ inorder tree)
    (isEq : compare node = .eq) :
    ∃ result lower upper, remove compare tree = some (node, result) ∧
      inorder tree = lower ++ node :: upper ∧ inorder result = lower ++ upper := by
  have parted := parted_splay cut
  rw [← inorder_splay compare tree] at member ⊢
  rw [remove]
  cases splayed : splay compare tree with
  | nil =>
      rw [splayed] at member
      cases member
  | node root left right =>
      rw [splayed] at parted member
      obtain rfl := parted.root_eq member isEq
      cases left with
      | nil => exact ⟨right, [], inorder right, rfl, rfl, rfl⟩
      | node top topLeft topRight =>
          have cutLeft : Cut compare (inorder (.node top topLeft topRight)) := by
            apply List.pairwise_of_forall_mem_list
            intro first firstMember second _
            exact .inl (parted.1 first firstMember)
          have leftParted := parted_splay cutLeft
          have leftOrder := inorder_splay compare (.node top topLeft topRight)
          cases again : splay compare (.node top topLeft topRight) with
          | nil => exact absurd (splay_eq_nil_iff.mp again) nofun
          | node newRoot newLeft newRight =>
              rw [again] at leftParted leftOrder
              have noRight : inorder newRight = [] := by
                apply List.eq_nil_iff_forall_not_mem.mpr
                intro other inRight
                have isLt := leftParted.2 other inRight
                have isGt := parted.1 other (by rw [← leftOrder]; simp [inRight])
                rw [isLt] at isGt
                cases isGt
              refine ⟨.node newRoot newLeft right, inorder (.node top topLeft topRight),
                inorder right, ?_, rfl, ?_⟩
              · simp only [again]
              · rw [← leftOrder, inorder_node, inorder_node, noRight]
                simp

end Separation

end Whippet.SplayTree
