import Mathlib
import Whippet.Library.Checked
import Whippet.Splay.Loop
import Whippet.Tables.HashTable

/-!
The splay tree over spans of addresses, as an ordered map (`splay-tree.h`, with the comparison of
`large-object-space.h`).

Owns: the operations in memory with their allocation of nodes, the map that they are to be, and that
every sequence of operations has the results of the map. Does not own: what the values are.
-/

namespace Whippet.Splay

open Function SplayTree Tables

/-! ## Spans -/

/-- `struct object`: a span of addresses, with at least one. -/
structure AddressSpan where
  addr : Word
  size : Word
  nonempty : size ≠ 0
  deriving DecidableEq

namespace AddressSpan

variable (span : AddressSpan)

def Contains (addr : Word) : Prop :=
  span.addr.toNat ≤ addr.toNat ∧ addr.toNat < span.addr.toNat + span.size.toNat

instance (addr : Word) : Decidable (span.Contains addr) := inferInstanceAs (Decidable (_ ∧ _))

def Before (first second : AddressSpan) : Prop :=
  first.addr.toNat + first.size.toNat ≤ second.addr.toNat

def Apart (first second : AddressSpan) : Prop :=
  ∀ addr, ¬(first.Contains addr ∧ second.Contains addr)

theorem size_pos : 0 < span.size.toNat := by
  rw [Nat.pos_iff_ne_zero]
  intro isZero
  exact span.nonempty (BitVec.eq_of_toNat_eq isZero)

theorem contains_addr : span.Contains span.addr :=
  ⟨Nat.le_refl _, Nat.lt_add_of_pos_right span.size_pos⟩

theorem apart_iff {first second : AddressSpan} :
    first.Apart second ↔ first.Before second ∨ second.Before first := by
  constructor
  · intro apart
    have atFirst : ¬second.Contains first.addr := fun contains =>
      apart first.addr ⟨first.contains_addr, contains⟩
    have atSecond : ¬first.Contains second.addr := fun contains =>
      apart second.addr ⟨contains, second.contains_addr⟩
    simp only [Contains, Before] at *
    omega
  · rintro order addr ⟨inFirst, inSecond⟩
    simp only [Contains, Before] at *
    omega

instance (first second : AddressSpan) : Decidable (first.Apart second) :=
  decidable_of_iff (first.addr.toNat + first.size.toNat ≤ second.addr.toNat ∨
    second.addr.toNat + second.size.toNat ≤ first.addr.toNat) apart_iff.symm

end AddressSpan

def largeObjectCompare (addr : Word) (obj : AddressSpan) : Ordering :=
  if addr < obj.addr then .lt else if addr - obj.addr < obj.size then .eq else .gt

def largeObjectSpanStart (obj : AddressSpan) : Word := obj.addr

section Compare

variable {addr : Word} {obj : AddressSpan}

theorem sub_lt_size_iff (notBelow : ¬addr < obj.addr) :
    addr - obj.addr < obj.size ↔ addr.toNat < obj.addr.toNat + obj.size.toNat := by
  rw [BitVec.lt_def] at notBelow ⊢
  rw [BitVec.toNat_sub_of_le (BitVec.le_def.mpr (Nat.not_lt.mp notBelow))]
  omega

/-- What the comparison says about the place of an address. -/
theorem largeObjectCompare_cases (addr : Word) (obj : AddressSpan) :
    largeObjectCompare addr obj = .lt ∧ addr.toNat < obj.addr.toNat ∨
    largeObjectCompare addr obj = .eq ∧ obj.Contains addr ∨
    largeObjectCompare addr obj = .gt ∧ obj.addr.toNat + obj.size.toNat ≤ addr.toNat := by
  rw [largeObjectCompare]
  by_cases below : addr < obj.addr
  · rw [if_pos below]
    exact .inl ⟨rfl, below⟩
  · have above := BitVec.le_def.mp (BitVec.not_lt.mp below)
    rw [if_neg below]
    by_cases inside : addr - obj.addr < obj.size
    · rw [if_pos inside]
      exact .inr (.inl ⟨rfl, above, (sub_lt_size_iff below).mp inside⟩)
    · rw [if_neg inside]
      rw [sub_lt_size_iff below] at inside
      exact .inr (.inr ⟨rfl, Nat.not_lt.mp inside⟩)

theorem largeObjectCompare_eq_lt :
    largeObjectCompare addr obj = .lt ↔ addr.toNat < obj.addr.toNat := by
  rcases largeObjectCompare_cases addr obj with ⟨side, place⟩ | ⟨side, place⟩ | ⟨side, place⟩
  all_goals
    rw [side]
    simp only [AddressSpan.Contains, reduceCtorEq, true_iff, false_iff] at place ⊢
    omega

theorem largeObjectCompare_eq_eq : largeObjectCompare addr obj = .eq ↔ obj.Contains addr := by
  rcases largeObjectCompare_cases addr obj with ⟨side, place⟩ | ⟨side, place⟩ | ⟨side, place⟩
  all_goals
    rw [side]
    simp only [AddressSpan.Contains, reduceCtorEq, true_iff, false_iff] at place ⊢
    omega

theorem largeObjectCompare_eq_gt :
    largeObjectCompare addr obj = .gt ↔ obj.addr.toNat + obj.size.toNat ≤ addr.toNat := by
  rcases largeObjectCompare_cases addr obj with ⟨side, place⟩ | ⟨side, place⟩ | ⟨side, place⟩
  all_goals
    rw [side]
    simp only [AddressSpan.Contains, reduceCtorEq, true_iff, false_iff] at place ⊢
    omega

end Compare

/-! ## Operations in memory -/

inductive SplayFailure where
  /-- `GC_CRASH` of `SPLAY_NODE_NEW`. -/
  | outOfMemory
  /-- The loop of `SPLAY_SPLAY` has not ended in the rounds that it was given. -/
  | outOfRounds
  /-- `SPLAY_INSERT`: a node at the start of the span has another span. -/
  | keyDiffers
  /-- `SPLAY_REMOVE`: `tree->root`. -/
  | emptyTree
  deriving DecidableEq, Repr

/-- `struct SPLAY_TREE` with the memory. `allocated` are the nodes that `malloc` has returned and
that are not freed, and `mallocs` counts its calls. -/
structure Tree (Value : Type) where
  memory : Memory AddressSpan Value
  root : Pointer
  allocated : List Pointer
  mallocs : ℕ

/-- What `malloc` returns in its calls, given the nodes that are in use. -/
abbrev Malloc : Type := ℕ → List Pointer → Pointer

/-- It returns no node that is in use. -/
def Malloc.Lawful (malloc : Malloc) : Prop := ∀ calls allocated, malloc calls allocated ∉ allocated

/-- It returns null once. -/
def Malloc.Exhausted (malloc : Malloc) : Prop := ∃ calls allocated, malloc calls allocated = 0

namespace Tree

variable {Value : Type} (malloc : Malloc) (rounds : ℕ) (tree : Tree Value)

/-- The memory with a node of its own at `ret`. -/
def withNode (ret : Pointer) (key : AddressSpan) (value : Value) : Tree Value :=
  { tree with
    memory :=
      { key := update tree.memory.key ret key
        value := update tree.memory.value ret value
        left := update tree.memory.left ret 0
        right := update tree.memory.right ret 0 }
    allocated := ret :: tree.allocated
    mallocs := tree.mallocs + 1 }

def nodeNew (key : AddressSpan) (value : Value) : Outcome SplayFailure (Tree Value × Pointer) := do
  let ret := malloc tree.mallocs tree.allocated
  Outcome.check (ret ≠ 0) .outOfMemory
  pure (tree.withNode ret key value, ret)

def treeSplay (key : Word) : Outcome SplayFailure (Tree Value) :=
  match splay (largeObjectCompare key) rounds tree.memory tree.root with
  | none => .failed .outOfRounds
  | some (memory, root) => .next { tree with memory := memory, root := root }

/-- The node at the key, or null. -/
def treeLookup (key : Word) : Outcome SplayFailure (Tree Value × Pointer) := do
  let tree ← tree.treeSplay rounds key
  if tree.root ≠ 0 ∧ largeObjectCompare key (tree.memory.key tree.root) = .eq then
    pure (tree, tree.root)
  else pure (tree, 0)

def treeInsert (key : AddressSpan) (value : Value) :
    Outcome SplayFailure (Tree Value × Pointer) := do
  if tree.root = 0 then
    let (tree, node) ← tree.nodeNew malloc key value
    pure ({ tree with root := node }, node)
  else
    let tree ← tree.treeSplay rounds (largeObjectSpanStart key)
    match largeObjectCompare (largeObjectSpanStart key) (tree.memory.key tree.root) with
    | .lt =>
        let (tree, node) ← tree.nodeNew malloc key value
        let memory := (tree.memory.setRight node tree.root).setLeft node
          (tree.memory.left tree.root)
        pure ({ tree with memory := memory.setLeft tree.root 0, root := node }, node)
    | .eq =>
        Outcome.check (key = tree.memory.key tree.root) .keyDiffers
        pure ({ tree with memory :=
          { tree.memory with value := update tree.memory.value tree.root value } }, tree.root)
    | .gt =>
        let (tree, node) ← tree.nodeNew malloc key value
        let memory := (tree.memory.setLeft node tree.root).setRight node
          (tree.memory.right tree.root)
        pure ({ tree with memory := memory.setRight tree.root 0, root := node }, node)

def treeRemove (key : Word) : Outcome SplayFailure (Tree Value × Value) := do
  Outcome.check (tree.root ≠ 0) .emptyTree
  let tree ← tree.treeSplay rounds key
  let removed := tree.root
  Outcome.check (removed ≠ 0) .emptyTree
  let value := tree.memory.value removed
  let freed := tree.allocated.erase removed
  if tree.memory.left removed = 0 then
    pure ({ tree with root := tree.memory.right removed, allocated := freed }, value)
  else
    let right := tree.memory.right removed
    -- Splay to make sure that the new root has an empty right child.
    let tree ← { tree with root := tree.memory.left removed }.treeSplay rounds key
    pure ({ tree with memory := tree.memory.setRight tree.root right, allocated := freed }, value)

end Tree

/-! ## The map -/

/-- An ordered map from disjoint spans: its entries from below. -/
structure SpanMap (Value : Type) where
  entries : List (AddressSpan × Value)
  ordered : entries.Pairwise fun first second => first.1.Before second.1

namespace SpanMap

variable {Value : Type} (map : SpanMap Value)

def empty : SpanMap Value := ⟨[], List.Pairwise.nil⟩

/-- The entry whose span has the address. -/
def lookup (addr : Word) : Option (AddressSpan × Value) :=
  map.entries.find? fun entry => entry.1.Contains addr

/-- The span is apart from those in the map. -/
def HasRoom (span : AddressSpan) : Prop := ∀ entry ∈ map.entries, entry.1.Apart span

instance (span : AddressSpan) : Decidable (map.HasRoom span) :=
  inferInstanceAs (Decidable (∀ entry ∈ map.entries, entry.1.Apart span))

def insertEntries (span : AddressSpan) (value : Value) : List (AddressSpan × Value) :=
  map.entries.filter (fun entry => entry.1.addr < span.addr) ++
    (span, value) :: map.entries.filter fun entry => ¬entry.1.addr < span.addr

/-- A new entry where it belongs. -/
def insert (span : AddressSpan) (value : Value) (room : map.HasRoom span) : SpanMap Value where
  entries := map.insertEntries span value
  ordered := by
    rw [insertEntries, List.pairwise_append, List.pairwise_cons]
    refine ⟨map.ordered.filter _, ⟨?_, map.ordered.filter _⟩, ?_⟩
    · intro entry member
      obtain ⟨inMap, notBelow⟩ := List.mem_filter.mp member
      have apart := AddressSpan.apart_iff.mp (room entry inMap)
      have positive := entry.1.size_pos
      simp only [decide_eq_true_eq, BitVec.lt_def, AddressSpan.Before] at *
      omega
    · intro first isFirst second isSecond
      obtain ⟨inMap, below⟩ := List.mem_filter.mp isFirst
      have apart := AddressSpan.apart_iff.mp (room first inMap)
      have positive := span.size_pos
      rcases List.mem_cons.mp isSecond with rfl | isSecond
      · simp only [decide_eq_true_eq, BitVec.lt_def, AddressSpan.Before] at *
        omega
      · obtain ⟨alsoInMap, notBelow⟩ := List.mem_filter.mp isSecond
        simp only [decide_eq_true_eq, BitVec.lt_def, AddressSpan.Before] at *
        omega

/-- The map without the entry whose span has the address. -/
def remove (addr : Word) : SpanMap Value where
  entries := map.entries.filter fun entry => ¬entry.1.Contains addr
  ordered := map.ordered.filter _

section Split

variable {map} {lower upper : List (AddressSpan × Value)} {entry : AddressSpan × Value}
variable {addr : Word}

theorem insertEntries_eq {span : AddressSpan} (value : Value)
    (split : map.entries = lower ++ upper) (below : ∀ entry ∈ lower, entry.1.addr < span.addr)
    (above : ∀ entry ∈ upper, ¬entry.1.addr < span.addr) :
    map.insertEntries span value = lower ++ (span, value) :: upper := by
  have lowerBelow : ∀ entry ∈ lower, decide (entry.1.addr < span.addr) = true := by
    intro entry member
    exact decide_eq_true (below entry member)
  have lowerAbove : ∀ entry ∈ lower, ¬decide (¬entry.1.addr < span.addr) = true := by
    intro entry member
    simpa using below entry member
  have upperBelow : ∀ entry ∈ upper, ¬decide (entry.1.addr < span.addr) = true := by
    intro entry member
    simpa using above entry member
  have upperAbove : ∀ entry ∈ upper, decide (¬entry.1.addr < span.addr) = true := by
    intro entry member
    exact decide_eq_true (above entry member)
  rw [insertEntries, split, List.filter_append, List.filter_append,
    List.filter_eq_self.mpr lowerBelow, List.filter_eq_nil_iff.mpr upperBelow,
    List.filter_eq_nil_iff.mpr lowerAbove, List.filter_eq_self.mpr upperAbove, List.append_nil,
    List.nil_append]

/-- No other entry has the address. -/
theorem not_contains_of_split (split : map.entries = lower ++ entry :: upper)
    (contains : entry.1.Contains addr) :
    (∀ other ∈ lower, ¬other.1.Contains addr) ∧ ∀ other ∈ upper, ¬other.1.Contains addr := by
  have ordered := map.ordered
  rw [split, List.pairwise_append, List.pairwise_cons] at ordered
  constructor
  · intro other member both
    have before := ordered.2.2 other member entry List.mem_cons_self
    exact AddressSpan.apart_iff.mpr (.inl before) addr ⟨both, contains⟩
  · intro other member both
    have before := ordered.2.1.1 other member
    exact AddressSpan.apart_iff.mpr (.inl before) addr ⟨contains, both⟩

theorem remove_entries (split : map.entries = lower ++ entry :: upper)
    (contains : entry.1.Contains addr) : (map.remove addr).entries = lower ++ upper := by
  obtain ⟨notLower, notUpper⟩ := not_contains_of_split split contains
  have keepsLower : ∀ other ∈ lower, decide (¬other.1.Contains addr) = true :=
    fun other member => decide_eq_true (notLower other member)
  have keepsUpper : ∀ other ∈ upper, decide (¬other.1.Contains addr) = true :=
    fun other member => decide_eq_true (notUpper other member)
  change map.entries.filter (fun entry => ¬entry.1.Contains addr) = lower ++ upper
  rw [split, List.filter_append, List.filter_cons_of_neg (by simpa using contains),
    List.filter_eq_self.mpr keepsLower, List.filter_eq_self.mpr keepsUpper]

theorem lookup_eq_some (split : map.entries = lower ++ entry :: upper)
    (contains : entry.1.Contains addr) : map.lookup addr = some entry := by
  obtain ⟨notLower, -⟩ := not_contains_of_split split contains
  rw [lookup, List.find?_eq_some_iff_append]
  refine ⟨decide_eq_true contains, lower, upper, split, ?_⟩
  intro other member
  simpa using notLower other member

theorem lookup_eq_none (absent : ∀ entry ∈ map.entries, ¬entry.1.Contains addr) :
    map.lookup addr = none := by
  rw [lookup, List.find?_eq_none]
  intro entry member
  simpa using absent entry member

end Split

end SpanMap

/-! ## The tree holds the map -/

/-- The tree in memory has the shape, with all nodes that are allocated, and they have the entries
of the map in order. -/
structure Holds {Value : Type} (tree : Tree Value) (shape : BinaryTree Pointer)
    (map : SpanMap Value) : Prop where
  isAt : At tree.memory tree.root shape
  allocated : (inorder shape).Perm tree.allocated
  entries : (inorder shape).map (fun node => (tree.memory.key node, tree.memory.value node)) =
    map.entries

/-- Where an address is from a node. -/
def Tree.compareAt {Value : Type} (tree : Tree Value) (addr : Word) (node : Pointer) : Ordering :=
  largeObjectCompare addr (tree.memory.key node)

theorem Tree.entry_withNode {Value : Type} (tree : Tree Value) (ret : Pointer) (key : AddressSpan)
    (value : Value) : ((tree.withNode ret key value).memory.key ret,
      (tree.withNode ret key value).memory.value ret) = (key, value) :=
  congrArg₂ Prod.mk (update_self _ _ _) (update_self _ _ _)

theorem Tree.nodeNew_cases {Value : Type} (tree : Tree Value) {malloc : Malloc}
    (lawful : malloc.Lawful) (key : AddressSpan) (value : Value) :
    (∃ ret, ret ≠ 0 ∧ ret ∉ tree.allocated ∧
      tree.nodeNew malloc key value = .next (tree.withNode ret key value, ret)) ∨
    malloc.Exhausted ∧ tree.nodeNew malloc key value = .failed .outOfMemory := by
  have isNew := lawful tree.mallocs tree.allocated
  rw [Tree.nodeNew]
  generalize isRet : malloc tree.mallocs tree.allocated = ret at isNew ⊢
  by_cases isNull : ret = 0
  · refine .inr ⟨⟨_, _, isRet.trans isNull⟩, ?_⟩
    rw [Outcome.check, if_neg fun notNull => notNull isNull]
    rfl
  · exact .inl ⟨ret, isNull, isNew, Outcome.check_bind isNull⟩

/-! ### A new root -/

section NewRoot

variable {Span Value : Type} {memory changed : Memory Span Value} {root fresh : Pointer}
variable {left right : BinaryTree Pointer}

/-- A node above the root and what is to its right. -/
theorem at_newRoot_left (isAt : At memory root (.node root left right))
    (nodup : (inorder (.node root left right)).Nodup)
    (isNew : fresh ∉ inorder (.node root left right)) (notNull : fresh ≠ 0)
    (leftOfFresh : changed.left fresh = memory.left root)
    (rightOfFresh : changed.right fresh = root)
    (leftOfRoot : changed.left root = 0) (rightOfRoot : changed.right root = memory.right root)
    (others : ∀ node, node ≠ fresh → node ≠ root →
      changed.left node = memory.left node ∧ changed.right node = memory.right node) :
    At changed fresh (.node fresh left (.node root .nil right)) := by
  obtain ⟨-, isNode, leftAt, rightAt⟩ := At.node_iff.mp isAt
  simp only [inorder_node, List.nodup_append, List.nodup_cons, List.mem_append,
    List.mem_cons] at nodup isNew
  have keptLeft : ∀ node ∈ inorder left, node ≠ fresh ∧ node ≠ root := by grind
  have keptRight : ∀ node ∈ inorder right, node ≠ fresh ∧ node ≠ root := by grind
  refine At.node_iff.mpr ⟨rfl, notNull, ?_, At.node_iff.mpr ⟨rightOfFresh, isNode, ?_, ?_⟩⟩
  · rw [leftOfFresh]
    apply leftAt.congr
    · exact fun node member => (others node (keptLeft node member).1 (keptLeft node member).2).1
    · exact fun node member => (others node (keptLeft node member).1 (keptLeft node member).2).2
  · rw [leftOfRoot]
    exact .nil
  · rw [rightOfRoot]
    apply rightAt.congr
    · exact fun node member => (others node (keptRight node member).1 (keptRight node member).2).1
    · exact fun node member => (others node (keptRight node member).1 (keptRight node member).2).2

/-- A node above the root and what is to its left. -/
theorem at_newRoot_right (isAt : At memory root (.node root left right))
    (nodup : (inorder (.node root left right)).Nodup)
    (isNew : fresh ∉ inorder (.node root left right)) (notNull : fresh ≠ 0)
    (rightOfFresh : changed.right fresh = memory.right root)
    (leftOfFresh : changed.left fresh = root)
    (rightOfRoot : changed.right root = 0) (leftOfRoot : changed.left root = memory.left root)
    (others : ∀ node, node ≠ fresh → node ≠ root →
      changed.left node = memory.left node ∧ changed.right node = memory.right node) :
    At changed fresh (.node fresh (.node root left .nil) right) := by
  obtain ⟨-, isNode, leftAt, rightAt⟩ := At.node_iff.mp isAt
  simp only [inorder_node, List.nodup_append, List.nodup_cons, List.mem_append,
    List.mem_cons] at nodup isNew
  have keptLeft : ∀ node ∈ inorder left, node ≠ fresh ∧ node ≠ root := by grind
  have keptRight : ∀ node ∈ inorder right, node ≠ fresh ∧ node ≠ root := by grind
  refine At.node_iff.mpr ⟨rfl, notNull, At.node_iff.mpr ⟨leftOfFresh, isNode, ?_, ?_⟩, ?_⟩
  · rw [leftOfRoot]
    apply leftAt.congr
    · exact fun node member => (others node (keptLeft node member).1 (keptLeft node member).2).1
    · exact fun node member => (others node (keptLeft node member).1 (keptLeft node member).2).2
  · rw [rightOfRoot]
    exact .nil
  · rw [rightOfFresh]
    apply rightAt.congr
    · exact fun node member => (others node (keptRight node member).1 (keptRight node member).2).1
    · exact fun node member => (others node (keptRight node member).1 (keptRight node member).2).2

end NewRoot

namespace Holds

variable {Value : Type} {tree : Tree Value} {shape : BinaryTree Pointer} {map : SpanMap Value}
variable {node : Pointer} {rounds : ℕ}

theorem ordered (holds : Holds tree shape map) :
    (inorder shape).Pairwise fun first second =>
      (tree.memory.key first).Before (tree.memory.key second) := by
  have ordered := map.ordered
  rw [← holds.entries, List.pairwise_map] at ordered
  exact ordered

theorem nodup (holds : Holds tree shape map) : (inorder shape).Nodup := by
  apply List.Pairwise.imp _ holds.ordered
  rintro first second before rfl
  have positive := (tree.memory.key first).size_pos
  rw [AddressSpan.Before] at before
  omega

/-- Every address cuts the nodes in two. -/
theorem cut (holds : Holds tree shape map) (addr : Word) :
    Cut (tree.compareAt addr) (inorder shape) := by
  apply List.Pairwise.imp _ holds.ordered
  intro first second before
  rw [Tree.compareAt, Tree.compareAt, largeObjectCompare_eq_gt, largeObjectCompare_eq_lt]
  rw [AddressSpan.Before] at before
  omega

theorem numNodes_eq (holds : Holds tree shape map) : shape.numNodes = map.entries.length := by
  rw [← holds.entries, List.length_map, length_inorder]

theorem mem_allocated (holds : Holds tree shape map) :
    node ∈ tree.allocated ↔ node ∈ inorder shape :=
  holds.allocated.mem_iff.symm

/-- Splaying the tree keeps what it holds, with the root between what is before the address and what
is after it. -/
theorem treeSplay (holds : Holds tree shape map) (addr : Word)
    (enough : map.entries.length ≤ rounds) :
    ∃ after newShape, tree.treeSplay rounds addr = .next after ∧ Holds after newShape map ∧
      inorder newShape = inorder shape ∧ Parted (after.compareAt addr) newShape ∧
      after.memory.key = tree.memory.key ∧ after.memory.value = tree.memory.value ∧
      after.allocated = tree.allocated ∧ after.mallocs = tree.mallocs := by
  obtain ⟨memory, root, splayed, isAt, key, value, -⟩ := splay_spec holds.isAt holds.nodup
    (largeObjectCompare addr) (Nat.le_trans (Nat.le_of_eq holds.numNodes_eq) enough)
  have sameOrder := inorder_splay (tree.compareAt addr) shape
  refine ⟨{ tree with memory := memory, root := root }, SplayTree.splay (tree.compareAt addr) shape,
    ?_, ⟨isAt, ?_, ?_⟩, sameOrder, ?_, key, value, rfl, rfl⟩
  · rw [Tree.treeSplay, splayed]
  · rw [sameOrder]
    exact holds.allocated
  · rw [sameOrder, key, value]
    exact holds.entries
  · have parted := parted_splay (holds.cut addr)
    have same : ({ tree with memory := memory, root := root } : Tree Value).compareAt addr =
        tree.compareAt addr := by
      funext node
      rw [Tree.compareAt, Tree.compareAt, key]
    rw [same]
    exact parted

/-- The entry of a node among those of the others. -/
theorem entries_split (holds : Holds tree shape map) {lower upper : List Pointer}
    (split : inorder shape = lower ++ node :: upper) :
    map.entries = lower.map (fun node => (tree.memory.key node, tree.memory.value node)) ++
      (tree.memory.key node, tree.memory.value node) ::
        upper.map fun node => (tree.memory.key node, tree.memory.value node) := by
  rw [← holds.entries, split, List.map_append, List.map_cons]

/-- The address is in no entry if it is at no node. -/
theorem absent_of_nodes (holds : Holds tree shape map) {addr : Word}
    (absent : ∀ node ∈ inorder shape, tree.compareAt addr node ≠ .eq) :
    ∀ entry ∈ map.entries, ¬entry.1.Contains addr := by
  rw [← holds.entries]
  intro entry member
  obtain ⟨node, inShape, rfl⟩ := List.mem_map.mp member
  exact mt largeObjectCompare_eq_eq.mpr (absent node inShape)

theorem absent_of_parted {left right : BinaryTree Pointer} {compare : Pointer → Ordering}
    (parted : Parted compare (.node node left right)) (notEq : compare node ≠ .eq) :
    ∀ other ∈ inorder (.node node left right), compare other ≠ .eq := by
  intro other member isEq
  exact notEq (parted.root_eq member isEq ▸ isEq)

/-- A lookup finds the entry of the map. -/
theorem treeLookup (holds : Holds tree shape map) (addr : Word)
    (enough : map.entries.length ≤ rounds) :
    ∃ after newShape node, tree.treeLookup rounds addr = .next (after, node) ∧
      Holds after newShape map ∧
      (if node = 0 then none else some (after.memory.key node, after.memory.value node)) =
        map.lookup addr := by
  obtain ⟨after, newShape, splayed, kept, -, parted, -⟩ := holds.treeSplay addr enough
  rw [Tree.treeLookup, splayed, Outcome.bind_next]
  cases newShape with
  | nil =>
      have isNull := kept.isAt.eq_zero_iff.mpr rfl
      rw [if_neg fun both => both.1 isNull]
      refine ⟨after, .nil, 0, rfl, kept, ?_⟩
      rw [if_pos rfl, SpanMap.lookup_eq_none (kept.absent_of_nodes nofun)]
  | node root left right =>
      obtain ⟨isRoot, isNode, -⟩ := At.node_iff.mp kept.isAt
      rw [isRoot]
      by_cases atKey : largeObjectCompare addr (after.memory.key root) = .eq
      · rw [if_pos ⟨isNode, atKey⟩]
        refine ⟨after, .node root left right, root, rfl, kept, ?_⟩
        rw [if_neg isNode,
          SpanMap.lookup_eq_some (kept.entries_split (inorder_node root left right))
          (largeObjectCompare_eq_eq.mp atKey)]
      · rw [if_neg fun both => atKey both.2]
        refine ⟨after, .node root left right, 0, rfl, kept, ?_⟩
        rw [if_pos rfl,
          SpanMap.lookup_eq_none (kept.absent_of_nodes (absent_of_parted parted atKey))]

/-- A new node between what is before its span and what is after it. -/
theorem inserted (holds : Holds tree shape map) {after : Tree Value}
    {newShape : BinaryTree Pointer} {lower upper : List Pointer} {span : AddressSpan}
    {value : Value} (room : map.HasRoom span) (split : inorder shape = lower ++ upper)
    (below : ∀ other ∈ lower, tree.compareAt span.addr other = .gt)
    (above : ∀ other ∈ upper, tree.compareAt span.addr other = .lt)
    (isNew : node ∉ tree.allocated) (isAt : At after.memory after.root newShape)
    (order : inorder newShape = lower ++ node :: upper)
    (keys : after.memory.key = update tree.memory.key node span)
    (values : after.memory.value = update tree.memory.value node value)
    (allocated : after.allocated = node :: tree.allocated) :
    Holds after newShape (map.insert span value room) := by
  have notIn : node ∉ inorder shape := mt holds.mem_allocated.mpr isNew
  have kept : ∀ other ∈ inorder shape,
      (after.memory.key other, after.memory.value other) =
        (tree.memory.key other, tree.memory.value other) := by
    intro other member
    have different : other ≠ node := by
      rintro rfl
      exact notIn member
    rw [keys, values, update_of_ne different, update_of_ne different]
  have atNode : (after.memory.key node, after.memory.value node) = (span, value) := by
    rw [keys, values, update_self, update_self]
  refine ⟨isAt, ?_, ?_⟩
  · rw [order, allocated]
    apply List.perm_middle.trans
    rw [← split]
    exact holds.allocated.cons node
  · have entries := holds.entries
    rw [split, List.map_append] at entries
    rw [split] at kept
    rw [order, List.map_append, List.map_cons, atNode,
      List.map_congr_left fun other member => kept other (List.mem_append_left _ member),
      List.map_congr_left fun other member => kept other (List.mem_append_right _ member)]
    symm
    apply SpanMap.insertEntries_eq value entries.symm
    · intro entry member
      obtain ⟨other, inLower, rfl⟩ := List.mem_map.mp member
      have before := largeObjectCompare_eq_gt.mp (below other inLower)
      have positive := (tree.memory.key other).size_pos
      rw [BitVec.lt_def]
      dsimp only
      omega
    · intro entry member
      obtain ⟨other, inUpper, rfl⟩ := List.mem_map.mp member
      have later := largeObjectCompare_eq_lt.mp (above other inUpper)
      rw [BitVec.lt_def]
      dsimp only
      omega

/-- There is no node at the start of a span that is apart from all others. -/
theorem absent_of_room (holds : Holds tree shape map) {span : AddressSpan}
    (room : map.HasRoom span) : ∀ node ∈ inorder shape, tree.compareAt span.addr node ≠ .eq := by
  intro node member isEq
  have inMap : (tree.memory.key node, tree.memory.value node) ∈ map.entries := by
    rw [← holds.entries]
    exact List.mem_map_of_mem member
  exact room _ inMap span.addr ⟨largeObjectCompare_eq_eq.mp isEq, span.contains_addr⟩

/-- Inserting a span that is apart from all others inserts it in the map. -/
theorem treeInsert (holds : Holds tree shape map) {malloc : Malloc} (lawful : malloc.Lawful)
    (span : AddressSpan) (value : Value) (room : map.HasRoom span)
    (enough : map.entries.length ≤ rounds) :
    (∃ after newShape node, tree.treeInsert malloc rounds span value = .next (after, node) ∧
      Holds after newShape (map.insert span value room) ∧ node ≠ 0 ∧
      (after.memory.key node, after.memory.value node) = (span, value)) ∨
    malloc.Exhausted ∧ tree.treeInsert malloc rounds span value = .failed .outOfMemory := by
  rw [Tree.treeInsert]
  by_cases isEmpty : tree.root = 0
  · rw [if_pos isEmpty]
    have isNil := holds.isAt.eq_zero_iff.mp isEmpty
    subst isNil
    rcases tree.nodeNew_cases lawful span value with ⟨ret, notNull, isNew, made⟩ | ⟨exhausted, made⟩
    · rw [made]
      have isAt : At (tree.withNode ret span value).memory ret (.node ret .nil .nil) := by
        have left : (tree.withNode ret span value).memory.left ret = 0 := update_self _ _ _
        have right : (tree.withNode ret span value).memory.right ret = 0 := update_self _ _ _
        refine At.node_iff.mpr ⟨rfl, notNull, ?_, ?_⟩
        · rw [left]
          exact .nil
        · rw [right]
          exact .nil
      have order : inorder (.node ret .nil .nil) = [] ++ ret :: [] := rfl
      exact .inl ⟨{ tree.withNode ret span value with root := ret }, .node ret .nil .nil, ret, rfl,
        holds.inserted room rfl (List.forall_mem_nil _) (List.forall_mem_nil _) isNew isAt order rfl
          rfl rfl, notNull, tree.entry_withNode ret span value⟩
    · rw [made]
      exact .inr ⟨exhausted, rfl⟩
  · obtain ⟨splayedTree, newShape, splayed, kept, order, parted, -⟩ :=
      holds.treeSplay span.addr enough
    rw [if_neg isEmpty, largeObjectSpanStart, splayed, Outcome.bind_next]
    cases newShape with
    | nil =>
        have isNil : shape = .nil := by
          cases shape with
          | nil => rfl
          | node root left right => simp at order
        exact absurd (holds.isAt.eq_zero_iff.mpr isNil) isEmpty
    | node root left right =>
        obtain ⟨isRoot, isNode, -⟩ := At.node_iff.mp kept.isAt
        have absent := kept.absent_of_room room
        rw [isRoot]
        cases side : largeObjectCompare span.addr (splayedTree.memory.key root) with
        | lt =>
            rcases splayedTree.nodeNew_cases lawful span value with
              ⟨ret, notNull, isNew, made⟩ | ⟨exhausted, made⟩
            · have notIn := mt kept.mem_allocated.mpr isNew
              have different : root ≠ ret := by
                rintro rfl
                exact notIn (by simp)
              simp only [made, Outcome.bind_next]
              refine .inl ⟨_, .node ret left (.node root .nil right), ret, rfl, ?_, notNull,
                splayedTree.entry_withNode ret span value⟩
              apply kept.inserted room (inorder_node root left right) parted.1 _ isNew _ _ rfl rfl
                rfl
              · exact List.forall_mem_cons.mpr ⟨side, parted.2⟩
              · have isAt := kept.isAt
                rw [isRoot] at isAt
                apply at_newRoot_left isAt kept.nodup notIn notNull
                all_goals
                  simp +contextual [Tree.withNode, Memory.setLeft, Memory.setRight, isRoot,
                    different, different.symm]
              · simp
            · rw [made]
              exact .inr ⟨exhausted, rfl⟩
        | eq => exact absurd side (absent root (by simp))
        | gt =>
            rcases splayedTree.nodeNew_cases lawful span value with
              ⟨ret, notNull, isNew, made⟩ | ⟨exhausted, made⟩
            · have notIn := mt kept.mem_allocated.mpr isNew
              have different : root ≠ ret := by
                rintro rfl
                exact notIn (by simp)
              have split : inorder (.node root left right) =
                (inorder left ++ [root]) ++ inorder right :=
                by simp
              simp only [made, Outcome.bind_next]
              refine .inl ⟨_, .node ret (.node root left .nil) right, ret, rfl, ?_, notNull,
                splayedTree.entry_withNode ret span value⟩
              apply kept.inserted room split _ parted.2 isNew _ _ rfl rfl rfl
              · intro other member
                rcases List.mem_append.mp member with inLeft | isRoot
                · exact parted.1 other inLeft
                · rw [List.mem_singleton.mp isRoot]
                  exact side
              · have isAt := kept.isAt
                rw [isRoot] at isAt
                apply at_newRoot_right isAt kept.nodup notIn notNull
                all_goals
                  simp +contextual [Tree.withNode, Memory.setLeft, Memory.setRight, isRoot,
                    different, different.symm]
              · simp
            · rw [made]
              exact .inr ⟨exhausted, rfl⟩

/-- The root at the address goes, and the other nodes stay in order. -/
theorem removed {left right newShape : BinaryTree Pointer} {addr : Word}
    (holds : Holds tree (.node node left right) map) {after : Tree Value}
    (contains : (tree.memory.key node).Contains addr)
    (isAt : At after.memory after.root newShape)
    (order : inorder newShape = inorder left ++ inorder right)
    (keys : after.memory.key = tree.memory.key) (values : after.memory.value = tree.memory.value)
    (allocated : after.allocated = tree.allocated.erase node) :
    Holds after newShape (map.remove addr) := by
  have split := inorder_node node left right
  refine ⟨isAt, ?_, ?_⟩
  · have allNodes := holds.allocated
    rw [split] at allNodes
    have fewer := (List.perm_middle.symm.trans allNodes).erase node
    rw [List.erase_cons_head] at fewer
    rw [order, allocated]
    exact fewer
  · rw [order, List.map_append, SpanMap.remove_entries (holds.entries_split split) contains, keys,
      values]

/-- Removing a span that is in the map removes it from the map, and returns its value. -/
theorem treeRemove (holds : Holds tree shape map) {addr : Word} {entry : AddressSpan × Value}
    (found : map.lookup addr = some entry) (enough : map.entries.length ≤ rounds) :
    ∃ after newShape, tree.treeRemove rounds addr = .next (after, entry.2) ∧
      Holds after newShape (map.remove addr) := by
  have inMap : entry ∈ map.entries := List.mem_of_find?_eq_some found
  have contains : entry.1.Contains addr := by simpa using List.find?_some found
  obtain ⟨splayedTree, newShape, splayed, kept, order, parted, -⟩ := holds.treeSplay addr enough
  have inEntries := inMap
  rw [← kept.entries] at inEntries
  obtain ⟨node, inShape, isEntry⟩ := List.mem_map.mp inEntries
  subst isEntry
  have nonempty : tree.root ≠ 0 := by
    intro isNull
    have isNil := holds.isAt.eq_zero_iff.mp isNull
    rw [isNil, inorder_nil] at order
    rw [order] at inShape
    cases inShape
  rw [Tree.treeRemove, Outcome.check_bind nonempty, splayed, Outcome.bind_next]
  cases newShape with
  | nil => cases inShape
  | node root left right =>
      obtain rfl := parted.root_eq inShape (largeObjectCompare_eq_eq.mpr contains)
      obtain ⟨isRoot, isNode, leftAt, rightAt⟩ := At.node_iff.mp kept.isAt
      rw [isRoot, Outcome.check_bind isNode]
      cases left with
      | nil =>
          rw [if_pos (leftAt.eq_zero_iff.mpr rfl)]
          exact ⟨_, right, rfl, kept.removed contains rightAt rfl rfl rfl rfl⟩
      | node top topLeft topRight =>
          rw [if_neg (mt leftAt.eq_zero_iff.mp nofun)]
          have nodup := kept.nodup
          have size := kept.numNodes_eq
          rw [BinaryTree.numNodes] at size
          rw [inorder_node, List.nodup_append, List.nodup_cons] at nodup
          obtain ⟨memory, newRoot, again, againAt, key, value, frame⟩ := splay_spec leftAt nodup.1
            (largeObjectCompare addr) (by omega : _ ≤ rounds)
          have leftOrder := inorder_splay (splayedTree.compareAt addr) (.node top topLeft topRight)
          have cutLeft : Cut (splayedTree.compareAt addr)
              (inorder (.node top topLeft topRight)) := by
            apply List.pairwise_of_forall_mem_list
            intro first isFirst second _
            exact .inl (parted.1 first isFirst)
          have leftParted := parted_splay cutLeft
          have sameCompare : (fun node => largeObjectCompare addr (splayedTree.memory.key node)) =
              splayedTree.compareAt addr := rfl
          rw [sameCompare] at againAt
          generalize SplayTree.splay (splayedTree.compareAt addr) (.node top topLeft topRight) =
            leftShape at againAt leftOrder leftParted
          cases leftShape with
          | nil => simp at leftOrder
          | node newTop newLeft newRight =>
              have noRight : newRight = .nil := by
                cases newRight with
                | nil => rfl
                | node other otherLeft otherRight =>
                    have isLt := leftParted.2 other (by simp)
                    have isGt := parted.1 other (by rw [← leftOrder]; simp)
                    rw [isLt] at isGt
                    cases isGt
              subst noRight
              obtain ⟨isTop, topNode, newLeftAt, -⟩ := At.node_iff.mp againAt
              have second : ({ splayedTree with root := splayedTree.memory.left root } :
                  Tree Value).treeSplay rounds addr =
                  .next { splayedTree with memory := memory, root := newRoot } := by
                rw [Tree.treeSplay, again]
              rw [second]
              have inLeft : ∀ other, other ∈ inorder newLeft ∨ other = newTop →
                  other ∈ inorder (.node top topLeft topRight) := by
                intro other member
                rw [← leftOrder]
                simpa using member
              have newNodup := nodup.1
              rw [← leftOrder, inorder_node, inorder_nil, List.nodup_append] at newNodup
              have topNotLeft : newTop ∉ inorder newLeft := by
                intro member
                exact newNodup.2.2 newTop member newTop (List.mem_singleton_self _) rfl
              have topNotRight : newTop ∉ inorder right := by
                intro member
                exact nodup.2.2 newTop (inLeft newTop (.inr rfl)) newTop
                  (List.mem_cons_of_mem _ member) rfl
              have rightKept : At memory (splayedTree.memory.right root) right := by
                have notInLeft : ∀ other ∈ inorder right,
                    other ∉ inorder (.node top topLeft topRight) := by
                  intro other member inBoth
                  exact nodup.2.2 other inBoth other (List.mem_cons_of_mem _ member) rfl
                apply rightAt.congr
                · exact fun other member => (frame other (notInLeft other member)).1
                · exact fun other member => (frame other (notInLeft other member)).2
              have isAt : At (memory.setRight newTop (splayedTree.memory.right root)) newTop
                  (.node newTop newLeft right) := by
                refine At.node_iff.mpr ⟨rfl, topNode, newLeftAt.setRight _ topNotLeft, ?_⟩
                have isRight : (memory.setRight newTop (splayedTree.memory.right root)).right
                    newTop = splayedTree.memory.right root := update_self _ _ _
                rw [isRight]
                exact rightKept.setRight _ topNotRight
              subst isTop
              refine ⟨_, .node newRoot newLeft right, rfl, kept.removed contains isAt ?_ key value
                rfl⟩
              rw [← leftOrder]
              simp

end Holds

/-! ## Sequences of operations -/

inductive Operation (Value : Type) where
  | insert (span : AddressSpan) (value : Value)
  | lookup (addr : Word)
  | remove (addr : Word)

/-- What an operation returns: the entry of a node or of none, or the value of the node that is
removed. -/
inductive Result (Value : Type) where
  | entry (found : Option (AddressSpan × Value))
  | value (removed : Value)

namespace Tree

variable {Value : Type} (malloc : Malloc) (rounds : ℕ)

/-- The span and the value of a node that is returned. -/
def entryOf (tree : Tree Value) (node : Pointer) : Option (AddressSpan × Value) :=
  if node = 0 then none else some (tree.memory.key node, tree.memory.value node)

def operate (tree : Tree Value) : Operation Value → Outcome SplayFailure (Tree Value × Result Value)
  | .insert span value => do
      let (tree, node) ← tree.treeInsert malloc rounds span value
      pure (tree, .entry (tree.entryOf node))
  | .lookup addr => do
      let (tree, node) ← tree.treeLookup rounds addr
      pure (tree, .entry (tree.entryOf node))
  | .remove addr => do
      let (tree, value) ← tree.treeRemove rounds addr
      pure (tree, .value value)

def operateAll (tree : Tree Value) :
    List (Operation Value) → Outcome SplayFailure (Tree Value × List (Result Value))
  | [] => pure (tree, [])
  | operation :: operations => do
      let (tree, result) ← tree.operate malloc rounds operation
      let (tree, results) ← tree.operateAll operations
      pure (tree, result :: results)

end Tree

/-- What the operations are to return on the map, where spans that are inserted are apart from those
that are there, and removals are of addresses in a span. -/
inductive SpanMap.Operates {Value : Type} :
    SpanMap Value → List (Operation Value) → SpanMap Value → List (Result Value) → Prop where
  | nil (map : SpanMap Value) : Operates map [] map []
  | insert {map final : SpanMap Value} {operations : List (Operation Value)}
      {results : List (Result Value)} (span : AddressSpan) (value : Value)
      (room : map.HasRoom span)
      (rest : Operates (map.insert span value room) operations final results) :
      Operates map (.insert span value :: operations) final (.entry (some (span, value)) :: results)
  | lookup {map final : SpanMap Value} {operations : List (Operation Value)}
      {results : List (Result Value)} (addr : Word) (rest : Operates map operations final results) :
      Operates map (.lookup addr :: operations) final (.entry (map.lookup addr) :: results)
  | remove {map final : SpanMap Value} {operations : List (Operation Value)}
      {results : List (Result Value)} {addr : Word} {entry : AddressSpan × Value}
      (found : map.lookup addr = some entry)
      (rest : Operates (map.remove addr) operations final results) :
      Operates map (.remove addr :: operations) final (.value entry.2 :: results)

section Runs

variable {Value : Type} {tree : Tree Value} {shape : BinaryTree Pointer} {map final : SpanMap Value}
variable {malloc : Malloc} {rounds : ℕ}

theorem length_insert (map : SpanMap Value) (span : AddressSpan) (value : Value)
    (room : map.HasRoom span) :
    (map.insert span value room).entries.length = map.entries.length + 1 := by
  have parts := List.length_eq_length_filter_add (l := map.entries)
    fun entry => decide (entry.1.addr < span.addr)
  simp only [SpanMap.insert, SpanMap.insertEntries, List.length_append, List.length_cons,
    decide_not]
  omega

/-- A sequence of operations has the results of the map, unless there is no memory for a node. -/
theorem operateAll_spec (holds : Holds tree shape map) (lawful : malloc.Lawful)
    {operations : List (Operation Value)} {results : List (Result Value)}
    (operates : map.Operates operations final results)
    (enough : map.entries.length + operations.length ≤ rounds) :
    (∃ after finalShape, tree.operateAll malloc rounds operations = .next (after, results) ∧
      Holds after finalShape final) ∨
    malloc.Exhausted ∧ tree.operateAll malloc rounds operations = .failed .outOfMemory := by
  induction operates generalizing tree shape with
  | nil map => exact .inl ⟨tree, shape, rfl, holds⟩
  | @insert map final operations results span value room rest inductionHypothesis =>
      rw [List.length_cons] at enough
      have fewer : (map.insert span value room).entries.length + operations.length ≤ rounds := by
        rw [length_insert]
        omega
      rw [Tree.operateAll, Tree.operate]
      rcases holds.treeInsert lawful span value room (by omega : _ ≤ rounds) with
        ⟨after, newShape, node, inserted, kept, notNull, entry⟩ | ⟨exhausted, failed⟩
      · have isEntry : after.entryOf node = some (span, value) := by
          rw [Tree.entryOf, if_neg notNull, entry]
        rw [inserted]
        simp only [Outcome.bind_next, Outcome.pure_eq_next, isEntry]
        rcases inductionHypothesis kept fewer with
          ⟨last, finalShape, ends, keptLast⟩ | ⟨exhausted, failed⟩
        · rw [ends]
          exact .inl ⟨last, finalShape, rfl, keptLast⟩
        · rw [failed]
          exact .inr ⟨exhausted, rfl⟩
      · rw [failed]
        exact .inr ⟨exhausted, rfl⟩
  | @lookup map final operations results addr rest inductionHypothesis =>
      rw [List.length_cons] at enough
      obtain ⟨after, newShape, node, looked, kept, found⟩ :=
        holds.treeLookup addr (by omega : _ ≤ rounds)
      rw [Tree.operateAll, Tree.operate, looked]
      simp only [Outcome.bind_next, Outcome.pure_eq_next, Tree.entryOf, found]
      rcases inductionHypothesis kept (by omega) with
        ⟨last, finalShape, ends, keptLast⟩ | ⟨exhausted, failed⟩
      · rw [ends]
        exact .inl ⟨last, finalShape, rfl, keptLast⟩
      · rw [failed]
        exact .inr ⟨exhausted, rfl⟩
  | @remove map final operations results addr entry found rest inductionHypothesis =>
      rw [List.length_cons] at enough
      have fewer : (map.remove addr).entries.length ≤ map.entries.length :=
        List.length_filter_le _ _
      obtain ⟨after, newShape, removed, kept⟩ := holds.treeRemove found (by omega : _ ≤ rounds)
      rw [Tree.operateAll, Tree.operate, removed]
      simp only [Outcome.bind_next, Outcome.pure_eq_next]
      rcases inductionHypothesis kept (by omega) with
        ⟨last, finalShape, ends, keptLast⟩ | ⟨exhausted, failed⟩
      · rw [ends]
        exact .inl ⟨last, finalShape, rfl, keptLast⟩
      · rw [failed]
        exact .inr ⟨exhausted, rfl⟩

/-- What splaying is to do: the nodes stay in order with their entries, and the root is the node
whose span has the address or, if there is none, one that only has nodes before the address to its
left and nodes after the address to its right. -/
structure Splayed (tree after : Tree Value) (shape : BinaryTree Pointer) (addr : Word) : Prop where
  inOrder : ∃ newShape, At after.memory after.root newShape ∧ inorder newShape = inorder shape
  key : after.memory.key = tree.memory.key
  value : after.memory.value = tree.memory.value
  found : ∀ node ∈ inorder shape, (tree.memory.key node).Contains addr → after.root = node
  neighbour : shape ≠ .nil → (∀ node ∈ inorder shape, ¬(tree.memory.key node).Contains addr) →
    ∃ lower upper, inorder shape = lower ++ after.root :: upper ∧
      (∀ node ∈ lower, (tree.memory.key node).addr.toNat + (tree.memory.key node).size.toNat ≤
        addr.toNat) ∧
      ∀ node ∈ upper, addr.toNat < (tree.memory.key node).addr.toNat

theorem Holds.splayed (holds : Holds tree shape map) (addr : Word)
    (enough : map.entries.length ≤ rounds) :
    ∃ after, tree.treeSplay rounds addr = .next after ∧ Splayed tree after shape addr := by
  obtain ⟨after, newShape, splayed, kept, order, parted, key, value, -⟩ :=
    holds.treeSplay addr enough
  refine ⟨after, splayed, ⟨newShape, kept.isAt, order⟩, key, value, ?_, ?_⟩
  · intro node member contains
    rw [← order] at member
    cases newShape with
    | nil => cases member
    | node root left right =>
        rw [(At.node_iff.mp kept.isAt).1]
        apply parted.root_eq member
        rw [Tree.compareAt, key]
        exact largeObjectCompare_eq_eq.mpr contains
  · intro nonempty _
    cases newShape with
    | nil =>
        cases shape with
        | nil => exact absurd rfl nonempty
        | node root left right => simp at order
    | node root left right =>
        rw [(At.node_iff.mp kept.isAt).1, ← order]
        refine ⟨inorder left, inorder right, inorder_node root left right, ?_, ?_⟩
        · intro node member
          rw [← key]
          exact largeObjectCompare_eq_gt.mp (parted.1 node member)
        · intro node member
          rw [← key]
          exact largeObjectCompare_eq_lt.mp (parted.2 node member)

/-- Splaying finds the node at an address, or a neighbour, and every sequence of operations has the
results of an ordered map from disjoint spans. -/
theorem splay_tree_spec (holds : Holds tree shape map) :
    (∀ addr rounds, map.entries.length ≤ rounds →
      ∃ after, tree.treeSplay rounds addr = .next after ∧ Splayed tree after shape addr) ∧
    ∀ malloc : Malloc, malloc.Lawful → ∀ operations final results rounds,
      map.Operates operations final results → map.entries.length + operations.length ≤ rounds →
      (∃ after finalShape, tree.operateAll malloc rounds operations = .next (after, results) ∧
        Holds after finalShape final) ∨
      malloc.Exhausted ∧ tree.operateAll malloc rounds operations = .failed .outOfMemory := by
  constructor
  · intro addr rounds enough
    exact holds.splayed addr enough
  · intro malloc lawful operations final results rounds operates enough
    exact operateAll_spec holds lawful operates enough

end Runs

/-! ### Several spans -/

/-- An empty tree. -/
def emptyTree : Tree ℕ where
  memory :=
    { key := fun _ => ⟨0, 1, by decide⟩
      value := fun _ => 0
      left := fun _ => 0
      right := fun _ => 0 }
  root := 0
  allocated := []
  mallocs := 0

/-- Addresses above all that are in use. -/
def mallocAbove : Malloc := fun _ allocated => allocated.sum + 1

/-- The first half of a page. -/
def halfPage (page : ℕ) : AddressSpan := ⟨BitVec.ofNat 64 (page * 0x1000), 0x800, by decide⟩

def halfPages : List (Operation ℕ) :=
  [.insert (halfPage 3) 3, .insert (halfPage 1) 1, .insert (halfPage 5) 5, .insert (halfPage 2) 2,
    .insert (halfPage 4) 4]

/-- A tree of five spans is splayed at an address between two of them; other operations on it find
spans at both ends, and remove one from the middle. -/
theorem splay_tree_spec_severalSpans :
    ∃ (built splayed after : Tree ℕ) (shape finalShape : BinaryTree Pointer)
      (map final : SpanMap ℕ),
      (∃ results, emptyTree.operateAll mallocAbove 5 halfPages = .next (built, results)) ∧
      Holds built shape map ∧ built.treeSplay 5 0x1900 = .next splayed ∧
      Splayed built splayed shape 0x1900 ∧ splayed.root ≠ built.root ∧
      built.operateAll mallocAbove 9
          [.lookup 0x17ff, .lookup 0x5000, .remove 0x3400, .lookup 0x3400] =
        .next (after, [.entry (some (halfPage 1, 1)), .entry (some (halfPage 5, 5)), .value 3,
          .entry none]) ∧
      Holds after finalShape final := by
  have holds : Holds emptyTree .nil SpanMap.empty := ⟨.nil, List.Perm.nil, rfl⟩
  have lawful : mallocAbove.Lawful := by
    intro calls allocated member
    exact absurd (List.le_sum_of_mem member) (Nat.not_succ_le_self _)
  have notExhausted : ¬mallocAbove.Exhausted := by
    rintro ⟨calls, allocated, isNull⟩
    exact absurd isNull (Nat.succ_ne_zero _)
  obtain ⟨map, results, isMap, inserts⟩ : ∃ map results,
      map.entries = [1, 2, 3, 4, 5].map (fun page => (halfPage page, page)) ∧
        (SpanMap.empty : SpanMap ℕ).Operates halfPages map results := by
    refine ⟨_, _, ?_, .insert _ _ (by decide +kernel) (.insert _ _ (by decide +kernel)
      (.insert _ _ (by decide +kernel) (.insert _ _ (by decide +kernel)
        (.insert _ _ (by decide +kernel) (.nil _)))))⟩
    decide +kernel
  have looksUp (addr : Word) (found : Option (AddressSpan × ℕ))
      (isFound : ([1, 2, 3, 4, 5].map fun page => (halfPage page, page)).find?
        (fun entry => decide (entry.1.Contains addr)) = found) : map.lookup addr = found := by
    rw [SpanMap.lookup, isMap, isFound]
  have operates : map.Operates [.lookup 0x17ff, .lookup 0x5000, .remove 0x3400, .lookup 0x3400]
      (map.remove 0x3400) [.entry (some (halfPage 1, 1)), .entry (some (halfPage 5, 5)),
        .value 3, .entry none] := by
    have first := looksUp 0x17ff (some (halfPage 1, 1)) (by decide +kernel)
    have last := looksUp 0x5000 (some (halfPage 5, 5)) (by decide +kernel)
    have middle := looksUp 0x3400 (some (halfPage 3, 3)) (by decide +kernel)
    have gone : (map.remove 0x3400).lookup 0x3400 = none := by
      rw [SpanMap.lookup, List.find?_eq_none]
      intro entry member
      simpa using (List.mem_filter.mp member).2
    rw [← first, ← last, ← gone]
    exact .lookup _ (.lookup _ (.remove middle (.lookup _ (.nil _))))
  have rotates : (emptyTree.operateAll mallocAbove 5 halfPages).leadsTo (fun built =>
      (built.1.treeSplay 5 0x1900).leadsTo fun splayed =>
        decide (splayed.root ≠ built.1.root)) = true := by
    decide +kernel
  have size : map.entries.length = 5 := by rw [isMap]; rfl
  rcases (splay_tree_spec holds).2 mallocAbove lawful _ _ _ 5 inserts (by decide) with
    ⟨built, shape, ran, builtHolds⟩ | ⟨exhausted, -⟩
  · have spec := splay_tree_spec builtHolds
    obtain ⟨splayed, ends, isSplayed⟩ := spec.1 0x1900 5 size.le
    have different : splayed.root ≠ built.root := by
      rw [ran, Outcome.leadsTo, ends, Outcome.leadsTo] at rotates
      exact of_decide_eq_true rotates
    rcases spec.2 mallocAbove lawful _ _ _ 9 operates (by rw [size]; decide) with
      ⟨after, finalShape, ranOn, finalHolds⟩ | ⟨exhausted, -⟩
    · exact ⟨built, splayed, after, shape, finalShape, map, _, ⟨results, ran⟩, builtHolds, ends,
        isSplayed, different, ranOn, finalHolds⟩
    · exact absurd exhausted notExhausted
  · exact absurd exhausted notExhausted

end Whippet.Splay
