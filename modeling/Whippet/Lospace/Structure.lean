import Whippet.Lospace.Freelists
import Whippet.Tables.Refinement

/-!
The structure of the large object space.

The tree has the allocated nodes in the order of their spans, which do not overlap. A map has nodes
under their addresses: the object map those of the tree, and the nursery some of them.

Owns: the tree and the maps with what adding and removing a node does to each, and the structure as
a whole. Does not own: the operations that keep it.
-/

namespace Whippet.Lospace

open Function Tables SplayTree

/-- The failures that are not the space's own: there is no memory, or a reference is to an object
that is not live. -/
def LospaceFailure.IsExternal : LospaceFailure → Prop
  | .table .outOfMemory => True
  | .outOfNodes => True
  | .noMemory => True
  | .markOfDead => True
  | _ => False

/-! ## Spans -/

section Compare

variable {addr : ℕ} {obj : LargeObject}

theorem largeObjectCompare_eq_lt : largeObjectCompare addr obj = .lt ↔ addr < obj.addr := by
  rw [largeObjectCompare]
  split <;> [simp [*]; split <;> simp [*]]

theorem largeObjectCompare_eq_eq :
    largeObjectCompare addr obj = .eq ↔ obj.addr ≤ addr ∧ addr < obj.addr + obj.size := by
  rw [largeObjectCompare]
  split
  · simp only [reduceCtorEq, false_iff]
    omega
  · split
    · simp only [true_iff]
      omega
    · simp only [reduceCtorEq, false_iff]
      omega

theorem largeObjectCompare_eq_gt :
    largeObjectCompare addr obj = .gt ↔ obj.addr ≤ addr ∧ obj.addr + obj.size ≤ addr := by
  rw [largeObjectCompare]
  split
  · simp only [reduceCtorEq, false_iff]
    omega
  · split
    · simp only [reduceCtorEq, false_iff]
      omega
    · simp only [true_iff]
      omega

end Compare

/-- One span ends before the other begins. -/
def LargeObject.Precedes (first second : LargeObject) : Prop :=
  first.addr + first.size ≤ second.addr

/-- A span that is not empty, within the address space. -/
def LargeObject.Proper (obj : LargeObject) : Prop :=
  0 < obj.size ∧ obj.addr + obj.size ≤ 2 ^ 64

namespace LargeObjectSpace

variable {space result : LargeObjectSpace} {node other fresh : NodePointer}
variable {found : LargeObjectNode} {key : LargeObject} {value : LargeObjectData}

/-- The nodes of the tree in the order of their addresses. -/
def members (space : LargeObjectSpace) : List NodePointer := inorder space.objectTree

/-! ## The tree -/

/-- The tree has the allocated nodes, ordered by their spans. -/
structure Treed (space : LargeObjectSpace) : Prop where
  mem_iff : ∀ node, node ∈ space.members ↔ space.nodes node ≠ none
  nonnull : ∀ node ∈ space.members, node ≠ 0
  ordered : space.members.Pairwise fun first second =>
    (space.keyOf first).Precedes (space.keyOf second)
  proper : ∀ node ∈ space.members, (space.keyOf node).Proper

theorem keyOf_eq (isNode : space.nodes node = some found) : space.keyOf node = found.key := by
  rw [keyOf, isNode]

theorem keyOf_update_self {nodes : NodePointer → Option LargeObjectNode}
    (isUpdate : result.nodes = update nodes node (some found)) : result.keyOf node = found.key := by
  rw [keyOf, isUpdate, update_self]

theorem keyOf_update_of_ne {entry : Option LargeObjectNode}
    (isUpdate : result.nodes = update space.nodes node entry) (different : other ≠ node) :
    result.keyOf other = space.keyOf other := by
  rw [keyOf, isUpdate, update_of_ne different]
  rfl

namespace Treed

theorem exists_node (treed : Treed space) (member : node ∈ space.members) :
    ∃ found, space.nodes node = some found :=
  Option.ne_none_iff_exists'.mp ((treed.mem_iff node).mp member)

theorem nodup (treed : Treed space) : space.members.Nodup := by
  apply treed.ordered.imp_of_mem
  rintro first second firstMember - before rfl
  have positive := (treed.proper first firstMember).1
  rw [LargeObject.Precedes] at before
  omega

theorem cut (treed : Treed space) (addr : ℕ) : Cut (space.compareAt addr) space.members := by
  apply treed.ordered.imp
  intro first second before
  rw [LargeObject.Precedes] at before
  rw [compareAt, compareAt, largeObjectCompare_eq_gt, largeObjectCompare_eq_lt]
  omega

/-- Two nodes are the same, or their spans do not overlap. -/
theorem apart (treed : Treed space) (member : node ∈ space.members)
    (otherMember : other ∈ space.members) :
    node = other ∨ (space.keyOf node).Precedes (space.keyOf other) ∨
      (space.keyOf other).Precedes (space.keyOf node) := by
  have forwards := treed.ordered.imp fun {first second} before =>
    (.inr (.inl before) : first = second ∨ (space.keyOf first).Precedes (space.keyOf second) ∨
      (space.keyOf second).Precedes (space.keyOf first))
  apply forwards.forall_of_forall_of_flip (fun _ _ => .inl rfl) _ member otherMember
  apply treed.ordered.imp
  exact fun before => .inr (.inr before)

/-- Nodes at one address are the same. -/
theorem eq_of_addr_eq (treed : Treed space) (member : node ∈ space.members)
    (otherMember : other ∈ space.members)
    (same : (space.keyOf node).addr = (space.keyOf other).addr) : node = other := by
  have positive := (treed.proper node member).1
  have otherPositive := (treed.proper other otherMember).1
  rcases treed.apart member otherMember with equal | before | after
  · exact equal
  · rw [LargeObject.Precedes] at before
    omega
  · rw [LargeObject.Precedes] at after
    omega

/-- The words of the addresses tell nodes apart as well. -/
theorem eq_of_ofNat_eq (treed : Treed space) (member : node ∈ space.members)
    (otherMember : other ∈ space.members)
    (same : BitVec.ofNat 64 (space.keyOf node).addr = BitVec.ofNat 64 (space.keyOf other).addr) :
    node = other := by
  have inRange := treed.proper node member
  have otherInRange := treed.proper other otherMember
  rw [LargeObject.Proper] at inRange otherInRange
  have values := congrArg BitVec.toNat same
  rw [BitVec.toNat_ofNat, BitVec.toNat_ofNat, Nat.mod_eq_of_lt (by omega),
    Nat.mod_eq_of_lt (by omega)] at values
  exact treed.eq_of_addr_eq member otherMember values

theorem of_sameSpans (treed : Treed space) (same : SameSpans space result) : Treed result := by
  have members : result.members = space.members := by rw [members, members, same.objectTree]
  refine ⟨?_, ?_, ?_, ?_⟩
  · intro node
    rw [members, treed.mem_iff, ne_eq, ne_eq, same.nodes_eq_none_iff]
  · rw [members]
    exact treed.nonnull
  · rw [members]
    simpa only [same.keyOf_eq] using treed.ordered
  · rw [members]
    simpa only [same.keyOf_eq] using treed.proper

end Treed

theorem members_treeLookup (space : LargeObjectSpace) (addr : ℕ) :
    (space.treeLookup addr).members = space.members := inorder_lookup

/-- A tree with one more node, between those before its span and those after. -/
theorem Treed.insert {lower upper : List NodePointer} (treed : Treed space)
    (isUpdate : result.nodes = update space.nodes fresh (some { key := key, value := value }))
    (old : space.members = lower ++ upper) (new : result.members = lower ++ fresh :: upper)
    (nonnull : fresh ≠ 0) (unused : space.nodes fresh = none) (proper : key.Proper)
    (isBefore : ∀ node ∈ lower, (space.keyOf node).Precedes key)
    (isAfter : ∀ node ∈ upper, key.Precedes (space.keyOf node)) : Treed result := by
  have notMember : fresh ∉ space.members := fun member => (treed.mem_iff fresh).mp member unused
  have keyFresh : result.keyOf fresh = key := keyOf_eq (by rw [isUpdate, update_self])
  have keyOther : ∀ other ∈ space.members, result.keyOf other = space.keyOf other := by
    intro other member
    exact keyOf_update_of_ne isUpdate fun same => notMember (same ▸ member)
  have inLower : ∀ other ∈ lower, other ∈ space.members := fun other member => by simp [old, member]
  have inUpper : ∀ other ∈ upper, other ∈ space.members := fun other member => by simp [old, member]
  have mem_new : ∀ node, node ∈ result.members ↔ node = fresh ∨ node ∈ space.members := by
    intro node
    rw [new, old]
    simp only [List.mem_append, List.mem_cons]
    tauto
  refine ⟨?_, ?_, ?_, ?_⟩
  · intro node
    rw [mem_new, treed.mem_iff, isUpdate]
    by_cases same : node = fresh
    · simp [same]
    · simp [same]
  · intro node member
    rcases (mem_new node).mp member with rfl | isOld
    · exact nonnull
    · exact treed.nonnull node isOld
  · have ordered := treed.ordered
    rw [old, List.pairwise_append] at ordered
    obtain ⟨lowerOrdered, upperOrdered, across⟩ := ordered
    rw [new, List.pairwise_append, List.pairwise_cons]
    refine ⟨?_, ⟨?_, ?_⟩, ?_⟩
    · apply lowerOrdered.imp_of_mem
      intro first second firstMember secondMember before
      rwa [keyOther first (inLower first firstMember),
        keyOther second (inLower second secondMember)]
    · intro node member
      rw [keyFresh, keyOther node (inUpper node member)]
      exact isAfter node member
    · apply upperOrdered.imp_of_mem
      intro first second firstMember secondMember before
      rwa [keyOther first (inUpper first firstMember),
        keyOther second (inUpper second secondMember)]
    · intro first firstMember second secondMember
      rw [keyOther first (inLower first firstMember)]
      rcases List.mem_cons.mp secondMember with rfl | inRest
      · rw [keyFresh]
        exact isBefore first firstMember
      · rw [keyOther second (inUpper second inRest)]
        exact across first firstMember second inRest
  · intro node member
    rcases (mem_new node).mp member with rfl | isOld
    · rwa [keyFresh]
    · rw [keyOther node isOld]
      exact treed.proper node isOld

/-- What allocating a node and inserting it into the tree leaves. -/
structure Inserted (space result : LargeObjectSpace) (fresh : NodePointer) (key : LargeObject)
    (value : LargeObjectData) : Prop extends Treed result where
  nonnull_fresh : fresh ≠ 0
  unused : space.nodes fresh = none
  mem_members : ∀ node, node ∈ result.members ↔ node = fresh ∨ node ∈ space.members
  nodes : result.nodes = update space.nodes fresh (some { key := key, value := value })
  quarantine : result.quarantine = space.quarantine
  marked : result.marked = space.marked
  nursery : result.nursery = space.nursery
  totalPages : result.totalPages = space.totalPages
  freePages : result.freePages = space.freePages
  livePages : result.livePagesAtLastCollection = space.livePagesAtLastCollection

/-- Inserting a span that overlaps with none allocates a node for it. -/
theorem treeInsert_spec (treed : Treed space) (proper : key.Proper)
    (disjoint : ∀ node ∈ space.members,
      key.Precedes (space.keyOf node) ∨ (space.keyOf node).Precedes key) :
    (space.treeInsert fresh key value).Ensures LospaceFailure.IsExternal fun after =>
      after.2 = fresh ∧ Inserted space after.1 fresh key value ∧
        after.1.objectMap = space.objectMap := by
  have positive := proper.1
  have absent : ∀ node ∈ space.members, space.compareAt key.addr node ≠ .eq := by
    intro node member isEq
    rw [compareAt, largeObjectCompare_eq_eq] at isEq
    have bounds := disjoint node member
    rw [LargeObject.Precedes, LargeObject.Precedes] at bounds
    omega
  obtain ⟨isFresh, lower, upper, old, new, lowerGt, upperLt⟩ :=
    insert_spec (treed.cut key.addr) absent fresh
  have oldMembers : space.members = lower ++ upper := old
  rw [treeInsert]
  simp only [isFresh, ↓reduceIte]
  apply (Outcome.Ensures.check fun _ => trivial).bind
  intro _ nonnull
  apply Outcome.Ensures.require.bind
  intro _ unused
  refine ⟨rfl, ⟨?_, nonnull, unused, ?_, rfl, rfl, rfl, rfl, rfl, rfl, rfl⟩, rfl⟩
  · refine treed.insert rfl oldMembers ?_ nonnull unused proper ?_ ?_
    · exact new
    · intro node member
      have isGt := lowerGt node member
      rw [compareAt, largeObjectCompare_eq_gt] at isGt
      exact isGt.2
    · intro node member
      have isLt := upperLt node member
      rw [compareAt, largeObjectCompare_eq_lt] at isLt
      have bounds := disjoint node (by simp [oldMembers, member])
      rw [LargeObject.Precedes, LargeObject.Precedes] at bounds
      exact bounds.resolve_right (by omega)
  · intro node
    rw [oldMembers, members]
    simp only [new, List.mem_append, List.mem_cons]
    tauto

/-- Removing a node at its address frees it. -/
theorem treeRemove_spec (treed : Treed space) (member : node ∈ space.members) :
    ∃ tree, space.treeRemove (space.keyOf node).addr =
        .next { space with objectTree := tree, nodes := update space.nodes node none } ∧
      Treed { space with objectTree := tree, nodes := update space.nodes node none } ∧
      ∀ other, other ∈ inorder tree ↔ other ≠ node ∧ other ∈ space.members := by
  have positive := (treed.proper node member).1
  have atKey : space.compareAt (space.keyOf node).addr node = .eq := by
    rw [compareAt, largeObjectCompare_eq_eq]
    omega
  obtain ⟨tree, lower, upper, removed, old, new⟩ :=
    remove_spec (treed.cut (space.keyOf node).addr) member atKey
  have oldMembers : space.members = lower ++ node :: upper := old
  have nodup := treed.nodup
  rw [oldMembers] at nodup
  have mem_new : ∀ other, other ∈ inorder tree ↔ other ≠ node ∧ other ∈ space.members := by
    intro other
    obtain ⟨-, upperNodup, across⟩ := List.nodup_append.mp nodup
    have notUpper := (List.nodup_cons.mp upperNodup).1
    rw [new, oldMembers]
    simp only [List.mem_append, List.mem_cons]
    constructor
    · rintro (inLower | inUpper)
      · exact ⟨across other inLower node List.mem_cons_self, .inl inLower⟩
      · exact ⟨fun same => notUpper (same ▸ inUpper), .inr (.inr inUpper)⟩
    · tauto
  have keyOther : ∀ other, other ≠ node → keyOf
      { space with objectTree := tree, nodes := update space.nodes node none } other =
      space.keyOf other := fun other different => keyOf_update_of_ne rfl different
  refine ⟨tree, ?_, ⟨?_, ?_, ?_, ?_⟩, mem_new⟩
  · rw [treeRemove, removed]
    rfl
  · intro other
    rw [members, mem_new, treed.mem_iff]
    by_cases same : other = node
    · simp [same]
    · simp [same]
  · intro other isMember
    exact treed.nonnull other ((mem_new other).mp isMember).2
  · have sublist : (inorder tree).Sublist space.members := by
      rw [new, oldMembers]
      exact (List.sublist_cons_self node upper).append_left lower
    apply (treed.ordered.sublist sublist).imp_of_mem
    intro first second firstMember secondMember before
    rwa [keyOther first ((mem_new first).mp firstMember).1,
      keyOther second ((mem_new second).mp secondMember).1]
  · intro other isMember
    obtain ⟨different, isOld⟩ := (mem_new other).mp isMember
    rw [keyOther other different]
    exact treed.proper other isOld

/-! ## The maps -/

/-- A map has the nodes for which `holds`, under their addresses. -/
def Maps (space : LargeObjectSpace) (map : AddressMap) (holds : NodePointer → Prop) : Prop :=
  ∃ contents : MapContent, Represents map contents.hashed ∧ ∀ addr node,
    contents addr = some node ↔ holds node ∧ BitVec.ofNat 64 (space.keyOf node).addr = addr

section Maps

variable {map : AddressMap} {holds otherHolds : NodePointer → Prop} {memory : ℕ → Bool}

theorem Maps.congr (maps : space.Maps map holds) (sameHolds : ∀ node, otherHolds node ↔ holds node)
    (sameAddr : ∀ node, holds node → (result.keyOf node).addr = (space.keyOf node).addr) :
    result.Maps map otherHolds := by
  obtain ⟨contents, represents, contents_iff⟩ := maps
  refine ⟨contents, represents, ?_⟩
  intro addr node
  rw [contents_iff, sameHolds]
  apply and_congr_right
  intro isHeld
  rw [sameAddr node isHeld]

theorem Maps.mem_forEach (maps : space.Maps map holds) (addr node : Word) :
    (addr, node) ∈ AddressMap.forEach map ↔
      holds node ∧ BitVec.ofNat 64 (space.keyOf node).addr = addr := by
  obtain ⟨contents, represents, contents_iff⟩ := maps
  rw [AddressMap.mem_forEach represents, contents_iff]

/-- Looking an address up finds the node there, or null. -/
theorem Maps.lookup_spec (maps : space.Maps map holds) (addr : Word) :
    ∃ node, (map.lookup addr 0).mapFailure LospaceFailure.table = .next node ∧
      (node ≠ 0 → holds node ∧ BitVec.ofNat 64 (space.keyOf node).addr = addr) := by
  obtain ⟨contents, represents, contents_iff⟩ := maps
  refine ⟨(contents addr).getD 0, ?_, ?_⟩
  · rw [map.lookup_eq represents]
    rfl
  · intro proper
    cases found : contents addr with
    | none =>
        rw [found] at proper
        exact absurd rfl proper
    | some node => exact (contents_iff addr node).mp found

/-- Adding a node under its address, where no other node is. -/
theorem Maps.add_spec (maps : space.Maps map holds) {addr : ℕ}
    (atKey : (space.keyOf node).addr = addr)
    (alone : ∀ other, holds other →
      BitVec.ofNat 64 (space.keyOf other).addr = BitVec.ofNat 64 addr → other = node) :
    ((map.add memory (BitVec.ofNat 64 addr) node).mapFailure LospaceFailure.table).Ensures
      LospaceFailure.IsExternal fun after => space.Maps after fun other => other = node ∨
          holds other := by
  obtain ⟨contents, represents, contents_iff⟩ := maps
  rcases map.add_spec represents memory (BitVec.ofNat 64 addr) node with
    ⟨failed, -⟩ | ⟨after, added, represents⟩
  · rw [failed]
    trivial
  · rw [added]
    refine ⟨_, represents, ?_⟩
    intro place other
    by_cases same : place = BitVec.ofNat 64 addr
    · subst same
      rw [update_self, Option.some.injEq]
      constructor
      · rintro rfl
        exact ⟨.inl rfl, by rw [atKey]⟩
      · rintro ⟨rfl | isHeld, atPlace⟩
        · rfl
        · exact (alone other isHeld atPlace).symm
    · rw [update_of_ne same, contents_iff]
      constructor
      · exact fun ⟨isHeld, atPlace⟩ => ⟨.inr isHeld, atPlace⟩
      · rintro ⟨rfl | isHeld, atPlace⟩
        · rw [atKey] at atPlace
          exact absurd atPlace.symm same
        · exact ⟨isHeld, atPlace⟩

/-- Removing the node at an address. -/
theorem Maps.remove_spec (maps : space.Maps map holds) (isHeld : holds node)
    (alone : ∀ other, holds other → BitVec.ofNat 64 (space.keyOf other).addr =
      BitVec.ofNat 64 (space.keyOf node).addr → other = node) :
    ((map.remove memory (BitVec.ofNat 64 (space.keyOf node).addr)).mapFailure
      LospaceFailure.table).Ensures LospaceFailure.IsExternal
      fun after => space.Maps after fun other => other ≠ node ∧ holds other := by
  obtain ⟨contents, represents, contents_iff⟩ := maps
  have present := (contents_iff _ node).mpr ⟨isHeld, rfl⟩
  rcases map.remove_spec represents memory present with ⟨failed, -⟩ | ⟨after, removed, represents⟩
  · rw [failed]
    trivial
  · rw [removed]
    refine ⟨_, represents, ?_⟩
    intro place other
    by_cases same : place = BitVec.ofNat 64 (space.keyOf node).addr
    · subst same
      rw [update_self]
      constructor
      · exact nofun
      · rintro ⟨⟨different, otherHeld⟩, atPlace⟩
        exact absurd (alone other otherHeld atPlace) different
    · rw [update_of_ne same, contents_iff]
      constructor
      · rintro ⟨otherHeld, rfl⟩
        refine ⟨⟨?_, otherHeld⟩, rfl⟩
        rintro rfl
        exact same rfl
      · exact fun ⟨⟨_, otherHeld⟩, atPlace⟩ => ⟨otherHeld, atPlace⟩

theorem Maps.clear (maps : space.Maps map holds) : space.Maps map.clear fun _ => False := by
  obtain ⟨contents, represents, -⟩ := maps
  refine ⟨fun _ => none, ?_, ?_⟩
  · exact represents.clear
  · intro addr node
    simp

end Maps

/-- The inserted node is put into the object map. -/
theorem Inserted.objectMapAdd_spec {memory : ℕ → Bool} (treed : Treed space)
    (inserted : Inserted space result fresh key value)
    (mapped : space.Maps space.objectMap (· ∈ space.members))
    (sameMap : result.objectMap = space.objectMap) :
    (result.objectMapAdd fresh memory key.addr).Ensures LospaceFailure.IsExternal fun after =>
      Inserted space after fresh key value ∧ after.Maps after.objectMap (· ∈ after.members) := by
  have isMember : fresh ∈ result.members := (inserted.mem_members fresh).mpr (.inl rfl)
  have keyFresh : result.keyOf fresh = key := keyOf_eq (by rw [inserted.nodes, update_self])
  have mappedNow : result.Maps result.objectMap (· ∈ space.members) := by
    rw [sameMap]
    apply mapped.congr (fun _ => Iff.rfl)
    intro node member
    have different : node ≠ fresh := by
      rintro rfl
      exact (treed.mem_iff node).mp member inserted.unused
    rw [keyOf_update_of_ne inserted.nodes different]
  rw [objectMapAdd]
  apply (mappedNow.add_spec (congrArg LargeObject.addr keyFresh) ?_).bind
  · intro map maps
    refine ⟨⟨⟨inserted.mem_iff, inserted.nonnull, inserted.ordered, inserted.proper⟩,
      inserted.nonnull_fresh, inserted.unused, inserted.mem_members, inserted.nodes,
      inserted.quarantine, inserted.marked, inserted.nursery, inserted.totalPages,
      inserted.freePages, inserted.livePages⟩, ?_⟩
    apply maps.congr _ (fun _ _ => rfl)
    exact inserted.mem_members
  · intro other isOld same
    apply inserted.eq_of_ofNat_eq ((inserted.mem_members other).mpr (.inr isOld)) isMember
    rwa [keyFresh]

/-! ## The structure as a whole -/

/-- The tree, the object map and the freelists agree. -/
structure Structured (space : LargeObjectSpace) : Prop extends Treed space where
  mapped : space.Maps space.objectMap (· ∈ space.members)
  quarantined : space.Quarantined

namespace Structured

/-- Only allocated nodes are in quarantine. -/
theorem mem_of_deadData? (structured : Structured space) {data : LargeObjectDeadData}
    (isDead : space.deadData? node = some data) : node ∈ space.members := by
  rw [structured.mem_iff, exists_node_of_deadData? isDead]
  exact nofun

/-- The structure depends on the nodes, the tree, the object map and the buckets alone. -/
theorem congr (structured : Structured space) (sameNodes : result.nodes = space.nodes)
    (sameTree : result.objectTree = space.objectTree) (sameMap : result.objectMap = space.objectMap)
    (sameBuckets : result.quarantine = space.quarantine) : Structured result := by
  cases result
  cases space
  dsimp only at sameNodes sameTree sameMap sameBuckets
  subst sameNodes sameTree sameMap sameBuckets
  exact ⟨⟨structured.mem_iff, structured.nonnull, structured.ordered, structured.proper⟩,
    structured.mapped, structured.quarantined⟩

end Structured

/-- Splaying keeps the structure. -/
theorem Structured.treeLookup (structured : Structured space) (addr : ℕ) :
    Structured (space.treeLookup addr) := by
  have same := members_treeLookup space addr
  refine ⟨⟨?_, ?_, ?_, ?_⟩, ?_, structured.quarantined⟩
  · rw [same]
    exact structured.mem_iff
  · rw [same]
    exact structured.nonnull
  · rw [same]
    exact structured.ordered
  · rw [same]
    exact structured.proper
  · rw [same]
    exact structured.mapped

/-- A space with the spans of one whose tree and map agree, and with the freelists in order. -/
theorem structured_of_sameSpans (treed : Treed space)
    (mapped : space.Maps space.objectMap (· ∈ space.members)) (same : SameSpans space result)
    (quarantined : result.Quarantined) : Structured result := by
  refine ⟨treed.of_sameSpans same, ?_, quarantined⟩
  rw [same.objectMap]
  apply mapped.congr
  · intro node
    rw [members, members, same.objectTree]
  · intro node _
    rw [same.keyOf_eq]

/-- The freelists are as they were when a new node is not counted. -/
theorem listed_of_new {found : LargeObjectNode} (quarantined : space.Quarantined)
    (unused : space.nodes fresh = none)
    (nodes : result.nodes = update space.nodes fresh (some found))
    (sameBuckets : result.quarantine = space.quarantine) :
    result.links.Listed 0 (update result.quarantineClass fresh none) := by
  have sameOther : ∀ other, other ≠ fresh → result.deadData? other = space.deadData? other := by
    intro other different
    rw [deadData?, deadData?, nodes, update_of_ne different]
  have unusedDead : space.deadData? fresh = none := by
    rw [deadData?, unused]
  have notFresh : ∀ other, space.quarantineClass other ≠ none → other ≠ fresh := by
    rintro other onList rfl
    exact quarantineClass_ne_none_iff.mp onList unusedDead
  refine quarantined.congr ?_ sameBuckets ?_ ?_
  · intro other
    by_cases same : other = fresh
    · subst same
      rw [update_self, quarantineClass, unusedDead]
      rfl
    · rw [update_of_ne same, quarantineClass, quarantineClass, sameOther other same,
        keyOf_update_of_ne nodes same]
  · intro other onList
    simp only [links, sameOther other (notFresh other onList)]
  · intro other onList
    simp only [links, sameOther other (notFresh other onList)]

theorem Inserted.listed (quarantined : space.Quarantined)
    (inserted : Inserted space result fresh key value) :
    result.links.Listed 0 (update result.quarantineClass fresh none) :=
  listed_of_new quarantined inserted.unused inserted.nodes inserted.quarantine

end LargeObjectSpace

end Whippet.Lospace
