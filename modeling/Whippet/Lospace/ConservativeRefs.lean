import Whippet.Extents
import Whippet.Lospace.Runs

/-!
Conservative references into the large object space (`large-object-space.h`).

At the start of a collection the spans of the nodes are copied to a sorted array, so that lookups
take no locks while the collection runs. Outside of collections the array is empty, and lookups go
to the object map and the tree. There is an array only if mutators have conservative roots.

Owns: the array with what starts and ends of collections do to it, the lookup, and that lookups in a
collection and outside find the same nodes. Does not own: where the words come from.
-/

namespace Whippet.Lospace

open Tables SplayTree

/-- What the embedder says at compile time. -/
structure Embedder where
  /-- `gc_has_mutator_conservative_roots`. -/
  hasMutatorConservativeRoots : Bool
  /-- `gc_is_valid_conservative_ref_displacement`. -/
  isValidDisplacement : Word → Bool

/-- The space with its extents. -/
structure ConservativeSpace where
  space : LargeObjectSpace
  /-- The null pointer is `none`. -/
  extents : Option Extents

inductive ConservativeFailure where
  | lospace (failure : LospaceFailure)
  | extents (failure : ExtentsFailure)
  /-- A read of an array that was not allocated. -/
  | noExtents
  deriving DecidableEq, Repr

namespace LargeObjectSpace

variable (space : LargeObjectSpace)

/-- `large_object_append_extent`, for a subtree that may be empty. -/
def appendExtents : BinaryTree NodePointer → Extents → Outcome ConservativeFailure Extents
  | .nil, extents => pure extents
  | .node node left right, extents => do
      let first ← appendExtents left extents
      let found ← (space.get node).mapFailure .lospace
      let middle ← (first.append (BitVec.ofNat 64 found.key.addr)
        (BitVec.ofNat 64 found.key.size)).mapFailure .extents
      appendExtents right middle

/-- The lookup in the map, and then in the tree if the address may be interior. -/
def lookupMapped (addr : Word) (possiblyInterior : Bool) :
    Outcome ConservativeFailure (LargeObjectSpace × NodePointer) := do
  let node ← ((space.objectMap.lookup addr 0).mapFailure LospaceFailure.table).mapFailure .lospace
  if node ≠ 0 then pure (space, node)
  else if possiblyInterior then
    pure (space.treeLookup addr.toNat,
      (SplayTree.lookup (space.compareAt addr.toNat) space.objectTree).2.getD 0)
  else pure (space, 0)

end LargeObjectSpace

namespace ConservativeSpace

variable (config : Config) (embedder : Embedder) (state : ConservativeSpace)

/-- Reads the array behind the pointer. -/
def getExtents : Outcome ConservativeFailure Extents :=
  match state.extents with
  | some extents => pure extents
  | none => .failed .noExtents

def prepareExtents (memory : ℕ → Bool) : Outcome ConservativeFailure ConservativeSpace := do
  let extents ← state.getExtents
  let prepared ← (extents.prepare memory state.space.objectMap.nItems).mapFailure .extents
  let filled ← state.space.appendExtents state.space.objectTree prepared
  pure { state with extents := some filled }

/-- The first part of `large_object_space_start_gc`. -/
def startExtents (memory : ℕ → Bool) : Outcome ConservativeFailure ConservativeSpace :=
  if embedder.hasMutatorConservativeRoots then state.prepareExtents memory else pure state

/-- The first part of `large_object_space_finish_gc`. -/
def finishExtents : Outcome ConservativeFailure ConservativeSpace :=
  if embedder.hasMutatorConservativeRoots then do
    let extents ← state.getExtents
    pure { state with extents := some extents.clear }
  else pure state

/-- The address that a reference is looked up under, if it has a valid displacement. -/
def stripDisplacement (ref : Word) (possiblyInterior : Bool) : Option Word :=
  if possiblyInterior then some ref
  else
    let displacement := ref &&& (BitVec.ofNat 64 config.pageSize - 1)
    if embedder.isValidDisplacement displacement then some (ref - displacement) else none

/-- What is done with the address. -/
def lookupAddr (addr : Word) (possiblyInterior : Bool) :
    Outcome ConservativeFailure (LargeObjectSpace × NodePointer) := do
  let extents ← state.getExtents
  if extents.ranges.length ≠ 0 then
    let start := extents.containAddr addr
    if start = 0 then pure (state.space, 0)
    else if possiblyInterior then state.space.lookupMapped start possiblyInterior
    else if addr ≠ start then pure (state.space, 0)
    else state.space.lookupMapped addr possiblyInterior
  else state.space.lookupMapped addr possiblyInterior

/-- `large_object_space_lookup_conservative_ref`. -/
def lookupConservativeRef (ref : Word) (possiblyInterior : Bool) :
    Outcome ConservativeFailure (LargeObjectSpace × NodePointer) :=
  match stripDisplacement config embedder ref possiblyInterior with
  | none => pure (state.space, 0)
  | some addr => state.lookupAddr addr possiblyInterior

end ConservativeSpace

/-! ## Reads of the array -/

section Reads

variable {config : Config} {embedder : Embedder} {state : ConservativeSpace}
variable {ref addr : Word} {possiblyInterior : Bool} {memory : ℕ → Bool}

theorem getExtents_eq_failed {failure : ConservativeFailure} :
    state.getExtents = .failed failure ↔ state.extents = none ∧ failure = .noExtents := by
  rw [ConservativeSpace.getExtents]
  cases state.extents with
  | none => simp [eq_comm]
  | some extents => simp

theorem lookupMapped_ne_noExtents {space : LargeObjectSpace} :
    space.lookupMapped addr possiblyInterior ≠ .failed .noExtents := by
  intro failed
  rw [LargeObjectSpace.lookupMapped, Outcome.bind_eq_failed] at failed
  rcases failed with failed | ⟨node, -, continued⟩
  · obtain ⟨part, -, same⟩ := Outcome.mapFailure_eq_failed.mp failed
    cases same
  · split at continued
    · cases continued
    · split at continued
      · cases continued
      · cases continued

theorem lookupAddr_eq_noExtents_iff :
    state.lookupAddr addr possiblyInterior = .failed .noExtents ↔ state.extents = none := by
  rw [ConservativeSpace.lookupAddr, Outcome.bind_eq_failed]
  constructor
  · rintro (failed | ⟨extents, -, continued⟩)
    · exact (getExtents_eq_failed.mp failed).1
    · exfalso
      split at continued
      · dsimp only at continued
        split at continued
        · cases continued
        · split at continued
          · exact lookupMapped_ne_noExtents continued
          · split at continued
            · cases continued
            · exact lookupMapped_ne_noExtents continued
      · exact lookupMapped_ne_noExtents continued
  · intro none
    exact .inl (getExtents_eq_failed.mpr ⟨none, rfl⟩)

/-- A lookup reads an array that there is not if and only if there is none and the word is looked
up at all. -/
theorem lookupConservativeRef_eq_noExtents_iff :
    state.lookupConservativeRef config embedder ref possiblyInterior = .failed .noExtents ↔
      state.extents = none ∧
        ConservativeSpace.stripDisplacement config embedder ref possiblyInterior ≠ none := by
  rw [ConservativeSpace.lookupConservativeRef]
  cases ConservativeSpace.stripDisplacement config embedder ref possiblyInterior with
  | none => simp
  | some addr =>
      rw [lookupAddr_eq_noExtents_iff]
      simp

theorem appendExtents_ne_noExtents {space : LargeObjectSpace} (tree : BinaryTree NodePointer) :
    ∀ extents, space.appendExtents tree extents ≠ .failed .noExtents := by
  induction tree with
  | nil =>
      intro extents failed
      cases failed
  | node node left right leftHypothesis rightHypothesis =>
      intro extents failed
      rw [LargeObjectSpace.appendExtents, Outcome.bind_eq_failed] at failed
      rcases failed with failed | ⟨first, -, failed⟩
      · exact leftHypothesis extents failed
      · rw [Outcome.bind_eq_failed] at failed
        rcases failed with failed | ⟨found, -, failed⟩
        · obtain ⟨part, -, same⟩ := Outcome.mapFailure_eq_failed.mp failed
          cases same
        · rw [Outcome.bind_eq_failed] at failed
          rcases failed with failed | ⟨middle, -, failed⟩
          · obtain ⟨part, -, same⟩ := Outcome.mapFailure_eq_failed.mp failed
            cases same
          · exact rightHypothesis middle failed

/-- Preparing the array for a collection does not read one that there is not, and leaves one. -/
theorem startExtents_spec
    (allocated : state.extents.isSome = embedder.hasMutatorConservativeRoots) :
    state.startExtents embedder memory ≠ .failed .noExtents ∧
      ∀ after, state.startExtents embedder memory = .next after →
        after.extents.isSome = embedder.hasMutatorConservativeRoots := by
  rw [ConservativeSpace.startExtents]
  split
  · rename_i roots
    rw [roots] at allocated
    rw [ConservativeSpace.prepareExtents]
    constructor
    · intro failed
      rw [Outcome.bind_eq_failed] at failed
      rcases failed with failed | ⟨extents, -, failed⟩
      · rw [(getExtents_eq_failed.mp failed).1] at allocated
        cases allocated
      · rw [Outcome.bind_eq_failed] at failed
        rcases failed with failed | ⟨prepared, -, failed⟩
        · obtain ⟨part, -, same⟩ := Outcome.mapFailure_eq_failed.mp failed
          cases same
        · rw [Outcome.bind_eq_failed] at failed
          rcases failed with failed | ⟨filled, -, failed⟩
          · exact appendExtents_ne_noExtents _ _ failed
          · cases failed
    · intro after prepared
      simp only [Outcome.bind_eq_next] at prepared
      obtain ⟨extents, -, cleared, -, filled, -, same⟩ := prepared
      cases same
      exact roots.symm
  · refine ⟨by rintro ⟨⟩, ?_⟩
    intro after same
    cases same
    exact allocated

theorem finishExtents_spec
    (allocated : state.extents.isSome = embedder.hasMutatorConservativeRoots) :
    state.finishExtents embedder ≠ .failed .noExtents ∧
      ∀ after, state.finishExtents embedder = .next after →
        after.extents.isSome = embedder.hasMutatorConservativeRoots := by
  rw [ConservativeSpace.finishExtents]
  split
  · rename_i roots
    rw [roots] at allocated
    constructor
    · intro failed
      rw [Outcome.bind_eq_failed] at failed
      rcases failed with failed | ⟨extents, -, failed⟩
      · rw [(getExtents_eq_failed.mp failed).1] at allocated
        cases allocated
      · cases failed
    · intro after finished
      simp only [Outcome.bind_eq_next] at finished
      obtain ⟨extents, -, same⟩ := finished
      cases same
      exact roots.symm
  · refine ⟨by rintro ⟨⟩, ?_⟩
    intro after same
    cases same
    exact allocated

end Reads

/-! ## The nodes of a space -/

/-- The structure of the space, with spans that do not start at the null pointer and have an end
within the address space. -/
structure Consistent (space : LargeObjectSpace) : Prop extends space.Structured where
  nonnullAddr : ∀ node ∈ space.members, (space.keyOf node).addr ≠ 0
  belowTop : ∀ node ∈ space.members,
    (space.keyOf node).addr + (space.keyOf node).size < 2 ^ 64

namespace LargeObjectSpace

variable {space : LargeObjectSpace} {node : NodePointer} {addr : Word}

/-- The span of a node as a range. -/
def rangeOf (space : LargeObjectSpace) (node : NodePointer) : ExtentRange where
  loAddr := BitVec.ofNat 64 (space.keyOf node).addr
  hiAddr := BitVec.ofNat 64 (space.keyOf node).addr + BitVec.ofNat 64 (space.keyOf node).size

/-- The node has the address in its span. -/
def NodeAt (space : LargeObjectSpace) (node : NodePointer) (addr : Word) : Prop :=
  node ∈ space.members ∧ (space.keyOf node).addr ≤ addr.toNat ∧
    addr.toNat < (space.keyOf node).addr + (space.keyOf node).size

end LargeObjectSpace

namespace Consistent

variable {space : LargeObjectSpace} {node other : NodePointer} {addr : Word}

open LargeObjectSpace

theorem toNat_loAddr (consistent : Consistent space) (member : node ∈ space.members) :
    (space.rangeOf node).loAddr.toNat = (space.keyOf node).addr := by
  have below := consistent.belowTop node member
  rw [rangeOf, BitVec.toNat_ofNat, Nat.mod_eq_of_lt (by omega)]

theorem toNat_hiAddr (consistent : Consistent space) (member : node ∈ space.members) :
    (space.rangeOf node).hiAddr.toNat = (space.keyOf node).addr + (space.keyOf node).size := by
  have below := consistent.belowTop node member
  rw [rangeOf, BitVec.toNat_add, BitVec.toNat_ofNat, BitVec.toNat_ofNat,
    Nat.mod_eq_of_lt (by omega : (space.keyOf node).addr < 2 ^ 64),
    Nat.mod_eq_of_lt (by omega : (space.keyOf node).size < 2 ^ 64), Nat.mod_eq_of_lt below]

/-- A range has the addresses of its node. -/
theorem contains_iff (consistent : Consistent space) (member : node ∈ space.members) :
    (space.rangeOf node).Contains addr ↔ space.NodeAt node addr := by
  rw [ExtentRange.Contains, NodeAt, BitVec.le_def, BitVec.lt_def, consistent.toNat_loAddr member,
    consistent.toNat_hiAddr member]
  exact ⟨fun inside => ⟨member, inside⟩, fun isAt => isAt.2⟩

theorem sorted (consistent : Consistent space) :
    SortedRanges (space.members.map space.rangeOf) := by
  constructor
  · rw [List.pairwise_map]
    apply consistent.ordered.imp_of_mem
    intro first second firstMember secondMember before
    rw [BitVec.le_def, consistent.toNat_hiAddr firstMember, consistent.toNat_loAddr secondMember]
    exact before
  · intro range inRanges
    obtain ⟨node, member, rfl⟩ := List.mem_map.mp inRanges
    rw [BitVec.le_def, consistent.toNat_loAddr member, consistent.toNat_hiAddr member]
    exact Nat.le_add_right _ _

/-- At most one node has an address. -/
theorem nodeAt_unique (consistent : Consistent space) (isAt : space.NodeAt node addr)
    (isOther : space.NodeAt other addr) : node = other := by
  obtain ⟨member, notBefore, notAfter⟩ := isAt
  obtain ⟨otherMember, otherNotBefore, otherNotAfter⟩ := isOther
  rcases consistent.apart member otherMember with same | before | after
  · exact same
  · rw [LargeObject.Precedes] at before
    omega
  · rw [LargeObject.Precedes] at after
    omega

/-! ## Preparing the array -/

/-- The object map has as many items as the tree has nodes. -/
theorem nItems_eq (consistent : Consistent space) :
    space.objectMap.nItems = space.members.length := by
  have maps := consistent.mapped
  obtain ⟨contents, represents, -⟩ := consistent.mapped
  have entries : (AddressMap.forEach space.objectMap).length = space.objectMap.nItems := by
    obtain ⟨n, valid, -⟩ := represents.usable
    rw [AddressMap.forEach, List.length_map, valid.length_entries]
  rw [← entries, ← List.length_map Prod.snd]
  apply List.Perm.length_eq
  rw [List.perm_ext_iff_of_nodup _ consistent.nodup]
  · intro node
    rw [List.mem_map]
    constructor
    · rintro ⟨⟨addr, found⟩, member, rfl⟩
      exact ((maps.mem_forEach addr found).mp member).1
    · intro member
      exact ⟨(_, node), (maps.mem_forEach _ node).mpr ⟨member, rfl⟩, rfl⟩
  · have apart := AddressMap.nodup_forEach represents
    rw [List.Nodup, List.pairwise_map] at apart ⊢
    apply apart.imp_of_mem
    rintro ⟨firstAddr, first⟩ ⟨secondAddr, second⟩ firstMember secondMember different same
    apply different
    have firstAt := ((maps.mem_forEach firstAddr first).mp firstMember).2
    have secondAt := ((maps.mem_forEach secondAddr second).mp secondMember).2
    dsimp only at same ⊢
    rw [← firstAt, ← secondAt, same]

/-- Appending the nodes of a subtree, after those that were appended. -/
theorem appendExtents_spec (consistent : Consistent space) (tree : BinaryTree NodePointer) :
    ∀ (extents : Extents) (appended : List NodePointer),
      extents.ranges = appended.map space.rangeOf →
      (appended ++ inorder tree).Pairwise
        (fun first second => (space.keyOf first).Precedes (space.keyOf second)) →
      (∀ node ∈ appended ++ inorder tree, node ∈ space.members) →
      (appended ++ inorder tree).length ≤ extents.capacity →
      ∃ filled, space.appendExtents tree extents = .next filled ∧
        filled.ranges = (appended ++ inorder tree).map space.rangeOf ∧
        filled.capacity = extents.capacity := by
  induction tree with
  | nil =>
      intro extents appended ranges _ _ _
      refine ⟨extents, rfl, ?_, rfl⟩
      rw [ranges, inorder_nil, List.append_nil]
  | node node left right leftHypothesis rightHypothesis =>
      intro extents appended ranges ordered members room
      rw [inorder_node, ← List.append_assoc] at ordered members room
      obtain ⟨first, appendedLeft, firstRanges, firstCapacity⟩ := leftHypothesis extents appended
        ranges (ordered.sublist (List.sublist_append_left _ _))
        (fun other member => members other (List.mem_append_left _ member))
        (by rw [List.length_append] at room; omega)
      have member : node ∈ space.members :=
        members node (List.mem_append_right _ List.mem_cons_self)
      obtain ⟨found, isNode⟩ := consistent.exists_node member
      have keyEq : found.key = space.keyOf node := (keyOf_eq isNode).symm
      obtain ⟨middle, appendedNode, middleRanges, middleCapacity⟩ : ∃ middle : Extents,
          first.append (BitVec.ofNat 64 found.key.addr) (BitVec.ofNat 64 found.key.size) =
            .next middle ∧
          middle.ranges = ((appended ++ inorder left) ++ [node]).map space.rangeOf ∧
          middle.capacity = extents.capacity := by
        refine ⟨{ first with ranges := first.ranges ++ [space.rangeOf node] }, ?_, ?_,
          firstCapacity⟩
        · rw [Extents.append, Outcome.check_bind_eq_next]
          constructor
          · rw [firstRanges, List.length_map, firstCapacity]
            rw [List.length_append, List.length_cons] at room
            omega
          · rw [Outcome.check_bind_eq_next]
            constructor
            · rw [firstRanges, List.getLast?_map]
              intro last isLast
              obtain ⟨before, isBefore, rfl⟩ := Option.mem_map.mp isLast
              have beforeMember := List.mem_of_getLast? isBefore
              have precedes := (List.pairwise_append.mp ordered).2.2 before beforeMember node
                List.mem_cons_self
              rw [keyEq, BitVec.le_def, consistent.toNat_hiAddr
                (members before (List.mem_append_left _ beforeMember))]
              have atNode := consistent.toNat_loAddr member
              rw [rangeOf] at atNode
              rw [atNode]
              exact precedes
            · rw [keyEq]
              rfl
        · rw [List.map_append, ← firstRanges]
          rfl
      have tail := rightHypothesis middle ((appended ++ inorder left) ++ [node]) middleRanges
      rw [List.append_assoc _ [node], List.singleton_append] at tail
      obtain ⟨filled, appendedRight, filledRanges, filledCapacity⟩ := tail ordered members
        (by rw [middleCapacity]; exact room)
      refine ⟨filled, ?_, ?_, filledCapacity.trans middleCapacity⟩
      · rw [LargeObjectSpace.appendExtents, appendedLeft, Outcome.bind_next, LargeObjectSpace.get,
          isNode]
        simp only [Outcome.pure_eq_next, Outcome.mapFailure, Outcome.bind_next, appendedNode]
        exact appendedRight
      · rw [filledRanges, inorder_node, ← List.append_assoc]

/-! ## What lookups find -/

/-- What a lookup of an address should find: the node that has the address, if the address may be
interior or the node starts there. -/
structure Finds (space : LargeObjectSpace) (addr : Word) (possiblyInterior : Bool)
    (node : NodePointer) : Prop where
  isAt : node ≠ 0 → space.NodeAt node addr ∧
    (possiblyInterior = false → (space.keyOf node).addr = addr.toNat)
  found : ∀ other, space.NodeAt other addr →
    (possiblyInterior = false → (space.keyOf other).addr = addr.toNat) → node = other

/-- There is one answer. -/
theorem finds_unique {possiblyInterior : Bool} (finds : Finds space addr possiblyInterior node)
    (alsoFinds : Finds space addr possiblyInterior other) : node = other := by
  by_cases isNull : node = 0
  · by_cases otherNull : other = 0
    · rw [isNull, otherNull]
    · obtain ⟨isAt, starts⟩ := alsoFinds.isAt otherNull
      exact finds.found other isAt starts
  · obtain ⟨isAt, starts⟩ := finds.isAt isNull
    exact (alsoFinds.found node isAt starts).symm

/-- The map has the node that starts at an address, or nothing. -/
theorem lookup_objectMap (consistent : Consistent space) (addr : Word) :
    ∃ node, ((space.objectMap.lookup addr 0).mapFailure LospaceFailure.table).mapFailure
        ConservativeFailure.lospace = .next node ∧
      (node ≠ 0 → node ∈ space.members ∧ (space.keyOf node).addr = addr.toNat) ∧
      ∀ other ∈ space.members, (space.keyOf other).addr = addr.toNat → node = other := by
  obtain ⟨contents, represents, contents_iff⟩ := consistent.mapped
  refine ⟨(contents addr).getD 0, ?_, ?_, ?_⟩
  · rw [space.objectMap.lookup_eq represents]
    rfl
  · intro notNull
    cases held : contents addr with
    | none =>
        rw [held] at notNull
        exact absurd rfl notNull
    | some node =>
        obtain ⟨member, atAddr⟩ := (contents_iff addr node).mp held
        refine ⟨member, ?_⟩
        rw [Option.getD_some, ← consistent.toNat_loAddr member]
        exact congrArg BitVec.toNat atAddr
  · intro other member starts
    have held : contents addr = some other := by
      apply (contents_iff addr other).mpr
      refine ⟨member, ?_⟩
      apply BitVec.eq_of_toNat_eq
      rw [← starts]
      exact consistent.toNat_loAddr member
    rw [held, Option.getD_some]

/-- The node that starts at an address is the one that has the address. -/
theorem nodeAt_of_start (consistent : Consistent space) (member : node ∈ space.members)
    (starts : (space.keyOf node).addr = addr.toNat) : space.NodeAt node addr := by
  have positive := (consistent.proper node member).1
  exact ⟨member, by omega, by omega⟩

/-- The tree has the node that has an address. -/
theorem lookup_objectTree (consistent : Consistent space) (addr : Word) :
    Finds space addr true
      ((SplayTree.lookup (space.compareAt addr.toNat) space.objectTree).2.getD 0) := by
  have lookup_iff : ∀ node,
      (SplayTree.lookup (space.compareAt addr.toNat) space.objectTree).2 = some node ↔
        space.NodeAt node addr := by
    intro node
    rw [lookup_eq_some_iff (consistent.cut addr.toNat), compareAt, largeObjectCompare_eq_eq]
    rfl
  constructor
  · intro notNull
    refine ⟨?_, by rintro ⟨⟩⟩
    rw [← lookup_iff]
    cases looked : (SplayTree.lookup (space.compareAt addr.toNat) space.objectTree).2 with
    | none =>
        rw [looked] at notNull
        exact absurd rfl notNull
    | some node => rw [Option.getD_some]
  · intro other isAt _
    rw [(lookup_iff other).mpr isAt, Option.getD_some]

theorem lookupMapped_spec (consistent : Consistent space) (addr : Word) (possiblyInterior : Bool) :
    ∃ result, space.lookupMapped addr possiblyInterior = .next result ∧
      Finds space addr possiblyInterior result.2 := by
  obtain ⟨node, looked, isStart, found⟩ := consistent.lookup_objectMap addr
  rw [lookupMapped, looked, Outcome.bind_next]
  by_cases notNull : node ≠ 0
  · rw [if_pos notNull]
    obtain ⟨member, starts⟩ := isStart notNull
    have isAt := consistent.nodeAt_of_start member starts
    refine ⟨_, rfl, fun _ => ⟨isAt, fun _ => starts⟩, ?_⟩
    exact fun other otherAt _ => consistent.nodeAt_unique isAt otherAt
  · rw [if_neg notNull]
    cases possiblyInterior with
    | true =>
        rw [if_pos rfl]
        exact ⟨_, rfl, consistent.lookup_objectTree addr⟩
    | false =>
        rw [if_neg (by decide)]
        refine ⟨_, rfl, fun isNode => absurd rfl isNode, ?_⟩
        intro other isAt starts
        rw [← found other isAt.1 (starts rfl)]
        exact (not_not.mp notNull).symm

/-- Looking up through an array that has the spans of the nodes. -/
theorem lookupAddr_spec {state : ConservativeSpace} {extents : Extents}
    (consistent : Consistent state.space) (isArray : state.extents = some extents)
    (filled : extents.ranges = [] ∨ extents.ranges = state.space.members.map state.space.rangeOf)
    (addr : Word) (possiblyInterior : Bool) :
    ∃ result, state.lookupAddr addr possiblyInterior = .next result ∧
      Finds state.space addr possiblyInterior result.2 := by
  rw [ConservativeSpace.lookupAddr, ConservativeSpace.getExtents, isArray]
  simp only [Outcome.pure_eq_next, Outcome.bind_next]
  by_cases nonempty : extents.ranges.length ≠ 0
  · rw [if_pos nonempty]
    have ranges : extents.ranges = state.space.members.map state.space.rangeOf := by
      apply filled.resolve_left
      intro empty
      rw [empty] at nonempty
      exact nonempty rfl
    have sorted : SortedRanges extents.ranges := by
      rw [ranges]
      exact consistent.sorted
    rcases sorted.containAddr_spec addr with ⟨range, inRanges, contains, starts⟩ | ⟨none, isZero⟩
    · rw [ranges, List.mem_map] at inRanges
      obtain ⟨node, member, rfl⟩ := inRanges
      have isAt := (consistent.contains_iff member).mp contains
      have startEq : (extents.containAddr addr).toNat = (state.space.keyOf node).addr := by
        rw [starts, consistent.toNat_loAddr member]
      have notNull : extents.containAddr addr ≠ 0 := by
        intro isZero
        rw [isZero] at startEq
        exact consistent.nonnullAddr node member startEq.symm
      simp only [if_neg notNull]
      cases possiblyInterior with
      | true =>
          obtain ⟨result, looked, finds⟩ :=
            consistent.lookupMapped_spec (extents.containAddr addr) true
          have same :=
            finds.found node (consistent.nodeAt_of_start member startEq.symm) (by rintro ⟨⟩)
          refine ⟨result, looked, fun _ => ⟨by rw [same]; exact isAt, by rintro ⟨⟩⟩, ?_⟩
          intro other otherAt _
          rw [same]
          exact consistent.nodeAt_unique isAt otherAt
      | false =>
          simp only [Bool.false_eq_true, ↓reduceIte]
          by_cases notStart : addr ≠ extents.containAddr addr
          · rw [if_pos notStart]
            refine ⟨_, rfl, fun isNode => absurd rfl isNode, ?_⟩
            intro other otherAt otherStarts
            obtain rfl := consistent.nodeAt_unique isAt otherAt
            apply absurd _ notStart
            apply BitVec.eq_of_toNat_eq
            rw [startEq, otherStarts rfl]
          · rw [if_neg notStart]
            exact consistent.lookupMapped_spec addr false
    · simp only [if_pos isZero]
      refine ⟨_, rfl, fun isNode => absurd rfl isNode, ?_⟩
      intro other otherAt _
      apply absurd ((consistent.contains_iff otherAt.1).mpr otherAt)
      apply none
      rw [ranges]
      exact List.mem_map_of_mem otherAt.1
  · rw [if_neg nonempty]
    exact consistent.lookupMapped_spec addr possiblyInterior

/-- The array is filled with the spans of the nodes, unless there is no memory for it. -/
theorem prepareExtents_spec {state : ConservativeSpace} {extents : Extents}
    (consistent : Consistent state.space) (isArray : state.extents = some extents)
    (bounded : extents.ranges.length ≤ extents.capacity) (memory : ℕ → Bool) :
    state.prepareExtents memory = .failed (.extents .outOfMemory) ∨
      ∃ filled, state.prepareExtents memory = .next { state with extents := some filled } ∧
        filled.ranges = state.space.members.map state.space.rangeOf := by
  rw [ConservativeSpace.prepareExtents, ConservativeSpace.getExtents, isArray]
  simp only [Outcome.pure_eq_next, Outcome.bind_next]
  rcases Extents.prepare_cases bounded memory state.space.objectMap.nItems with
    failed | ⟨prepared, isPrepared, empty, room⟩
  · rw [failed]
    exact .inl rfl
  · rw [consistent.nItems_eq] at room
    obtain ⟨filled, appended, ranges, -⟩ :=
      consistent.appendExtents_spec state.space.objectTree prepared [] empty consistent.ordered
        (fun node member => member) room
    rw [isPrepared]
    refine .inr ⟨filled, ?_, ranges⟩
    simp only [Outcome.mapFailure, Outcome.bind_next]
    rw [appended]
    rfl

end Consistent

/-- The array that is prepared at the start of a collection has the spans of the nodes, and through
it a lookup finds the same node as through the object map and the tree when the array is empty. -/
theorem lookupConservativeRef_agrees (config : Config) (embedder : Embedder)
    {state : ConservativeSpace} {extents : Extents} (consistent : Consistent state.space)
    (isArray : state.extents = some extents)
    (bounded : extents.ranges.length ≤ extents.capacity) (memory : ℕ → Bool) :
    state.prepareExtents memory = .failed (.extents .outOfMemory) ∨
      ∃ prepared, state.prepareExtents memory = .next prepared ∧
        (∃ filled, prepared.extents = some filled ∧
          filled.ranges = state.space.members.map state.space.rangeOf) ∧
        ∀ ref possiblyInterior, ∃ inside outside node,
          prepared.lookupConservativeRef config embedder ref possiblyInterior =
            .next (inside, node) ∧
          ({ state with extents := some extents.clear } : ConservativeSpace).lookupConservativeRef
            config embedder ref possiblyInterior = .next (outside, node) := by
  rcases consistent.prepareExtents_spec isArray bounded memory with failed | ⟨filled, ran, ranges⟩
  · exact .inl failed
  · refine .inr ⟨_, ran, ⟨filled, rfl, ranges⟩, ?_⟩
    intro ref possiblyInterior
    rw [ConservativeSpace.lookupConservativeRef, ConservativeSpace.lookupConservativeRef]
    cases stripped : ConservativeSpace.stripDisplacement config embedder ref possiblyInterior with
    | none => exact ⟨_, _, 0, rfl, rfl⟩
    | some addr =>
        have inCollection : Consistent
            ({ state with extents := some filled } : ConservativeSpace).space := consistent
        have cleared : Consistent
            ({ state with extents := some extents.clear } : ConservativeSpace).space := consistent
        obtain ⟨⟨inside, node⟩, lookedInside, finds⟩ :=
          inCollection.lookupAddr_spec rfl (.inr ranges) addr possiblyInterior
        obtain ⟨⟨outside, other⟩, lookedOutside, alsoFinds⟩ :=
          cleared.lookupAddr_spec rfl (.inl rfl) addr possiblyInterior
        obtain rfl : node = other := Consistent.finds_unique finds alsoFinds
        exact ⟨inside, outside, node, lookedInside, lookedOutside⟩

/-- Displacements are not valid, but for none. -/
def exactEmbedder : Embedder :=
  { hasMutatorConservativeRoots := true
    isValidDisplacement := fun displacement => displacement == 0 }

/-- After the first page of a dead object was allocated again: an address in the rest of it, which
is in quarantine. -/
theorem lookupConservativeRef_agrees_after_reuse :
    ∃ (state prepared : ConservativeSpace) (inside outside : LargeObjectSpace),
      state.extents = some ⟨64, []⟩ ∧
      state.prepareExtents (fun _ => true) = .next prepared ∧
      prepared.extents.map Extents.ranges =
        some (state.space.members.map state.space.rangeOf) ∧ state.space.members = [1, 2] ∧
      prepared.lookupConservativeRef pagedConfig exactEmbedder 0x11234 true = .next (inside, 2) ∧
      state.lookupConservativeRef pagedConfig exactEmbedder 0x11234 true = .next (outside, 2) := by
  have ran : (runFromInit pagedConfig (fun _ action => action.IsRoundable pagedConfig)
      reuseActions).leadsTo (fun state => (inorder state.space.objectTree = [1, 2] ∧
        state.space.keyOf 1 = ⟨0x10000, 0x1000⟩ ∧ state.space.keyOf 2 = ⟨0x11000, 0x1000⟩) ∧
        ((⟨state.space, some ⟨64, []⟩⟩ : ConservativeSpace).prepareExtents fun _ => true).leadsTo
          (fun _ => true) ∧
        ((⟨state.space, some ⟨64, []⟩⟩ : ConservativeSpace).lookupConservativeRef pagedConfig
          exactEmbedder 0x11234 true).leadsTo fun result => result.2 = 2) = true := by
    decide +kernel
  obtain ⟨state, ran, facts⟩ := Outcome.exists_next_of_leadsTo ran
  obtain ⟨⟨nodes, firstKey, secondKey⟩, prepares, looksUp⟩ := of_decide_eq_true facts
  have reached := reachable_of_runFromInit _
    (fun state action => LospaceAction.IsRoundable.isServable state action) ran
  have spans : ∀ node ∈ state.space.members, (state.space.keyOf node).addr ≠ 0 ∧
      (state.space.keyOf node).addr + (state.space.keyOf node).size < 2 ^ 64 := by
    intro node member
    rw [LargeObjectSpace.members, nodes] at member
    rcases List.mem_pair.mp member with rfl | rfl
    · rw [firstKey]
      decide
    · rw [secondKey]
      decide
  have consistent : Consistent
      (⟨state.space, some ⟨64, []⟩⟩ : ConservativeSpace).space :=
    ⟨(LospaceState.sound_of_reachable reached).structured, fun node member => (spans node member).1,
      fun node member => (spans node member).2⟩
  obtain ⟨prepared, isPrepared, -⟩ := Outcome.exists_next_of_leadsTo prepares
  obtain ⟨⟨outside, node⟩, looked, isSecond⟩ := Outcome.exists_next_of_leadsTo looksUp
  rcases lookupConservativeRef_agrees pagedConfig exactEmbedder consistent rfl (Nat.zero_le _)
    (fun _ => true) with failed | ⟨filled, isFilled, ⟨extents, isExtents, ranges⟩, agrees⟩
  · rw [failed] at isPrepared
    cases isPrepared
  · obtain ⟨inside, lookedOutside, other, lookedInside, lookedAgain⟩ := agrees 0x11234 true
    have same := lookedAgain.symm.trans looked
    rw [Outcome.next.injEq, Prod.mk.injEq] at same
    have isNode : node = 2 := of_decide_eq_true isSecond
    refine ⟨_, filled, inside, outside, rfl, isFilled, ?_, nodes, ?_, ?_⟩
    · rw [isExtents, Option.map_some, ranges]
    · rw [lookedInside, same.2, isNode]
    · rw [looked, isNode]

end Whippet.Lospace
