import Whippet.Lospace.Runs

/-!
When a large allocation reuses memory in quarantine (`large_object_space_alloc`).

Owns: the allocation of a number of pages with the contents of memory, that the search through the
size classes finds a hole if there is one at all, and what becomes of the hole. Does not own: when
memory gets to quarantine.
-/

namespace Whippet.Lospace

open Function Tables SplayTree Outcome

/-! ## Size classes -/

section SizeClasses

variable {val small large : ℕ}

theorem log2_lt_of_lt (positive : val ≠ 0) (inRange : val < 2 ^ 64) : val.log2 < 64 :=
  (Nat.log2_lt positive).mpr inRange

/-- The leading two bits below the first one, with it: four to seven. -/
theorem mantissa_bounds (notSmall : 4 ≤ val) :
    4 ≤ val / 2 ^ (val.log2 - 2) ∧ val / 2 ^ (val.log2 - 2) < 8 := by
  have atLeast : 2 ≤ val.log2 := (Nat.le_log2 (by omega)).mpr notSmall
  have lower : 2 ^ val.log2 ≤ val := Nat.log2_self_le (by omega)
  have upper : val < 2 ^ (val.log2 + 1) := Nat.lt_log2_self
  have four : 2 ^ val.log2 = 4 * 2 ^ (val.log2 - 2) := by
    rw [show (4 : ℕ) = 2 ^ 2 from rfl, ← Nat.pow_add]
    congr 1
    omega
  rw [Nat.pow_succ] at upper
  constructor
  · rw [Nat.le_div_iff_mul_le (Nat.two_pow_pos _)]
    omega
  · rw [Nat.div_lt_iff_lt_mul (Nat.two_pow_pos _)]
    omega

/-- The size class of a size: four classes for each power of two. -/
theorem sizeClass_eq (inRange : val < 2 ^ 64) :
    largeObjectFreelistSizeClass val =
      if val < 4 then val else 4 * (val.log2 - 2) + val / 2 ^ (val.log2 - 2) := by
  rw [largeObjectFreelistSizeClass, gcHistogramBucket]
  by_cases isSmall : val < 4
  · simp only [show (2 : ℕ) ^ 2 = 4 from rfl, if_pos isSmall, Nat.zero_shiftLeft, Nat.zero_or]
    rw [if_neg]
    omega
  · obtain ⟨lower, upper⟩ := mantissa_bounds (Nat.not_lt.mp isSmall)
    have atLeast : 2 ≤ val.log2 := (Nat.le_log2 (by omega)).mpr (Nat.not_lt.mp isSmall)
    have below := log2_lt_of_lt (by omega) inRange
    have isMajor : 64 - (63 - val.log2) - 2 = val.log2 - 1 := by omega
    have isMinor : (val >>> (val.log2 - 1 - 1)) &&& (2 ^ 2 - 1) =
        val / 2 ^ (val.log2 - 2) - 4 := by
      rw [Nat.and_two_pow_sub_one_eq_mod, Nat.shiftRight_eq_div_pow,
        show val.log2 - 1 - 1 = val.log2 - 2 by omega]
      omega
    have fits : val / 2 ^ (val.log2 - 2) - 4 < 2 ^ 2 := by omega
    simp only [show (2 : ℕ) ^ 2 = 4 from rfl, if_neg isSmall, isMajor]
    rw [show (4 : ℕ) - 1 = 2 ^ 2 - 1 from rfl, isMinor, ← Nat.shiftLeft_add_eq_or_of_lt fits,
      Nat.shiftLeft_eq, if_neg]
    · omega
    · simp only [Nat.shiftLeft_eq]
      omega

/-- A larger size is in the same class or in a later one. -/
theorem sizeClass_mono (ordered : small ≤ large) (inRange : large < 2 ^ 64) :
    largeObjectFreelistSizeClass small ≤ largeObjectFreelistSizeClass large := by
  rw [sizeClass_eq (Nat.lt_of_le_of_lt ordered inRange), sizeClass_eq inRange]
  by_cases largeSmall : large < 4
  · rw [if_pos largeSmall, if_pos (Nat.lt_of_le_of_lt ordered largeSmall)]
    exact ordered
  · obtain ⟨lower, upper⟩ := mantissa_bounds (Nat.not_lt.mp largeSmall)
    rw [if_neg largeSmall]
    by_cases isSmall : small < 4
    · rw [if_pos isSmall]
      omega
    · obtain ⟨lowerSmall, upperSmall⟩ := mantissa_bounds (Nat.not_lt.mp isSmall)
      have atLeast : 2 ≤ small.log2 := (Nat.le_log2 (by omega)).mpr (Nat.not_lt.mp isSmall)
      rw [if_neg isSmall]
      have powers : small.log2 ≤ large.log2 := by
        rw [Nat.le_log2 (by omega)]
        exact Nat.le_trans (Nat.log2_self_le (by omega)) ordered
      rcases Nat.eq_or_lt_of_le powers with same | earlier
      · rw [same]
        exact Nat.add_le_add_left (Nat.div_le_div_right ordered) _
      · omega

end SizeClasses

namespace LargeObjectSpace

variable {space result : LargeObjectSpace} {node other : NodePointer} {config : Config}

/-! ## The search finds what there is -/

/-- The search through a bucket ends without a node only if all its nodes are too small. -/
theorem findInBucket_eq_zero (size : ℕ) {link : Link ℕ NodePointer} {nodes : List NodePointer}
    {rounds : ℕ} (chain : space.links.Chain 0 link nodes)
    (quarantined : ∀ node ∈ nodes, space.quarantineClass node ≠ none)
    (ended : space.findInBucket size rounds (space.links.read link) = .next 0) :
    ∀ node ∈ nodes, (space.keyOf node).size < size := by
  induction nodes generalizing link rounds with
  | nil => exact List.forall_mem_nil _
  | cons first later inductionHypothesis =>
      obtain ⟨reads, proper, -, tail⟩ := chain
      obtain ⟨data, isDead⟩ := Option.ne_none_iff_exists'.mp
        (quarantineClass_ne_none_iff.mp (quarantined first List.mem_cons_self))
      have isNode := exists_node_of_deadData? isDead
      cases rounds with
      | zero => cases ended
      | succ rounds =>
          rw [findInBucket, reads, if_neg proper, get_eq isNode, Outcome.bind_next] at ended
          by_cases tooSmall : (space.keyOf first).size < size
          · have isNext : space.links.read (.next first) = data.next := next_links isDead
            simp only [tooSmall, ↓reduceIte, getDead_eq isDead, Outcome.bind_next] at ended
            rw [← isNext] at ended
            have laterSmall := inductionHypothesis tail
              (fun node member => quarantined node (List.mem_cons_of_mem _ member)) ended
            exact List.forall_mem_cons.mpr ⟨tooSmall, laterSmall⟩
          · simp only [tooSmall, ↓reduceIte, Outcome.pure_eq_next, Outcome.next.injEq] at ended
            exact absurd ended proper

/-- The search ends without a node only if all nodes in the buckets are too small. -/
theorem Structured.findHole_eq_zero (structured : Structured space) (size : ℕ) {buckets : List ℕ}
    (ended : space.findHole size buckets = .next 0) {idx : ℕ} (inBuckets : idx ∈ buckets)
    (isClass : space.quarantineClass node = some idx) : (space.keyOf node).size < size := by
  induction buckets with
  | nil => cases inBuckets
  | cons first rest inductionHypothesis =>
      obtain ⟨nodes, chain, -, members⟩ := structured.quarantined first
      have quarantined : ∀ node ∈ nodes, space.quarantineClass node ≠ none := by
        intro node member
        rw [(members node).mp member]
        rintro ⟨⟩
      rw [findHole, Outcome.bind_eq_next] at ended
      obtain ⟨found, searched, ended⟩ := ended
      by_cases noNode : found = 0
      · rw [if_pos noNode] at ended
        rcases List.mem_cons.mp inBuckets with rfl | inRest
        · rw [noNode] at searched
          exact findInBucket_eq_zero size chain quarantined searched node
            ((members node).mpr isClass)
        · exact inductionHypothesis ended inRest
      · rw [if_neg noNode, Outcome.pure_eq_next, Outcome.next.injEq] at ended
        exact absurd ended noNode

/-- A hole in quarantine that is large enough. -/
def HasHole (space : LargeObjectSpace) (size : ℕ) : Prop :=
  ∃ hole, space.quarantineClass hole ≠ none ∧ size ≤ (space.keyOf hole).size

/-- A hole that is large enough in the size class of the size or above. -/
def HasHoleInClass (space : LargeObjectSpace) (size : ℕ) : Prop :=
  ∃ hole idx, space.quarantineClass hole = some idx ∧ largeObjectFreelistSizeClass size ≤ idx ∧
    size ≤ (space.keyOf hole).size

/-- Sizes are of type `size_t`. -/
def SizesInRange (space : LargeObjectSpace) : Prop :=
  ∀ node, space.quarantineClass node ≠ none → (space.keyOf node).size < 2 ^ 64

theorem hasHoleInClass_iff (sizes : space.SizesInRange) (size : ℕ) :
    space.HasHoleInClass size ↔ space.HasHole size := by
  constructor
  · rintro ⟨hole, idx, isClass, -, bigEnough⟩
    refine ⟨hole, ?_, bigEnough⟩
    rw [isClass]
    rintro ⟨⟩
  · rintro ⟨hole, isQuarantined, bigEnough⟩
    obtain ⟨idx, isClass⟩ := Option.ne_none_iff_exists'.mp isQuarantined
    refine ⟨hole, idx, isClass, ?_, bigEnough⟩
    obtain ⟨data, isDead⟩ := exists_deadData? isClass
    rw [quarantineClass, isDead, Option.map_some, Option.some.injEq] at isClass
    rw [← isClass]
    exact sizeClass_mono bigEnough (sizes hole isQuarantined)

theorem mem_bucketsFrom {size idx : ℕ} (notBelow : largeObjectFreelistSizeClass size ≤ idx)
    (inRange : idx < largeObjectFreelistNumSizeClasses) : idx ∈ bucketsFrom size := by
  rw [bucketsFrom, List.mem_drop_iff_getElem]
  refine ⟨idx - largeObjectFreelistSizeClass size, ?_, ?_⟩
  · rw [List.length_range]
    omega
  · rw [List.getElem_range]
    omega

/-- The search from the size class on finds a hole if and only if there is one. -/
theorem Structured.findHole_iff (structured : Structured space) (sizes : space.SizesInRange)
    (size : ℕ) :
    ∃ hole, space.findHole size (bucketsFrom size) = .next hole ∧
      (hole ≠ 0 → space.quarantineClass hole ≠ none ∧ size ≤ (space.keyOf hole).size) ∧
      (hole = 0 ↔ ¬space.HasHoleInClass size) := by
  obtain ⟨hole, searched, spec⟩ := structured.findHole_spec size (bucketsFrom size)
  refine ⟨hole, searched, spec, ?_⟩
  constructor
  · rintro rfl ⟨node, idx, isClass, notBelow, bigEnough⟩
    have isSize : idx = largeObjectFreelistSizeClass (space.keyOf node).size := by
      obtain ⟨data, isDead⟩ := exists_deadData? isClass
      rw [quarantineClass, isDead, Option.map_some, Option.some.injEq] at isClass
      exact isClass.symm
    have inBuckets : idx ∈ bucketsFrom size := by
      apply mem_bucketsFrom notBelow
      rw [isSize]
      exact sizeClass_lt _
    have tooSmall := structured.findHole_eq_zero size searched inBuckets isClass
    omega
  · intro none
    by_contra someHole
    obtain ⟨isQuarantined, bigEnough⟩ := spec someHole
    exact none ((hasHoleInClass_iff sizes size).mpr ⟨hole, isQuarantined, bigEnough⟩)

/-! ## Cutting a hole -/

/-- The failures for want of memory for nodes and tables. -/
def IsOutOfMemory (failure : LospaceFailure) : Prop :=
  failure = .outOfNodes ∨ failure = .table .outOfMemory

/-- The map is a table that represents something. -/
def MapRepresents (map : AddressMap) : Prop :=
  ∃ contents : MapContent, Represents map contents.hashed

theorem MapRepresents.add {map : AddressMap} (represents : MapRepresents map) (memory : ℕ → Bool)
    (addr node : Word) :
    ((map.add memory addr node).mapFailure LospaceFailure.table).Ensures IsOutOfMemory
      MapRepresents := by
  obtain ⟨contents, represented⟩ := represents
  rcases map.add_spec represented memory addr node with ⟨failed, -⟩ | ⟨after, added, represented⟩
  · rw [failed]
    exact .inr rfl
  · rw [added]
    exact ⟨_, represented⟩

/-- What trimming leaves: the node has the size, and the rest of its old size is a node of its own,
in the bucket of its own size class. -/
structure Cut (space result : LargeObjectSpace) (node : NodePointer) (key : LargeObject)
    (size : ℕ) : Prop where
  quarantined : result.Quarantined
  keyOf_node : result.keyOf node = { key with size := size }
  isLive : result.isLive node = true
  tail : size = key.size ∨ size < key.size ∧ ∃ tail, tail ≠ node ∧ space.nodes tail = none ∧
    result.keyOf tail = { addr := key.addr + size, size := key.size - size } ∧
    result.quarantineClass tail = some (largeObjectFreelistSizeClass (key.size - size))

/-- Every address parts the nodes also where one is cut short. -/
theorem Treed.cut_short {size : ℕ} {found : LargeObjectNode} (treed : Treed space)
    (isNode : space.nodes node = some found) (smaller : size ≤ found.key.size)
    (isUpdate : result.nodes = update space.nodes node
      (some { found with key := { found.key with size := size } }))
    (sameTree : result.objectTree = space.objectTree) (addr : ℕ) :
    SplayTree.Cut (result.compareAt addr) (inorder result.objectTree) := by
  have within : ∀ other, (result.keyOf other).addr = (space.keyOf other).addr ∧
      (result.keyOf other).size ≤ (space.keyOf other).size := by
    intro other
    by_cases same : other = node
    · subst same
      rw [keyOf_update_self isUpdate, keyOf_eq isNode]
      exact ⟨rfl, smaller⟩
    · rw [keyOf_update_of_ne isUpdate same]
      exact ⟨rfl, Nat.le_refl _⟩
  rw [sameTree]
  apply treed.ordered.imp
  intro first second before
  have firstWithin := within first
  have secondWithin := within second
  rw [LargeObject.Precedes] at before
  rw [compareAt, compareAt, largeObjectCompare_eq_gt, largeObjectCompare_eq_lt]
  omega

/-- No node has the address at which one is cut. -/
theorem Treed.absent_short {size : ℕ} {found : LargeObjectNode} (treed : Treed space)
    (isNode : space.nodes node = some found) (smaller : size < found.key.size)
    (isUpdate : result.nodes = update space.nodes node
      (some { found with key := { found.key with size := size } })) :
    ∀ other ∈ space.members, result.compareAt (found.key.addr + size) other ≠ .eq := by
  intro other isMember isEq
  rw [compareAt, largeObjectCompare_eq_eq] at isEq
  have member : node ∈ space.members := by
    rw [treed.mem_iff, isNode]
    rintro ⟨⟩
  by_cases same : other = node
  · subst same
    rw [keyOf_update_self isUpdate] at isEq
    dsimp only at isEq
    omega
  · have apart := (treed.apart member isMember).resolve_left (Ne.symm same)
    rw [keyOf_eq isNode, LargeObject.Precedes, LargeObject.Precedes] at apart
    rw [keyOf_update_of_ne isUpdate same] at isEq
    omega

/-- Inserting at an address that no node has allocates a node. -/
theorem treeInsert_of_absent {fresh : NodePointer} {key : LargeObject} {value : LargeObjectData}
    (cut : SplayTree.Cut (space.compareAt key.addr) (inorder space.objectTree))
    (absent : ∀ other ∈ inorder space.objectTree, space.compareAt key.addr other ≠ .eq) :
    (space.treeInsert fresh key value).Ensures IsOutOfMemory fun after =>
      after.2 = fresh ∧ fresh ≠ 0 ∧ space.nodes fresh = none ∧
        after.1 = { space with
          objectTree := after.1.objectTree
          nodes := update space.nodes fresh (some { key := key, value := value }) } := by
  obtain ⟨isFresh, -⟩ := insert_spec cut absent fresh
  rw [treeInsert]
  simp only [isFresh, ↓reduceIte]
  apply (Ensures.check fun _ => .inl rfl).bind
  intro _ nonnull
  apply Ensures.require.bind
  intro _ unused
  exact ⟨rfl, nonnull, unused, rfl⟩

/-- Trimming a live node to any size. -/
theorem trimTail_cut {size : ℕ} {key : LargeObject} {data : LargeObjectLiveData}
    {environment : Environment} (treed : Treed space) (quarantined : space.Quarantined)
    (mapped : MapRepresents space.objectMap)
    (isNode : space.nodes node = some { key := key, value := .live data })
    (bigEnough : size ≤ key.size) :
    (space.trimTail node { key := key, value := .live data } size environment).Ensures
      IsOutOfMemory fun after => Cut space after node key size ∧ after.nursery = space.nursery := by
  rw [trimTail]
  apply Ensures.ite
  · intro larger
    have shortQuarantined : (space.set node
        { key := { key with size := size }, value := .live data }).Quarantined :=
      quarantined_shorten quarantined isNode
    generalize isShort : space.set node { key := { key with size := size }, value := .live data } =
      short at shortQuarantined ⊢
    have shortNodes : short.nodes = update space.nodes node
        (some { key := { key with size := size }, value := .live data }) := by
      rw [← isShort]
      rfl
    have shortTree : short.objectTree = space.objectTree := by
      rw [← isShort]
      rfl
    have shortMap : short.objectMap = space.objectMap := by
      rw [← isShort]
      rfl
    have shortNursery : short.nursery = space.nursery := by
      rw [← isShort]
      rfl
    have cut := treed.cut_short isNode bigEnough shortNodes shortTree (key.addr + size)
    have absent := treed.absent_short isNode larger shortNodes
    rw [members, ← shortTree] at absent
    apply (treeInsert_of_absent cut absent).bind
    rintro ⟨inserted, tailNode⟩ ⟨rfl, nonnull, unused, isInserted⟩
    dsimp only at isInserted nonnull unused ⊢
    have notNode : environment.node ≠ node := by
      rintro rfl
      rw [shortNodes, update_self] at unused
      cases unused
    have insertedNodes : inserted.nodes = update short.nodes environment.node
        (some { key := { addr := key.addr + size, size := key.size - size },
                value := .dead { age := 0, prev := none, next := 0 } }) := by
      rw [isInserted]
    have isTail := congrFun insertedNodes environment.node
    rw [update_self] at isTail
    have sameBuckets : inserted.quarantine = short.quarantine := by rw [isInserted]
    have insertedMap : inserted.objectMap = space.objectMap := by rw [isInserted, ← shortMap]
    have insertedNursery : inserted.nursery = space.nursery := by rw [isInserted, ← shortNursery]
    have added : (inserted.objectMapAdd environment.node environment.memory
        (key.addr + size)).Ensures IsOutOfMemory fun result =>
          result.nodes = inserted.nodes ∧ result.quarantine = inserted.quarantine ∧
            result.nursery = inserted.nursery := by
      rw [objectMapAdd, insertedMap]
      apply (mapped.add environment.memory _ environment.node).bind
      exact fun _ _ => ⟨rfl, rfl, rfl⟩
    rw [get_eq isTail, Outcome.bind_next]
    apply added.bind
    rintro result ⟨resultNodes, resultBuckets, resultNursery⟩
    rw [← resultNodes] at insertedNodes isTail
    obtain ⟨after, afterEq, afterQuarantined, relinked⟩ :=
      addToFreelist_spec (listed_of_new shortQuarantined unused insertedNodes
        (resultBuckets.trans sameBuckets)) nonnull isTail
    rw [afterEq]
    have keys := (sameSpans_withValue.trans relinked.toSameSpans).keyOf_eq
    have nodeThere : result.nodes node =
        some { key := { key with size := size }, value := .live data } := by
      rw [insertedNodes, update_of_ne notNode.symm, shortNodes, update_self]
    have notDead : result.deadData? node = none := by
      rw [deadData?, nodeThere]
    refine ⟨⟨afterQuarantined, ?_, ?_, .inr ⟨larger, environment.node, notNode, ?_, ?_, ?_⟩⟩, ?_⟩
    · rw [keys, keyOf_eq nodeThere]
    · rw [LargeObjectSpace.isLive, relinked.nodes_eq_of_ne isTail notNode.symm notDead, nodeThere]
    · rwa [shortNodes, update_of_ne notNode] at unused
    · rw [keys, keyOf_eq isTail]
    · rw [relinked.quarantineClass_eq, quarantineClass_withValue_dead isTail, update_self,
        keyOf_eq isTail]
    · rw [relinked.nursery]
      exact resultNursery.trans insertedNursery
  · intro notLarger
    have isSize : size = key.size := Nat.le_antisymm bigEnough (Nat.not_lt.mp notLarger)
    refine ⟨⟨quarantined, ?_, ?_, .inl isSize⟩, rfl⟩
    · rw [keyOf_eq isNode, isSize]
    · rw [LargeObjectSpace.isLive, isNode]

end LargeObjectSpace

/-! ## Allocation with the contents of memory -/

abbrev Contents : Type := ℕ → BitVec 8

/-- `memset (addr, 0, size)`. -/
def Contents.zero (contents : Contents) (addr size : ℕ) : Contents := fun place =>
  if addr ≤ place ∧ place < addr + size then 0 else contents place

/-- What `large_object_space_alloc` leaves, and whether the object was in quarantine. -/
structure Allocation where
  space : LargeObjectSpace
  contents : Contents
  node : NodePointer
  reused : Bool

/-- `large_object_space_alloc`. Pages that the platform maps are zero. -/
def largeObjectSpaceAlloc (config : Config) (space : LargeObjectSpace) (contents : Contents)
    (npages : Word) (trace : TraceKind) (environment : Environment) :
    Outcome LospaceFailure Allocation := do
  let size := (npages <<< config.pageSizeLog2).toNat
  let hole ← space.findHole size (LargeObjectSpace.bucketsFrom size)
  if hole = 0 then do
    let (allocated, node) ← space.allocFresh npages.toNat size trace environment
    pure { space := allocated, contents := contents.zero environment.address size, node := node,
           reused := false }
  else do
    let (allocated, node) ←
      space.allocFromQuarantine config hole npages.toNat size trace environment
    pure { space := allocated, contents := contents.zero (allocated.keyOf node).addr size,
           node := node, reused := true }

namespace LargeObjectSpace

variable {space result : LargeObjectSpace} {node : NodePointer} {config : Config}
variable {young : NodePointer → Prop}

/-- The pages of a number of bytes have a size. -/
theorem toNat_shiftLeft_npages (config : Config) (bytes : Word) :
    (BitVec.ofNat 64 (largeObjectSpaceNpages config bytes) <<< config.pageSizeLog2).toNat =
      largeObjectSpaceNpages config bytes <<< config.pageSizeLog2 := by
  rw [largeObjectSpaceNpages, BitVec.ofNat_toNat, BitVec.setWidth_eq, BitVec.toNat_shiftLeft,
    BitVec.toNat_ushiftRight, Nat.shiftLeft_eq, Nat.shiftRight_eq_div_pow]
  apply Nat.mod_eq_of_lt
  exact Nat.lt_of_le_of_lt (Nat.div_mul_le_self _ _) (BitVec.isLt _)

/-- Allocating a number of bytes allocates the pages for them. -/
theorem alloc_eq_largeObjectSpaceAlloc (space : LargeObjectSpace) (contents : Contents)
    (bytes : Word) (trace : TraceKind) (environment : Environment) :
    space.alloc config bytes trace environment =
      (largeObjectSpaceAlloc config space contents
        (BitVec.ofNat 64 (largeObjectSpaceNpages config bytes)) trace environment >>=
        fun allocation => pure (allocation.space, allocation.node, allocation.reused)) := by
  have fits : largeObjectSpaceNpages config bytes < 2 ^ 64 := BitVec.isLt _
  rw [alloc, largeObjectSpaceAlloc, toNat_shiftLeft_npages, BitVec.toNat_ofNat,
    Nat.mod_eq_of_lt fits]
  cases space.findHole (largeObjectSpaceNpages config bytes <<< config.pageSizeLog2)
      (bucketsFrom (largeObjectSpaceNpages config bytes <<< config.pageSizeLog2)) with
  | disabled => rfl
  | failed failure => rfl
  | next hole =>
      simp only [Outcome.bind_next]
      by_cases noHole : hole = 0
      · rw [if_pos noHole, if_pos noHole]
        cases space.allocFresh (largeObjectSpaceNpages config bytes)
          (largeObjectSpaceNpages config bytes <<< config.pageSizeLog2) trace environment <;> rfl
      · rw [if_neg noHole, if_neg noHole]
        cases space.allocFromQuarantine config hole (largeObjectSpaceNpages config bytes)
          (largeObjectSpaceNpages config bytes <<< config.pageSizeLog2) trace environment <;> rfl

/-- A hole in quarantine became an object of the size, with its bytes zero; the rest of the hole is
in quarantine as a node of its own, in the bucket of its own size class. -/
structure ReusesHole (space : LargeObjectSpace) (contents : Contents) (size : ℕ)
    (after : Allocation) : Prop where
  wasQuarantined : space.quarantineClass after.node ≠ none
  cut : Cut space after.space after.node (space.keyOf after.node) size
  zeroed : ∀ place, (space.keyOf after.node).addr ≤ place →
    place < (space.keyOf after.node).addr + size → after.contents place = 0
  kept : ∀ place, ¬((space.keyOf after.node).addr ≤ place ∧
    place < (space.keyOf after.node).addr + size) → after.contents place = contents place

/-- What is left of a node after it was cut does not depend on the rest of the space. -/
theorem Cut.congr {before after : LargeObjectSpace} {key : LargeObject} {size : ℕ}
    (cut : Cut space result node key size)
    (sameUnused : ∀ other, space.nodes other = none → before.nodes other = none)
    (sameNodes : after.nodes = result.nodes) (sameBuckets : after.quarantine = result.quarantine) :
    Cut before after node key size := by
  have sameKeys : after.keyOf = result.keyOf := by
    funext other
    rw [keyOf, keyOf, sameNodes]
  have sameDead : after.deadData? = result.deadData? := by
    funext other
    rw [deadData?, deadData?, sameNodes]
  have sameClass : after.quarantineClass = result.quarantineClass := by
    funext other
    rw [quarantineClass, quarantineClass, sameDead, sameKeys]
  refine ⟨?_, ?_, ?_, ?_⟩
  · rw [Quarantined, sameClass, links_congr sameDead sameBuckets]
    exact cut.quarantined
  · rw [sameKeys, cut.keyOf_node]
  · rw [LargeObjectSpace.isLive, sameNodes]
    exact cut.isLive
  · rcases cut.tail with whole | ⟨smaller, tail, different, unused, isKey, isClass⟩
    · exact .inl whole
    · refine .inr ⟨smaller, tail, different, sameUnused tail unused, ?_, ?_⟩
      · rw [sameKeys, isKey]
      · rw [sameClass, isClass]

theorem remember_nodes {addr : ℕ} {memory : ℕ → Bool} (nursery : MapRepresents space.nursery) :
    (space.remember config node memory addr).Ensures IsOutOfMemory fun after =>
      after = { space with nursery := after.nursery } := by
  rw [remember]
  apply Ensures.ite
  · intro _
    rw [nurseryAdd]
    apply (nursery.add memory _ node).bind
    exact fun _ _ => rfl
  · exact fun _ => rfl

/-- Taking a hole out of quarantine. -/
theorem allocFromQuarantine_cut {npages size : ℕ} {trace : TraceKind} {environment : Environment}
    (structured : Structured space) (nursery : space.Maps space.nursery young)
    (isQuarantined : space.quarantineClass node ≠ none)
    (bigEnough : size ≤ (space.keyOf node).size) :
    (space.allocFromQuarantine config node npages size trace environment).Ensures IsOutOfMemory
      fun after => after.2 = node ∧ Cut space after.1 node (space.keyOf node) size := by
  obtain ⟨data, isDead⟩ :=
    Option.ne_none_iff_exists'.mp (quarantineClass_ne_none_iff.mp isQuarantined)
  obtain ⟨unlinked, _, removed, relinked, listed, isUnlinked⟩ :=
    removeFromFreelist_unlinked structured.quarantined isDead
  let fresh : LargeObjectLiveData := { mark := LARGE_OBJECT_NURSERY, trace := trace }
  let live := unlinked.withValue node (.live fresh)
  have same : SameSpans space live := relinked.toSameSpans.trans sameSpans_withValue
  have liveNode : live.nodes node = some { key := space.keyOf node, value := .live fresh } := by
    rw [show live = unlinked.withValue node (.live fresh) from rfl, withValue, isUnlinked]
    exact update_self _ _ _
  have isSet : unlinked.set node { key := space.keyOf node, value := .live fresh } = live :=
    set_eq_withValue isUnlinked
  have mapped : MapRepresents live.objectMap := by
    obtain ⟨contents, represents, -⟩ := structured.mapped
    rw [same.objectMap]
    exact ⟨contents, represents⟩
  rw [allocFromQuarantine, removed, Outcome.bind_next, get_eq isUnlinked, Outcome.bind_next]
  dsimp only
  rw [isSet]
  apply (trimTail_cut (structured.of_sameSpans same) (quarantined_withValue_live isUnlinked listed)
    mapped liveNode bigEnough).bind
  rintro trimmed ⟨cut, sameNursery⟩
  have young : MapRepresents trimmed.nursery := by
    obtain ⟨contents, represents, -⟩ := nursery
    rw [sameNursery, same.nursery]
    exact ⟨contents, represents⟩
  apply (remember_nodes young).bind
  intro remembered isRemembered
  refine ⟨rfl, cut.congr ?_ ?_ ?_⟩
  · exact fun other => (same.nodes_eq_none_iff other).mp
  · rw [isRemembered]
  · rw [isRemembered]

/-! ## The allocation -/

/-- The failures of an allocation: there is no memory for nodes and tables, or none for pages
although pages are needed. -/
def IsAllocationFailure (space : LargeObjectSpace) (size : ℕ) (failure : LospaceFailure) : Prop :=
  failure.IsExternal ∧ (failure = .noMemory → ¬space.HasHole size)

/-- An allocation takes fresh pages only if no hole is large enough, and else a hole. -/
structure ReusesIfPossible (space : LargeObjectSpace) (contents : Contents) (size : ℕ)
    (after : Allocation) : Prop where
  fresh_iff : after.reused = false ↔ ¬space.HasHoleInClass size
  inClass_iff : space.HasHoleInClass size ↔ space.HasHole size
  reuses : after.reused = true → ReusesHole space contents size after

theorem IsOutOfMemory.isAllocationFailure {failure : LospaceFailure} (size : ℕ)
    (outOfMemory : IsOutOfMemory failure) : IsAllocationFailure space size failure := by
  rcases outOfMemory with rfl | rfl
  · exact ⟨trivial, by rintro ⟨⟩⟩
  · exact ⟨trivial, by rintro ⟨⟩⟩

/-- Large allocation reuses quarantine exactly when that is possible, for any number of pages whose
size is in range. -/
theorem large_alloc_reuses_if_possible {contents : Contents} {npages : Word} {trace : TraceKind}
    {environment : Environment} (structured : Structured space)
    (nursery : space.Maps space.nursery young)
    (youngLive : ∀ other, young other → space.isLive other = true) (sizes : space.SizesInRange)
    (fits : npages.toNat * config.pageSize < 2 ^ 64) :
    (largeObjectSpaceAlloc config space contents npages trace environment).Ensures
      (IsAllocationFailure space (npages.toNat * config.pageSize))
      (ReusesIfPossible space contents (npages.toNat * config.pageSize)) := by
  have isSize : (npages <<< config.pageSizeLog2).toNat = npages.toNat * config.pageSize := by
    rw [BitVec.toNat_shiftLeft, Nat.shiftLeft_eq]
    exact Nat.mod_eq_of_lt fits
  obtain ⟨hole, searched, isHole, noHole_iff⟩ :=
    structured.findHole_iff sizes (npages.toNat * config.pageSize)
  have inClass_iff := hasHoleInClass_iff sizes (npages.toNat * config.pageSize)
  rw [largeObjectSpaceAlloc, isSize]
  dsimp only
  rw [searched, Outcome.bind_next]
  apply Ensures.ite
  · intro noHole
    have noneInClass := noHole_iff.mp noHole
    have noneAtAll : ¬space.HasHole (npages.toNat * config.pageSize) :=
      fun isHole => noneInClass (inClass_iff.mpr isHole)
    have shifted : npages.toNat * config.pageSize = npages.toNat <<< config.pageSizeLog2 :=
      (Nat.shiftLeft_eq _ _).symm
    apply ((allocFresh_spec structured shifted nursery youngLive).tolerate
      fun _ isExternal => ⟨isExternal, fun _ => noneAtAll⟩).bind
    intro after _
    exact ⟨⟨fun _ => noneInClass, fun _ => rfl⟩, inClass_iff, by rintro ⟨⟩⟩
  · intro someHole
    obtain ⟨isQuarantined, bigEnough⟩ := isHole someHole
    have isInClass : space.HasHoleInClass (npages.toNat * config.pageSize) :=
      inClass_iff.mpr ⟨hole, isQuarantined, bigEnough⟩
    apply ((allocFromQuarantine_cut structured nursery isQuarantined bigEnough).tolerate
      fun failure => IsOutOfMemory.isAllocationFailure _).bind
    rintro ⟨allocated, node⟩ ⟨rfl, cut⟩
    have sameAddr : (allocated.keyOf node).addr = (space.keyOf node).addr := by
      rw [cut.keyOf_node]
    refine ⟨⟨by rintro ⟨⟩, fun none => absurd isInClass none⟩, inClass_iff, fun _ => ?_⟩
    refine ⟨isQuarantined, cut, ?_, ?_⟩
    · intro place atLeast below
      dsimp only at atLeast below ⊢
      rw [Contents.zero, sameAddr, if_pos ⟨atLeast, below⟩]
    · intro place outside
      dsimp only at outside ⊢
      rw [Contents.zero, sameAddr, if_neg outside]

/-- An object of two pages that died. -/
def deathActions : List LospaceAction :=
  [.alloc 0x2000 .precisely (roomyEnvironment 1 0x10000), .startGc false, .finishGc fun _ => true]

/-- A state with a hole of two pages, from which a request is served as a test says. -/
theorem exists_sound_of_deathActions (npages : Word) (test : Allocation → Bool)
    (ran : (runFromInit pagedConfig (fun _ action => action.IsRoundable pagedConfig)
      deathActions).leadsTo (fun state => inorder state.space.objectTree = [1] ∧
        (state.space.keyOf 1).size = 0x2000 ∧ state.space.quarantineClass 1 ≠ none ∧
        (largeObjectSpaceAlloc pagedConfig state.space (fun _ => 0xff) npages .precisely
          (roomyEnvironment 2 0x20000)).leadsTo test) = true) :
    ∃ state : LospaceState, state.Sound pagedConfig ∧ state.space.SizesInRange ∧
      state.space.HasHole 0x1000 ∧
      (largeObjectSpaceAlloc pagedConfig state.space (fun _ => 0xff) npages .precisely
        (roomyEnvironment 2 0x20000)).leadsTo test = true := by
  obtain ⟨state, ran, facts⟩ := Outcome.exists_next_of_leadsTo ran
  obtain ⟨nodes, size, isQuarantined, served⟩ := of_decide_eq_true facts
  have sound := LospaceState.sound_of_reachable (reachable_of_runFromInit _
    (fun state action => LospaceAction.IsRoundable.isServable state action) ran)
  refine ⟨state, sound, ?_, ⟨1, isQuarantined, by omega⟩, served⟩
  intro node nodeQuarantined
  obtain ⟨data, isDead⟩ :=
    Option.ne_none_iff_exists'.mp (quarantineClass_ne_none_iff.mp nodeQuarantined)
  have member : node ∈ inorder state.space.objectTree := sound.structured.mem_of_deadData? isDead
  rw [nodes, List.mem_singleton] at member
  rw [member]
  omega

/-- A page of an object of two pages that died. -/
theorem large_alloc_reuses_if_possible_after_death :
    ∃ space : LargeObjectSpace, space.HasHole 0x1000 ∧
      (largeObjectSpaceAlloc pagedConfig space (fun _ => 0xff) 1 .precisely
        (roomyEnvironment 2 0x20000)).Ensures (IsAllocationFailure space 0x1000)
        (ReusesIfPossible space (fun _ => 0xff) 0x1000) := by
  obtain ⟨state, sound, sizes, hasHole, -⟩ := exists_sound_of_deathActions 1
    (fun after => after.reused) (by decide +kernel)
  exact ⟨state.space, hasHole, large_alloc_reuses_if_possible sound.structured sound.remembered
    sound.young_live sizes (by decide)⟩

/-- The bytes of 2 ^ 52 pages are more than a `size_t` can say: the size is zero, which fits in the
hole. -/
theorem large_alloc_reuses_if_possible_fails :
    ¬∀ (config : Config) (space : LargeObjectSpace) (young : NodePointer → Prop)
      (contents : Contents) (npages : Word) (trace : TraceKind) (environment : Environment),
      Structured space → space.Maps space.nursery young →
      (∀ other, young other → space.isLive other = true) → space.SizesInRange →
      (largeObjectSpaceAlloc config space contents npages trace environment).Ensures
        (IsAllocationFailure space (npages.toNat * config.pageSize))
        (ReusesIfPossible space contents (npages.toNat * config.pageSize)) := by
  intro holds
  obtain ⟨state, sound, sizes, -, served⟩ := exists_sound_of_deathActions (2 ^ 52)
    (fun after => after.reused) (by decide +kernel)
  obtain ⟨after, allocated, reused⟩ := Outcome.exists_next_of_leadsTo served
  have spec := (holds pagedConfig state.space _ (fun _ => 0xff) (2 ^ 52) .precisely
    (roomyEnvironment 2 0x20000) sound.structured sound.remembered sound.young_live
    sizes).post_of_next allocated
  have noHole : ¬state.space.HasHole (BitVec.toNat (2 ^ 52 : Word) * pagedConfig.pageSize) := by
    rintro ⟨hole, isQuarantined, bigEnough⟩
    have inRange := sizes hole isQuarantined
    have isSize : BitVec.toNat (2 ^ 52 : Word) * pagedConfig.pageSize = 2 ^ 64 := by decide
    omega
  rw [← spec.inClass_iff, ← spec.fresh_iff, reused] at noHole
  cases noHole

end LargeObjectSpace

end Whippet.Lospace
