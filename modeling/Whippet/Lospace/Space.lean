import Mathlib
import Whippet.Library.BackLinks
import Whippet.Library.SplayTree
import Whippet.Tables.HashTable

/-!
The large object space (`large-object-space.h`).

Nodes are allocated one by one and are known by their addresses. Every node is in the splay tree and
in the object map. What a node has beside its span depends on whether it is live: a mark, or its age
in quarantine and its links in the freelist. Reading the part that a node does not have, or a node
that is not allocated, is a failure of its own.

The space lock makes every operation atomic but for a collection, which holds the lock from start to
finish.

Owns: the nodes, the tree, the maps and the freelists with all operations, and a run of the space
with the allocations since the last collection. Does not own: extents and remembered edges, which
nothing here reads, and who marks what.
-/

namespace Whippet.Lospace

open Function Tables

/-- `enum gc_trace_kind`. -/
inductive TraceKind where
  | precisely
  | none
  | conservatively
  deriving DecidableEq, Repr

def LARGE_OBJECT_NURSERY : ℕ := 0
def LARGE_OBJECT_MARKED_BIT : ℕ := 1
def LARGE_OBJECT_MARK_TOGGLE_BIT : ℕ := 2
def LARGE_OBJECT_MARK_0 : ℕ := LARGE_OBJECT_MARKED_BIT

/-! ## Nodes -/

structure LargeObject where
  addr : ℕ
  size : ℕ
  deriving DecidableEq, Repr, Inhabited

/-- The address of a `struct large_object_node`; the null pointer is zero. -/
abbrev NodePointer := Word

structure LargeObjectLiveData where
  mark : ℕ
  trace : TraceKind
  deriving DecidableEq, Repr

structure LargeObjectDeadData where
  age : ℕ
  prev : Option (Link ℕ NodePointer)
  next : NodePointer
  deriving DecidableEq, Repr

/-- `struct large_object_data`: `is_live` with the member of the union that is valid. -/
inductive LargeObjectData where
  | live (data : LargeObjectLiveData)
  | dead (data : LargeObjectDeadData)
  deriving DecidableEq, Repr

/-- The mark of a node that is live. -/
def LargeObjectData.mark? : LargeObjectData → Option ℕ
  | .live data => some data.mark
  | .dead _ => none

structure LargeObjectNode where
  key : LargeObject
  value : LargeObjectData
  deriving DecidableEq, Repr

def largeObjectCompare (addr : ℕ) (obj : LargeObject) : Ordering :=
  if addr < obj.addr then .lt else if addr - obj.addr < obj.size then .eq else .gt

/-! ## Size classes -/

/-- `gc_histogram_bucket`. The number of leading zeros is 63 less the binary logarithm. -/
def gcHistogramBucket (maxValueBits precision val : ℕ) : ℕ :=
  let major := if val < 2 ^ precision then 0 else 64 - (63 - val.log2) - precision
  let minor := if val < 2 ^ precision then val
    else (val >>> (major - 1)) &&& (2 ^ precision - 1)
  let idx := (major <<< precision) ||| minor
  if idx ≥ maxValueBits <<< precision then maxValueBits <<< precision else idx

def largeObjectFreelistNumSizeClasses : ℕ := (63 <<< 2) + 1

def largeObjectFreelistSizeClass (val : ℕ) : ℕ := gcHistogramBucket 63 2 val

/-! ## The space -/

/-- What is fixed when the collector is built and when the space is initialized. -/
structure Config where
  pageSizeLog2 : ℕ
  /-- `GC_GENERATIONAL`. -/
  generational : Bool
  synchronousRelease : Bool
  pageSizeLog2_lt : pageSizeLog2 < 64

def Config.pageSize (config : Config) : ℕ := 2 ^ config.pageSizeLog2

structure LargeObjectSpace where
  marked : ℕ
  nodes : NodePointer → Option LargeObjectNode
  objectTree : BinaryTree NodePointer
  objectMap : AddressMap
  nursery : AddressMap
  quarantine : ℕ → NodePointer
  totalPages : Word
  freePages : Word
  livePagesAtLastCollection : Word
  pagesFreedByLastCollection : Word

/-- The ways in which an operation does not return. -/
inductive LospaceFailure where
  | table (failure : TableFailure)
  /-- There is no memory for a node. -/
  | outOfNodes
  /-- `gc_platform_acquire_memory` crashes. -/
  | noMemory
  /-- A `GC_ASSERT` that fails. -/
  | assertion
  /-- `large_object_space_mark` of an object that is not live. -/
  | markOfDead
  /-- A node that is not allocated, or the wrong member of the union. -/
  | badAccess
  /-- A loop that never ends. -/
  | diverges
  deriving DecidableEq, Repr

/-- What the operating system and the C library answer. -/
structure Environment where
  /-- Whether the `malloc` of a number of bytes succeeds. -/
  memory : ℕ → Bool
  /-- Where the next node is allocated. -/
  node : NodePointer
  /-- Where the next pages are mapped. -/
  address : ℕ

namespace LargeObjectSpace

variable (space : LargeObjectSpace) (node : NodePointer)

def get : Outcome LospaceFailure LargeObjectNode :=
  match space.nodes node with
  | some found => pure found
  | none => .failed .badAccess

def keyOf : LargeObject :=
  match space.nodes node with
  | some found => found.key
  | none => default

def deadData? : Option LargeObjectDeadData :=
  match space.nodes node with
  | some { key := _, value := .dead data } => some data
  | _ => none

def isLive : Bool :=
  match space.nodes node with
  | some { key := _, value := .live _ } => true
  | _ => false

def set (found : LargeObjectNode) : LargeObjectSpace :=
  { space with nodes := update space.nodes node (some found) }

/-- The member `dead` of the union. -/
def getDead : Outcome LospaceFailure LargeObjectDeadData :=
  match space.deadData? node with
  | some data => pure data
  | none => .failed .badAccess

def setDead (data : LargeObjectDeadData) : Outcome LospaceFailure LargeObjectSpace := do
  let found ← space.get node
  match found.value with
  | .dead _ => pure (space.set node { found with value := .dead data })
  | .live _ => .failed .badAccess

def setPrev (prev : Option (Link ℕ NodePointer)) : Outcome LospaceFailure LargeObjectSpace := do
  let data ← space.getDead node
  space.setDead node { data with prev := prev }

def setNext (next : NodePointer) : Outcome LospaceFailure LargeObjectSpace := do
  let data ← space.getDead node
  space.setDead node { data with next := next }

/-! ## Freelists -/

def readLink : Link ℕ NodePointer → Outcome LospaceFailure NodePointer
  | .head idx => pure (space.quarantine idx)
  | .next before => do
      let data ← space.getDead before
      pure data.next

def writeLink : Link ℕ NodePointer → Outcome LospaceFailure LargeObjectSpace
  | .head idx => pure { space with quarantine := update space.quarantine idx node }
  | .next before => space.setNext before node

/-- `if (target) target->value.dead.prev = prev`. -/
def linkBack (target : NodePointer) (prev : Option (Link ℕ NodePointer)) :
    Outcome LospaceFailure LargeObjectSpace :=
  if target = 0 then pure space else space.setPrev target prev

def addToFreelist : Outcome LospaceFailure LargeObjectSpace := do
  let found ← space.get node
  let bucket := largeObjectFreelistSizeClass found.key.size
  let head := space.quarantine bucket
  let cleared := space.set node
    { found with value := .dead { age := 0, prev := none, next := head } }
  let linked ← cleared.linkBack head (some (.next node))
  let back ← linked.setPrev node (some (.head bucket))
  back.writeLink node (.head bucket)

def removeFromFreelist : Outcome LospaceFailure LargeObjectSpace := do
  Outcome.check (space.isLive node = false) .assertion
  let dead ← space.getDead node
  match dead.prev with
  | none => .failed .assertion
  | some link => do
      let back ← space.linkBack dead.next dead.prev
      let written ← back.writeLink dead.next link
      let unlinked ← written.setPrev node none
      unlinked.setNext node 0

/-! ## The tree -/

/-- Where an address is from a node of the tree. -/
def compareAt (addr : ℕ) : NodePointer → Ordering := fun other =>
  largeObjectCompare addr (space.keyOf other)

/-- `large_object_tree_insert`; `fresh` is where `malloc` puts the node. -/
def treeInsert (fresh : NodePointer) (key : LargeObject) (value : LargeObjectData) :
    Outcome LospaceFailure (LargeObjectSpace × NodePointer) := do
  let (tree, found) := SplayTree.insert (space.compareAt key.addr) fresh space.objectTree
  if found = fresh then do
    Outcome.check (fresh ≠ 0) .outOfNodes
    -- `malloc` returns memory that is not in use.
    Outcome.require (space.nodes fresh = none)
    pure ({ space with
      objectTree := tree
      nodes := update space.nodes fresh (some { key := key, value := value }) }, fresh)
  else do
    let old ← space.get found
    Outcome.check (old.key = key) .assertion
    pure ({ space with
      objectTree := tree
      nodes := update space.nodes found (some { old with value := value }) }, found)

/-- `large_object_tree_lookup`, for what it does to the tree. -/
def treeLookup (addr : ℕ) : LargeObjectSpace :=
  { space with objectTree := (SplayTree.lookup (space.compareAt addr) space.objectTree).1 }

def treeRemove (addr : ℕ) : Outcome LospaceFailure LargeObjectSpace :=
  match SplayTree.remove (space.compareAt addr) space.objectTree with
  | none => .failed .assertion
  | some (removed, tree) => pure { space with
      objectTree := tree
      nodes := update space.nodes removed none }

/-! ## The maps -/

def objectMapAdd (memory : ℕ → Bool) (addr : ℕ) : Outcome LospaceFailure LargeObjectSpace := do
  let map ← (space.objectMap.add memory (BitVec.ofNat 64 addr) node).mapFailure .table
  pure { space with objectMap := map }

def objectMapRemove (memory : ℕ → Bool) (addr : ℕ) : Outcome LospaceFailure LargeObjectSpace := do
  let map ← (space.objectMap.remove memory (BitVec.ofNat 64 addr)).mapFailure .table
  pure { space with objectMap := map }

def nurseryAdd (memory : ℕ → Bool) (addr : ℕ) : Outcome LospaceFailure LargeObjectSpace := do
  let map ← (space.nursery.add memory (BitVec.ofNat 64 addr) node).mapFailure .table
  pure { space with nursery := map }

end LargeObjectSpace

/-! ## Allocation -/

/-- `large_object_space_npages`. -/
def largeObjectSpaceNpages (config : Config) (bytes : Word) : ℕ :=
  ((bytes + BitVec.ofNat 64 config.pageSize - 1) >>> config.pageSizeLog2).toNat

namespace LargeObjectSpace

variable (config : Config) (space : LargeObjectSpace)

/-- `while (node && node->key.size < size)`. -/
def findInBucket (size : ℕ) : ℕ → NodePointer → Outcome LospaceFailure NodePointer
  | 0, _ => .failed .diverges
  | rounds + 1, node =>
      if node = 0 then pure 0
      else do
        let found ← space.get node
        if found.key.size < size then do
          let dead ← space.getDead node
          findInBucket size rounds dead.next
        else pure node

/-- The search through the buckets from `idx` on, for as many as are left. -/
def findHole (size : ℕ) : List ℕ → Outcome LospaceFailure NodePointer
  | [] => pure 0
  | idx :: rest => do
      let node ← space.findInBucket size (space.objectTree.numNodes + 1) (space.quarantine idx)
      if node = 0 then findHole size rest else pure node

/-- The buckets from the size class of a size on. -/
def bucketsFrom (size : ℕ) : List ℕ :=
  (List.range largeObjectFreelistNumSizeClasses).drop (largeObjectFreelistSizeClass size)

/-- Cuts a node that is too big to a size. The rest becomes a node in quarantine. -/
def trimTail (node : NodePointer) (found : LargeObjectNode) (size : ℕ) (environment : Environment) :
    Outcome LospaceFailure LargeObjectSpace :=
  if found.key.size > size then do
    let tail := { addr := found.key.addr + size, size := found.key.size - size : LargeObject }
    let short := space.set node { found with key := { found.key with size := size } }
    let (inserted, tailNode) ← short.treeInsert environment.node tail
      (.dead { age := 0, prev := none, next := 0 })
    let tailFound ← inserted.get tailNode
    let mapped ← inserted.objectMapAdd tailNode environment.memory tailFound.key.addr
    mapped.addToFreelist tailNode
  else pure space

/-- Adds the object to the nursery. -/
def remember (node : NodePointer) (memory : ℕ → Bool) (addr : ℕ) :
    Outcome LospaceFailure LargeObjectSpace :=
  if config.generational then space.nurseryAdd node memory addr else pure space

/-- Takes a node out of quarantine. -/
def allocFromQuarantine (node : NodePointer) (npages size : ℕ) (trace : TraceKind)
    (environment : Environment) : Outcome LospaceFailure (LargeObjectSpace × NodePointer) := do
  let unlinked ← space.removeFromFreelist node
  let dead ← unlinked.get node
  let found : LargeObjectNode :=
    { dead with value := .live { mark := LARGE_OBJECT_NURSERY, trace := trace } }
  let live := unlinked.set node found
  let trimmed ← live.trimTail node found size environment
  let remembered ← trimmed.remember config node environment.memory found.key.addr
  pure ({ remembered with freePages := remembered.freePages - BitVec.ofNat 64 npages }, node)

/-- What the platform promises of pages that it maps: they are not in use. -/
def IsUnmapped (addr size : ℕ) : Prop :=
  addr + size ≤ 2 ^ 64 ∧ ∀ node ∈ SplayTree.inorder space.objectTree,
    addr + size ≤ (space.keyOf node).addr ∨
      (space.keyOf node).addr + (space.keyOf node).size ≤ addr

instance (addr size : ℕ) : Decidable (space.IsUnmapped addr size) :=
  have := List.decidableBAll (fun node => addr + size ≤ (space.keyOf node).addr ∨
    (space.keyOf node).addr + (space.keyOf node).size ≤ addr)
    (SplayTree.inorder space.objectTree)
  inferInstanceAs (Decidable (_ ∧ _))

/-- Gets fresh pages. To map no pages at all is an error. -/
def allocFresh (npages size : ℕ) (trace : TraceKind) (environment : Environment) :
    Outcome LospaceFailure (LargeObjectSpace × NodePointer) := do
  let addr := environment.address
  Outcome.check (size ≠ 0 ∧ addr ≠ 0) .noMemory
  Outcome.require (space.IsUnmapped addr size)
  let (inserted, node) ← space.treeInsert environment.node { addr := addr, size := size }
    (.live { mark := LARGE_OBJECT_NURSERY, trace := trace })
  let mapped ← inserted.objectMapAdd node environment.memory addr
  pure ({ mapped with totalPages := mapped.totalPages + BitVec.ofNat 64 npages }, node)

/-- `large_object_space_alloc` for a request of a number of bytes. The result has the node of the
object, and whether it was in quarantine. -/
def alloc (bytes : Word) (trace : TraceKind) (environment : Environment) :
    Outcome LospaceFailure (LargeObjectSpace × NodePointer × Bool) := do
  let npages := largeObjectSpaceNpages config bytes
  let size := npages <<< config.pageSizeLog2
  let hole ← space.findHole size (bucketsFrom size)
  if hole = 0 then do
    let (allocated, node) ← space.allocFresh npages size trace environment
    pure (allocated, node, false)
  else do
    let (allocated, node) ← space.allocFromQuarantine config hole npages size trace environment
    pure (allocated, node, true)

/-! ## Collections -/

def startGc (isMinorGc : Bool) : LargeObjectSpace :=
  if isMinorGc then space
  else { space with
    marked := space.marked ^^^ LARGE_OBJECT_MARK_TOGGLE_BIT
    livePagesAtLastCollection := 0 }

/-- `large_object_space_mark`. -/
def mark (ref : Word) : Outcome LospaceFailure LargeObjectSpace := do
  let node ← (space.objectMap.lookup ref 0).mapFailure .table
  if node = 0 then pure space
  else do
    let found ← space.get node
    match found.value with
    | .dead _ => .failed .markOfDead
    | .live data =>
        if data.mark = space.marked then pure space
        else
          let pages := found.key.size >>> config.pageSizeLog2
          pure { space.set node
              { found with value := .live { data with mark := space.marked } } with
            livePagesAtLastCollection := space.livePagesAtLastCollection + BitVec.ofNat 64 pages }

def sweepOne (entry : Word × Word) : Outcome LospaceFailure LargeObjectSpace := do
  let found ← space.get entry.2
  match found.value with
  | .dead _ => pure space
  | .live data => if data.mark = space.marked then pure space else space.addToFreelist entry.2

def sweep : List (Word × Word) → LargeObjectSpace → Outcome LospaceFailure LargeObjectSpace
  | [], space => pure space
  | entry :: rest, space => do
      let after ← space.sweepOne entry
      sweep rest after

/-- The objects that a collection of a kind sweeps. -/
def sweptEntries (isMinorGc : Bool) : List (Word × Word) :=
  if config.generational then
    if isMinorGc then AddressMap.forEach space.nursery else AddressMap.forEach space.objectMap
  else AddressMap.forEach space.objectMap

def clearNursery : LargeObjectSpace :=
  if config.generational then { space with nursery := AddressMap.clear space.nursery } else space

/-- `large_object_space_finish_gc`, up to where it unlocks the space. -/
def finishGc (isMinorGc : Bool) : Outcome LospaceFailure LargeObjectSpace := do
  let marked ← sweep (space.sweptEntries config isMinorGc) space
  let swept := marked.clearNursery config
  let freePages := swept.totalPages - swept.livePagesAtLastCollection
  pure { swept with
    pagesFreedByLastCollection := freePages - swept.freePages
    freePages := freePages }

/-- `large_object_space_add_to_allocation_counter`. -/
def addToAllocationCounter (counter : Word) : Word :=
  let pages := space.totalPages - space.freePages
  let pages := pages - space.livePagesAtLastCollection
  counter + (pages <<< config.pageSizeLog2)

/-! ## Quarantine -/

/-- Gives a node back to the operating system. -/
def release (memory : ℕ → Bool) (node : NodePointer) : Outcome LospaceFailure LargeObjectSpace := do
  let found ← space.get node
  let unlinked ← space.removeFromFreelist node
  let unmapped ← unlinked.objectMapRemove memory found.key.addr
  unmapped.treeRemove found.key.addr

/-- The loop over a bucket: `for (node = *link; node; node = *link)`. -/
def processBucket (memory : ℕ → Bool) :
    ℕ → Link ℕ NodePointer → LargeObjectSpace → Outcome LospaceFailure LargeObjectSpace
  | 0, _, _ => .failed .diverges
  | rounds + 1, link, space => do
      let node ← space.readLink link
      if node = 0 then pure space
      else do
        Outcome.check (space.isLive node = false) .assertion
        let dead ← space.getDead node
        let aged ← space.setDead node { dead with age := (dead.age + 1) % 2 ^ 8 }
        if (dead.age + 1) % 2 ^ 8 < 2 then processBucket memory rounds (.next node) aged
        else do
          let released ← aged.release memory node
          processBucket memory rounds link released

def processBuckets (memory : ℕ → Bool) :
    List ℕ → LargeObjectSpace → Outcome LospaceFailure LargeObjectSpace
  | [], space => pure space
  | idx :: rest, space => do
      let after ← processBucket memory (space.objectTree.numNodes + 1) (.head idx) space
      processBuckets memory rest after

def processQuarantine (memory : ℕ → Bool) : Outcome LospaceFailure LargeObjectSpace :=
  processBuckets memory (List.range largeObjectFreelistNumSizeClasses) space

def releaseSynchronously (memory : ℕ → Bool) : Outcome LospaceFailure LargeObjectSpace :=
  if config.synchronousRelease then space.processQuarantine memory else pure space

end LargeObjectSpace

/-- `large_object_space_init`. -/
def largeObjectSpaceInit (memory : ℕ → Bool) : Outcome LospaceFailure LargeObjectSpace := do
  let objectMap ← (AddressMap.init memory).mapFailure .table
  let nursery ← (AddressMap.init memory).mapFailure .table
  pure {
    marked := LARGE_OBJECT_MARK_0
    nodes := fun _ => none
    objectTree := .nil
    objectMap := objectMap
    nursery := nursery
    quarantine := fun _ => 0
    totalPages := 0
    freePages := 0
    livePagesAtLastCollection := 0
    pagesFreedByLastCollection := 0 }

/-! ## Runs -/

/-- The space with whether a collection holds its lock, of which kind that is, and the nodes that
were allocated since the last one: each with whether it came out of quarantine. -/
structure LospaceState where
  space : LargeObjectSpace
  collecting : Option Bool
  allocated : List (NodePointer × Bool)

inductive LospaceAction where
  | alloc (bytes : Word) (trace : TraceKind) (environment : Environment)
  | treeLookup (addr : ℕ)
  | startGc (isMinorGc : Bool)
  | mark (ref : Word)
  | finishGc (memory : ℕ → Bool)
  | processQuarantine (memory : ℕ → Bool)

namespace LospaceState

variable (config : Config) (state : LospaceState)

def step : LospaceAction → Outcome LospaceFailure LospaceState
  | .alloc bytes trace environment => do
      Outcome.require (state.collecting = none)
      let (space, node, reused) ← state.space.alloc config bytes trace environment
      pure { state with
        space := space
        allocated := (node, reused) :: state.allocated }
  | .treeLookup addr => pure { state with space := state.space.treeLookup addr }
  | .startGc isMinorGc => do
      Outcome.require (state.collecting = none)
      pure { state with
        space := state.space.startGc isMinorGc
        collecting := some isMinorGc }
  | .mark ref => do
      Outcome.require (state.collecting ≠ none)
      let space ← state.space.mark config ref
      pure { state with space := space }
  | .finishGc memory =>
      match state.collecting with
      | none => .disabled
      | some isMinorGc => do
          let finished ← state.space.finishGc config isMinorGc
          let released ← finished.releaseSynchronously config memory
          pure {
            space := released
            collecting := none
            allocated := [] }
  | .processQuarantine memory => do
      Outcome.require (state.collecting = none)
      let space ← state.space.processQuarantine memory
      pure { state with space := space }

end LospaceState

def lospaceSystem (config : Config) : System LospaceState LospaceAction LospaceFailure :=
  { initial := fun state => ∃ memory, largeObjectSpaceInit memory = .next state.space ∧
      state.collecting = none ∧ state.allocated = []
    step := LospaceState.step config }

end Whippet.Lospace
