import Whippet.Semi.Space

/-!
How the semi-space collector traces the heap (`semi.c`).

A small object is found by its address, and so is a large one; the first word of a copied object
holds its new address. Tracing an object is a call of `gc_trace_object`, which visits its fields
in order. A large object that is visited for the first time is traced at once, inside the call that
visited it, so the calls under way are a stack; one step is the visit of one edge, or the return
of one call. Ephemerons, finalizers and external objects are left out.

Owns: the flip at the start of a collection, `copy`, `forward`, `visit` with its two spaces,
`scan`, and the roots and `trace_closure` as a machine of such steps. Does not own: what is
preserved.
-/

namespace Whippet.Semi

open Function
open Nofl (alignUp)

/-- `struct gc_ref`. -/
inductive Ref where
  | null
  | immediate (bits : ℕ)
  | heap (addr : ℕ)
  deriving DecidableEq, Repr

/-- An object, as `gc_trace_object` presents it. -/
structure Object (Contents : Type) where
  /-- The size it returns. -/
  size : ℕ
  /-- The fields it visits. -/
  fields : List Ref
  /-- All that it does not visit, the header included. -/
  contents : Contents
  deriving DecidableEq, Repr

/-- What is at the address of a small object. -/
inductive Cell (Contents : Type) where
  | object (object : Object Contents)
  /-- The header has been overwritten. -/
  | forwarded (addr : ℕ)
  deriving DecidableEq, Repr

/-- `struct large_object_node` of a live object. -/
structure LargeObjectNode (Contents : Type) where
  size : ℕ
  mark : ℕ
  object : Object Contents
  deriving DecidableEq, Repr

def LARGE_OBJECT_MARK_TOGGLE_BIT : ℕ := 2

/-- The live part of `large_object_space`. -/
structure LargeObjectMap (Contents : Type) where
  marked : ℕ
  objectMap : ℕ → Option (LargeObjectNode Contents)
  pageSize : ℕ
  livePagesAtLastCollection : ℕ

structure Memory (Contents : Type) where
  space : SemiSpace
  cells : ℕ → Option (Cell Contents)
  large : LargeObjectMap Contents
  /-- The roots of the heap and of the mutator. -/
  roots : List Ref

/-- What the edges that are visited belong to. -/
inductive Holder where
  | roots
  | small (addr : ℕ)
  | large (addr : ℕ)
  deriving DecidableEq, Repr

/-- A call of `gc_trace_object` or of its like for the roots, with the edge it visits next. -/
structure Frame where
  holder : Holder
  index : ℕ
  deriving DecidableEq, Repr

variable {Contents : Type}

namespace Memory

def fields (memory : Memory Contents) : Holder → List Ref
  | .roots => memory.roots
  | .small addr =>
      match memory.cells addr with
      | some (.object object) => object.fields
      | _ => []
  | .large addr =>
      match memory.large.objectMap addr with
      | some node => node.object.fields
      | none => []

/-- What the object at an address of the semi-space takes up. -/
def extent (memory : Memory Contents) (addr : ℕ) : ℕ :=
  match memory.cells addr with
  | some (.object object) => alignUp object.size GC_ALIGNMENT
  | _ => 0

/-- `gc_edge_update`. -/
def edgeUpdate (memory : Memory Contents) (edge : Frame) (ref : Ref) : Memory Contents :=
  match edge.holder with
  | .roots => { memory with roots := memory.roots.set edge.index ref }
  | .small addr =>
      match memory.cells addr with
      | some (.object object) =>
          let written := { object with fields := object.fields.set edge.index ref }
          { memory with cells := update memory.cells addr (some (.object written)) }
      | _ => memory
  | .large addr =>
      match memory.large.objectMap addr with
      | some node =>
          let written := { node.object with fields := node.object.fields.set edge.index ref }
          { memory with large := { memory.large with
              objectMap :=
                update memory.large.objectMap addr (some { node with object := written }) } }
      | none => memory

end Memory

/-! ## Visiting an edge -/

def copy (memory : Memory Contents) (ref : ℕ) (object : Object Contents) :
    Memory Contents × ℕ :=
  let newRef := memory.space.hp
  let cells := update memory.cells newRef (some (.object object))
  let cells := update cells ref (some (.forwarded newRef))
  let hp := newRef + alignUp object.size GC_ALIGNMENT
  ({ memory with cells := cells, space := { memory.space with hp := hp } }, newRef)

def forward (memory : Memory Contents) (obj : ℕ) : Outcome Assertion (Memory Contents × ℕ) :=
  match memory.cells obj with
  | some (.forwarded addr) => pure (memory, addr)
  | some (.object object) => pure (copy memory obj object)
  | none => .disabled

/-- Returns whether the object was not marked before. -/
def largeObjectSpaceMark (space : LargeObjectMap Contents) (ref : ℕ) :
    LargeObjectMap Contents × Bool :=
  match space.objectMap ref with
  | none => (space, false)
  | some node =>
      if node.mark = space.marked then (space, false)
      else
        let node := { node with mark := space.marked }
        ({ space with
          objectMap := update space.objectMap ref (some node)
          livePagesAtLastCollection :=
            space.livePagesAtLastCollection + node.size / space.pageSize }, true)

def visitSemiSpace (memory : Memory Contents) (edge : Frame) (ref : ℕ) :
    Outcome Assertion (Memory Contents) := do
  let (memory, new) ← forward memory ref
  pure (memory.edgeUpdate edge (.heap new))

/-- Returns the object to trace, if there is one. -/
def visitLargeObjectSpace (memory : Memory Contents) (ref : ℕ) :
    Memory Contents × Option Holder :=
  let (large, unmarked) := largeObjectSpaceMark memory.large ref
  ({ memory with large := large }, if unmarked = true then some (.large ref) else none)

/-- A reference to neither space is to an external object. -/
def visit (memory : Memory Contents) (edge : Frame) (ref : Ref) :
    Outcome Assertion (Memory Contents × Option Holder) :=
  match ref with
  | .null => pure (memory, none)
  | .immediate _ => pure (memory, none)
  | .heap addr => do
      Outcome.check (regionContains memory.space.toSpace addr = false) .containsToSpace
      if regionContains memory.space.fromSpace addr = true then do
        let memory ← visitSemiSpace memory edge addr
        pure (memory, none)
      else if (memory.large.objectMap addr).isSome = true then
        pure (visitLargeObjectSpace memory addr)
      else .disabled

/-! ## Tracing -/

structure Tracing (Contents : Type) where
  memory : Memory Contents
  grey : ℕ
  /-- The calls under way, the innermost first. -/
  frames : List Frame

/-- A call that has visited all of its edges returns, and `scan` moves on to the next object. -/
def finishFrame (tracing : Tracing Contents) (holder : Holder) (rest : List Frame) :
    Tracing Contents :=
  match holder with
  | .small addr => { tracing with frames := rest, grey := addr + tracing.memory.extent addr }
  | _ => { tracing with frames := rest }

/-- One step of the roots' visits and of `trace_closure`. -/
def traceStep (tracing : Tracing Contents) : Outcome Assertion (Tracing Contents) :=
  match tracing.frames with
  | [] => do
      Outcome.require (tracing.grey < tracing.memory.space.hp)
      pure { tracing with frames := [{ holder := .small tracing.grey, index := 0 }] }
  | frame :: rest =>
      match (tracing.memory.fields frame.holder)[frame.index]? with
      | none => pure (finishFrame tracing frame.holder rest)
      | some ref => do
          let (memory, found) ← visit tracing.memory frame ref
          let visited := { frame with index := frame.index + 1 } :: rest
          let frames :=
            match found with
            | some holder => { holder := holder, index := 0 } :: visited
            | none => visited
          pure { tracing with memory := memory, frames := frames }

/-- `trace_closure` returns, with no call under way. -/
def Tracing.Finished (tracing : Tracing Contents) : Prop :=
  tracing.frames = [] ∧ tracing.memory.space.hp ≤ tracing.grey

def largeObjectSpaceStartGc (space : LargeObjectMap Contents) : LargeObjectMap Contents :=
  { space with
    marked := space.marked ^^^ LARGE_OBJECT_MARK_TOGGLE_BIT, livePagesAtLastCollection := 0 }

/-- `collect` up to its visits of the roots. -/
def startCollection (memory : Memory Contents) : Outcome Assertion (Tracing Contents) := do
  let large := largeObjectSpaceStartGc memory.large
  let space ← flip memory.space
  pure
    { memory := { memory with space := space, large := large }
      grey := space.hp
      frames := [{ holder := .roots, index := 0 }] }

end Whippet.Semi
