import Whippet.Ephemeron.Tracing
import Whippet.Library.Closure

/-!
What is live in a heap with ephemerons.

Owns: the rules by which objects are live, the final form of references, and the invariant of a
collection: what each object has been through and what is still to be done for it.
-/

namespace Whippet.Ephemerons

namespace Graph

variable (graph : Graph)

/-- The reference is to an object that the collection may trace. -/
def Refers (ref : Ref) (addr : ℕ) : Prop := ref = .object addr ∧ graph.objects addr ≠ none

/-- The chain link of an ephemeron, past those that are dead. -/
def chainOf (addr : ℕ) (ephemeron : Ephemeron) : Ref :=
  followChain graph.objects (graph.depth addr) ephemeron.chain

def allRoots : List Ref := graph.roots ++ graph.finalizerRoots.flatten

/-- The rules by which objects are live. A key that is no object of the collected spaces is always
live. -/
inductive Rule : List ℕ → ℕ → Prop where
  | root {ref : Ref} {target : ℕ} (isRoot : ref ∈ graph.allRoots)
      (refers : graph.Refers ref target) : Rule [] target
  | field {addr target : ℕ} {fields : List Ref} {ref : Ref}
      (found : graph.objects addr = some (.ordinary fields)) (isField : ref ∈ fields)
      (refers : graph.Refers ref target) : Rule [addr] target
  | chain {addr target : ℕ} {ephemeron : Ephemeron}
      (found : graph.objects addr = some (.ephemeron ephemeron))
      (refers : graph.Refers (graph.chainOf addr ephemeron) target) : Rule [addr] target
  | value {addr key target : ℕ} {ephemeron : Ephemeron}
      (found : graph.objects addr = some (.ephemeron ephemeron))
      (refersKey : graph.Refers ephemeron.key key)
      (refers : graph.Refers ephemeron.value target) : Rule [addr, key] target
  | valueOfRetained {addr target : ℕ} {ephemeron : Ephemeron}
      (found : graph.objects addr = some (.ephemeron ephemeron))
      (notNull : ephemeron.key ≠ .null)
      (retained : ∀ key, ¬graph.Refers ephemeron.key key)
      (refers : graph.Refers ephemeron.value target) : Rule [addr] target

def Live (addr : ℕ) : Prop := Derivable graph.Rule addr

/-- The key of an ephemeron is live, if just `live` objects are. -/
def KeyLive (live : Set ℕ) (key : Ref) : Prop :=
  key ≠ .null ∧ ∀ addr, graph.Refers key addr → addr ∈ live

/-- A reference as it is after the collection, if it is to a live object or to none. -/
def final (ref : Ref) : Ref :=
  match ref with
  | .object addr =>
      match graph.objects addr with
      | some _ => .object (graph.place addr)
      | none => ref
  | _ => ref

section Rules

variable {graph} {addr : ℕ} {ephemeron : Ephemeron} {ref : Ref}

theorem Refers.final {target : ℕ} (refers : graph.Refers ref target) :
    graph.final ref = .object (graph.place target) := by
  obtain ⟨rfl, found⟩ := refers
  rw [Graph.final]
  cases object : graph.objects target with
  | none => exact absurd object found
  | some => rfl

theorem final_of_not_refers (none : ∀ addr, ¬graph.Refers ref addr) : graph.final ref = ref := by
  cases ref with
  | object addr =>
      rw [Graph.final]
      cases object : graph.objects addr with
      | none => rfl
      | some => exact absurd ⟨rfl, by rw [object]; simp⟩ (none addr)
  | _ => rfl

@[simp] theorem final_eq_null : graph.final ref = .null ↔ ref = .null := by
  cases ref with
  | object addr =>
      rw [Graph.final]
      cases graph.objects addr <;> simp
  | _ => simp [Graph.final]

/-- A final address is not that of another object. -/
theorem Refers.of_final {target : ℕ} (refers : graph.Refers (graph.final ref) target) :
    graph.Refers ref target := by
  obtain ⟨same, found⟩ := refers
  cases ref with
  | object addr =>
      rw [Graph.final] at same
      cases object : graph.objects addr with
      | none =>
          rw [object] at same
          exact ⟨same, found⟩
      | some contents =>
          rw [object] at same
          simp only [Ref.object.injEq] at same
          obtain ⟨other, foundOther⟩ := Option.ne_none_iff_exists'.mp found
          rw [← same] at foundOther
          have inPlace := graph.place_apart addr other foundOther
          rw [← same, inPlace]
          exact ⟨rfl, by rw [object]; simp⟩
  | _ => simp [Graph.final] at same

theorem live_of_root {target : ℕ} (isRoot : ref ∈ graph.allRoots)
    (refers : graph.Refers ref target) : graph.Live target :=
  .derive (.root isRoot refers) (by simp)

theorem live_of_field {target : ℕ} {fields : List Ref} (live : graph.Live addr)
    (found : graph.objects addr = some (.ordinary fields)) (isField : ref ∈ fields)
    (refers : graph.Refers ref target) : graph.Live target :=
  .derive (.field found isField refers) (by simpa)

theorem live_of_chain {target : ℕ} (live : graph.Live addr)
    (found : graph.objects addr = some (.ephemeron ephemeron))
    (refers : graph.Refers (graph.chainOf addr ephemeron) target) : graph.Live target :=
  .derive (.chain found refers) (by simpa)

theorem live_of_value {target : ℕ} (live : graph.Live addr)
    (found : graph.objects addr = some (.ephemeron ephemeron))
    (keyLive : graph.KeyLive {addr | graph.Live addr} ephemeron.key)
    (refers : graph.Refers ephemeron.value target) : graph.Live target := by
  by_cases retained : ∀ key, ¬graph.Refers ephemeron.key key
  · exact .derive (.valueOfRetained found keyLive.1 retained refers) (by simpa)
  · rw [not_forall_not] at retained
    obtain ⟨key, refersKey⟩ := retained
    apply Derivable.derive (.value found refersKey refers)
    intro premise isPremise
    rcases List.mem_pair.mp isPremise with rfl | rfl
    · exact live
    · exact keyLive.2 _ refersKey

end Rules

end Graph

/-! ## The invariant -/

section Invariant

variable (graph : Graph)

/-- Everything that the reference is to is forwarded. -/
def Marked (world : World) (ref : Ref) : Prop :=
  ∀ addr, graph.Refers ref addr → world.forwarded addr = some (graph.place addr)

/-- The reference is as it was, or is final and everything it is to is forwarded. -/
def Tracks (world : World) (original now : Ref) : Prop :=
  now = original ∨ now = graph.final original ∧ Marked graph world original

/-- What an ephemeron has been through. `exempt` ephemerons are those that the resolution under
way has not come to. -/
inductive Status (world : World) (exempt : ℕ → Prop) (addr : ℕ) (original : Ephemeron) :
    Ephemeron → Prop where
  | untouched : Status world exempt addr original original
  /-- It was dead before the collection. -/
  | dead (isDead : original.key = .null)
    (markedChain : Marked graph world (graph.chainOf addr original)) :
      Status world exempt addr original
        { state := .traced, epoch := graph.epoch, chain := graph.final (graph.chainOf addr original)
          key := .null, value := original.value }
  | pending {key : ℕ} (isKey : original.key = .object key) (collected : graph.objects key ≠ none)
      (markedChain : Marked graph world (graph.chainOf addr original))
      (published : addr ∈ world.buckets (graph.hash key))
      (unmarked : world.checkPendingEphemerons = true → exempt addr ∨ world.forwarded key = none) :
      Status world exempt addr original
        { state := .pending, epoch := graph.epoch
          chain := graph.final (graph.chainOf addr original)
          key := original.key, value := original.value }
  | resolved (notNull : original.key ≠ .null) (markedKey : Marked graph world original.key)
      (markedChain : Marked graph world (graph.chainOf addr original))
      (queued : addr ∈ world.resolved ∨ Work.resolved addr ∈ world.work) :
      Status world exempt addr original
        { state := .resolved, epoch := graph.epoch
          chain := graph.final (graph.chainOf addr original)
          key := graph.final original.key, value := original.value }
  | traced (notNull : original.key ≠ .null) (markedKey : Marked graph world original.key)
      (markedChain : Marked graph world (graph.chainOf addr original))
      (markedValue : Marked graph world original.value) :
      Status world exempt addr original
        { state := .traced, epoch := graph.epoch
          chain := graph.final (graph.chainOf addr original)
          key := graph.final original.key, value := graph.final original.value }

/-- What there is to say of one object, by what it was and is. -/
inductive ObjectOk (world : World) (exempt : ℕ → Prop) (addr : ℕ) :
    Option Object → Option Object → Prop where
  | absent : ObjectOk world exempt addr none none
  | ordinary {original now : List Ref} (tracks : List.Forall₂ (Tracks graph world) original now)
      (traced : world.forwarded addr ≠ none → ∀ index ref, original[index]? = some ref →
        Work.field addr index ∈ world.work ∨ Marked graph world ref) :
      ObjectOk world exempt addr (some (.ordinary original)) (some (.ordinary now))
  | ephemeron {original now : Ephemeron} (status : Status graph world exempt addr original now)
      (traced : world.forwarded addr ≠ none →
        Work.ephemeron addr ∈ world.work ∨ now.epoch = graph.epoch)
      (touched : now.epoch = graph.epoch → world.forwarded addr ≠ none) :
      ObjectOk world exempt addr (some (.ephemeron original)) (some (.ephemeron now))

/-- The ephemeron was resolved, and may be traced by now. -/
def Resolved (world : World) (addr : ℕ) : Prop :=
  ∃ original now, graph.objects addr = some (.ephemeron original) ∧
    world.objects addr = some (.ephemeron now) ∧ original.key ≠ .null ∧
      Marked graph world original.key ∧ now.epoch = graph.epoch ∧
        (now.state = .resolved ∨ now.state = .traced)

/-- What a piece of work relies on. -/
def ItemOk (world : World) : Work → Prop
  | .root ref => ref ∈ graph.allRoots
  | .field addr _ => world.forwarded addr ≠ none
  | .ephemeron addr => world.forwarded addr ≠ none
  | .resolved addr => Resolved graph world addr

/-- The invariant while the tracer runs. `claimed` is the ephemeron that is being traced, as it is
now. -/
structure Invariant (exempt : ℕ → Prop) (claimed : Option (ℕ × Ephemeron)) (world : World) :
    Prop where
  domain : ∀ addr, world.objects addr = none ↔ graph.objects addr = none
  objects : ∀ addr, (∀ now, claimed ≠ some (addr, now)) →
    ObjectOk graph world exempt addr (graph.objects addr) (world.objects addr)
  claimedOk : ∀ addr now, claimed = some (addr, now) →
    world.objects addr = some (.ephemeron now) ∧ now.state = .claimed ∧
      now.epoch = graph.epoch ∧ world.forwarded addr ≠ none
  forwarded : ∀ addr place, world.forwarded addr = some place →
    place = graph.place addr ∧ graph.objects addr ≠ none ∧ graph.Live addr
  work : ∀ item ∈ world.work, ItemOk graph world item
  resolved : ∀ addr ∈ world.resolved, Resolved graph world addr
  roots : ∀ ref ∈ graph.roots, Work.root ref ∈ world.work ∨ Marked graph world ref
  finalizerRoots : ∀ roots ∈ graph.finalizerRoots, roots ∈ world.finalizerRoots ∨
    ∀ ref ∈ roots, Work.root ref ∈ world.work ∨ Marked graph world ref
  remaining : ∀ roots ∈ world.finalizerRoots, roots ∈ graph.finalizerRoots
  resolutions : world.resolutions.Nodup
  once : ∀ addr ∈ world.resolutions, Resolved graph world addr

end Invariant

end Whippet.Ephemerons
