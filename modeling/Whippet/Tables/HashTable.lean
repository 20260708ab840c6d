import Mathlib
import Whippet.Library.Checked

/-!
The hash tables of addresses (`address-hash.h`, `address-map.h`, `address-set.h`).

`hash_map` and `hash_set` are the same open-addressing table up to what a slot has beside its key:
one definition here, with the entries of a slot as a parameter. A probe loop is given as many rounds
as the table has slots; a loop that has not ended by then has seen every slot, and would never end.

Owns: the table with its loops, growing and shrinking, and the map and the set with their addresses
hashed. Does not own: why the loops end, and what the tables mean.
-/

namespace Whippet.Tables

open Function

/-- A `uintptr_t`. -/
abbrev Word := BitVec 64

/-! ## Hashing -/

def hashAddress (x : Word) : Word :=
  let x := x ^^^ (x >>> 30)
  let x := x * 0xbf58476d1ce4e5b9
  let x := x ^^^ (x >>> 27)
  let x := x * 0x94d049bb133111eb
  x ^^^ (x >>> 31)

def unhashAddress (x : Word) : Word :=
  let x := x ^^^ ((x >>> 31) ^^^ (x >>> 62))
  let x := x * 0x319642b2d24d8ec3
  let x := x ^^^ ((x >>> 27) ^^^ (x >>> 54))
  let x := x * 0x96de1b173f119089
  x ^^^ ((x >>> 30) ^^^ (x >>> 60))

/-! ## Tables -/

/-- What a slot holds. -/
class HashEntry (Entry : Type) extends Inhabited Entry where
  key : Entry → Word
  /-- `sizeof`. -/
  bytes : ℕ
  /-- What is left in a slot when an entry with its key is inserted. -/
  refresh : Entry → Entry → Entry
  refresh_eq : ∀ old new, key old = key new → refresh old new = new
  eight_le_bytes : 8 ≤ bytes

/-- The ways in which an operation does not return. -/
inductive TableFailure where
  /-- `GC_CRASH` after a `malloc` that failed. -/
  | outOfMemory
  /-- `__builtin_trap`. -/
  | trap
  /-- A loop that never ends. -/
  | diverges
  deriving DecidableEq, Repr

/-- `struct hash_map` and `struct hash_set`. -/
structure HashTable (Entry : Type) where
  data : ℕ → Entry
  size : ℕ
  nItems : ℕ
  bits : ℕ → Bool

/-- The largest allocation that `malloc` may serve. -/
def PTRDIFF_MAX : ℕ := 2 ^ 63 - 1

namespace HashTable

variable {Entry : Type} [HashEntry Entry]

open HashEntry (key refresh)

def clear (table : HashTable Entry) : HashTable Entry :=
  { table with
    bits := fun _ => false
    nItems := 0 }

/-- `memory` says whether the `malloc` of a number of bytes succeeds. -/
def init (memory : ℕ → Bool) (size : ℕ) : Outcome TableFailure (HashTable Entry) := do
  let dataBytes := HashEntry.bytes Entry * size
  Outcome.check (memory dataBytes = true ∧ dataBytes ≤ PTRDIFF_MAX) .outOfMemory
  Outcome.check (memory (size / 8) = true) .outOfMemory
  pure { data := fun _ => default, size := size, nItems := 0, bits := fun _ => false }

section Slots

variable (table : HashTable Entry) (idx : Word)

def slotIndex : ℕ := idx.toNat &&& (table.size - 1)

def slotEntry : Entry := table.data (table.slotIndex idx)

def slotIsEmpty : Bool := !table.bits (table.slotIndex idx)

def slotSet (entry : Entry) : HashTable Entry :=
  { table with data := update table.data (table.slotIndex idx) entry }

def slotAcquire : HashTable Entry :=
  { table with
    bits := update table.bits (table.slotIndex idx) true
    nItems := table.nItems + 1 }

def slotRelease : HashTable Entry :=
  { table with
    bits := update table.bits (table.slotIndex idx) false
    nItems := table.nItems - 1 }

def slotDistance : ℕ := table.slotIndex (idx - key (table.slotEntry idx))

end Slots

def shouldShrink (table : HashTable Entry) : Bool :=
  decide (table.size > 8) && decide (table.nItems ≤ table.size >>> 3)

def shouldGrow (table : HashTable Entry) : Bool :=
  decide (table.nItems ≥ table.size - table.size >>> 3)

/-! ## Loops -/

/-- A loop that goes from slot to slot as long as a condition holds. -/
def probe (continues : Word → Bool) : ℕ → Word → Outcome TableFailure Word
  | 0, _ => .failed .diverges
  | rounds + 1, slot => if continues slot then probe continues rounds (slot + 1) else pure slot

/-- The loop over the entries with the home of the key: whether it ends at the key. -/
def probeSame (table : HashTable Entry) (k : Word) : ℕ → Word → Outcome TableFailure (Word × Bool)
  | 0, _ => .failed .diverges
  | rounds + 1, slot =>
      if table.slotIsEmpty slot = false ∧ (slot - k).toNat = table.slotDistance slot then
        if key (table.slotEntry slot) = k then pure (slot, true)
        else probeSame table k rounds (slot + 1)
      else pure (slot, false)

/-- `while (slots_to_move--)`. -/
def moveUp (idx : Word) : ℕ → HashTable Entry → HashTable Entry
  | 0, table => table
  | slotsToMove + 1, table =>
      moveUp idx slotsToMove
        (table.slotSet (idx + BitVec.ofNat 64 slotsToMove + 1)
          (table.slotEntry (idx + BitVec.ofNat 64 slotsToMove)))

/-- `hash_map_do_insert`. The displacement of a slot is its difference to the key. -/
def doInsert (table : HashTable Entry) (entry : Entry) :
    Outcome TableFailure (HashTable Entry) := do
  let k := key entry
  let near ← probe (fun slot => !table.slotIsEmpty slot &&
    decide ((slot - k).toNat < table.slotDistance slot)) table.size k
  let (idx, found) ← probeSame table k table.size near
  if found then pure (table.slotSet idx (refresh (table.slotEntry idx) entry))
  else do
    let hole ← probe (fun slot => !table.slotIsEmpty slot) table.size idx
    let acquired := table.slotAcquire hole
    pure ((acquired.moveUp idx (hole - idx).toNat).slotSet idx entry)

/-- The loop that moves entries back until one is at home; it ends with the last slot moved from. -/
def moveDown : ℕ → HashTable Entry → Word → Outcome TableFailure (HashTable Entry × Word)
  | 0, _, _ => .failed .diverges
  | rounds + 1, table, slot =>
      if table.slotIsEmpty (slot + 1) = false ∧ table.slotDistance (slot + 1) ≠ 0 then
        moveDown rounds (table.slotSet slot (table.slotEntry (slot + 1))) (slot + 1)
      else pure (table, slot)

/-- The loop of `hash_map_contains` and `hash_map_lookup`. -/
def find (table : HashTable Entry) (k : Word) : ℕ → Word → Outcome TableFailure (Option Entry)
  | 0, _ => .failed .diverges
  | rounds + 1, slot =>
      if table.slotIsEmpty slot then pure none
      else if key (table.slotEntry slot) = k then pure (some (table.slotEntry slot))
      else if table.slotDistance slot < (slot - k).toNat then pure none
      else find table k rounds (slot + 1)

/-! ## Operations -/

/-- The entries in the order of their slots. -/
def entries (table : HashTable Entry) : List Entry :=
  ((List.range table.size).map (BitVec.ofNat 64)).filterMap fun i =>
    if table.slotIsEmpty i then none else some (table.slotEntry i)

/-- `hash_map_populate`, over the entries of the source. -/
def populate (target : HashTable Entry) :
    List Entry → Outcome TableFailure (HashTable Entry)
  | [] => pure target
  | entry :: rest => do
      let next ← target.doInsert entry
      populate next rest

def grow (memory : ℕ → Bool) (table : HashTable Entry) :
    Outcome TableFailure (HashTable Entry) := do
  let fresh ← init memory (table.size <<< 1)
  fresh.populate table.entries

def shrink (memory : ℕ → Bool) (table : HashTable Entry) :
    Outcome TableFailure (HashTable Entry) := do
  let fresh ← init memory (table.size >>> 1)
  fresh.populate table.entries

def insert (memory : ℕ → Bool) (table : HashTable Entry) (entry : Entry) :
    Outcome TableFailure (HashTable Entry) := do
  let roomy ← if table.shouldGrow then table.grow memory else pure table
  roomy.doInsert entry

def remove (memory : ℕ → Bool) (table : HashTable Entry) (k : Word) :
    Outcome TableFailure (HashTable Entry) := do
  let slot ← probe (fun slot => !table.slotIsEmpty slot &&
    decide (key (table.slotEntry slot) ≠ k)) table.size k
  Outcome.check (table.slotIsEmpty slot = false) .trap
  let (moved, last) ← moveDown table.size table slot
  let released := moved.slotRelease last
  if released.shouldShrink then released.shrink memory else pure released

def lookup (table : HashTable Entry) (k : Word) : Outcome TableFailure (Option Entry) :=
  table.find k table.size k

end HashTable

/-! ## Maps -/

/-- `struct hash_map_entry`. -/
structure HashMapEntry where
  k : Word
  v : Word
  deriving DecidableEq, Repr, Inhabited

instance : HashEntry HashMapEntry where
  key := HashMapEntry.k
  bytes := 16
  refresh := fun old new =>
    { old with v := new.v }
  refresh_eq := by
    rintro ⟨k, old⟩ ⟨_, new⟩ rfl
    rfl
  eight_le_bytes := by decide

abbrev AddressMap := HashTable HashMapEntry

namespace AddressMap

def init (memory : ℕ → Bool) : Outcome TableFailure AddressMap := HashTable.init memory 8

def clear (map : AddressMap) : AddressMap := HashTable.clear map

def add (memory : ℕ → Bool) (map : AddressMap) (addr v : Word) :
    Outcome TableFailure AddressMap :=
  HashTable.insert memory map { k := hashAddress addr, v := v }

def remove (memory : ℕ → Bool) (map : AddressMap) (addr : Word) :
    Outcome TableFailure AddressMap :=
  HashTable.remove memory map (hashAddress addr)

def contains (map : AddressMap) (addr : Word) : Outcome TableFailure Bool := do
  let found ← HashTable.lookup map (hashAddress addr)
  pure found.isSome

def lookup (map : AddressMap) (addr fallback : Word) : Outcome TableFailure Word := do
  let found ← HashTable.lookup map (hashAddress addr)
  match found with
  | some entry => pure entry.v
  | none => pure fallback

/-- The arguments of the calls that `address_map_for_each` makes. -/
def forEach (map : AddressMap) : List (Word × Word) :=
  (HashTable.entries map).map fun entry => (unhashAddress entry.k, entry.v)

end AddressMap

/-! ## Sets -/

instance : HashEntry Word where
  key := id
  bytes := 8
  refresh := fun old _ => old
  refresh_eq := by
    intro old new same
    exact same
  eight_le_bytes := by decide

abbrev AddressSet := HashTable Word

namespace AddressSet

def init (memory : ℕ → Bool) : Outcome TableFailure AddressSet := HashTable.init memory 8

def clear (set : AddressSet) : AddressSet := HashTable.clear set

def add (memory : ℕ → Bool) (set : AddressSet) (addr : Word) : Outcome TableFailure AddressSet :=
  HashTable.insert memory set (hashAddress addr)

def remove (memory : ℕ → Bool) (set : AddressSet) (addr : Word) :
    Outcome TableFailure AddressSet :=
  HashTable.remove memory set (hashAddress addr)

def contains (set : AddressSet) (addr : Word) : Outcome TableFailure Bool := do
  let found ← HashTable.lookup set (hashAddress addr)
  pure found.isSome

/-- The calls that `address_set_for_each` makes. -/
def forEach (set : AddressSet) : List Word := (HashTable.entries set).map unhashAddress

/-- The calls that `address_set_find` makes: up to the first for which `stop` holds. -/
def find (stop : Word → Bool) (set : AddressSet) : List Word :=
  let calls := (HashTable.entries set).map unhashAddress
  calls.takeWhile (fun addr => !stop addr) ++ (calls.find? stop).toList

end AddressSet

end Whippet.Tables
