import Whippet.Tables.AddressHash
import Whippet.Tables.Operations

/-!
Address maps and sets refine finite maps and sets.

A run of a table is a sequence of operations, of which a removal is only allowed for an address that
is there. Beside the table a run carries the map or set that the same operations make of the empty
one.

Owns: the tables as maps from keys to entries, and that every operation of every run ends with the
result that the map or set has. Does not own: the order of the table.
-/

namespace Whippet.Tables

open Function
open HashEntry (key refresh)

/-! ## Hashing -/

theorem hashAddress_eq_iff {addr k : Word} : hashAddress addr = k ↔ addr = unhashAddress k := by
  constructor
  · rintro rfl
    exact (unhashAddress_hashAddress addr).symm
  · rintro rfl
    exact hashAddress_unhashAddress k

/-! ## Tables as maps from keys -/

section Contents

variable {Entry : Type} [HashEntry Entry] {table : HashTable Entry} {entry : Entry}
variable {contents : Word → Option Entry}

/-- The table has the entries of the map, each under its key. -/
structure Represents (table : HashTable Entry) (contents : Word → Option Entry) : Prop where
  usable : table.Usable
  keyed : ∀ k entry, contents k = some entry → key entry = k
  mem_entries : ∀ entry, entry ∈ table.entries ↔ contents (key entry) = some entry

open HashTable

namespace Represents

theorem init (Entry : Type) [HashEntry Entry] (memory : ℕ → Bool) :
    HashTable.init memory 8 = (.failed .outOfMemory : Outcome TableFailure (HashTable Entry)) ∨
      ∃ table : HashTable Entry, HashTable.init memory 8 = .next table ∧
        Represents table fun _ => none := by
  rcases init_leads Entry memory with ⟨failed, -⟩ | ⟨table, created, usable, empty⟩
  · exact .inl failed
  · refine .inr ⟨table, created, usable, nofun, ?_⟩
    intro entry
    rw [empty]
    simp

theorem clear (represents : Represents table contents) :
    Represents table.clear fun _ => none := by
  obtain ⟨usable, empty⟩ := represents.usable.clear
  refine ⟨usable, nofun, ?_⟩
  intro entry
  rw [empty]
  simp

theorem lookup (represents : Represents table contents) (k : Word) :
    table.lookup k = .next (contents k) := by
  obtain ⟨found, searched, spec⟩ := represents.usable.lookup_spec k
  have same : found = contents k := by
    ext entry
    rw [spec, represents.mem_entries]
    constructor
    · rintro ⟨held, rfl⟩
      exact held
    · intro held
      have sameKey := represents.keyed k entry held
      exact ⟨by rwa [sameKey], sameKey⟩
  rw [searched, same]

theorem insert (represents : Represents table contents) (memory : ℕ → Bool) (entry : Entry) :
    table.insert memory entry = .failed .outOfMemory ∧
        Exhausted Entry memory (table.size <<< 1) ∨
      ∃ result, table.insert memory entry = .next result ∧
        Represents result (update contents (key entry) (some entry)) := by
  rcases represents.usable.insert_spec memory entry with failed | ⟨result, inserted, usable, spec⟩
  · exact .inl failed
  · refine .inr ⟨result, inserted, usable, ?_, ?_⟩
    · intro k other
      by_cases same : k = key entry
      · subst same
        rw [update_self, Option.some.injEq]
        rintro rfl
        rfl
      · rw [update_of_ne same]
        exact represents.keyed k other
    · intro other
      rw [spec, represents.mem_entries]
      by_cases same : key other = key entry
      · rw [same, update_self, Option.some.injEq]
        simp [eq_comm]
      · rw [update_of_ne same]
        have apart : other ≠ entry := fun equal => same (by rw [equal])
        simp [same, apart]

theorem remove (represents : Represents table contents) (memory : ℕ → Bool) {k : Word}
    (held : contents k = some entry) :
    table.remove memory k = .failed .outOfMemory ∧
        Exhausted Entry memory (table.size >>> 1) ∨
      ∃ result, table.remove memory k = .next result ∧
        Represents result (update contents k none) := by
  obtain rfl := represents.keyed k entry held
  have member := (represents.mem_entries entry).mpr held
  rcases represents.usable.remove_spec memory member with failed | ⟨result, removed, usable, spec⟩
  · exact .inl failed
  · refine .inr ⟨result, removed, usable, ?_, ?_⟩
    · intro k other
      by_cases same : k = key entry
      · subst same
        rw [update_self]
        exact nofun
      · rw [update_of_ne same]
        exact represents.keyed k other
    · intro other
      rw [spec, represents.mem_entries]
      by_cases same : key other = key entry
      · rw [same, update_self]
        simp
      · rw [update_of_ne same]
        exact and_iff_left same

theorem pairwise_entries (represents : Represents table contents) :
    table.entries.Pairwise fun left right => key left ≠ key right :=
  represents.usable.pairwise_entries

end Represents

/-- There is no memory for the table with twice or with half as many slots. -/
def OutOfMemory (memory : ℕ → Bool) (table : HashTable Entry) : Prop :=
  Exhausted Entry memory (table.size <<< 1) ∨ Exhausted Entry memory (table.size >>> 1)

/-- The order in which a table keeps its slots: an entry that is not in its home slot is at most one
slot farther from it than the entry before is from its own. -/
def ProbeOrdered (table : HashTable Entry) : Prop :=
  ∀ idx, table.slotIsEmpty (idx + 1) = false → table.slotDistance (idx + 1) ≠ 0 →
    table.slotIsEmpty idx = false ∧
      table.slotDistance (idx + 1) ≤ table.slotDistance idx + 1

theorem HashTable.Valid.probeOrdered {n : ℕ} (valid : Valid table n) : ProbeOrdered table := by
  have next : ∀ idx, wordSlot n (idx + 1) - 1 = wordSlot n idx := by
    intro idx
    rw [wordSlot_add valid.le_word, wordSlot_one valid.le_word, add_sub_cancel_right]
  intro idx full away
  rw [valid.slotIsEmpty_eq_false_iff] at full
  rw [valid.slotDistance_eq] at away ⊢
  obtain ⟨previous, found, near⟩ := valid.ordered _ _ full away
  rw [next] at found near
  refine ⟨valid.slotIsEmpty_of_some found, ?_⟩
  rw [valid.slotDistance_eq, valid.slotEntry_eq found]
  exact near

theorem Represents.probeOrdered (represents : Represents table contents) :
    ProbeOrdered table := by
  obtain ⟨n, valid, -⟩ := represents.usable
  exact valid.probeOrdered

end Contents

/-! ## Runs -/

inductive MapOperation where
  | add (addr v : Word)
  | remove (addr : Word)
  | contains (addr : Word)
  | lookup (addr fallback : Word)
  | clear
  | forEach
  deriving DecidableEq, Repr

inductive MapReply where
  | done
  | found (isPresent : Bool)
  | value (v : Word)
  | calls (arguments : List (Word × Word))
  deriving DecidableEq, Repr

/-- An operation on a map, with what it returns. -/
def AddressMap.perform (memory : ℕ → Bool) (map : AddressMap) :
    MapOperation → Outcome TableFailure (AddressMap × MapReply)
  | .add addr v => do
      let result ← map.add memory addr v
      pure (result, .done)
  | .remove addr => do
      let result ← map.remove memory addr
      pure (result, .done)
  | .contains addr => do
      let isPresent ← map.contains addr
      pure (map, .found isPresent)
  | .lookup addr fallback => do
      let v ← map.lookup addr fallback
      pure (map, .value v)
  | .clear => pure (map.clear, .done)
  | .forEach => pure (map, .calls map.forEach)

/-- A finite map, and what the operations make of it. -/
abbrev MapContent := Word → Option Word

namespace MapContent

variable (content : MapContent)

/-- Only present addresses are removed. -/
def Permits : MapOperation → Prop
  | .remove addr => content addr ≠ none
  | _ => True

instance : (operation : MapOperation) → Decidable (content.Permits operation)
  | .remove addr => inferInstanceAs (Decidable (content addr ≠ none))
  | .add _ _ | .contains _ | .lookup _ _ | .clear | .forEach => .isTrue trivial

def after : MapOperation → MapContent
  | .add addr v => update content addr (some v)
  | .remove addr => update content addr none
  | .clear => fun _ => none
  | _ => content

/-- The reply is that of the map. Iteration visits every element once. -/
def Replies : MapOperation → MapReply → Prop
  | .contains addr, reply => reply = .found (content addr).isSome
  | .lookup addr fallback, reply => reply = .value ((content addr).getD fallback)
  | .forEach, reply => ∃ arguments, reply = .calls arguments ∧
      (arguments.map Prod.fst).Nodup ∧ ∀ addr v, (addr, v) ∈ arguments ↔ content addr = some v
  | _, reply => reply = .done

/-- The same map by the hashes of the addresses. -/
def hashed : Word → Option HashMapEntry := fun k =>
  (content (unhashAddress k)).map fun v => { k := k, v := v }

end MapContent

/-- A run carries the map beside the table. Every operation is given a `malloc`. -/
def mapSystem : System (AddressMap × MapContent) (MapOperation × (ℕ → Bool)) TableFailure :=
  { initial := fun state => ∃ memory, AddressMap.init memory = .next state.1 ∧
      state.2 = fun _ => none
    step := fun state action => do
      let (map, _) ← state.1.perform action.2 action.1
      pure (map, state.2.after action.1) }

section Maps

variable {map : AddressMap} {content : MapContent} {addr v : Word}

theorem HashEntry.key_word (k : Word) : key k = k := rfl

/-- What an address is bound to decides what is in the slot of its hash, and in no other one. -/
theorem update_hashed {Held Entry : Type} (entryOf : Word → Held → Option Entry)
    (bound : Word → Held) (addr : Word) (held : Held) :
    update (fun k => entryOf k (bound (unhashAddress k))) (hashAddress addr)
        (entryOf (hashAddress addr) held) =
      fun k => entryOf k (update bound addr held (unhashAddress k)) := by
  ext1 k
  by_cases same : k = hashAddress addr
  · subst same
    rw [update_self, unhashAddress_hashAddress, update_self]
  · have apart : unhashAddress k ≠ addr := fun equal =>
      same (hashAddress_eq_iff.mpr equal.symm).symm
    rw [update_of_ne same, update_of_ne apart]

theorem MapContent.hashed_update (held : Option Word) :
    update content.hashed (hashAddress addr)
        (held.map fun v => { k := hashAddress addr, v := v }) =
      MapContent.hashed (update content addr held) :=
  update_hashed (fun k => Option.map fun v => ({ k := k, v := v } : HashMapEntry)) content addr held

/-- The calls of an iteration are the pairs of the map. -/
theorem AddressMap.mem_forEach (represents : Represents map content.hashed) :
    (addr, v) ∈ AddressMap.forEach map ↔ content addr = some v := by
  rw [AddressMap.forEach, List.mem_map]
  constructor
  · rintro ⟨entry, member, equal⟩
    rw [Prod.mk.injEq] at equal
    obtain ⟨rfl, rfl⟩ := equal
    rw [represents.mem_entries, MapContent.hashed, Option.map_eq_some_iff] at member
    obtain ⟨v, held, equal⟩ := member
    have sameValue : v = entry.v := congrArg HashMapEntry.v equal
    rw [← sameValue]
    exact held
  · intro held
    refine ⟨{ k := hashAddress addr, v := v }, ?_, ?_⟩
    · rw [represents.mem_entries, MapContent.hashed, Option.map_eq_some_iff]
      refine ⟨v, ?_, rfl⟩
      show content (unhashAddress (hashAddress addr)) = some v
      rwa [unhashAddress_hashAddress]
    · rw [unhashAddress_hashAddress]

theorem AddressMap.nodup_forEach (represents : Represents map content.hashed) :
    ((AddressMap.forEach map).map Prod.fst).Nodup := by
  rw [AddressMap.forEach, List.map_map, List.Nodup, List.pairwise_map]
  apply represents.pairwise_entries.imp
  intro left right apart same
  exact apart ((hashAddress_eq_iff.mpr rfl).symm.trans
    ((congrArg hashAddress same).trans (hashAddress_eq_iff.mpr rfl)))

theorem AddressMap.add_spec (represents : Represents map content.hashed) (memory : ℕ → Bool)
    (addr v : Word) :
    map.add memory addr v = .failed .outOfMemory ∧ OutOfMemory memory map ∨
      ∃ result, map.add memory addr v = .next result ∧
        Represents result (MapContent.hashed (update content addr (some v))) := by
  rcases represents.insert memory { k := hashAddress addr, v := v } with
    ⟨failed, exhausted⟩ | ⟨result, inserted, after⟩
  · exact .inl ⟨failed, .inl exhausted⟩
  · refine .inr ⟨result, inserted, ?_⟩
    rw [← MapContent.hashed_update]
    exact after

theorem AddressMap.remove_spec (represents : Represents map content.hashed) (memory : ℕ → Bool)
    (held : content addr = some v) :
    map.remove memory addr = .failed .outOfMemory ∧ OutOfMemory memory map ∨
      ∃ result, map.remove memory addr = .next result ∧
        Represents result (MapContent.hashed (update content addr none)) := by
  have hashedHeld : content.hashed (hashAddress addr) =
      some { k := hashAddress addr, v := v } := by
    rw [MapContent.hashed, unhashAddress_hashAddress, held]
    rfl
  rcases represents.remove memory hashedHeld with ⟨failed, exhausted⟩ | ⟨result, removed, after⟩
  · exact .inl ⟨failed, .inr exhausted⟩
  · refine .inr ⟨result, removed, ?_⟩
    rw [← MapContent.hashed_update]
    exact after

theorem AddressMap.lookup_eq (represents : Represents map content.hashed) (addr fallback : Word) :
    map.lookup addr fallback = .next ((content addr).getD fallback) := by
  rw [AddressMap.lookup, represents.lookup, MapContent.hashed, unhashAddress_hashAddress]
  cases content addr <;> rfl

/-- What a permitted operation does: it runs out of memory for a larger or a smaller table, or
replies as the map does and leaves a table of the map after it. -/
theorem AddressMap.perform_spec (represents : Represents map content.hashed) (memory : ℕ → Bool)
    (operation : MapOperation) (permitted : content.Permits operation) :
    map.perform memory operation = .failed .outOfMemory ∧ OutOfMemory memory map ∨
      ∃ result reply, map.perform memory operation = .next (result, reply) ∧
        Represents result (content.after operation).hashed ∧ content.Replies operation reply := by
  cases operation with
  | add addr v =>
      rcases map.add_spec represents memory addr v with
        ⟨failed, exhausted⟩ | ⟨result, added, after⟩
      · refine .inl ⟨?_, exhausted⟩
        rw [AddressMap.perform, failed, Outcome.bind_failed]
      · refine .inr ⟨result, .done, ?_, after, rfl⟩
        rw [AddressMap.perform, added, Outcome.bind_next, Outcome.pure_eq_next]
  | remove addr =>
      obtain ⟨v, held⟩ := Option.ne_none_iff_exists'.mp permitted
      rcases map.remove_spec represents memory held with
        ⟨failed, exhausted⟩ | ⟨result, removed, after⟩
      · refine .inl ⟨?_, exhausted⟩
        rw [AddressMap.perform, failed, Outcome.bind_failed]
      · refine .inr ⟨result, .done, ?_, after, rfl⟩
        rw [AddressMap.perform, removed, Outcome.bind_next, Outcome.pure_eq_next]
  | contains addr =>
      refine .inr ⟨map, .found (content addr).isSome, ?_, represents, rfl⟩
      rw [AddressMap.perform, AddressMap.contains, represents.lookup, MapContent.hashed,
        unhashAddress_hashAddress]
      simp
  | lookup addr fallback =>
      refine .inr ⟨map, .value ((content addr).getD fallback), ?_, represents, rfl⟩
      rw [AddressMap.perform, map.lookup_eq represents, Outcome.bind_next, Outcome.pure_eq_next]
  | clear =>
      refine .inr ⟨map.clear, .done, rfl, ?_, rfl⟩
      exact represents.clear
  | forEach =>
      refine .inr ⟨map, .calls map.forEach, rfl, represents, map.forEach, rfl, ?_, ?_⟩
      · exact AddressMap.nodup_forEach represents
      · intro addr v
        exact AddressMap.mem_forEach represents

theorem AddressMap.represents_of_reachable {state : AddressMap × MapContent}
    (reached : mapSystem.ReachableBy (fun state action => state.2.Permits action.1) state) :
    Represents state.1 state.2.hashed := by
  apply reached.invariant
  · rintro ⟨map, content⟩ ⟨memory, created, rfl⟩
    rcases Represents.init HashMapEntry memory with failed | ⟨table, made, represents⟩
    · rw [AddressMap.init, failed] at created
      cases created
    · rw [AddressMap.init, made, Outcome.next.injEq] at created
      subst created
      exact represents
  · rintro ⟨map, content⟩ ⟨operation, memory⟩ after represents permitted stepped
    rcases map.perform_spec represents memory operation permitted with
      ⟨failed, -⟩ | ⟨result, reply, performed, afterwards, -⟩
    · simp only [mapSystem, failed, Outcome.bind_failed] at stepped
      cases stepped
    · simp only [mapSystem, performed, Outcome.bind_next, Outcome.pure_eq_next,
        Outcome.next.injEq] at stepped
      subst stepped
      exact afterwards

end Maps

/-! ## Sets -/

inductive SetOperation where
  | add (addr : Word)
  | remove (addr : Word)
  | contains (addr : Word)
  | clear
  | forEach
  | find (stop : Word → Bool)

inductive SetReply where
  | done
  | found (isPresent : Bool)
  | calls (arguments : List Word)
  deriving DecidableEq, Repr

/-- An operation on a set, with what it returns. -/
def AddressSet.perform (memory : ℕ → Bool) (set : AddressSet) :
    SetOperation → Outcome TableFailure (AddressSet × SetReply)
  | .add addr => do
      let result ← set.add memory addr
      pure (result, .done)
  | .remove addr => do
      let result ← set.remove memory addr
      pure (result, .done)
  | .contains addr => do
      let isPresent ← set.contains addr
      pure (set, .found isPresent)
  | .clear => pure (set.clear, .done)
  | .forEach => pure (set, .calls set.forEach)
  | .find stop => pure (set, .calls (set.find stop))

/-- A finite set, and what the operations make of it. -/
abbrev SetContent := Word → Bool

namespace SetContent

variable (content : SetContent)

def Permits : SetOperation → Prop
  | .remove addr => content addr = true
  | _ => True

instance : (operation : SetOperation) → Decidable (content.Permits operation)
  | .remove addr => inferInstanceAs (Decidable (content addr = true))
  | .add _ | .contains _ | .clear | .forEach | .find _ => .isTrue trivial

def after : SetOperation → SetContent
  | .add addr => update content addr true
  | .remove addr => update content addr false
  | .clear => fun _ => false
  | _ => content

/-- The arguments are the elements of the set, each once. -/
def Enumerated (arguments : List Word) : Prop :=
  arguments.Nodup ∧ ∀ addr, addr ∈ arguments ↔ content addr = true

/-- The reply is that of the set. A search visits the elements up to the first that stops it. -/
def Replies : SetOperation → SetReply → Prop
  | .contains addr, reply => reply = .found (content addr)
  | .forEach, reply => ∃ arguments, reply = .calls arguments ∧ content.Enumerated arguments
  | .find stop, reply => ∃ arguments, content.Enumerated arguments ∧
      reply = .calls
        (arguments.takeWhile (fun addr => !stop addr) ++ (arguments.find? stop).toList)
  | _, reply => reply = .done

/-- The same set by the hashes of the addresses. -/
def hashed : Word → Option Word := fun k =>
  if content (unhashAddress k) then some k else none

end SetContent

/-- A run carries the set beside the table. Every operation is given a `malloc`. -/
def setSystem : System (AddressSet × SetContent) (SetOperation × (ℕ → Bool)) TableFailure :=
  { initial := fun state => ∃ memory, AddressSet.init memory = .next state.1 ∧
      state.2 = fun _ => false
    step := fun state action => do
      let (set, _) ← state.1.perform action.2 action.1
      pure (set, state.2.after action.1) }

section Sets

variable {set : AddressSet} {content : SetContent} {addr : Word}

theorem SetContent.hashed_update (held : Bool) :
    update content.hashed (hashAddress addr) (if held then some (hashAddress addr) else none) =
      SetContent.hashed (update content addr held) :=
  update_hashed (fun k isElement => if isElement then some k else none) content addr held

theorem SetContent.hashed_hashAddress (content : SetContent) (addr : Word) :
    content.hashed (hashAddress addr) =
      if content addr then some (hashAddress addr) else none := by
  rw [SetContent.hashed, unhashAddress_hashAddress]

/-- The calls of an iteration are the elements of the set. -/
theorem AddressSet.forEach_enumerated (represents : Represents set content.hashed) :
    content.Enumerated (AddressSet.forEach set) := by
  constructor
  · rw [AddressSet.forEach, List.Nodup, List.pairwise_map]
    apply represents.pairwise_entries.imp
    intro left right apart same
    exact apart ((hashAddress_unhashAddress left).symm.trans
      ((congrArg hashAddress same).trans (hashAddress_unhashAddress right)))
  · intro addr
    rw [AddressSet.forEach, List.mem_map]
    constructor
    · rintro ⟨k, member, rfl⟩
      rw [represents.mem_entries] at member
      by_contra absent
      have gone : content.hashed k = none := if_neg absent
      exact Option.some_ne_none k (member.symm.trans gone)
    · intro held
      refine ⟨hashAddress addr, ?_, unhashAddress_hashAddress addr⟩
      rw [represents.mem_entries]
      exact (content.hashed_hashAddress addr).trans (if_pos held)

/-- What a permitted operation does: it runs out of memory for a larger or a smaller table, or
replies as the set does and leaves a table of the set after it. -/
theorem AddressSet.perform_spec (represents : Represents set content.hashed) (memory : ℕ → Bool)
    (operation : SetOperation) (permitted : content.Permits operation) :
    set.perform memory operation = .failed .outOfMemory ∧ OutOfMemory memory set ∨
      ∃ result reply, set.perform memory operation = .next (result, reply) ∧
        Represents result (content.after operation).hashed ∧ content.Replies operation reply := by
  cases operation with
  | add addr =>
      rcases represents.insert memory (hashAddress addr) with
        ⟨failed, exhausted⟩ | ⟨result, inserted, after⟩
      · refine .inl ⟨?_, .inl exhausted⟩
        rw [AddressSet.perform, AddressSet.add, failed]
        rfl
      · refine .inr ⟨result, .done, ?_, ?_, rfl⟩
        · rw [AddressSet.perform, AddressSet.add, inserted, Outcome.bind_next,
            Outcome.pure_eq_next]
        · rw [SetContent.after, ← SetContent.hashed_update]
          exact after
  | remove addr =>
      have hashedHeld : content.hashed (hashAddress addr) = some (hashAddress addr) :=
        (content.hashed_hashAddress addr).trans (if_pos permitted)
      rcases represents.remove memory hashedHeld with ⟨failed, exhausted⟩ | ⟨result, removed, after⟩
      · refine .inl ⟨?_, .inr exhausted⟩
        rw [AddressSet.perform, AddressSet.remove, failed]
        rfl
      · refine .inr ⟨result, .done, ?_, ?_, rfl⟩
        · rw [AddressSet.perform, AddressSet.remove, removed, Outcome.bind_next,
            Outcome.pure_eq_next]
        · rw [SetContent.after, ← SetContent.hashed_update]
          exact after
  | contains addr =>
      refine .inr ⟨set, .found (content addr), ?_, represents, rfl⟩
      rw [AddressSet.perform, AddressSet.contains, represents.lookup,
        content.hashed_hashAddress]
      cases content addr <;> rfl
  | clear =>
      refine .inr ⟨set.clear, .done, rfl, ?_, rfl⟩
      exact represents.clear
  | forEach =>
      exact .inr ⟨set, .calls set.forEach, rfl, represents, set.forEach, rfl,
        AddressSet.forEach_enumerated represents⟩
  | find stop =>
      exact .inr ⟨set, .calls (set.find stop), rfl, represents, set.forEach,
        AddressSet.forEach_enumerated represents, rfl⟩

theorem AddressSet.represents_of_reachable {state : AddressSet × SetContent}
    (reached : setSystem.ReachableBy (fun state action => state.2.Permits action.1) state) :
    Represents state.1 state.2.hashed := by
  apply reached.invariant
  · rintro ⟨set, content⟩ ⟨memory, created, rfl⟩
    rcases Represents.init Word memory with failed | ⟨table, made, represents⟩
    · rw [AddressSet.init, failed] at created
      cases created
    · rw [AddressSet.init, made, Outcome.next.injEq] at created
      subst created
      exact represents
  · rintro ⟨set, content⟩ ⟨operation, memory⟩ after represents permitted stepped
    rcases set.perform_spec represents memory operation permitted with
      ⟨failed, -⟩ | ⟨result, reply, performed, afterwards, -⟩
    · simp only [setSystem, failed, Outcome.bind_failed] at stepped
      cases stepped
    · simp only [setSystem, performed, Outcome.bind_next, Outcome.pure_eq_next,
        Outcome.next.injEq] at stepped
      subst stepped
      exact afterwards

end Sets

/-! ## Refinement -/

/-- In every run of a map, and in every run of a set, the table is in probe order, and an operation
runs out of memory or replies as the map or set does. -/
theorem address_tables_refine :
    (∀ map content,
      mapSystem.ReachableBy (fun state action => state.2.Permits action.1) (map, content) →
      ProbeOrdered map ∧ ∀ memory operation, content.Permits operation →
        map.perform memory operation = .failed .outOfMemory ∧ OutOfMemory memory map ∨
        ∃ result reply, map.perform memory operation = .next (result, reply) ∧
          content.Replies operation reply) ∧
    ∀ set content,
      setSystem.ReachableBy (fun state action => state.2.Permits action.1) (set, content) →
      ProbeOrdered set ∧ ∀ memory operation, content.Permits operation →
        set.perform memory operation = .failed .outOfMemory ∧ OutOfMemory memory set ∨
        ∃ result reply, set.perform memory operation = .next (result, reply) ∧
          content.Replies operation reply := by
  constructor
  · intro map content reached
    have represents := AddressMap.represents_of_reachable reached
    refine ⟨represents.probeOrdered, ?_⟩
    intro memory operation permitted
    apply (map.perform_spec represents memory operation permitted).imp_right
    rintro ⟨result, reply, performed, -, replies⟩
    exact ⟨result, reply, performed, replies⟩
  · intro set content reached
    have represents := AddressSet.represents_of_reachable reached
    refine ⟨represents.probeOrdered, ?_⟩
    intro memory operation permitted
    apply (set.perform_spec represents memory operation permitted).imp_right
    rintro ⟨result, reply, performed, -, replies⟩
    exact ⟨result, reply, performed, replies⟩

/-- Elements that share home slots are added until the table grows, and one is removed again. -/
def growingMap : List (MapOperation × (ℕ → Bool)) :=
  ([.add 1 10, .add 2 20, .add 3 30, .add 4 40, .add 5 50, .add 6 60, .add 7 70, .add 8 80,
    .remove 3] : List MapOperation).map fun operation => (operation, fun _ => true)

def growingSet : List (SetOperation × (ℕ → Bool)) :=
  ([.add 1, .add 2, .add 3, .add 4, .add 5, .add 6, .add 7, .add 8,
    .remove 3] : List SetOperation).map fun operation => (operation, fun _ => true)

/-- Some entry of the table is not in its home slot. -/
def Collides {Entry : Type} [HashEntry Entry] (table : HashTable Entry) : Prop :=
  ∃ idx ∈ List.range table.size, table.slotIsEmpty (BitVec.ofNat 64 idx) = false ∧
    table.slotDistance (BitVec.ofNat 64 idx) ≠ 0

instance {Entry : Type} [HashEntry Entry] (table : HashTable Entry) : Decidable (Collides table) :=
  inferInstanceAs (Decidable (∃ idx ∈ List.range table.size, _ ∧ _))

/-- A map and a set that have grown, in which what is there and what was removed is looked up. -/
theorem address_tables_refine_after_growth :
    (∃ map content,
      mapSystem.ReachableBy (fun state action => state.2.Permits action.1) (map, content) ∧
        map.size = 16 ∧ Collides map ∧ ProbeOrdered map ∧
        (∃ result, map.perform (fun _ => true) (.lookup 7 0) = .next (result, .value 70)) ∧
        ∃ result, map.perform (fun _ => true) (.lookup 3 0) = .next (result, .value 0)) ∧
    ∃ set content,
      setSystem.ReachableBy (fun state action => state.2.Permits action.1) (set, content) ∧
        set.size = 16 ∧ Collides set ∧ ProbeOrdered set ∧
        (∃ result, set.perform (fun _ => true) (.contains 7) = .next (result, .found true)) ∧
        ∃ result, set.perform (fun _ => true) (.contains 3) = .next (result, .found false) := by
  constructor
  · have grows : (AddressMap.init (fun _ => true) >>= fun map => System.runBy mapSystem.step
        (fun state action => state.2.Permits action.1) (map, fun _ => none) growingMap).leadsTo
          (fun state => decide (state.1.size = 16 ∧ Collides state.1 ∧ state.2 7 = some 70 ∧
            state.2 3 = none)) = true := by
      decide +kernel
    obtain ⟨⟨map, content⟩, ran, facts⟩ := Outcome.exists_next_of_leadsTo grows
    obtain ⟨empty, created, ran⟩ := Outcome.bind_eq_next.mp ran
    obtain ⟨size, collides, present, removed⟩ : map.size = 16 ∧ Collides map ∧
        content 7 = some 70 ∧ content 3 = none := of_decide_eq_true facts
    have start : mapSystem.ReachableBy (fun state action => state.2.Permits action.1)
        (empty, fun _ => none) := .initial ⟨_, created, rfl⟩
    have reached := start.of_runBy mapSystem _ (fun _ _ => id) growingMap ran
    have enough : ¬OutOfMemory (fun _ => true) map := by
      rw [OutOfMemory, size]
      rintro (exhausted | exhausted) <;> cases exhausted
    obtain ⟨ordered, performs⟩ := address_tables_refine.1 map content reached
    have looksUp (addr : Word) :
        ∃ result, map.perform (fun _ => true) (.lookup addr 0) =
          .next (result, .value ((content addr).getD 0)) := by
      rcases performs (fun _ => true) (.lookup addr 0) trivial with
        ⟨-, exhausted⟩ | ⟨result, reply, performed, rfl⟩
      · exact absurd exhausted enough
      · exact ⟨result, performed⟩
    have second := looksUp 7
    have first := looksUp 3
    rw [present] at second
    rw [removed] at first
    exact ⟨map, content, reached, size, collides, ordered, second, first⟩
  · have grows : (AddressSet.init (fun _ => true) >>= fun set => System.runBy setSystem.step
        (fun state action => state.2.Permits action.1) (set, fun _ => false) growingSet).leadsTo
          (fun state => decide (state.1.size = 16 ∧ Collides state.1 ∧ state.2 7 = true ∧
            state.2 3 = false)) = true := by
      decide +kernel
    obtain ⟨⟨set, content⟩, ran, facts⟩ := Outcome.exists_next_of_leadsTo grows
    obtain ⟨empty, created, ran⟩ := Outcome.bind_eq_next.mp ran
    obtain ⟨size, collides, present, removed⟩ : set.size = 16 ∧ Collides set ∧
        content 7 = true ∧ content 3 = false := of_decide_eq_true facts
    have start : setSystem.ReachableBy (fun state action => state.2.Permits action.1)
        (empty, fun _ => false) := .initial ⟨_, created, rfl⟩
    have reached := start.of_runBy setSystem _ (fun _ _ => id) growingSet ran
    have enough : ¬OutOfMemory (fun _ => true) set := by
      rw [OutOfMemory, size]
      rintro (exhausted | exhausted) <;> cases exhausted
    obtain ⟨ordered, performs⟩ := address_tables_refine.2 set content reached
    have contains (addr : Word) :
        ∃ result, set.perform (fun _ => true) (.contains addr) =
          .next (result, .found (content addr)) := by
      rcases performs (fun _ => true) (.contains addr) trivial with
        ⟨-, exhausted⟩ | ⟨result, reply, performed, rfl⟩
      · exact absurd exhausted enough
      · exact ⟨result, performed⟩
    have second := contains 7
    have first := contains 3
    rw [present] at second
    rw [removed] at first
    exact ⟨set, content, reached, size, collides, ordered, second, first⟩

end Whippet.Tables
