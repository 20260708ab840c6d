import Mathlib.Data.Finset.Card
import Whippet.Tables.Refinement

/-!
The union of two address sets (`address_set_union` in `address-set.h`).

A set that comes out of a union can be fuller than one that grew by single insertions: all that is
known of it is that a slot is empty. The other operations need no more than that.

Owns: the union, the sets that operations and unions build, and when a union is one. Does not own:
the tables.
-/

namespace Whippet.Tables

open Function HashTable
open HashEntry (key)

namespace HashTable

variable {Entry : Type} [HashEntry Entry]

/-- `while (set->hash_set.size < other->hash_set.size)`, with a number of turns. -/
def growTo (memory : ℕ → Bool) (size : ℕ) :
    ℕ → HashTable Entry → Outcome TableFailure (HashTable Entry)
  | 0, _ => .failed .diverges
  | turns + 1, table =>
      if table.size < size then do
        let grown ← table.grow memory
        growTo memory size turns grown
      else pure table

end HashTable

/-- `address_set_union`, which only reads `other`. -/
def AddressSet.union (memory : ℕ → Bool) (set other : AddressSet) :
    Outcome TableFailure AddressSet := do
  let grown ← HashTable.growTo memory other.size other.size set
  HashTable.populate grown (HashTable.entries other)

/-- How many different addresses two sets have. -/
def AddressSet.elementCount (set other : AddressSet) : ℕ :=
  (AddressSet.forEach set ++ AddressSet.forEach other).toFinset.card

/-- There is a slot more than different addresses in the larger of the two tables. -/
def AddressSet.UnionFits (set other : AddressSet) : Prop :=
  set.elementCount other < max set.size other.size

/-- The sets that operations build, with their elements. Unions are of sets that fit. -/
inductive BuiltSet : AddressSet → SetContent → Prop where
  | init {memory : ℕ → Bool} {set : AddressSet} (created : AddressSet.init memory = .next set) :
      BuiltSet set fun _ => false
  | perform {memory : ℕ → Bool} {set result : AddressSet} {content : SetContent}
      {operation : SetOperation} {reply : SetReply} (built : BuiltSet set content)
      (permitted : content.Permits operation)
      (performed : set.perform memory operation = .next (result, reply)) :
      BuiltSet result (content.after operation)
  | union {memory : ℕ → Bool} {set other result : AddressSet} {content otherContent : SetContent}
      (built : BuiltSet set content) (builtOther : BuiltSet other otherContent)
      (fits : set.UnionFits other) (united : set.union memory other = .next result) :
      BuiltSet result fun addr => content addr || otherContent addr

/-- The table has the elements of both sets, counts them, and has what later operations need. -/
structure IsUnion (content otherContent : SetContent) (result : AddressSet) : Prop where
  elements : SetContent.Enumerated (fun addr => content addr || otherContent addr)
    (AddressSet.forEach result)
  nItems : result.nItems = (AddressSet.forEach result).length
  contains : ∀ addr, AddressSet.contains result addr = .next (content addr || otherContent addr)
  hasEmptySlot : ∃ idx, result.slotIsEmpty idx = true
  probeOrdered : ProbeOrdered result

/-! ## Sizes -/

section Sizes

variable {Entry : Type} [HashEntry Entry] {table result : HashTable Entry} {n : ℕ}

omit [HashEntry Entry] in
theorem moveUp_size (idx : Word) (moved : ℕ) (table : HashTable Entry) :
    (table.moveUp idx moved).size = table.size := by
  induction moved generalizing table with
  | zero => rfl
  | succ moved inductionHypothesis => exact inductionHypothesis _

theorem doInsert_size {entry : Entry} (inserted : table.doInsert entry = .next result) :
    result.size = table.size := by
  rw [doInsert, Outcome.bind_eq_next] at inserted
  obtain ⟨near, -, inserted⟩ := inserted
  rw [Outcome.bind_eq_next] at inserted
  obtain ⟨⟨idx, found⟩, -, inserted⟩ := inserted
  dsimp only at inserted
  split at inserted
  · rw [← Outcome.next.inj inserted]
    rfl
  · rw [Outcome.bind_eq_next] at inserted
    obtain ⟨hole, -, inserted⟩ := inserted
    rw [← Outcome.next.inj inserted]
    exact moveUp_size ..

theorem populate_size {entries : List Entry} (populated : table.populate entries = .next result) :
    result.size = table.size := by
  induction entries generalizing table with
  | nil =>
      obtain rfl := Outcome.next.inj populated
      rfl
  | cons entry rest inductionHypothesis =>
      rw [populate, Outcome.bind_eq_next] at populated
      obtain ⟨next, inserted, populated⟩ := populated
      exact (inductionHypothesis populated).trans (doInsert_size inserted)

/-- An empty slot means fewer entries than slots. -/
theorem HashTable.Sized.length_entries_lt (sized : Sized table n) {idx : Word}
    (isEmpty : table.slotIsEmpty idx = true) : table.entries.length < 2 ^ n := by
  rw [sized.slotIsEmpty_iff] at isEmpty
  rw [sized.length_entries]
  have notTaken : wordSlot n idx ∉ RobinHood.taken (table.slots n) := by
    rw [RobinHood.mem_taken, isEmpty]
    simp
  have fewer := Finset.card_lt_univ_of_notMem notTaken
  rwa [ZMod.card] at fewer

/-- Growing until there are as many slots as in another table. -/
theorem growTo_spec {memory : ℕ → Bool} {m turns : ℕ} (valid : Valid table n)
    (roomy : table.nItems < table.size) (enough : m - n < turns) :
    growTo memory (2 ^ m) turns table = .failed .outOfMemory ∨
      ∃ grown, growTo memory (2 ^ m) turns table = .next grown ∧ Valid grown (max n m) ∧
        grown.nItems < grown.size ∧ ∀ entry, entry ∈ grown.entries ↔ entry ∈ table.entries := by
  induction turns generalizing table n with
  | zero => omega
  | succ turns inductionHypothesis =>
      rw [growTo, valid.size_eq]
      by_cases isSmaller : n < m
      · have smaller : 2 ^ n < 2 ^ m := Nat.pow_lt_pow_right (by decide) isSmaller
        have doubled : table.size <<< 1 = 2 ^ (n + 1) := by
          rw [valid.size_eq, Nat.shiftLeft_eq, pow_one, pow_succ]
        have larger : 2 ^ (n + 1) = 2 * 2 ^ n := by rw [pow_succ, mul_comm]
        have sizeEq := valid.size_eq
        rw [if_pos smaller, grow, doubled]
        rcases init_cases Entry memory (2 ^ (n + 1)) with failed | ⟨fresh, created⟩
        · rw [failed]
          exact .inl rfl
        · obtain ⟨grown, populated, grownValid, count, same⟩ :=
            valid.rehash_spec (by have large := valid.large; omega) (by omega) created
          rw [created, Outcome.bind_next, populated, Outcome.bind_next]
          have grownRoomy : grown.nItems < grown.size := by
            rw [grownValid.size_eq]
            omega
          have isMax : max (n + 1) m = max n m := by omega
          have rest := inductionHypothesis grownValid grownRoomy (by omega)
          rw [isMax] at rest
          apply rest.imp_right
          rintro ⟨final, ended, finalValid, finalRoomy, finalSame⟩
          exact ⟨final, ended, finalValid, finalRoomy,
            fun entry => (finalSame entry).trans (same entry)⟩
      · have notSmaller : ¬2 ^ n < 2 ^ m :=
          Nat.not_lt.mpr (Nat.pow_le_pow_right (by decide) (by omega))
        have isMax : max n m = n := by omega
        rw [if_neg notSmaller, isMax]
        exact .inr ⟨table, rfl, valid, roomy, fun _ => Iff.rfl⟩

end Sizes

/-! ## Sets with an empty slot -/

section Sets

variable {set other result : AddressSet} {content otherContent : SetContent} {n : ℕ}

/-- A set with these elements, in a table with an empty slot. -/
structure Holding (set : AddressSet) (content : SetContent) : Prop where
  roomy : ∃ n, Valid set n ∧ set.nItems < set.size
  mem_entries : ∀ k, k ∈ HashTable.entries set ↔ content (unhashAddress k) = true

theorem HashTable.Valid.nodup_entries (valid : Valid set n) : (HashTable.entries set).Nodup :=
  valid.pairwise_entries

theorem unhashAddress_injective : Injective unhashAddress := by
  intro left right same
  rw [← hashAddress_unhashAddress left, same, hashAddress_unhashAddress]

theorem Holding.enumerated (holding : Holding set content) :
    content.Enumerated (AddressSet.forEach set) := by
  obtain ⟨n, valid, -⟩ := holding.roomy
  constructor
  · exact valid.nodup_entries.map unhashAddress_injective
  · intro addr
    rw [AddressSet.forEach, List.mem_map]
    constructor
    · rintro ⟨k, member, rfl⟩
      exact (holding.mem_entries k).mp member
    · intro held
      refine ⟨hashAddress addr, ?_, unhashAddress_hashAddress addr⟩
      rwa [holding.mem_entries, unhashAddress_hashAddress]

theorem Holding.of_represents (represents : Represents set content.hashed) :
    Holding set content := by
  obtain ⟨n, valid, roomy⟩ := represents.usable
  refine ⟨⟨n, valid, valid.hasRoom roomy⟩, ?_⟩
  intro k
  rw [represents.mem_entries, HashEntry.key_word, SetContent.hashed]
  split
  next held => exact iff_of_true rfl held
  next absent => exact iff_of_false (by rintro ⟨⟩) absent

theorem Holding.contains (holding : Holding set content) (addr : Word) :
    AddressSet.contains set addr = .next (content addr) := by
  obtain ⟨n, valid, roomy⟩ := holding.roomy
  obtain ⟨found, searched, spec⟩ := valid.lookup_spec roomy (hashAddress addr)
  have isHeld : found.isSome = content addr := by
    rw [Bool.eq_iff_iff, Option.isSome_iff_exists, ← unhashAddress_hashAddress addr,
      ← holding.mem_entries]
    constructor
    · rintro ⟨entry, isFound⟩
      obtain ⟨held, sameKey⟩ := (spec entry).mp isFound
      rw [HashEntry.key_word] at sameKey
      rwa [← sameKey, valid.mem_entries]
    · intro member
      exact ⟨hashAddress addr, (spec _).mpr ⟨valid.mem_entries.mp member, rfl⟩⟩
  rw [AddressSet.contains, searched, Outcome.bind_next, Outcome.pure_eq_next, isHeld]

theorem Holding.add (holding : Holding set content) {memory : ℕ → Bool} {addr : Word}
    (added : set.add memory addr = .next result) : Holding result (update content addr true) := by
  obtain ⟨n, valid, roomy⟩ := holding.roomy
  rw [AddressSet.add] at added
  rcases valid.insert_spec roomy memory (hashAddress addr) with
    ⟨failed, -⟩ | ⟨next, inserted, usable, spec⟩
  · rw [failed] at added
    cases added
  · rw [inserted, Outcome.next.injEq] at added
    subst added
    obtain ⟨m, nextValid, few⟩ := usable
    refine ⟨⟨m, nextValid, nextValid.hasRoom few⟩, ?_⟩
    intro k
    rw [spec, HashEntry.key_word, HashEntry.key_word, holding.mem_entries]
    by_cases isAdded : k = hashAddress addr
    · subst isAdded
      rw [unhashAddress_hashAddress, update_self]
      exact iff_of_true (.inl rfl) rfl
    · have apart : unhashAddress k ≠ addr := fun same =>
        isAdded (hashAddress_eq_iff.mpr same.symm).symm
      rw [update_of_ne apart]
      simp [isAdded]

theorem Holding.remove (holding : Holding set content) {memory : ℕ → Bool} {addr : Word}
    (held : content addr = true) (removed : set.remove memory addr = .next result) :
    Holding result (update content addr false) := by
  obtain ⟨n, valid, roomy⟩ := holding.roomy
  have member : hashAddress addr ∈ HashTable.entries set := by
    rwa [holding.mem_entries, unhashAddress_hashAddress]
  rw [AddressSet.remove] at removed
  rcases valid.remove_spec roomy memory member with
    ⟨failed, -⟩ | ⟨next, m, ended, nextValid, few, spec⟩
  · rw [HashEntry.key_word] at failed
    rw [failed] at removed
    cases removed
  · rw [HashEntry.key_word] at ended
    rw [ended, Outcome.next.injEq] at removed
    subst removed
    refine ⟨⟨m, nextValid, ?_⟩, ?_⟩
    · rcases few with ⟨fewer, sameSize⟩ | few
      · omega
      · exact nextValid.hasRoom few
    · intro k
      rw [spec, HashEntry.key_word, HashEntry.key_word, holding.mem_entries]
      by_cases isRemoved : k = hashAddress addr
      · subst isRemoved
        rw [unhashAddress_hashAddress, update_self]
        simp
      · have apart : unhashAddress k ≠ addr :=
          fun same => isRemoved (hashAddress_eq_iff.mpr same.symm).symm
        rw [update_of_ne apart]
        simp [isRemoved]

theorem Holding.clear (holding : Holding set content) :
    Holding (AddressSet.clear set) fun _ => false := by
  obtain ⟨n, valid, -⟩ := holding.roomy
  have sized : Sized (AddressSet.clear set) n := ⟨valid.size_eq, valid.large, valid.small⟩
  refine ⟨⟨n, sized.valid (fun _ => rfl) rfl, ?_⟩, ?_⟩
  · rw [sized.size_eq]
    exact Nat.two_pow_pos n
  · intro k
    rw [sized.mem_entries]
    refine iff_of_false ?_ (by rintro ⟨⟩)
    rintro ⟨slot, found⟩
    rw [slots_eq_none (fun _ => rfl) slot] at found
    cases found

/-- Every operation keeps the invariant. -/
theorem Holding.perform (holding : Holding set content) {memory : ℕ → Bool}
    {operation : SetOperation} {reply : SetReply} (permitted : content.Permits operation)
    (performed : set.perform memory operation = .next (result, reply)) :
    Holding result (content.after operation) := by
  cases operation with
  | add addr =>
      rw [AddressSet.perform, Outcome.bind_eq_next] at performed
      obtain ⟨next, added, performed⟩ := performed
      obtain ⟨rfl, -⟩ := Prod.mk.inj (Outcome.next.inj performed)
      exact holding.add added
  | remove addr =>
      rw [AddressSet.perform, Outcome.bind_eq_next] at performed
      obtain ⟨next, removed, performed⟩ := performed
      obtain ⟨rfl, -⟩ := Prod.mk.inj (Outcome.next.inj performed)
      exact holding.remove permitted removed
  | contains addr =>
      rw [AddressSet.perform, Outcome.bind_eq_next] at performed
      obtain ⟨found, -, performed⟩ := performed
      obtain ⟨rfl, -⟩ := Prod.mk.inj (Outcome.next.inj performed)
      exact holding
  | clear =>
      obtain ⟨rfl, -⟩ := Prod.mk.inj (Outcome.next.inj performed)
      exact holding.clear
  | forEach =>
      obtain ⟨rfl, -⟩ := Prod.mk.inj (Outcome.next.inj performed)
      exact holding
  | find stop =>
      obtain ⟨rfl, -⟩ := Prod.mk.inj (Outcome.next.inj performed)
      exact holding

/-! ## Unions -/

/-- A set has no more entries than a set of keys that has all of its own. -/
theorem HashTable.Valid.nItems_le_card (valid : Valid set n) {keys : Finset Word}
    (within : ∀ k ∈ HashTable.entries set, k ∈ keys) : set.nItems ≤ keys.card := by
  rw [← valid.length_entries, ← List.toFinset_card_of_nodup valid.nodup_entries]
  apply Finset.card_le_card
  intro k member
  exact within k (List.mem_toFinset.mp member)

/-- Inserting keys one after the other, of which some may be there, when all keys leave a slot
empty. -/
theorem populate_union {entries : List Word} {keys : Finset Word} (valid : Valid set n)
    (few : keys.card < set.size) (within : ∀ k ∈ HashTable.entries set, k ∈ keys)
    (inKeys : ∀ k ∈ entries, k ∈ keys) :
    ∃ result, HashTable.populate set entries = .next result ∧ Valid result n ∧
      ∀ k, k ∈ HashTable.entries result ↔ k ∈ HashTable.entries set ∨ k ∈ entries := by
  induction entries generalizing set with
  | nil => exact ⟨set, rfl, valid, fun k => by simp⟩
  | cons entry rest inductionHypothesis =>
      have fewer := valid.nItems_le_card within
      obtain ⟨next, inserted, spec⟩ := valid.doInsert_spec (by omega) entry
      have isNext : ∀ k, k ∈ HashTable.entries next ↔ k = entry ∨ k ∈ HashTable.entries set := by
        intro k
        rw [spec.valid.mem_entries, spec.holds, valid.mem_entries, HashEntry.key_word,
          HashEntry.key_word]
        by_cases same : k = entry
        · simp [same]
        · simp [same]
      have sameSize := doInsert_size inserted
      have withinNext : ∀ k ∈ HashTable.entries next, k ∈ keys := by
        intro k member
        rcases (isNext k).mp member with rfl | old
        · exact inKeys k List.mem_cons_self
        · exact within k old
      obtain ⟨result, populated, resultValid, holds⟩ := inductionHypothesis spec.valid
        (by rwa [sameSize]) withinNext (fun k member => inKeys k (List.mem_cons_of_mem _ member))
      refine ⟨result, ?_, resultValid, ?_⟩
      · rw [populate, inserted, Outcome.bind_next, populated]
      · intro k
        rw [holds, isNext, List.mem_cons, or_comm (a := k = entry), or_assoc]

theorem card_keys (set other : AddressSet) :
    (HashTable.entries set ++ HashTable.entries other).toFinset.card = set.elementCount other := by
  have isImage : (AddressSet.forEach set ++ AddressSet.forEach other).toFinset =
      (HashTable.entries set ++ HashTable.entries other).toFinset.image unhashAddress := by
    ext addr
    simp [AddressSet.forEach, or_and_right, exists_or]
  rw [AddressSet.elementCount, isImage, Finset.card_image_of_injective _ unhashAddress_injective]

theorem max_two_pow (n m : ℕ) : max (2 ^ n) (2 ^ m) = 2 ^ max n m :=
  ((pow_right_mono₀ one_le_two).map_max).symm

/-- The first part of a union: the table is as large as the larger of the two. -/
theorem growTo_other (memory : ℕ → Bool) {m : ℕ} (valid : Valid set n)
    (roomy : set.nItems < set.size)
    (validOther : Valid other m) :
    HashTable.growTo memory other.size other.size set = .failed .outOfMemory ∨
      ∃ grown, HashTable.growTo memory other.size other.size set = .next grown ∧
        Valid grown (max n m) ∧
          ∀ k, k ∈ HashTable.entries grown ↔ k ∈ HashTable.entries set := by
  have enough : m - n < 2 ^ m := (Nat.sub_le m n).trans_lt Nat.lt_two_pow_self
  rw [validOther.size_eq]
  apply (growTo_spec valid roomy enough).imp_right
  rintro ⟨grown, ended, grownValid, -, same⟩
  exact ⟨grown, ended, grownValid, same⟩

/-- A union that fits. -/
theorem Holding.union (holding : Holding set content) (holdingOther : Holding other otherContent)
    (memory : ℕ → Bool) (fits : set.UnionFits other) :
    set.union memory other = .failed .outOfMemory ∨
      ∃ result, set.union memory other = .next result ∧
        Holding result fun addr => content addr || otherContent addr := by
  obtain ⟨n, valid, roomy⟩ := holding.roomy
  obtain ⟨m, validOther, -⟩ := holdingOther.roomy
  rw [AddressSet.union]
  rcases growTo_other memory valid roomy validOther with failed | ⟨grown, ended, grownValid, same⟩
  · rw [failed]
    exact .inl rfl
  · have few : (HashTable.entries set ++ HashTable.entries other).toFinset.card < grown.size := by
      rw [card_keys, grownValid.size_eq, ← max_two_pow, ← valid.size_eq, ← validOther.size_eq]
      exact fits
    obtain ⟨result, populated, resultValid, holds⟩ := populate_union grownValid few
      (fun k member => by
        rw [List.mem_toFinset, List.mem_append]
        exact .inl ((same k).mp member))
      (fun k member => by
        rw [List.mem_toFinset, List.mem_append]
        exact .inr member)
    have isResult : ∀ k, k ∈ HashTable.entries result ↔
        k ∈ HashTable.entries set ∨ k ∈ HashTable.entries other := by
      intro k
      rw [holds, same]
    refine .inr ⟨result, ?_, ⟨_, resultValid, ?_⟩, ?_⟩
    · rw [ended, Outcome.bind_next, populated]
    · rw [populate_size populated]
      apply (resultValid.nItems_le_card _).trans_lt few
      intro k member
      rw [List.mem_toFinset, List.mem_append]
      exact (isResult k).mp member
    · intro k
      rw [isResult, holding.mem_entries, holdingOther.mem_entries, Bool.or_eq_true]

theorem BuiltSet.holding (built : BuiltSet set content) : Holding set content := by
  induction built with
  | init created =>
      rcases Represents.init Word _ with failed | ⟨table, made, represents⟩
      · rw [AddressSet.init, failed] at created
        cases created
      · rw [AddressSet.init, made, Outcome.next.injEq] at created
        subst created
        exact .of_represents represents
  | perform _ permitted performed holding => exact holding.perform permitted performed
  | union _ _ fits united holding holdingOther =>
      rcases holding.union holdingOther _ fits with failed | ⟨next, isNext, held⟩
      · rw [failed] at united
        cases united
      · rw [isNext, Outcome.next.injEq] at united
        rwa [← united]

theorem Holding.isUnion
    (holding : Holding result fun addr => content addr || otherContent addr) :
    IsUnion content otherContent result := by
  obtain ⟨n, valid, roomy⟩ := holding.roomy
  refine ⟨holding.enumerated, ?_, holding.contains, ?_, valid.probeOrdered⟩
  · rw [AddressSet.forEach, List.length_map, valid.length_entries]
  · obtain ⟨slot, isEmpty⟩ := valid.exists_hole roomy
    refine ⟨BitVec.ofNat 64 slot.val, ?_⟩
    rw [valid.slotIsEmpty_iff, wordSlot_ofNat valid.le_word, ZMod.natCast_zmod_val]
    exact isEmpty

/-- `address_set_union` of two sets is their union, in a table with an empty slot, if and only if
the larger of the two tables has more slots than there are different addresses. -/
theorem union_iff (built : BuiltSet set content) (builtOther : BuiltSet other otherContent)
    {memory : ℕ → Bool} (hasMemory : set.union memory other ≠ .failed .outOfMemory) :
    (∃ result, set.union memory other = .next result ∧ IsUnion content otherContent result) ↔
      set.UnionFits other := by
  have holding := built.holding
  have holdingOther := builtOther.holding
  constructor
  · rintro ⟨result, united, isUnion⟩
    obtain ⟨n, valid, roomy⟩ := holding.roomy
    obtain ⟨m, validOther, -⟩ := holdingOther.roomy
    rw [AddressSet.union] at united
    rcases growTo_other memory valid roomy validOther with failed | ⟨grown, ended, grownValid, -⟩
    · rw [failed] at united
      cases united
    · rw [ended, Outcome.bind_next] at united
      have sized : Sized result (max n m) :=
        ⟨(populate_size united).trans grownValid.size_eq, grownValid.large, grownValid.small⟩
      obtain ⟨idx, isEmpty⟩ := isUnion.hasEmptySlot
      have fewer := sized.length_entries_lt isEmpty
      obtain ⟨nodup, members⟩ := isUnion.elements
      have isElements : (AddressSet.forEach set ++ AddressSet.forEach other).toFinset =
          (AddressSet.forEach result).toFinset := by
        ext addr
        rw [List.mem_toFinset, List.mem_append, holding.enumerated.2, holdingOther.enumerated.2,
          List.mem_toFinset, members, Bool.or_eq_true]
      rw [AddressSet.UnionFits, AddressSet.elementCount, isElements,
        List.toFinset_card_of_nodup nodup, AddressSet.forEach, List.length_map, valid.size_eq,
        validOther.size_eq, max_two_pow]
      exact fewer
  · intro fits
    obtain ⟨result, united, held⟩ := (holding.union holdingOther memory fits).resolve_left hasMemory
    exact ⟨result, united, held.isUnion⟩

/-- Adds addresses one after the other. -/
def AddressSet.addAll (memory : ℕ → Bool) : List Word → AddressSet → Outcome TableFailure AddressSet
  | [], set => pure set
  | addr :: rest, set => do
      let (next, _) ← set.perform memory (.add addr)
      addAll memory rest next

theorem BuiltSet.addAll (built : BuiltSet set content) {memory : ℕ → Bool} (addrs : List Word)
    (added : AddressSet.addAll memory addrs set = .next result) : ∃ after,
      BuiltSet result after := by
  induction addrs generalizing set content with
  | nil =>
      obtain rfl := Outcome.next.inj added
      exact ⟨content, built⟩
  | cons addr rest inductionHypothesis =>
      rw [AddressSet.addAll, Outcome.bind_eq_next] at added
      obtain ⟨⟨next, reply⟩, performed, added⟩ := added
      have permitted : content.Permits (.add addr) := trivial
      exact inductionHypothesis (.perform built permitted performed) added

/-- A new set with addresses. -/
def AddressSet.ofList (memory : ℕ → Bool) (addrs : List Word) : Outcome TableFailure AddressSet :=
    do
  let set ← AddressSet.init memory
  AddressSet.addAll memory addrs set

theorem BuiltSet.ofList {memory : ℕ → Bool} {addrs : List Word}
    (created : AddressSet.ofList memory addrs = .next set) : ∃ content, BuiltSet set content := by
  rw [AddressSet.ofList, Outcome.bind_eq_next] at created
  obtain ⟨empty, isInit, added⟩ := created
  exact (BuiltSet.init isInit).addAll addrs added

/-- Two sets with two elements each, of which one is the same. -/
theorem union_iff_two : ∃ (set other result : AddressSet) (content otherContent : SetContent),
    set.union (fun _ => true) other = .next result ∧ IsUnion content otherContent result ∧
      result.nItems = 3 := by
  have ran : (AddressSet.ofList (fun _ => true) [16, 32]).leadsTo (fun set =>
      (AddressSet.ofList (fun _ => true) [32, 48]).leadsTo fun other =>
        (set.union (fun _ => true) other).leadsTo (fun result => decide (result.nItems = 3)) &&
          decide (set.elementCount other < max set.size other.size)) = true := by
    decide +kernel
  obtain ⟨set, isSet, ran⟩ := Outcome.exists_next_of_leadsTo ran
  obtain ⟨other, isOther, ran⟩ := Outcome.exists_next_of_leadsTo ran
  obtain ⟨united, fits⟩ := (Bool.and_eq_true _ _).mp ran
  obtain ⟨result, united, three⟩ := Outcome.exists_next_of_leadsTo united
  obtain ⟨content, built⟩ := BuiltSet.ofList isSet
  obtain ⟨otherContent, builtOther⟩ := BuiltSet.ofList isOther
  have hasMemory : set.union (fun _ => true) other ≠ .failed .outOfMemory := by
    rw [united]
    rintro ⟨⟩
  have unionFits : set.UnionFits other := by
    rw [AddressSet.UnionFits]
    exact of_decide_eq_true fits
  obtain ⟨same, isSame, isUnion⟩ := (union_iff built builtOther hasMemory).mpr unionFits
  obtain rfl := Outcome.next.inj (united.symm.trans isSame)
  exact ⟨set, other, result, content, otherContent, united, isUnion, of_decide_eq_true three⟩

/-- Two sets with seven elements each, in tables of eight slots: the loop for a hole for the ninth
element never ends. -/
theorem union_fails :
    ¬∀ (set other : AddressSet) (content otherContent : SetContent) (memory : ℕ → Bool),
      BuiltSet set content → BuiltSet other otherContent →
        set.union memory other ≠ .failed .outOfMemory →
          ∃ result, set.union memory other = .next result ∧
              IsUnion content otherContent result := by
  intro holds
  have ran : (AddressSet.ofList (fun _ => true) [0, 1, 2, 3, 4, 5, 6]).leadsTo (fun set =>
      (AddressSet.ofList (fun _ => true) [7, 8, 9, 10, 11, 12, 13]).leadsTo fun other =>
        (set.union (fun _ => true) other).leadsTo (fun _ => true) = false ∧
          (set.union (fun _ => true) other).failsWith .outOfMemory = false) = true := by
    decide +kernel
  obtain ⟨set, isSet, ran⟩ := Outcome.exists_next_of_leadsTo ran
  obtain ⟨other, isOther, ran⟩ := Outcome.exists_next_of_leadsTo ran
  obtain ⟨notNext, notFailed⟩ := of_decide_eq_true ran
  obtain ⟨content, built⟩ := BuiltSet.ofList isSet
  obtain ⟨otherContent, builtOther⟩ := BuiltSet.ofList isOther
  have hasMemory : set.union (fun _ => true) other ≠ .failed .outOfMemory := by
    intro failed
    rw [failed] at notFailed
    cases notFailed
  obtain ⟨result, united, -⟩ :=
    holds set other content otherContent (fun _ => true) built builtOther
    hasMemory
  rw [united] at notNext
  cases notNext

end Sets

end Whippet.Tables
