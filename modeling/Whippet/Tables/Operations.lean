import Whippet.Tables.Probing

/-!
The operations on the hash tables.

Removing an entry moves the run behind it back by one. Growing and shrinking insert all entries into
a fresh table; a table never gets as full as to have no hole.

Owns: removing, populating, growing and shrinking, the invariant that every operation keeps, and
what each does to the entries. Does not own: what the entries mean.
-/

namespace Whippet.Tables

open Function RobinHood
open HashEntry (key refresh)

variable {Entry : Type} [HashEntry Entry] {n : ℕ} {table result : HashTable Entry}
variable {entry other : Entry} {k : Word} {memory : ℕ → Bool}

namespace HashTable

/-! ## Removing -/

/-- The entries of the slots from `start` on are those of the next slots, for `moved` slots. -/
structure MovedDown (table result : HashTable Entry) (start : ZMod (2 ^ n)) (moved : ℕ) :
    Prop where
  size_eq : result.size = table.size
  bits_eq : result.bits = table.bits
  nItems_eq : result.nItems = table.nItems
  data_eq : ∀ slot : ZMod (2 ^ n), result.data slot.val =
    if (slot - start).val < moved then table.data (slot + 1).val else table.data slot.val

namespace MovedDown

variable {start : ZMod (2 ^ n)} {moved : ℕ}

omit [HashEntry Entry] in
theorem refl (table : HashTable Entry) (start : ZMod (2 ^ n)) : MovedDown table table start 0 :=
  ⟨rfl, rfl, rfl, fun _ => rfl⟩

omit [HashEntry Entry] in
theorem sized (down : MovedDown table result start moved) (sized : Sized table n) :
    Sized result n :=
  ⟨down.size_eq.trans sized.size_eq, sized.large, sized.small⟩

omit [HashEntry Entry] in
/-- The slots beyond are as they were. -/
theorem slots_eq (down : MovedDown table result start moved) {slot : ZMod (2 ^ n)}
    (beyond : moved ≤ (slot - start).val) : result.slots n slot = table.slots n slot := by
  have unmoved : ¬(slot - start).val < moved := by omega
  rw [slots, slots, down.bits_eq, down.data_eq, if_neg unmoved]

omit [HashEntry Entry] in
/-- One more entry moves. -/
theorem step (down : MovedDown table result start moved) (isSized : Sized table n) {slot : Word}
    (fits : moved + 1 < 2 ^ n) (place : wordSlot n slot = start + moved) :
    MovedDown table (result.slotSet slot (result.slotEntry (slot + 1))) start (moved + 1) := by
  have resultSized := down.sized isSized
  have next : wordSlot n (slot + 1) = start + moved + 1 := by
    rw [wordSlot_add isSized.le_word, wordSlot_one isSized.le_word, place]
  have offset : (start + (moved : ZMod (2 ^ n)) - start).val = moved := by
    rw [add_sub_cancel_left]
    exact val_natCast_of_lt (by omega)
  have nextOffset : (start + (moved : ZMod (2 ^ n)) + 1 - start).val = moved + 1 := by
    have same : start + (moved : ZMod (2 ^ n)) + 1 - start = (moved + 1 : ℕ) := by
      push_cast
      ring
    rw [same]
    exact val_natCast_of_lt fits
  refine ⟨down.size_eq, down.bits_eq, down.nItems_eq, ?_⟩
  intro other
  rw [HashTable.slotSet, resultSized.slotIndex_eq, place, HashTable.slotEntry,
    resultSized.slotIndex_eq, next, down.data_eq, if_neg (by omega)]
  by_cases last : other = start + moved
  · rw [last, offset, if_pos (by omega)]
    exact update_self _ _ _
  · have apart : other.val ≠ (start + (moved : ZMod (2 ^ n))).val :=
      fun same => last (ZMod.val_injective _ same)
    simp only [update_of_ne apart]
    rw [down.data_eq]
    have notLast : (other - start).val ≠ moved := by
      intro same
      rw [← same, add_val_sub] at last
      exact last rfl
    by_cases within : (other - start).val < moved
    · rw [if_pos within, if_pos (by omega)]
    · rw [if_neg within, if_neg (by omega)]

end MovedDown

/-- Behind an entry there are fewer entries in a row than slots but one. -/
theorem fits_of_away {slots : ZMod (2 ^ n) → Option Entry} {hole start : ZMod (2 ^ n)} {moved : ℕ}
    (empty : slots hole = none) (found : slots start = some entry)
    (away : ∀ ahead < moved, ∃ entry, slots (start + ahead + 1) = some entry ∧
      distance (home n) (start + ahead + 1) entry ≠ 0) : moved + 1 < 2 ^ n := by
  have below := ZMod.val_lt (hole - start)
  by_contra full
  cases offset : (hole - start).val with
  | zero =>
      rw [ZMod.val_eq_zero, sub_eq_zero] at offset
      rw [offset, found] at empty
      cases empty
  | succ before =>
      obtain ⟨there, foundThere, -⟩ := away before (by omega)
      have reached := add_val_sub start hole
      rw [offset] at reached
      push_cast at reached
      rw [← add_assoc] at reached
      rw [reached, empty] at foundThere
      cases foundThere

theorem Valid.moveDown_spec (valid : Valid table n) (room : table.nItems < table.size)
    {start : ZMod (2 ^ n)} (found : table.slots n start = some entry) {rounds moved : ℕ}
    (enough : table.size ≤ rounds + moved) {slot : Word} {current : HashTable Entry}
    (down : MovedDown table current start moved) (place : wordSlot n slot = start + moved)
    (away : ∀ ahead < moved, ∃ entry, table.slots n (start + ahead + 1) = some entry ∧
      distance (home n) (start + ahead + 1) entry ≠ 0) :
    ∃ final last count, moveDown rounds current slot = .next (final, last) ∧
      MovedDown table final start count ∧ wordSlot n last = start + count ∧
      Tail (home n) (table.slots n) start count := by
  obtain ⟨hole, empty⟩ := valid.exists_hole room
  have sizeEq := valid.size_eq
  induction rounds generalizing moved slot current with
  | zero =>
      have fits := fits_of_away empty found away
      omega
  | succ rounds inductionHypothesis =>
      have fits := fits_of_away empty found away
      have currentSized := down.sized valid.toSized
      have next : wordSlot n (slot + 1) = start + moved + 1 := by
        rw [wordSlot_add valid.le_word, wordSlot_one valid.le_word, place]
      have nextOffset : (start + (moved : ZMod (2 ^ n)) + 1 - start).val = moved + 1 := by
        have same : start + (moved : ZMod (2 ^ n)) + 1 - start = (moved + 1 : ℕ) := by
          push_cast
          ring
        rw [same]
        exact val_natCast_of_lt fits
      have unmoved : current.slots n (start + moved + 1) = table.slots n (start + moved + 1) :=
        down.slots_eq (by omega)
      rw [moveDown]
      by_cases continues : current.slotIsEmpty (slot + 1) = false ∧
          current.slotDistance (slot + 1) ≠ 0
      · rw [if_pos continues]
        obtain ⟨full, far⟩ := continues
        rw [currentSized.slotIsEmpty_eq_false_iff, next, unmoved] at full
        rw [currentSized.slotDistance_eq, next] at far
        have awayNext : ∀ ahead < moved + 1, ∃ entry,
            table.slots n (start + ahead + 1) = some entry ∧
              distance (home n) (start + ahead + 1) entry ≠ 0 := by
          intro ahead within
          by_cases last : ahead = moved
          · subst last
            exact ⟨_, full, far⟩
          · exact away ahead (by omega)
        apply inductionHypothesis (by omega) (down.step valid.toSized fits place) _ awayNext
        rw [next]
        push_cast
        ring
      · rw [if_neg continues]
        refine ⟨current, slot, moved, rfl, down, place, fits, away, ?_⟩
        intro stopped foundStopped
        by_contra far
        apply continues
        rw [← unmoved, ← next] at foundStopped
        refine ⟨currentSized.slotIsEmpty_of_some foundStopped, ?_⟩
        rw [currentSized.slotDistance_eq, currentSized.slotEntry_eq foundStopped, next]
        exact far

/-- What removing an entry does to the entries of a table. -/
structure Removed (table result : HashTable Entry) (n : ℕ) (k : Word) : Prop where
  valid : Valid result n
  holds : ∀ other, Holds (result.slots n) other ↔ Holds (table.slots n) other ∧ key other ≠ k
  nItems_eq : result.nItems + 1 = table.nItems

/-- Releasing the last slot of the run that moved leaves the table without the entry. -/
theorem Valid.removed_slotRelease (valid : Valid table n) {start : ZMod (2 ^ n)} {moved : ℕ}
    {final : HashTable Entry} {last : Word} (found : table.slots n start = some entry)
    (down : MovedDown table final start moved) (place : wordSlot n last = start + moved)
    (tail : Tail (home n) (table.slots n) start moved) :
    Removed table (final.slotRelease last) n (key entry) := by
  have fits := tail.fits
  have finalSized := down.sized valid.toSized
  have isTaken : ∀ {slot : ZMod (2 ^ n)} {there : Entry}, table.slots n slot = some there →
      table.bits slot.val = true ∧ table.data slot.val = there := by
    intro slot there foundThere
    rw [slots] at foundThere
    split_ifs at foundThere with isSet
    exact ⟨isSet, Option.some.inj foundThere⟩
  have released : ∀ slot : ZMod (2 ^ n), (final.slotRelease last).bits slot.val =
      if (slot - start).val = moved then false else table.bits slot.val := by
    intro slot
    rw [HashTable.slotRelease, finalSized.slotIndex_eq, place, down.bits_eq]
    by_cases atLast : slot = start + moved
    · rw [atLast, add_sub_cancel_left, val_natCast_of_lt (by omega), if_pos rfl]
      exact update_self _ _ _
    · have apart : slot.val ≠ (start + (moved : ZMod (2 ^ n))).val :=
        fun same => atLast (ZMod.val_injective _ same)
      rw [if_neg]
      · exact update_of_ne apart _ _
      · intro same
        rw [← same, add_val_sub] at atLast
        exact atLast rfl
  have slotsEq : (final.slotRelease last).slots n = removeAt (table.slots n) start moved := by
    ext1 slot
    rw [slots, released]
    by_cases within : (slot - start).val < moved
    · obtain ⟨there, foundThere, -⟩ := tail.away_of_val_lt slot within
      have here : ∃ here, table.slots n slot = some here := by
        cases offset : (slot - start).val with
        | zero =>
            rw [ZMod.val_eq_zero, sub_eq_zero] at offset
            exact ⟨entry, by rwa [offset]⟩
        | succ before =>
            obtain ⟨here, foundHere, -⟩ := tail.away before (by omega)
            have reached := add_val_sub start slot
            rw [offset] at reached
            push_cast at reached
            rw [← add_assoc] at reached
            exact ⟨here, by rwa [← reached]⟩
      obtain ⟨here, foundHere⟩ := here
      have notLast : (slot - start).val ≠ moved := by omega
      rw [removeAt_within within, foundThere, if_neg notLast, (isTaken foundHere).1, if_pos rfl,
        HashTable.slotRelease]
      dsimp only
      rw [down.data_eq, if_pos within, (isTaken foundThere).2]
    · by_cases atLast : (slot - start).val = moved
      · rw [removeAt_last atLast, if_pos atLast]
        rfl
      · rw [removeAt_beyond (by omega), if_neg atLast, HashTable.slotRelease]
        dsimp only
        rw [down.data_eq, if_neg within]
        rfl
  have counted := card_removeAt tail found
  have sizedRelease : Sized (final.slotRelease last) n :=
    ⟨finalSized.size_eq, finalSized.large, finalSized.small⟩
  have nItems : (final.slotRelease last).nItems + 1 = table.nItems := by
    rw [HashTable.slotRelease, ← valid.count, ← counted]
    dsimp only
    rw [down.nItems_eq, ← valid.count, ← counted]
    rfl
  refine ⟨⟨sizedRelease, ?_, ?_, ?_⟩, ?_, nItems⟩
  · rw [slotsEq]
    exact valid.ordered.removeAt tail found
  · rw [slotsEq]
    exact valid.distinct.removeAt tail
  · rw [slotsEq]
    have total := valid.count
    omega
  · intro other
    rw [slotsEq, holds_removeAt tail]
    constructor
    · rintro ⟨slot, notStart, foundOther⟩
      refine ⟨⟨slot, foundOther⟩, ?_⟩
      intro sameKey
      exact notStart (valid.distinct _ _ _ _ foundOther found sameKey)
    · rintro ⟨⟨slot, foundOther⟩, apart⟩
      refine ⟨slot, ?_, foundOther⟩
      rintro rfl
      rw [found, Option.some.injEq] at foundOther
      exact apart (by rw [foundOther])

/-- The search for an entry to remove finds it. -/
theorem Valid.probeKey_spec (valid : Valid table n) (held : Holds (table.slots n) entry) :
    ∃ slot, probe (fun slot => !table.slotIsEmpty slot &&
        decide (key (table.slotEntry slot) ≠ key entry)) table.size (key entry) = .next slot ∧
      table.slots n (wordSlot n slot) = some entry := by
  obtain ⟨start, found⟩ := held
  have atEntry : wordSlot n (key entry +
      BitVec.ofNat 64 (distance (home n) start entry)) = start := by
    rw [wordSlot_ahead valid.le_word]
    exact home_add_distance _ _ _
  have below : distance (home n) start entry < table.size := by
    rw [valid.size_eq]
    exact distance_lt _ _ _
  have stop : (!table.slotIsEmpty (key entry +
        BitVec.ofNat 64 (distance (home n) start entry)) &&
      decide (key (table.slotEntry (key entry +
        BitVec.ofNat 64 (distance (home n) start entry))) ≠ key entry)) = false := by
    rw [valid.slotEntry_eq (by rwa [atEntry])]
    simp
  obtain ⟨ahead, aheadLt, ended, stopped, passed⟩ :=
    probe_spec (fun slot => !table.slotIsEmpty slot &&
      decide (key (table.slotEntry slot) ≠ key entry)) ⟨_, below, stop⟩
  -- The search goes no farther than the entry, and there is no hole before it.
  have notBeyond : ahead ≤ distance (home n) start entry := by
    by_contra beyond
    have continued := passed (distance (home n) start entry) (by omega)
    rw [stop] at continued
    cases continued
  obtain ⟨there, foundThere, -⟩ := valid.ordered.from_home found ahead notBeyond
  have place := wordSlot_ahead valid.le_word (key entry) ahead
  have foundStopped : table.slots n (wordSlot n (key entry + BitVec.ofNat 64 ahead)) =
      some there := by
    rw [place]
    exact foundThere
  have full := valid.slotIsEmpty_of_some foundStopped
  refine ⟨_, ended, ?_⟩
  rw [full, valid.slotEntry_eq foundStopped] at stopped
  have sameKey : key there = key entry := by simpa using stopped
  have sameSlot := valid.distinct _ _ _ _ foundStopped found sameKey
  rw [sameSlot]
  exact found

/-! ## Populating -/

omit [HashEntry Entry] in
theorem slots_eq_none (cleared : ∀ idx, table.bits idx = false) (slot : ZMod (2 ^ n)) :
    table.slots n slot = none := by
  rw [slots, cleared]
  rfl

/-- A table without entries is ordered. -/
theorem Sized.valid (sized : Sized table n) (cleared : ∀ idx, table.bits idx = false)
    (none : table.nItems = 0) : Valid table n := by
  have empty := slots_eq_none (n := n) cleared
  refine ⟨sized, ?_, ?_, ?_⟩
  · intro slot entry found
    rw [empty] at found
    cases found
  · intro left right one two found
    rw [empty] at found
    cases found
  · rw [none, Finset.card_eq_zero, Finset.eq_empty_iff_forall_notMem]
    intro slot member
    rw [mem_taken] at member
    obtain ⟨entry, found⟩ := member
    rw [empty] at found
    cases found

/-- A table of `2 ^ n` slots without entries. -/
theorem init_spec (large : 3 ≤ n) (created : init memory (2 ^ n) = .next table) :
    Valid table n ∧ table.nItems = 0 ∧ ∀ entry, ¬Holds (table.slots n) entry := by
  simp only [init, Outcome.check_bind_eq_next, Outcome.pure_eq_next, Outcome.next.injEq] at created
  obtain ⟨⟨-, fits⟩, -, rfl⟩ := created
  have wide : 8 ≤ HashEntry.bytes Entry := HashEntry.eight_le_bytes
  have small : n ≤ 60 := by
    by_contra big
    have powers : 2 ^ 61 ≤ 2 ^ n := Nat.pow_le_pow_right (by decide) (by omega)
    have product := Nat.mul_le_mul wide powers
    rw [PTRDIFF_MAX] at fits
    omega
  refine ⟨Sized.valid ⟨rfl, large, small⟩ (fun _ => rfl) rfl, rfl, ?_⟩
  rintro entry ⟨slot, found⟩
  rw [slots_eq_none fun _ => rfl] at found
  cases found

theorem init_cases (Entry : Type) [HashEntry Entry] (memory : ℕ → Bool) (size : ℕ) :
    init memory size = (.failed .outOfMemory : Outcome TableFailure (HashTable Entry)) ∨
      ∃ table : HashTable Entry, init memory size = .next table := by
  simp only [init, Outcome.check, Outcome.pure_eq_next]
  split
  · split
    · exact .inr ⟨_, rfl⟩
    · exact .inl rfl
  · exact .inl rfl

namespace Sized

omit [HashEntry Entry] in
theorem entries_eq (sized : Sized table n) :
    table.entries =
      (List.range (2 ^ n)).filterMap fun i : ℕ => table.slots n (i : ZMod (2 ^ n)) := by
  rw [entries, List.filterMap_map, sized.size_eq]
  apply List.filterMap_congr
  intro i _
  rw [← wordSlot_ofNat sized.le_word, sized.slots_wordSlot]
  rfl

omit [HashEntry Entry] in
theorem mem_entries (sized : Sized table n) :
    entry ∈ table.entries ↔ Holds (table.slots n) entry := by
  rw [sized.entries_eq, List.mem_filterMap]
  constructor
  · rintro ⟨i, -, found⟩
    exact ⟨_, found⟩
  · rintro ⟨slot, found⟩
    refine ⟨slot.val, List.mem_range.mpr (ZMod.val_lt slot), ?_⟩
    rwa [ZMod.natCast_zmod_val]

omit [HashEntry Entry] in
theorem length_entries (sized : Sized table n) :
    table.entries.length = (taken (table.slots n)).card := by
  let full := (List.range (2 ^ n)).filter fun i : ℕ => (table.slots n (i : ZMod (2 ^ n))).isSome
  have mem_full : ∀ i, i ∈ (full.toFinset : Set ℕ) ↔
      i < 2 ^ n ∧ (table.slots n (i : ZMod (2 ^ n))).isSome := by
    intro i
    rw [Finset.mem_coe, List.mem_toFinset, List.mem_filter, List.mem_range]
  have counted : table.entries.length = full.toFinset.card := by
    rw [List.toFinset_card_of_nodup (List.nodup_range.filter _), sized.entries_eq,
      List.length_filterMap_eq_countP, List.countP_eq_length_filter]
  rw [counted]
  apply Finset.card_nbij' (fun i : ℕ => (i : ZMod (2 ^ n))) ZMod.val
  · intro i member
    rw [Finset.mem_coe, taken, Finset.mem_filter]
    exact ⟨Finset.mem_univ _, ((mem_full i).mp member).2⟩
  · intro slot member
    rw [Finset.mem_coe, taken, Finset.mem_filter] at member
    rw [mem_full, ZMod.natCast_zmod_val]
    exact ⟨ZMod.val_lt slot, member.2⟩
  · intro i member
    exact ZMod.val_cast_of_lt ((mem_full i).mp member).1
  · intro slot _
    exact ZMod.natCast_zmod_val slot

end Sized

namespace Valid

/-- Every key is in the list of entries once at most. -/
theorem pairwise_entries (valid : Valid table n) :
    table.entries.Pairwise fun left right => key left ≠ key right := by
  rw [valid.entries_eq, List.pairwise_filterMap]
  apply List.Nodup.pairwise_of_forall_ne List.nodup_range
  intro left leftMember right rightMember apart one foundOne two foundTwo sameKey
  apply apart
  have same := valid.distinct _ _ _ _ foundOne foundTwo sameKey
  rw [ZMod.natCast_eq_natCast_iff', Nat.mod_eq_of_lt (List.mem_range.mp leftMember),
    Nat.mod_eq_of_lt (List.mem_range.mp rightMember)] at same
  exact same

theorem length_entries (valid : Valid table n) : table.entries.length = table.nItems :=
  valid.toSized.length_entries.trans valid.count

/-- Inserting entries with different keys one after the other, as long as there is room. -/
theorem populate_spec {entries : List Entry} (valid : Valid table n)
    (room : table.nItems + entries.length ≤ table.size)
    (apart : entries.Pairwise fun left right => key left ≠ key right) :
    ∃ result, table.populate entries = .next result ∧ Valid result n ∧
      result.nItems ≤ table.nItems + entries.length ∧
      ∀ other, Holds (result.slots n) other ↔ other ∈ entries ∨
        Holds (table.slots n) other ∧ ∀ entry ∈ entries, key other ≠ key entry := by
  induction entries generalizing table with
  | nil =>
      refine ⟨table, rfl, valid, Nat.le_refl _, ?_⟩
      intro other
      simp
  | cons entry rest inductionHypothesis =>
      rw [List.length_cons] at room ⊢
      obtain ⟨next, inserted, spec⟩ := valid.doInsert_spec (by omega) entry
      have fewer := spec.nItems_le
      have sizeEq := spec.valid.size_eq.trans valid.size_eq.symm
      obtain ⟨first, later⟩ := List.pairwise_cons.mp apart
      obtain ⟨result, populated, resultValid, count, holds⟩ :=
        inductionHypothesis spec.valid (by omega) later
      refine ⟨result, ?_, resultValid, by omega, ?_⟩
      · rw [populate, inserted, Outcome.bind_next, populated]
      · intro other
        rw [holds, spec.holds, List.mem_cons]
        constructor
        · rintro (member | ⟨rfl | ⟨held, apartFirst⟩, apartRest⟩)
          · exact .inl (.inr member)
          · exact .inl (.inl rfl)
          · refine .inr ⟨held, ?_⟩
            exact List.forall_mem_cons.mpr ⟨apartFirst, apartRest⟩
        · rintro ((rfl | member) | ⟨held, apartAll⟩)
          · exact .inr ⟨.inl rfl, first⟩
          · exact .inl member
          · obtain ⟨apartFirst, apartRest⟩ := List.forall_mem_cons.mp apartAll
            exact .inr ⟨.inr ⟨held, apartFirst⟩, apartRest⟩

/-- A fresh table with all entries of another one. -/
theorem rehash_spec {m : ℕ} (valid : Valid table n) (large : 3 ≤ m)
    (room : table.nItems ≤ 2 ^ m) {fresh : HashTable Entry}
    (created : init memory (2 ^ m) = .next fresh) :
    ∃ result, fresh.populate table.entries = .next result ∧ Valid result m ∧
      result.nItems ≤ table.nItems ∧
      ∀ other, other ∈ result.entries ↔ other ∈ table.entries := by
  obtain ⟨freshValid, none, empty⟩ := init_spec large created
  have enough : fresh.nItems + table.entries.length ≤ fresh.size := by
    rw [none, valid.length_entries, freshValid.size_eq, Nat.zero_add]
    exact room
  obtain ⟨result, populated, resultValid, count, holds⟩ :=
    freshValid.populate_spec enough valid.pairwise_entries
  rw [none, Nat.zero_add, valid.length_entries] at count
  refine ⟨result, populated, resultValid, count, ?_⟩
  intro other
  rw [resultValid.mem_entries, holds]
  exact or_iff_left fun held => empty other held.1

end Valid

/-! ## Operations -/

/-- The invariant that every operation keeps: an eighth of the slots at least is empty. -/
def Usable (table : HashTable Entry) : Prop :=
  ∃ n, Valid table n ∧ table.nItems ≤ table.size - table.size >>> 3

/-- There is no memory for a table of a size. -/
def Exhausted (Entry : Type) [HashEntry Entry] (memory : ℕ → Bool) (size : ℕ) : Prop :=
  (init memory size : Outcome TableFailure (HashTable Entry)) = .failed .outOfMemory

/-- The operation runs out of memory for a table of a size, or leads to a table with the
invariant. -/
def Leads (outcome : Outcome TableFailure (HashTable Entry)) (memory : ℕ → Bool) (size : ℕ)
    (holds : HashTable Entry → Prop) : Prop :=
  outcome = .failed .outOfMemory ∧ Exhausted Entry memory size ∨
    ∃ result, outcome = .next result ∧ Usable result ∧ holds result

theorem shiftRight_three (value : ℕ) : value >>> 3 = value / 8 := by
  rw [Nat.shiftRight_eq_div_pow]

theorem two_pow_ge_eight (large : 3 ≤ n) : 8 ≤ 2 ^ n := Nat.pow_le_pow_right Nat.two_pos large

theorem Valid.hasRoom (valid : Valid table n)
    (roomy : table.nItems ≤ table.size - table.size >>> 3) : table.nItems < table.size := by
  have large := two_pow_ge_eight valid.large
  rw [← valid.size_eq] at large
  rw [shiftRight_three] at roomy
  omega

theorem init_leads (Entry : Type) [HashEntry Entry] (memory : ℕ → Bool) :
    Leads (init memory 8) memory 8 fun result : HashTable Entry => result.entries = [] := by
  rcases init_cases Entry memory 8 with failed | ⟨table, created⟩
  · exact .inl ⟨failed, failed⟩
  · obtain ⟨valid, none, empty⟩ := init_spec (n := 3) (by decide) created
    refine .inr ⟨table, created, ⟨3, valid, ?_⟩, ?_⟩
    · rw [none]
      exact Nat.zero_le _
    · apply List.eq_nil_iff_forall_not_mem.mpr
      intro entry member
      exact empty entry (valid.mem_entries.mp member)

theorem Usable.clear (usable : Usable table) :
    Usable table.clear ∧ table.clear.entries = [] := by
  obtain ⟨n, valid, -⟩ := usable
  have sized : Sized table.clear n := ⟨valid.size_eq, valid.large, valid.small⟩
  refine ⟨⟨n, sized.valid (fun _ => rfl) rfl, Nat.zero_le _⟩, ?_⟩
  rw [sized.entries_eq]
  apply List.filterMap_eq_nil_iff.mpr
  intro i _
  exact slots_eq_none (fun _ => rfl) _

theorem Usable.lookup_spec (usable : Usable table) (k : Word) :
    ∃ found, table.lookup k = .next found ∧
      ∀ entry, found = some entry ↔ entry ∈ table.entries ∧ key entry = k := by
  obtain ⟨n, valid, roomy⟩ := usable
  obtain ⟨found, searched, spec⟩ := valid.lookup_spec (valid.hasRoom roomy) k
  refine ⟨found, searched, ?_⟩
  intro entry
  rw [valid.mem_entries]
  exact spec entry

theorem Usable.pairwise_entries (usable : Usable table) :
    table.entries.Pairwise fun left right => key left ≠ key right := by
  obtain ⟨n, valid, -⟩ := usable
  exact valid.pairwise_entries

/-- What inserting an entry does to the list of entries. -/
def InsertedInto (table : HashTable Entry) (entry : Entry) (result : HashTable Entry) : Prop :=
  ∀ other, other ∈ result.entries ↔
    other = entry ∨ other ∈ table.entries ∧ key other ≠ key entry

theorem Valid.doInsert_usable (valid : Valid table n)
    (room : table.nItems + 1 ≤ table.size - table.size >>> 3) (entry : Entry) :
    ∃ result, table.doInsert entry = .next result ∧ Usable result ∧
      InsertedInto table entry result := by
  obtain ⟨result, inserted, spec⟩ := valid.doInsert_spec (by omega) entry
  refine ⟨result, inserted, ⟨n, spec.valid, ?_⟩, ?_⟩
  · rw [spec.valid.size_eq, ← valid.size_eq]
    exact spec.nItems_le.trans room
  · intro other
    rw [spec.valid.mem_entries, valid.mem_entries]
    exact spec.holds other

/-- One empty slot is enough: what is inserted into leaves more than that. -/
theorem Valid.insert_spec (valid : Valid table n) (roomy : table.nItems < table.size)
    (memory : ℕ → Bool) (entry : Entry) :
    Leads (table.insert memory entry) memory (table.size <<< 1) (InsertedInto table entry) := by
  have sizeEq := valid.size_eq
  have eight := two_pow_ge_eight valid.large
  rw [insert]
  cases growing : table.shouldGrow with
  | false =>
      rw [shouldGrow, decide_eq_false_iff_not] at growing
      simp only [Bool.false_eq_true, ↓reduceIte, Outcome.pure_eq_next, Outcome.bind_next]
      apply Or.inr
      apply valid.doInsert_usable
      omega
  | true =>
      have doubled : table.size <<< 1 = 2 ^ (n + 1) := by
        rw [sizeEq, Nat.shiftLeft_eq, pow_one, pow_succ]
      simp only [↓reduceIte, grow, doubled]
      rcases init_cases Entry memory (2 ^ (n + 1)) with failed | ⟨fresh, created⟩
      · rw [failed]
        exact .inl ⟨rfl, failed⟩
      · have larger : 2 ^ (n + 1) = 2 * 2 ^ n := by rw [pow_succ, mul_comm]
        obtain ⟨grown, populated, grownValid, count, same⟩ :=
          valid.rehash_spec (by have large := valid.large; omega) (by omega) created
        rw [created, Outcome.bind_next, populated, Outcome.bind_next]
        have room : grown.nItems + 1 ≤ grown.size - grown.size >>> 3 := by
          rw [shiftRight_three, grownValid.size_eq]
          omega
        obtain ⟨result, inserted, usable, spec⟩ := grownValid.doInsert_usable room entry
        refine .inr ⟨result, inserted, usable, ?_⟩
        intro other
        rw [spec, same]

theorem Usable.insert_spec (usable : Usable table) (memory : ℕ → Bool) (entry : Entry) :
    Leads (table.insert memory entry) memory (table.size <<< 1) (InsertedInto table entry) := by
  obtain ⟨n, valid, roomy⟩ := usable
  exact valid.insert_spec (valid.hasRoom roomy) memory entry

/-- What removing a key does to the list of entries. -/
def RemovedFrom (table : HashTable Entry) (k : Word) (result : HashTable Entry) : Prop :=
  ∀ other, other ∈ result.entries ↔ other ∈ table.entries ∧ key other ≠ k

/-- A table with an empty slot keeps as many as it has, or is rehashed. -/
theorem Valid.remove_spec (valid : Valid table n) (roomy : table.nItems < table.size)
    (memory : ℕ → Bool) (member : entry ∈ table.entries) :
    table.remove memory (key entry) = .failed .outOfMemory ∧
        Exhausted Entry memory (table.size >>> 1) ∨
      ∃ result m, table.remove memory (key entry) = .next result ∧ Valid result m ∧
        (result.nItems ≤ table.nItems ∧ result.size = table.size ∨
          result.nItems ≤ result.size - result.size >>> 3) ∧
        RemovedFrom table (key entry) result := by
  have eight := two_pow_ge_eight valid.large
  obtain ⟨slot, ended, found⟩ := valid.probeKey_spec (valid.mem_entries.mp member)
  have full := valid.slotIsEmpty_of_some found
  have atStart : wordSlot n slot = wordSlot n slot + (0 : ℕ) := by rw [Nat.cast_zero, add_zero]
  obtain ⟨final, last, moved, movedEq, down, place, tail⟩ :=
    valid.moveDown_spec roomy found (Nat.le_refl _)
      (MovedDown.refl table (wordSlot n slot)) atStart nofun
  have spec := valid.removed_slotRelease found down place tail
  have fewer := spec.nItems_eq
  have sizeEq := spec.valid.size_eq
  have oldSize := valid.size_eq
  have removedEq : table.remove memory (key entry) =
      if (final.slotRelease last).shouldShrink then (final.slotRelease last).shrink memory
      else pure (final.slotRelease last) := by
    rw [remove, ended, Outcome.bind_next, full]
    simp only [Outcome.check, ↓reduceIte, Outcome.bind_next]
    rw [movedEq, Outcome.bind_next]
  rw [removedEq]
  cases shrinking : (final.slotRelease last).shouldShrink with
  | false =>
      refine .inr ⟨final.slotRelease last, n, rfl, spec.valid, .inl ⟨by omega, ?_⟩, ?_⟩
      · rw [sizeEq, oldSize]
      · intro other
        rw [spec.valid.mem_entries, valid.mem_entries]
        exact spec.holds other
  | true =>
      rw [shouldShrink, Bool.and_eq_true, decide_eq_true_iff, decide_eq_true_iff,
        shiftRight_three] at shrinking
      obtain ⟨big, few⟩ := shrinking
      obtain ⟨m, rfl⟩ : ∃ m, n = m + 1 := by
        have large := valid.large
        exact ⟨n - 1, by omega⟩
      have larger : 2 ^ (m + 1) = 2 * 2 ^ m := by rw [pow_succ, mul_comm]
      have large : 3 ≤ m := by
        by_contra small
        have bound : 2 ^ (m + 1) ≤ 2 ^ 3 := Nat.pow_le_pow_right (by decide) (by omega)
        omega
      have halved : 2 ^ (m + 1) >>> 1 = 2 ^ m := by
        rw [Nat.shiftRight_eq_div_pow, larger, pow_one]
        omega
      simp only [↓reduceIte, shrink, sizeEq, oldSize, halved]
      rcases init_cases Entry memory (2 ^ m) with failed | ⟨fresh, created⟩
      · rw [failed]
        exact .inl ⟨rfl, failed⟩
      · obtain ⟨result, populated, resultValid, count, same⟩ :=
          spec.valid.rehash_spec large (by omega) created
        rw [created, Outcome.bind_next]
        refine .inr ⟨result, m, populated, resultValid, .inr ?_, ?_⟩
        · rw [shiftRight_three, resultValid.size_eq]
          omega
        · intro other
          rw [same, spec.valid.mem_entries, valid.mem_entries]
          exact spec.holds other

theorem Usable.remove_spec (usable : Usable table) (memory : ℕ → Bool)
    (member : entry ∈ table.entries) :
    Leads (table.remove memory (key entry)) memory (table.size >>> 1)
      (RemovedFrom table (key entry)) := by
  obtain ⟨n, valid, roomy⟩ := usable
  rcases valid.remove_spec (valid.hasRoom roomy) memory member with
    failed | ⟨result, m, removed, resultValid, fewer, spec⟩
  · exact .inl failed
  · refine .inr ⟨result, removed, ⟨m, resultValid, ?_⟩, spec⟩
    rcases fewer with ⟨fewer, sameSize⟩ | fewer
    · rw [sameSize]
      exact fewer.trans roomy
    · exact fewer

end HashTable

end Whippet.Tables
