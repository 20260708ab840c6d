import Whippet.Tables.Slots

/-!
The probe loops of the hash tables.

A table that is ordered and has a hole ends every probe loop, and a loop that ends at a hole or at
an entry nearer to its home has seen all entries with the key.

Owns: the invariant of a table, and looking up, inserting and removing one entry. Does not own:
growing and shrinking.
-/

namespace Whippet.Tables

open Function RobinHood
open HashEntry (key refresh)

variable {Entry : Type} [HashEntry Entry] {n : ℕ} {table result : HashTable Entry}
variable {entry other : Entry} {k : Word}

namespace HashTable

/-- The invariant of a table: it is ordered, has a key once at most, and counts its entries. -/
structure Valid (table : HashTable Entry) (n : ℕ) : Prop extends Sized table n where
  ordered : Ordered (home n) (table.slots n)
  distinct : Distinct key (table.slots n)
  count : (taken (table.slots n)).card = table.nItems

theorem distance_ahead {ahead : ℕ} (below : ahead < 2 ^ n) (sameKey : key entry = k) :
    distance (home n) (wordSlot n k + ahead) entry = ahead := by
  rw [distance, home, sameKey, add_sub_cancel_left]
  exact val_natCast_of_lt below

namespace Valid

theorem exists_hole (valid : Valid table n) (room : table.nItems < table.size) :
    ∃ hole, table.slots n hole = none := by
  apply RobinHood.exists_hole
  rw [valid.count, ← valid.size_eq]
  exact room

/-- A probe that starts anywhere meets a hole within as many rounds as there are slots. -/
theorem exists_hole_ahead (valid : Valid table n) (room : table.nItems < table.size)
    (start : ZMod (2 ^ n)) : ∃ ahead < table.size, table.slots n (start + ahead) = none := by
  obtain ⟨hole, empty⟩ := valid.exists_hole room
  refine ⟨(hole - start).val, ?_, ?_⟩
  · rw [valid.size_eq]
    exact ZMod.val_lt _
  · rwa [add_val_sub]

/-- The same for the slots in words. -/
theorem exists_empty_ahead (valid : Valid table n) (room : table.nItems < table.size)
    (start : Word) :
    ∃ ahead < table.size, table.slotIsEmpty (start + BitVec.ofNat 64 ahead) = true := by
  obtain ⟨ahead, below, empty⟩ := valid.exists_hole_ahead room (wordSlot n start)
  refine ⟨ahead, below, ?_⟩
  rw [valid.slotIsEmpty_iff, wordSlot_ahead valid.le_word]
  exact empty

/-- A search that has passed other keys and stops at a hole or at an entry nearer to its home has
missed no entry with its key. -/
theorem key_ne_of_stop (valid : Valid table n) {ahead : ℕ}
    (passed : ∀ before < ahead, ∃ other, table.slots n (wordSlot n k + before) = some other ∧
      key other ≠ k)
    (stop : ∀ stopped, table.slots n (wordSlot n k + ahead) = some stopped →
      distance (home n) (wordSlot n k + ahead) stopped < ahead)
    (held : Holds (table.slots n) entry) : key entry ≠ k := by
  intro sameKey
  obtain ⟨slot, found⟩ := held
  have atHome : home n entry = wordSlot n k := by rw [home, sameKey]
  rw [← atHome] at stop
  have nearer := valid.ordered.distance_lt_of_stop found stop
  obtain ⟨other, foundOther, apart⟩ := passed _ nearer
  rw [← atHome, home_add_distance, found, Option.some.injEq] at foundOther
  subst foundOther
  exact apart sameKey

/-! ## Looking up -/

theorem find_spec (valid : Valid table n) (room : table.nItems < table.size) (k : Word)
    {rounds ahead : ℕ} (seen : rounds + ahead = table.size)
    (passed : ∀ before < ahead, ∃ other, table.slots n (wordSlot n k + before) = some other ∧
      key other ≠ k) :
    ∃ found, table.find k rounds (k + BitVec.ofNat 64 ahead) = .next found ∧
      ∀ entry, found = some entry ↔ Holds (table.slots n) entry ∧ key entry = k := by
  induction rounds generalizing ahead with
  | zero =>
      obtain ⟨hole, below, empty⟩ := valid.exists_hole_ahead room (wordSlot n k)
      obtain ⟨other, found, -⟩ := passed hole (by omega)
      rw [empty] at found
      cases found
  | succ rounds inductionHypothesis =>
      have below : ahead < 2 ^ n := by
        rw [← valid.size_eq]
        omega
      have offset : (k + BitVec.ofNat 64 ahead - k).toNat = ahead :=
        toNat_ahead_sub k (below.trans valid.slots_lt_word)
      have place := wordSlot_ahead valid.le_word k ahead
      rw [find]
      cases empty : table.slotIsEmpty (k + BitVec.ofNat 64 ahead) with
      | true =>
          refine ⟨none, rfl, ?_⟩
          intro entry
          refine iff_of_false nofun ?_
          rintro ⟨held, sameKey⟩
          rw [valid.slotIsEmpty_iff, place] at empty
          refine valid.key_ne_of_stop passed ?_ held sameKey
          intro stopped found
          rw [empty] at found
          cases found
      | false =>
          rw [valid.slotIsEmpty_eq_false_iff, place] at empty
          by_cases sameKey : key (table.slotEntry (k + BitVec.ofNat 64 ahead)) = k
          · refine ⟨some (table.slotEntry (k + BitVec.ofNat 64 ahead)), ?_, ?_⟩
            · simp [sameKey]
            · intro entry
              rw [Option.some.injEq]
              constructor
              · rintro rfl
                exact ⟨⟨_, empty⟩, sameKey⟩
              · rintro ⟨⟨slot, found⟩, entryKey⟩
                have sameSlot := valid.distinct _ _ _ _ found empty (entryKey.trans sameKey.symm)
                rw [sameSlot, empty, Option.some.injEq] at found
                exact found
          · by_cases nearer : table.slotDistance (k + BitVec.ofNat 64 ahead) < ahead
            · refine ⟨none, ?_, ?_⟩
              · rw [offset]
                simp [sameKey, nearer]
              · intro entry
                refine iff_of_false nofun ?_
                rintro ⟨held, entryKey⟩
                refine valid.key_ne_of_stop passed ?_ held entryKey
                intro stopped found
                rw [empty, Option.some.injEq] at found
                rwa [valid.slotDistance_eq, place, found] at nearer
            · have continued : ∀ before < ahead + 1, ∃ other,
                  table.slots n (wordSlot n k + before) = some other ∧ key other ≠ k := by
                intro before within
                by_cases last : before = ahead
                · subst last
                  exact ⟨_, empty, sameKey⟩
                · exact passed before (by omega)
              have rest := inductionHypothesis (by omega) continued
              rw [← ahead_add_one] at rest
              rw [offset]
              simpa [sameKey, nearer] using rest

theorem lookup_spec (valid : Valid table n) (room : table.nItems < table.size) (k : Word) :
    ∃ found, table.lookup k = .next found ∧
      ∀ entry, found = some entry ↔ Holds (table.slots n) entry ∧ key entry = k := by
  have searched := valid.find_spec room k (Nat.add_zero table.size) nofun
  rwa [ahead_zero] at searched

end Valid

/-! ## Inserting -/

/-- The loop over the entries with the home of the key passes entries with other keys, and ends at
the key, at a hole, or at an entry with another home. -/
theorem Valid.probeSame_spec (valid : Valid table n) (k : Word) {rounds ahead : ℕ}
    (below : ahead + rounds ≤ 2 ^ n + 2 ^ n)
    (stops : ∃ more < rounds, table.slots n (wordSlot n k + (ahead + more : ℕ)) = none) :
    ∃ more < rounds, ∃ found,
      table.probeSame k rounds (k + BitVec.ofNat 64 ahead) =
        .next (k + BitVec.ofNat 64 (ahead + more), found) ∧
      (∀ before, ahead ≤ before → before < ahead + more → ∃ other,
        table.slots n (wordSlot n k + before) = some other ∧
          distance (home n) (wordSlot n k + before) other = before ∧ key other ≠ k) ∧
      (found = true → ∃ old, table.slots n (wordSlot n k + (ahead + more : ℕ)) = some old ∧
        key old = k) ∧
      (found = false → ∀ stopped, table.slots n (wordSlot n k + (ahead + more : ℕ)) =
        some stopped → distance (home n) (wordSlot n k + (ahead + more : ℕ)) stopped ≠
          ahead + more) := by
  induction rounds generalizing ahead with
  | zero =>
      obtain ⟨more, within, -⟩ := stops
      omega
  | succ rounds inductionHypothesis =>
      have words : 2 ^ n + 2 ^ n < 2 ^ 64 := by
        rw [← two_mul, ← pow_succ']
        have small := valid.small
        exact Nat.pow_lt_pow_right (by decide) (by omega)
      have offset : (k + BitVec.ofNat 64 ahead - k).toNat = ahead :=
        toNat_ahead_sub k (by omega)
      have place := wordSlot_ahead valid.le_word k ahead
      rw [probeSame, offset]
      by_cases continues : table.slotIsEmpty (k + BitVec.ofNat 64 ahead) = false ∧
          ahead = table.slotDistance (k + BitVec.ofNat 64 ahead)
      · obtain ⟨full, same⟩ := continues
        rw [if_pos ⟨full, same⟩]
        rw [valid.slotIsEmpty_eq_false_iff, place] at full
        rw [valid.slotDistance_eq, place] at same
        by_cases sameKey : key (table.slotEntry (k + BitVec.ofNat 64 ahead)) = k
        · rw [if_pos sameKey]
          refine ⟨0, by omega, true, rfl, ?_, ?_, nofun⟩
          · intro before least within
            omega
          · exact fun _ => ⟨_, full, sameKey⟩
        · rw [if_neg sameKey, ahead_add_one]
          obtain ⟨more, within, stop⟩ := stops
          have later : ∃ more < rounds,
              table.slots n (wordSlot n k + (ahead + 1 + more : ℕ)) = none := by
            cases more with
            | zero =>
                rw [Nat.add_zero, full] at stop
                cases stop
            | succ more =>
                refine ⟨more, by omega, ?_⟩
                rwa [Nat.add_right_comm, Nat.add_assoc]
          obtain ⟨further, bound, found, ended, passed, isFound, notFound⟩ :=
            inductionHypothesis (by omega) later
          have shift : ahead + 1 + further = ahead + (further + 1) := by omega
          rw [shift] at ended passed isFound notFound
          refine ⟨further + 1, by omega, found, ended, ?_, isFound, notFound⟩
          intro before least beforeLt
          by_cases first : before = ahead
          · subst first
            exact ⟨_, full, same.symm, sameKey⟩
          · exact passed before (by omega) beforeLt
      · rw [if_neg continues]
        refine ⟨0, by omega, false, rfl, ?_, nofun, ?_⟩
        · intro before least within
          omega
        · intro _ stopped found same
          rw [Nat.add_zero] at found same
          rw [← place] at found
          apply continues
          refine ⟨valid.slotIsEmpty_of_some found, ?_⟩
          rw [valid.slotDistance_eq, valid.slotEntry_eq found, place]
          exact same.symm

omit [HashEntry Entry] in
theorem slots_moveUp (idx : Word) {moved : ℕ} (sized : Sized table n) (fits : moved < 2 ^ n) :
    (table.moveUp idx moved).bits = table.bits ∧
      Sized (table.moveUp idx moved) n ∧ (table.moveUp idx moved).nItems = table.nItems ∧
      ∀ slot : ZMod (2 ^ n), (table.moveUp idx moved).data slot.val =
        if slot ≠ wordSlot n idx ∧ (slot - wordSlot n idx).val ≤ moved then
          table.data (slot - 1).val
        else table.data slot.val := by
  induction moved generalizing table with
  | zero =>
      refine ⟨rfl, sized, rfl, ?_⟩
      intro slot
      rw [if_neg]
      · rfl
      · rintro ⟨apart, within⟩
        rw [Nat.le_zero, ZMod.val_eq_zero, sub_eq_zero] at within
        exact apart within
  | succ moved inductionHypothesis =>
      have words := sized.slots_lt_word
      have source : wordSlot n (idx + BitVec.ofNat 64 moved) = wordSlot n idx + moved :=
        wordSlot_ahead sized.le_word idx moved
      have target : wordSlot n (idx + BitVec.ofNat 64 moved + 1) =
          wordSlot n idx + (moved + 1 : ℕ) := by
        rw [ahead_add_one, wordSlot_ahead sized.le_word]
      obtain ⟨bits, sizedMoved, count, data⟩ := inductionHypothesis
        (sized.slotSet (idx + BitVec.ofNat 64 moved + 1)
          (table.slotEntry (idx + BitVec.ofNat 64 moved))) (by omega)
      refine ⟨bits, sizedMoved, count, ?_⟩
      intro slot
      rw [moveUp, data]
      have written : ∀ other : ZMod (2 ^ n), (table.slotSet (idx + BitVec.ofNat 64 moved + 1)
          (table.slotEntry (idx + BitVec.ofNat 64 moved))).data other.val =
          if (other - wordSlot n idx).val = moved + 1 then table.data (other - 1).val
          else table.data other.val := by
        intro other
        rw [HashTable.slotSet, sized.slotIndex_eq, target, HashTable.slotEntry,
          sized.slotIndex_eq, source]
        by_cases atTarget : other = wordSlot n idx + (moved + 1 : ℕ)
        · have before : wordSlot n idx + ((moved + 1 : ℕ) : ZMod (2 ^ n)) - 1 =
              wordSlot n idx + moved := by
            push_cast
            ring
          rw [atTarget, add_sub_cancel_left, val_natCast_of_lt fits, if_pos rfl, before]
          exact update_self _ _ _
        · have apart : other.val ≠ (wordSlot n idx + (moved + 1 : ℕ)).val :=
            fun same => atTarget (ZMod.val_injective _ same)
          rw [if_neg]
          · simp only [update_of_ne apart]
          · intro same
            apply atTarget
            rw [← same, add_val_sub]
      by_cases atStart : slot = wordSlot n idx
      · rw [if_neg (by tauto), if_neg (by tauto), written, if_neg]
        rw [atStart, sub_self, ZMod.val_zero]
        omega
      · have previous : (slot - 1 - wordSlot n idx).val = (slot - wordSlot n idx).val - 1 := by
          rw [sub_one_sub]
          exact val_sub_one (sub_ne_zero.mpr atStart)
        by_cases within : (slot - wordSlot n idx).val ≤ moved
        · rw [if_pos ⟨atStart, within⟩, if_pos ⟨atStart, by omega⟩, written, if_neg (by omega)]
        · rw [if_neg (fun moves => within moves.2), written]
          by_cases last : (slot - wordSlot n idx).val = moved + 1
          · rw [if_pos last, if_pos ⟨atStart, by omega⟩]
          · rw [if_neg last, if_neg (by omega)]

/-- What inserting an entry does to the entries of a table. -/
structure Inserted (table result : HashTable Entry) (n : ℕ) (entry : Entry) : Prop where
  valid : Valid result n
  holds : ∀ other, Holds (result.slots n) other ↔
    other = entry ∨ Holds (table.slots n) other ∧ key other ≠ key entry
  nItems_le : result.nItems ≤ table.nItems + 1

/-- An entry with the key of the new one is refreshed where it is. -/
theorem Valid.inserted_refresh (valid : Valid table n) {idx : Word} {old : Entry}
    (found : table.slots n (wordSlot n idx) = some old) (sameKey : key old = key entry) :
    Inserted table (table.slotSet idx (refresh (table.slotEntry idx) entry)) n entry := by
  have full := valid.slotIsEmpty_of_some found
  have slotsEq : (table.slotSet idx (refresh (table.slotEntry idx) entry)).slots n =
      update (table.slots n) (wordSlot n idx) (some entry) := by
    rw [valid.slots_slotSet full, valid.slotEntry_eq found, HashEntry.refresh_eq old entry sameKey]
  refine ⟨⟨valid.slotSet _ _, ?_, ?_, ?_⟩, ?_, ?_⟩
  · rw [slotsEq]
    apply valid.ordered.replace found
    rw [home, home, sameKey]
  · rw [slotsEq]
    exact valid.distinct.replace found sameKey.symm
  · rw [slotsEq, taken_replace found]
    exact valid.count
  · intro other
    rw [slotsEq]
    exact holds_replace valid.distinct found sameKey.symm
  · exact Nat.le_add_right _ _

/-- A new entry goes where the loops have ended, before the run of entries up to the next hole. -/
theorem Valid.inserted_insertAt (valid : Valid table n) {idx hole : Word} {moved : ℕ}
    (holeEq : hole = idx + BitVec.ofNat 64 moved)
    (run : Run (table.slots n) (wordSlot n idx) moved)
    (fresh : ∀ other, Holds (table.slots n) other → key other ≠ key entry)
    (ordered : Ordered (home n) (insertAt (table.slots n) (wordSlot n idx) moved entry)) :
    Inserted table (((table.slotAcquire hole).moveUp idx moved).slotSet idx entry) n entry := by
  have holeSlot : wordSlot n hole = wordSlot n idx + moved := by
    rw [holeEq, wordSlot_ahead valid.le_word]
  obtain ⟨bits, sized, count, data⟩ :=
    slots_moveUp idx (valid.slotAcquire hole) run.fits
  have acquired : ∀ slot : ZMod (2 ^ n), (table.slotAcquire hole).bits slot.val =
      if slot = wordSlot n idx + moved then true else table.bits slot.val := by
    intro slot
    rw [HashTable.slotAcquire, valid.slotIndex_eq, holeSlot]
    by_cases atHole : slot = wordSlot n idx + moved
    · rw [if_pos atHole, atHole]
      exact update_self _ _ _
    · rw [if_neg atHole]
      exact update_of_ne (fun same => atHole (ZMod.val_injective _ same)) _ _
  have slotsEq : (((table.slotAcquire hole).moveUp idx moved).slotSet idx entry).slots n =
      insertAt (table.slots n) (wordSlot n idx) moved entry := by
    have full : ((table.slotAcquire hole).moveUp idx moved).slotIsEmpty idx = false := by
      rw [slotIsEmpty, sized.slotIndex_eq, bits, acquired]
      cases moved with
      | zero => simp
      | succ moved =>
          obtain ⟨first, found⟩ := run.taken 0 (by omega)
          rw [Nat.cast_zero, add_zero, slots] at found
          split_ifs at found with isSet
          simp [isSet]
    rw [sized.slots_slotSet full]
    ext1 slot
    by_cases atStart : slot = wordSlot n idx
    · rw [atStart, update_self, insertAt_start]
    · rw [update_of_ne atStart, slots, bits, data, acquired]
      by_cases within : (slot - wordSlot n idx).val ≤ moved
      · rw [insertAt_moved atStart within]
        have previous : (slot - 1 - wordSlot n idx).val = (slot - wordSlot n idx).val - 1 := by
          rw [sub_one_sub]
          exact val_sub_one (sub_ne_zero.mpr atStart)
        have positive : (slot - wordSlot n idx).val ≠ 0 := by
          rwa [ne_eq, ZMod.val_eq_zero, sub_eq_zero]
        obtain ⟨before, found⟩ := run.taken_of_val_lt (slot - 1) (by omega)
        have isSet : (if slot = wordSlot n idx + moved then true else table.bits slot.val) =
            true := by
          split_ifs with atHole
          · rfl
          · have notLast : (slot - wordSlot n idx).val ≠ moved := by
              intro last
              rw [← last, add_val_sub] at atHole
              exact atHole rfl
            obtain ⟨here, foundHere⟩ := run.taken_of_val_lt slot (by omega)
            rw [slots] at foundHere
            split_ifs at foundHere with isSet
            exact isSet
        rw [if_pos isSet, if_pos ⟨atStart, within⟩, found]
        rw [slots] at found
        split_ifs at found with wasSet
        exact found
      · have notHole : slot ≠ wordSlot n idx + moved := by
          rintro rfl
          rw [run.val_sub_hole] at within
          exact within (Nat.le_refl _)
        have stays : ¬(slot ≠ wordSlot n idx ∧ (slot - wordSlot n idx).val ≤ moved) :=
          fun moves => within moves.2
        rw [insertAt_beyond (by omega), if_neg notHole, if_neg stays, slots]
        rfl
  refine ⟨⟨sized.slotSet _ _, ?_, ?_, ?_⟩, ?_, ?_⟩
  · rw [slotsEq]
    exact ordered
  · rw [slotsEq]
    exact valid.distinct.insertAt fresh
  · rw [slotsEq, card_insertAt run, valid.count]
    exact count.symm
  · intro other
    rw [slotsEq, holds_insertAt run]
    exact or_congr_right ⟨fun held => ⟨held, fresh other held⟩, fun held => held.1⟩
  · exact count.le

/-- The loop past the entries farther from home ends at a hole or at one that is no farther. -/
theorem Valid.probeNear_spec (valid : Valid table n) (room : table.nItems < table.size)
    (k : Word) : ∃ near < table.size,
      probe (fun slot => !table.slotIsEmpty slot &&
        decide ((slot - k).toNat < table.slotDistance slot)) table.size k =
          .next (k + BitVec.ofNat 64 near) ∧
      (∀ before < near, ∃ other, table.slots n (wordSlot n k + before) = some other ∧
        before < distance (home n) (wordSlot n k + before) other) ∧
      ∀ stopped, table.slots n (wordSlot n k + near) = some stopped →
        distance (home n) (wordSlot n k + near) stopped ≤ near := by
  have sizeEq := valid.size_eq
  have words := valid.slots_lt_word
  obtain ⟨hole, holeLt, empty⟩ := valid.exists_empty_ahead room k
  obtain ⟨near, nearLt, ended, stop, passed⟩ :=
    probe_spec (fun slot => !table.slotIsEmpty slot &&
      decide ((slot - k).toNat < table.slotDistance slot)) ⟨hole, holeLt, by rw [empty]; rfl⟩
  refine ⟨near, nearLt, ended, ?_, ?_⟩
  · intro before within
    have continued := passed before within
    rw [Bool.and_eq_true, Bool.not_eq_true', decide_eq_true_iff, valid.slotDistance_eq,
      toNat_ahead_sub _ (by omega), wordSlot_ahead valid.le_word] at continued
    obtain ⟨full, far⟩ := continued
    rw [valid.slotIsEmpty_eq_false_iff, wordSlot_ahead valid.le_word] at full
    exact ⟨_, full, far⟩
  · intro stopped found
    rw [← wordSlot_ahead valid.le_word] at found ⊢
    have full := valid.slotIsEmpty_of_some found
    rw [full, Bool.not_false, Bool.true_and, decide_eq_false_iff_not, valid.slotDistance_eq,
      toNat_ahead_sub _ (by omega), valid.slotEntry_eq found] at stop
    omega

/-- The loop to the next hole passes a run of entries. -/
theorem Valid.probeHole_spec (valid : Valid table n) (room : table.nItems < table.size)
    (idx : Word) : ∃ moved < table.size,
      probe (fun slot => !table.slotIsEmpty slot) table.size idx =
        .next (idx + BitVec.ofNat 64 moved) ∧
      Run (table.slots n) (wordSlot n idx) moved := by
  have sizeEq := valid.size_eq
  obtain ⟨hole, holeLt, empty⟩ := valid.exists_empty_ahead room idx
  obtain ⟨moved, movedLt, ended, stop, passed⟩ :=
    probe_spec (fun slot => !table.slotIsEmpty slot) ⟨hole, holeLt, by rw [empty]; rfl⟩
  refine ⟨moved, movedLt, ended, ?_, ?_, ?_⟩
  · omega
  · intro ahead within
    have full := passed ahead within
    rw [Bool.not_eq_true', valid.slotIsEmpty_eq_false_iff, wordSlot_ahead valid.le_word] at full
    exact ⟨_, full⟩
  · rw [← wordSlot_ahead valid.le_word, ← valid.slotIsEmpty_iff]
    simpa using stop

/-- Where the first two loops of an insertion end without having found the key. -/
structure Place (table : HashTable Entry) (n : ℕ) (k : Word) (ahead : ℕ) : Prop where
  fits : ahead < 2 ^ n
  passed : ∀ before < ahead, ∃ other, table.slots n (wordSlot n k + before) = some other ∧
    before ≤ distance (home n) (wordSlot n k + before) other ∧ key other ≠ k
  displaced : ∀ stopped, table.slots n (wordSlot n k + ahead) = some stopped →
    distance (home n) (wordSlot n k + ahead) stopped < ahead

namespace Place

variable {ahead : ℕ}

theorem previous (place : Place table n k ahead) (positive : ahead ≠ 0) :
    ∃ other, table.slots n (wordSlot n k + ahead - 1) = some other ∧
      ahead ≤ distance (home n) (wordSlot n k + ahead - 1) other + 1 := by
  obtain ⟨other, found, far, -⟩ := place.passed (ahead - 1) (by omega)
  have same : wordSlot n k + (ahead : ZMod (2 ^ n)) - 1 = wordSlot n k + (ahead - 1 : ℕ) := by
    rw [Nat.cast_sub (by omega), Nat.cast_one, add_sub_assoc]
  rw [same]
  exact ⟨other, found, by omega⟩

theorem fresh (place : Place table n k ahead) (valid : Valid table n)
    (held : Holds (table.slots n) other) : key other ≠ k := by
  refine valid.key_ne_of_stop ?_ place.displaced held
  intro before within
  obtain ⟨passed, found, -, apart⟩ := place.passed before within
  exact ⟨passed, found, apart⟩

theorem ordered (place : Place table n (key entry) ahead) (valid : Valid table n) {moved : ℕ}
    (run : Run (table.slots n) (wordSlot n (key entry) + ahead) moved) :
    Ordered (home n)
      (insertAt (table.slots n) (wordSlot n (key entry) + ahead) moved entry) := by
  have own : distance (home n) (wordSlot n (key entry) + ahead) entry = ahead :=
    distance_ahead place.fits rfl
  apply valid.ordered.insertAt run
  · rw [own]
    exact place.previous
  · rw [own]
    exact place.displaced

end Place

/-- The second loop passes the entries with the home of the key. -/
theorem Valid.place_spec (valid : Valid table n) (room : table.nItems < table.size)
    {near more : ℕ} (nearLt : near < 2 ^ n)
    (farther : ∀ before < near, ∃ other, table.slots n (wordSlot n k + before) = some other ∧
      before < distance (home n) (wordSlot n k + before) other)
    (nearby : ∀ stopped, table.slots n (wordSlot n k + near) = some stopped →
      distance (home n) (wordSlot n k + near) stopped ≤ near)
    (passed : ∀ before, near ≤ before → before < near + more → ∃ other,
      table.slots n (wordSlot n k + before) = some other ∧
        distance (home n) (wordSlot n k + before) other = before ∧ key other ≠ k)
    (notFound : ∀ stopped, table.slots n (wordSlot n k + (near + more : ℕ)) = some stopped →
      distance (home n) (wordSlot n k + (near + more : ℕ)) stopped ≠ near + more) :
    Place table n k (near + more) := by
  obtain ⟨hole, empty⟩ := valid.exists_hole room
  have fits : near + more < 2 ^ n := by
    cases more with
    | zero => exact nearLt
    | succ more =>
        obtain ⟨other, found, same, -⟩ := passed (near + more) (by omega) (by omega)
        have around := valid.ordered.distance_add_one_lt empty found
        omega
  refine ⟨fits, ?_, ?_⟩
  · intro before within
    by_cases first : before < near
    · obtain ⟨other, found, far⟩ := farther before first
      refine ⟨other, found, far.le, ?_⟩
      intro sameKey
      rw [distance_ahead (by omega) sameKey] at far
      omega
    · obtain ⟨other, found, same, apart⟩ := passed before (by omega) within
      exact ⟨other, found, same.ge, apart⟩
  · intro stopped found
    have apart := notFound stopped found
    cases more with
    | zero =>
        have nearer := nearby stopped found
        rw [Nat.add_zero] at apart ⊢
        omega
    | succ more =>
        by_cases atHome :
            distance (home n) (wordSlot n k + (near + (more + 1) : ℕ)) stopped = 0
        · omega
        · -- The entry before has the home of the key, so this one is no farther from its own.
          obtain ⟨other, foundOther, step⟩ := valid.ordered _ _ found atHome
          obtain ⟨last, foundLast, same, -⟩ := passed (near + more) (by omega) (by omega)
          have slotEq : wordSlot n k + ((near + (more + 1) : ℕ) : ZMod (2 ^ n)) - 1 =
              wordSlot n k + (near + more : ℕ) := by
            push_cast
            ring
          rw [slotEq, foundLast, Option.some.injEq] at foundOther
          subst foundOther
          rw [slotEq, same] at step
          omega

theorem Valid.doInsert_spec (valid : Valid table n) (room : table.nItems < table.size)
    (entry : Entry) : ∃ result, table.doInsert entry = .next result ∧
      Inserted table result n entry := by
  have sizeEq := valid.size_eq
  have words := valid.slots_lt_word
  obtain ⟨near, nearLt, nearEnded, farther, nearby⟩ := valid.probeNear_spec room (key entry)
  have stops : ∃ more < table.size,
      table.slots n (wordSlot n (key entry) + (near + more : ℕ)) = none := by
    obtain ⟨more, moreLt, hole⟩ :=
      valid.exists_hole_ahead room (wordSlot n (key entry) + near)
    refine ⟨more, moreLt, ?_⟩
    push_cast
    rwa [← add_assoc]
  obtain ⟨more, moreLt, found, ended, passed, isFound, notFound⟩ :=
    valid.probeSame_spec (key entry) (by omega) stops
  have placeEq := wordSlot_ahead valid.le_word (key entry) (near + more)
  rw [doInsert, nearEnded, Outcome.bind_next, ended, Outcome.bind_next]
  cases found with
  | true =>
      obtain ⟨old, foundOld, sameKey⟩ := isFound rfl
      rw [← placeEq] at foundOld
      exact ⟨_, rfl, valid.inserted_refresh foundOld sameKey⟩
  | false =>
      have place := valid.place_spec room (by omega) farther nearby passed (notFound rfl)
      obtain ⟨moved, movedLt, holeEnded, run⟩ :=
        valid.probeHole_spec room (key entry + BitVec.ofNat 64 (near + more))
      simp only [Bool.false_eq_true, ↓reduceIte]
      rw [holeEnded, Outcome.bind_next, toNat_ahead_sub _ (by omega)]
      refine ⟨_, rfl, valid.inserted_insertAt rfl run ?_ ?_⟩
      · exact fun other held => place.fresh valid held
      · rw [placeEq] at run ⊢
        exact place.ordered valid run

end HashTable

end Whippet.Tables
