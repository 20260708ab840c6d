import Whippet.Library.RobinHood
import Whippet.Tables.HashTable

/-!
The slots of the hash tables.

The size of a table is a power of two that divides the number of words, so counting slots in words
and masking goes around the circle of slots.

Owns: the circle of slots of a table, what the accesses to a slot do to it, and where the probe
loops end. Does not own: the order of the table.
-/

namespace Whippet.Tables

open Function RobinHood
open HashEntry (key refresh)

/-! ## Words as slots -/

/-- The slot that a word is masked to, in a table of `2 ^ n` slots. -/
def wordSlot (n : ℕ) (word : Word) : ZMod (2 ^ n) := (word.toNat : ZMod (2 ^ n))

section Words

variable {n : ℕ}

theorem natCast_mod_word (small : n ≤ 64) (value : ℕ) :
    ((value % 2 ^ 64 : ℕ) : ZMod (2 ^ n)) = value := by
  rw [ZMod.natCast_eq_natCast_iff']
  exact Nat.mod_mod_of_dvd _ (Nat.pow_dvd_pow 2 small)

theorem wordSlot_add (small : n ≤ 64) (left right : Word) :
    wordSlot n (left + right) = wordSlot n left + wordSlot n right := by
  rw [wordSlot, BitVec.toNat_add, natCast_mod_word small, Nat.cast_add, wordSlot, wordSlot]

theorem wordSlot_ofNat (small : n ≤ 64) (value : ℕ) :
    wordSlot n (BitVec.ofNat 64 value) = value := by
  rw [wordSlot, BitVec.toNat_ofNat, natCast_mod_word small]

theorem wordSlot_one (small : n ≤ 64) : wordSlot n 1 = 1 := by
  have cast := wordSlot_ofNat small 1
  rwa [Nat.cast_one] at cast

theorem wordSlot_sub (small : n ≤ 64) (left right : Word) :
    wordSlot n (left - right) = wordSlot n left - wordSlot n right := by
  rw [eq_sub_iff_add_eq, ← wordSlot_add small, BitVec.sub_add_cancel]

theorem wordSlot_ahead (small : n ≤ 64) (start : Word) (ahead : ℕ) :
    wordSlot n (start + BitVec.ofNat 64 ahead) = wordSlot n start + ahead := by
  rw [wordSlot_add small, wordSlot_ofNat small]

/-- How far a slot that a probe reached is from its start. -/
theorem toNat_ahead_sub (start : Word) {ahead : ℕ} (below : ahead < 2 ^ 64) :
    (start + BitVec.ofNat 64 ahead - start).toNat = ahead := by
  rw [BitVec.add_comm, BitVec.add_sub_cancel, BitVec.toNat_ofNat, Nat.mod_eq_of_lt below]

theorem ahead_add_one (start : Word) (ahead : ℕ) :
    start + BitVec.ofNat 64 ahead + 1 = start + BitVec.ofNat 64 (ahead + 1) := by
  rw [BitVec.add_assoc, BitVec.ofNat_add]
  rfl

@[simp] theorem ahead_zero (start : Word) : start + BitVec.ofNat 64 0 = start := by simp

end Words

/-! ## The circle of slots -/

variable {Entry : Type} {n : ℕ}

/-- The home of an entry in a table of `2 ^ n` slots. -/
def home [HashEntry Entry] (n : ℕ) (entry : Entry) : ZMod (2 ^ n) := wordSlot n (key entry)

namespace HashTable

def slots (table : HashTable Entry) (n : ℕ) : ZMod (2 ^ n) → Option Entry := fun slot =>
  if table.bits slot.val then some (table.data slot.val) else none

/-- The table has `2 ^ n` slots, eight at least, and fits in the address space. -/
structure Sized (table : HashTable Entry) (n : ℕ) : Prop where
  size_eq : table.size = 2 ^ n
  large : 3 ≤ n
  small : n ≤ 60

variable {table : HashTable Entry} {idx : Word} {entry : Entry}

namespace Sized

theorem le_word (sized : Sized table n) : n ≤ 64 := by
  have small := sized.small
  omega

theorem slots_lt_word (sized : Sized table n) : 2 ^ n < 2 ^ 64 :=
  Nat.pow_lt_pow_right (by decide) (by have small := sized.small; omega)

theorem slotIndex_eq (sized : Sized table n) (idx : Word) :
    table.slotIndex idx = (wordSlot n idx).val := by
  rw [slotIndex, sized.size_eq, Nat.and_two_pow_sub_one_eq_mod, wordSlot, ZMod.val_natCast]

theorem slots_wordSlot (sized : Sized table n) (idx : Word) :
    table.slots n (wordSlot n idx) =
      if table.slotIsEmpty idx then none else some (table.slotEntry idx) := by
  rw [slots, slotIsEmpty, slotEntry, sized.slotIndex_eq]
  cases table.bits (wordSlot n idx).val <;> rfl

theorem slotIsEmpty_iff (sized : Sized table n) :
    table.slotIsEmpty idx = true ↔ table.slots n (wordSlot n idx) = none := by
  rw [sized.slots_wordSlot]
  cases table.slotIsEmpty idx <;> simp

theorem slotIsEmpty_eq_false_iff (sized : Sized table n) :
    table.slotIsEmpty idx = false ↔
      table.slots n (wordSlot n idx) = some (table.slotEntry idx) := by
  rw [sized.slots_wordSlot]
  cases table.slotIsEmpty idx <;> simp

theorem slotEntry_eq (sized : Sized table n)
    (found : table.slots n (wordSlot n idx) = some entry) : table.slotEntry idx = entry := by
  rw [sized.slots_wordSlot] at found
  cases empty : table.slotIsEmpty idx with
  | true => simp [empty] at found
  | false => simpa [empty] using found

theorem slotIsEmpty_of_some (sized : Sized table n)
    (found : table.slots n (wordSlot n idx) = some entry) : table.slotIsEmpty idx = false := by
  rw [sized.slotIsEmpty_eq_false_iff, sized.slotEntry_eq found, found]

theorem slotDistance_eq [HashEntry Entry] (sized : Sized table n) (idx : Word) :
    table.slotDistance idx = distance (home n) (wordSlot n idx) (table.slotEntry idx) := by
  rw [slotDistance, sized.slotIndex_eq, wordSlot_sub sized.le_word, distance, home]

theorem slotSet (sized : Sized table n) (idx : Word) (entry : Entry) :
    Sized (table.slotSet idx entry) n :=
  ⟨sized.size_eq, sized.large, sized.small⟩

theorem slotAcquire (sized : Sized table n) (idx : Word) : Sized (table.slotAcquire idx) n :=
  ⟨sized.size_eq, sized.large, sized.small⟩

/-- Writing to a slot that is not empty changes that slot. -/
theorem slots_slotSet (sized : Sized table n) (full : table.slotIsEmpty idx = false) :
    (table.slotSet idx entry).slots n = update (table.slots n) (wordSlot n idx) (some entry) := by
  have isSet : table.bits (wordSlot n idx).val = true := by
    rw [← sized.slotIndex_eq]
    simpa [slotIsEmpty] using full
  ext1 slot
  by_cases same : slot = wordSlot n idx
  · subst same
    rw [update_self, slots, HashTable.slotSet, sized.slotIndex_eq]
    simp [isSet]
  · have apart : slot.val ≠ (wordSlot n idx).val := fun equal => same (ZMod.val_injective _ equal)
    rw [update_of_ne same, slots, slots, HashTable.slotSet, sized.slotIndex_eq]
    simp only [update_of_ne apart]

end Sized

end HashTable

/-! ## Probe loops -/

open HashTable

/-- A probe ends at the first slot where its condition fails. -/
theorem probe_spec (continues : Word → Bool) {rounds : ℕ} {start : Word}
    (stops : ∃ ahead < rounds, continues (start + BitVec.ofNat 64 ahead) = false) :
    ∃ ahead < rounds, probe continues rounds start = .next (start + BitVec.ofNat 64 ahead) ∧
      continues (start + BitVec.ofNat 64 ahead) = false ∧
      ∀ before < ahead, continues (start + BitVec.ofNat 64 before) = true := by
  induction rounds generalizing start with
  | zero =>
      obtain ⟨ahead, below, -⟩ := stops
      omega
  | succ rounds inductionHypothesis =>
      rw [probe]
      cases here : continues start with
      | false =>
          refine ⟨0, by omega, ?_, ?_, by simp⟩
          · simp
          · simpa using here
      | true =>
          have later : ∃ ahead < rounds,
              continues (start + 1 + BitVec.ofNat 64 ahead) = false := by
            obtain ⟨ahead, below, stop⟩ := stops
            cases ahead with
            | zero => simp [here] at stop
            | succ ahead =>
                refine ⟨ahead, by omega, ?_⟩
                rwa [BitVec.add_assoc, BitVec.add_comm 1, ← BitVec.add_assoc, ahead_add_one]
          have shift : ∀ ahead, start + 1 + BitVec.ofNat 64 ahead =
              start + BitVec.ofNat 64 (ahead + 1) := by
            intro ahead
            rw [BitVec.add_assoc, BitVec.add_comm 1, ← BitVec.add_assoc, ahead_add_one]
          obtain ⟨ahead, below, ended, stop, passed⟩ := inductionHypothesis later
          rw [shift] at ended stop
          refine ⟨ahead + 1, by omega, ?_, stop, ?_⟩
          · simpa using ended
          · intro before beforeLt
            cases before with
            | zero => simpa using here
            | succ before =>
                rw [← shift]
                exact passed before (by omega)

end Whippet.Tables
