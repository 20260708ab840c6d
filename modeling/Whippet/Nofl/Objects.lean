import Whippet.Nofl.Metadata
import Whippet.Nofl.Space
import Whippet.Swar

/-!
The objects of a block, as its metadata bytes have them.

The bytes of a slab's payload are at the start of the slab, one for each granule. The bytes of a
block are well-formed if each mark starts an object and each end bit ends one. Which mark an object
has does not matter: an object that did not survive is there until the block is swept.

Owns: where the byte of an address is, objects and well-formed blocks, that objects do not overlap,
and the length that the bytes of an object give. Does not own: who reads the bytes.
-/

namespace Whippet.Nofl

/-- `align_down`. -/
def alignDown (value align : ℕ) : ℕ := value / align * align

/-- Where the metadata byte of an address is. -/
def noflMetadataByteForAddr (addr : ℕ) : ℕ :=
  alignDown addr NOFL_SLAB_SIZE + addr % NOFL_SLAB_SIZE / NOFL_GRANULE_SIZE

/-- The bytes of a block, by granule. -/
def blockBytes (metadata : ℕ → Byte) (block : ℕ) : ℕ → Byte := fun index =>
  metadata (noflMetadataByteForAddr block + index)

/-- An object starts at a granule of the block and has a number of granules. -/
structure IsObject (bytes : ℕ → Byte) (start granules : ℕ) : Prop where
  positive : 0 < granules
  inBlock : start + granules ≤ NOFL_GRANULES_PER_BLOCK
  marked : markOf (bytes start) ≠ 0
  unmarked : ∀ index, start < index → index < start + granules → markOf (bytes index) = 0
  ends : bytes (start + (granules - 1)) &&& NOFL_METADATA_BYTE_END ≠ 0
  goesOn : ∀ index, start ≤ index → index + 1 < start + granules →
    bytes index &&& NOFL_METADATA_BYTE_END = 0

structure WellFormed (bytes : ℕ → Byte) : Prop where
  starts : ∀ index < NOFL_GRANULES_PER_BLOCK, markOf (bytes index) ≠ 0 →
    ∃ granules, IsObject bytes index granules
  ended : ∀ index < NOFL_GRANULES_PER_BLOCK, bytes index &&& NOFL_METADATA_BYTE_END ≠ 0 →
    ∃ start granules, IsObject bytes start granules ∧ start + granules = index + 1

section Objects

variable {bytes : ℕ → Byte} {start granules otherStart otherGranules index addr : ℕ}

namespace IsObject

/-- A granule of two objects is of one that does not start after the other. -/
theorem start_le (object : IsObject bytes start granules)
    (other : IsObject bytes otherStart otherGranules) (inObject : index < start + granules)
    (afterStart : otherStart ≤ index) : otherStart ≤ start := by
  by_contra later
  exact other.marked (object.unmarked otherStart (by omega) (by omega))

/-- Objects that start at one granule have the same length. -/
theorem granules_le (object : IsObject bytes start granules)
    (other : IsObject bytes start otherGranules) : granules ≤ otherGranules := by
  by_contra longer
  have positive := other.positive
  exact other.ends (object.goesOn _ (by omega) (by omega))

/-- Objects with a granule in common are the same. -/
theorem unique (object : IsObject bytes start granules)
    (other : IsObject bytes otherStart otherGranules)
    (inObject : start ≤ index ∧ index < start + granules)
    (inOther : otherStart ≤ index ∧ index < otherStart + otherGranules) :
    start = otherStart ∧ granules = otherGranules := by
  obtain rfl := Nat.le_antisymm (other.start_le object inOther.2 inObject.1)
    (object.start_le other inObject.2 inOther.1)
  exact ⟨rfl, Nat.le_antisymm (object.granules_le other) (other.granules_le object)⟩

/-- The length of an object is read off its bytes. -/
theorem liveObjectGranules (object : IsObject bytes start granules) :
    noflSpaceLiveObjectGranules bytes start = granules := by
  have positive := object.positive
  have inBlock := object.inBlock
  have bound : NOFL_GRANULES_PER_BLOCK < SIZE_MAX := by decide
  apply noflSpaceLiveObjectGranules_eq positive (by omega) object.ends
  intro offset below
  exact object.goesOn (start + offset) (by omega) (by omega)

end IsObject

/-! ## Looking for the object at a granule -/

/-- No object has the granule. -/
def NoObjectAt (bytes : ℕ → Byte) (index : ℕ) : Prop :=
  ∀ start granules, IsObject bytes start granules → ¬(start ≤ index ∧ index < start + granules)

theorem and_startOrEnd_eq_zero_iff (byte : Byte) :
    byte &&& (NOFL_METADATA_BYTE_MARK_MASK ||| NOFL_METADATA_BYTE_END) = 0 ↔
      markOf byte = 0 ∧ byte &&& NOFL_METADATA_BYTE_END = 0 := by
  revert byte
  decide +kernel

/-- Nothing starts at the granule or before it. -/
theorem noObjectAt_of_none (unmarked : markOf (bytes index) = 0)
    (none : ∀ other < index, markOf (bytes other) = 0) : NoObjectAt bytes index := by
  rintro start granules object ⟨notAfter, -⟩
  apply object.marked
  rcases Nat.eq_or_lt_of_le notAfter with rfl | before
  · exact unmarked
  · exact none start before

/-- An object ends before the granule, and none starts from there on. -/
theorem noObjectAt_of_end {last : ℕ} (unmarked : markOf (bytes index) = 0) (before : last < index)
    (ends : bytes last &&& NOFL_METADATA_BYTE_END ≠ 0)
    (none : ∀ other, last < other → other < index → markOf (bytes other) = 0) :
    NoObjectAt bytes index := by
  rintro start granules object ⟨notAfter, inObject⟩
  by_cases early : start ≤ last
  · exact ends (object.goesOn last early (by omega))
  · apply object.marked
    rcases Nat.eq_or_lt_of_le notAfter with rfl | earlier
    · exact unmarked
    · exact none start (by omega) earlier

/-- An object that starts before the granule and does not end before it has the granule. -/
theorem IsObject.covers_of_start (object : IsObject bytes start granules)
    (notEnd : bytes start &&& NOFL_METADATA_BYTE_END = 0)
    (none : ∀ other, start < other → other < index → bytes other &&& NOFL_METADATA_BYTE_END = 0) :
    index < start + granules := by
  by_contra beyond
  have positive := object.positive
  apply object.ends
  by_cases single : granules = 1
  · subst single
    exact notEnd
  · exact none _ (by omega) (by omega)

/-! ## Places -/

theorem granule_lt (addr : ℕ) :
    addr % NOFL_BLOCK_SIZE / NOFL_GRANULE_SIZE < NOFL_GRANULES_PER_BLOCK := by
  simp only [NOFL_GRANULES_PER_BLOCK, NOFL_BLOCK_SIZE, NOFL_GRANULE_SIZE]
  omega

/-- The byte of an address is among the bytes of its block. -/
theorem noflMetadataByteForAddr_eq (addr : ℕ) :
    noflMetadataByteForAddr addr = noflMetadataByteForAddr (alignDown addr NOFL_BLOCK_SIZE) +
      addr % NOFL_BLOCK_SIZE / NOFL_GRANULE_SIZE := by
  simp only [noflMetadataByteForAddr, alignDown, NOFL_SLAB_SIZE, NOFL_BLOCK_SIZE, NOFL_GRANULE_SIZE]
  omega

/-- The bytes of a block start at a word. -/
theorem noflMetadataByteForAddr_mod (addr : ℕ) :
    noflMetadataByteForAddr (alignDown addr NOFL_BLOCK_SIZE) % 8 = 0 := by
  simp only [noflMetadataByteForAddr, alignDown, NOFL_SLAB_SIZE, NOFL_BLOCK_SIZE, NOFL_GRANULE_SIZE]
  omega

end Objects

end Whippet.Nofl
