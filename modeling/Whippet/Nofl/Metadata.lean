import Mathlib

/-!
Metadata bytes of the nofl space (`nofl-space.h`).

There is one byte for each granule. The byte of an object's first granule has its mark, its trace
kind and whether it is pinned; the byte of its last granule has the end bit; each byte has a bit
for each of the two fields in its granule that says if the field is in the remembered set.

Owns: the bits, the predicates on marks, changing the mark of a byte, and the length of an object
by its metadata. Does not own: who writes these bytes and when.
-/

namespace Whippet.Nofl

abbrev Byte := BitVec 8

def NOFL_METADATA_BYTE_NONE : Byte := 0
def NOFL_METADATA_BYTE_YOUNG : Byte := 1
def NOFL_METADATA_BYTE_MARK_0 : Byte := 2
def NOFL_METADATA_BYTE_MARK_1 : Byte := 3
def NOFL_METADATA_BYTE_MARK_2 : Byte := 4
def NOFL_METADATA_BYTE_BUSY : Byte := 5
def NOFL_METADATA_BYTE_FORWARDED : Byte := 6
def NOFL_METADATA_BYTE_MARK_MASK : Byte := 7
def NOFL_METADATA_BYTE_TRACE_NONE : Byte := 8
def NOFL_METADATA_BYTE_TRACE_CONSERVATIVELY : Byte := 16
def NOFL_METADATA_BYTE_TRACE_KIND_MASK : Byte := 24
def NOFL_METADATA_BYTE_PINNED : Byte := 16
def NOFL_METADATA_BYTE_END : Byte := 32
def NOFL_METADATA_BYTE_LOGGED_0 : Byte := 64
def NOFL_METADATA_BYTE_LOGGED_1 : Byte := 128

def NOFL_METADATA_BYTE_LOGGED_MASK : Byte :=
  NOFL_METADATA_BYTE_LOGGED_0 ||| NOFL_METADATA_BYTE_LOGGED_1

/-! ## Marks -/

/-- The bits of the byte that hold its mark. -/
def markOf (byte : Byte) : Byte := byte &&& NOFL_METADATA_BYTE_MARK_MASK

def noflMetadataByteHasMark (byte marked : Byte) : Bool := markOf byte == marked

def noflMetadataByteIsYoungOrHasMark (byte marked : Byte) : Bool :=
  noflMetadataByteHasMark byte NOFL_METADATA_BYTE_YOUNG || noflMetadataByteHasMark byte marked

/-- `(byte - mark) | other`, for the mark of the byte. -/
def withMark (byte other : Byte) : Byte := (byte - markOf byte) ||| other

/-- Some of the three bits of a mark. -/
def IsMark (mark : Byte) : Prop := mark &&& NOFL_METADATA_BYTE_MARK_MASK = mark

instance (mark : Byte) : Decidable (IsMark mark) :=
  inferInstanceAs (Decidable (mark &&& NOFL_METADATA_BYTE_MARK_MASK = mark))

theorem sub_markOf (byte : Byte) :
    byte - markOf byte = byte &&& ~~~NOFL_METADATA_BYTE_MARK_MASK := by
  revert byte
  decide +kernel

/-- Changing the mark by arithmetic and by masking are the same. -/
theorem withMark_eq_mask (byte other : Byte) :
    withMark byte other = (byte &&& ~~~NOFL_METADATA_BYTE_MARK_MASK) ||| other := by
  rw [withMark, sub_markOf]

section WithMark

variable {byte mark other : Byte}

theorem markOf_withMark (isMark : IsMark mark) : markOf (withMark byte mark) = mark := by
  rw [withMark_eq_mask, markOf]
  ext index inRange
  have bits := congrArg (fun value : Byte => value[index]) isMark
  simp only [BitVec.getElem_and, BitVec.getElem_or, BitVec.getElem_not] at bits ⊢
  grind

/-- Bits that are not of the mark stay. -/
theorem withMark_and (isMark : IsMark mark) {mask : Byte}
    (apart : mask &&& NOFL_METADATA_BYTE_MARK_MASK = 0) :
    withMark byte mark &&& mask = byte &&& mask := by
  rw [withMark_eq_mask]
  ext index inRange
  have markBits := congrArg (fun value : Byte => value[index]) isMark
  have maskBits := congrArg (fun value : Byte => value[index]) apart
  simp only [BitVec.getElem_and, BitVec.getElem_or, BitVec.getElem_not] at markBits maskBits ⊢
  grind

theorem withMark_withMark (isMark : IsMark mark) :
    withMark (withMark byte mark) other = withMark byte other := by
  rw [withMark_eq_mask, withMark_eq_mask byte other,
    withMark_and isMark (by decide)]

theorem withMark_markOf : withMark byte (markOf byte) = byte := by
  revert byte
  decide +kernel

@[simp] theorem noflMetadataByteHasMark_iff :
    noflMetadataByteHasMark byte mark = true ↔ markOf byte = mark := by
  rw [noflMetadataByteHasMark, beq_iff_eq]

/-- Bytes with different marks are different. -/
theorem withMark_ne (isMark : IsMark mark) (different : markOf other ≠ mark) :
    withMark byte mark ≠ other := by
  intro equal
  apply different
  rw [← equal, markOf_withMark isMark]

theorem withMark_injective (isMark : IsMark mark) (isOther : IsMark other)
    (equal : withMark byte mark = withMark byte other) : mark = other := by
  have marks := congrArg markOf equal
  rwa [markOf_withMark isMark, markOf_withMark isOther] at marks

end WithMark

/-! ## Lengths of objects -/

/-- How far the first byte with one of `bits` is from the byte at `start`, or the limit. -/
def scanForByteWithBits (metadata : ℕ → Byte) (start : ℕ) (bits : Byte) : ℕ → ℕ
  | 0 => 0
  | limit + 1 =>
      if metadata start &&& bits ≠ 0 then 0
      else scanForByteWithBits metadata (start + 1) bits limit + 1

/-- The limit of an unlimited scan, `(size_t)-1`. -/
def SIZE_MAX : ℕ := 2 ^ 64 - 1

def noflSpaceLiveObjectGranules (metadata : ℕ → Byte) (head : ℕ) : ℕ :=
  scanForByteWithBits metadata head NOFL_METADATA_BYTE_END SIZE_MAX + 1

theorem scanForByteWithBits_eq {metadata : ℕ → Byte} {bits : Byte} {distance : ℕ} :
    ∀ {start limit : ℕ}, distance < limit → metadata (start + distance) &&& bits ≠ 0 →
      (∀ offset < distance, metadata (start + offset) &&& bits = 0) →
      scanForByteWithBits metadata start bits limit = distance := by
  induction distance with
  | zero =>
      intro start limit inLimit found _
      obtain ⟨limit, rfl⟩ := Nat.exists_eq_succ_of_ne_zero (Nat.ne_of_gt inLimit)
      rw [Nat.add_zero] at found
      rw [scanForByteWithBits, if_pos found]
  | succ distance inductionHypothesis =>
      intro start limit inLimit found before
      obtain ⟨limit, rfl⟩ := Nat.exists_eq_succ_of_ne_zero (Nat.ne_of_gt (by omega : 0 < limit))
      have notHere : ¬metadata start &&& bits ≠ 0 := not_not.mpr (before 0 (by omega))
      rw [scanForByteWithBits, if_neg notHere, inductionHypothesis (by omega)]
      · rw [Nat.add_right_comm]
        exact found
      · intro offset below
        rw [Nat.add_right_comm]
        exact before (offset + 1) (by omega)

/-- The end bit of the last granule, and of no granule before, gives the length. -/
theorem noflSpaceLiveObjectGranules_eq {metadata : ℕ → Byte} {head granules : ℕ}
    (positive : 0 < granules) (bounded : granules < SIZE_MAX)
    (ends : metadata (head + (granules - 1)) &&& NOFL_METADATA_BYTE_END ≠ 0)
    (goesOn : ∀ offset < granules - 1,
      metadata (head + offset) &&& NOFL_METADATA_BYTE_END = 0) :
    noflSpaceLiveObjectGranules metadata head = granules := by
  rw [noflSpaceLiveObjectGranules, scanForByteWithBits_eq (by omega) ends goesOn]
  omega

end Whippet.Nofl
