import Whippet.Nofl.Objects

/-!
Conservative references into the nofl space (`nofl-space.h`).

A word that may be a reference is resolved to the object that it points to. If it may point inside
of an object, the metadata is scanned backwards for the start of an object or the end of another
one.

Owns: `nofl_space_resolve_conservative_ref`, what it finds in a slab whose blocks are well-formed,
and marking what was found. Does not own: where the references come from.
-/

namespace Whippet.Nofl

open Swar (SwarAssertion scanBackwardsForByteWithBits)

inductive ResolveAssertion where
  | scan (assertion : SwarAssertion)
  /-- The byte that was found has no mark and no end bit. -/
  | foundNothing
  /-- The object to mark is not young and does not have the survivor mark. -/
  | youngOrSurvivor
  deriving DecidableEq, Repr

/-- `struct nofl_resolved_conservative_ref`. -/
structure NoflResolvedConservativeRef where
  addr : ℕ
  metadata : ℕ
  byte : Byte
  deriving DecidableEq, Repr

def notAnObject : NoflResolvedConservativeRef := ⟨0, 0, 0⟩

section Resolve

/- `gc_is_valid_conservative_ref_displacement`, the flags of the blocks, and the bytes in memory. -/
variable (isValidDisplacement : ℕ → Bool) (summary : ℕ → BlockSummary) (metadata : ℕ → Byte)

/-- What is done once it is known which granule the reference is to. -/
def resolveGranule (addr : ℕ) (possiblyInterior : Bool) :
    Outcome ResolveAssertion NoflResolvedConservativeRef :=
  if addr % NOFL_SLAB_SIZE < NOFL_META_BLOCKS_PER_SLAB * NOFL_BLOCK_SIZE then pure notAnObject
  else if (summary (alignDown addr NOFL_BLOCK_SIZE)).unavailable then pure notAnObject
  else
    let loc := noflMetadataByteForAddr addr
    let byte := metadata loc
    if byte &&& NOFL_METADATA_BYTE_MARK_MASK ≠ 0 then pure ⟨addr, loc, byte⟩
    else if possiblyInterior = false then pure notAnObject
    else do
      let blockBase := alignDown addr NOFL_BLOCK_SIZE
      let locBase := noflMetadataByteForAddr blockBase
      let mask := NOFL_METADATA_BYTE_MARK_MASK ||| NOFL_METADATA_BYTE_END
      let found ← (scanBackwardsForByteWithBits metadata loc locBase mask).mapFailure .scan
      match found with
      | none => pure notAnObject
      | some loc => do
          let byte := metadata loc
          Outcome.check (byte &&& mask ≠ 0) .foundNothing
          if byte &&& NOFL_METADATA_BYTE_END ≠ 0 then pure notAnObject
          else pure ⟨blockBase + (loc - locBase) * NOFL_GRANULE_SIZE, loc, byte⟩

def noflSpaceResolveConservativeRefWithMetadata (ref : ℕ) (possiblyInterior : Bool) :
    Outcome ResolveAssertion NoflResolvedConservativeRef :=
  if possiblyInterior then
    resolveGranule summary metadata (alignDown ref NOFL_GRANULE_SIZE) possiblyInterior
  else
    let displacement := ref % NOFL_GRANULE_SIZE
    if isValidDisplacement displacement = false then pure notAnObject
    else resolveGranule summary metadata (ref - displacement) possiblyInterior

/-- The address of the object, or null. -/
def noflSpaceResolveConservativeRef (ref : ℕ) (possiblyInterior : Bool) :
    Outcome ResolveAssertion ℕ := do
  let resolved ← noflSpaceResolveConservativeRefWithMetadata isValidDisplacement summary metadata
    ref
    possiblyInterior
  pure resolved.addr

end Resolve

/-- The marks of a space, in its metadata and of its blocks. -/
structure NoflMarks where
  currentMark : Byte
  survivorMark : Byte
  metadata : ℕ → Byte
  /-- By the number of the block. -/
  blockMarks : ℕ → Bool

/-- `nofl_space_mark_conservative_ref`: the address of the object if this marked it, or null. -/
def noflSpaceMarkConservativeRef (isValidDisplacement : ℕ → Bool) (summary : ℕ → BlockSummary)
    (marks : NoflMarks) (ref : ℕ) (possiblyInterior : Bool) :
    Outcome ResolveAssertion (NoflMarks × ℕ) := do
  let resolved ← noflSpaceResolveConservativeRefWithMetadata isValidDisplacement summary
    marks.metadata ref possiblyInterior
  if resolved.addr = 0 then pure (marks, 0)
  else if noflMetadataByteHasMark resolved.byte marks.currentMark then pure (marks, 0)
  else do
    Outcome.check (noflMetadataByteIsYoungOrHasMark resolved.byte marks.survivorMark)
      .youngOrSurvivor
    let byte := (resolved.byte &&& ~~~NOFL_METADATA_BYTE_MARK_MASK) ||| marks.currentMark
    let previous := marks.metadata resolved.metadata
    let marked := { marks with metadata := Function.update marks.metadata resolved.metadata byte }
    if byte = previous then pure (marked, 0)
    else
      pure ({ marked with
        blockMarks := Function.update marks.blockMarks (resolved.addr / NOFL_BLOCK_SIZE) true },
        resolved.addr)

/-! ## Slabs -/

/-- The address is in a block of the slab that has objects. -/
structure InPayload (summary : ℕ → BlockSummary) (slab addr : ℕ) : Prop where
  aboveMeta : slab + NOFL_META_BLOCKS_PER_SLAB * NOFL_BLOCK_SIZE ≤ addr
  inSlab : addr < slab + NOFL_SLAB_SIZE
  available : (summary (alignDown addr NOFL_BLOCK_SIZE)).unavailable = false

/-- The blocks of a slab that are available are well-formed. -/
structure SlabWellFormed (summary : ℕ → BlockSummary) (metadata : ℕ → Byte) (slab : ℕ) : Prop where
  aligned : slab % NOFL_SLAB_SIZE = 0
  blocks : ∀ addr, InPayload summary slab addr →
    WellFormed (blockBytes metadata (alignDown addr NOFL_BLOCK_SIZE))

/-- An object of the slab, by its address. -/
structure IsSlabObject (summary : ℕ → BlockSummary) (metadata : ℕ → Byte) (slab addr granules : ℕ) :
    Prop where
  inPayload : InPayload summary slab addr
  aligned : addr % NOFL_GRANULE_SIZE = 0
  object : IsObject (blockBytes metadata (alignDown addr NOFL_BLOCK_SIZE))
    (addr % NOFL_BLOCK_SIZE / NOFL_GRANULE_SIZE) granules

/-- The reference points into the extent of an object. -/
def Covers (addr granules ref : ℕ) : Prop :=
  addr ≤ ref ∧ ref < addr + granules * NOFL_GRANULE_SIZE

section Found

variable {isValidDisplacement : ℕ → Bool} {summary : ℕ → BlockSummary} {metadata : ℕ → Byte}
variable {slab addr ref granules : ℕ} {possiblyInterior : Bool}

/-- An object that covers a reference is in its block, and it starts at or before its granule. -/
theorem IsSlabObject.granule (object : IsSlabObject summary metadata slab addr granules)
    (covers : Covers addr granules ref) :
    alignDown ref NOFL_BLOCK_SIZE = alignDown addr NOFL_BLOCK_SIZE ∧
      addr % NOFL_BLOCK_SIZE / NOFL_GRANULE_SIZE ≤ ref % NOFL_BLOCK_SIZE / NOFL_GRANULE_SIZE ∧
      ref % NOFL_BLOCK_SIZE / NOFL_GRANULE_SIZE <
        addr % NOFL_BLOCK_SIZE / NOFL_GRANULE_SIZE + granules ∧
      addr = alignDown addr NOFL_BLOCK_SIZE +
        addr % NOFL_BLOCK_SIZE / NOFL_GRANULE_SIZE * NOFL_GRANULE_SIZE := by
  have inBlock := object.object.inBlock
  have aligned := object.aligned
  obtain ⟨notBefore, notAfter⟩ := covers
  simp only [alignDown, NOFL_BLOCK_SIZE, NOFL_GRANULE_SIZE, NOFL_GRANULES_PER_BLOCK] at *
  omega

instance (addr granules ref : ℕ) : Decidable (Covers addr granules ref) :=
  inferInstanceAs (Decidable (_ ∧ _))

/-- At most one object covers a reference. -/
theorem IsSlabObject.unique {other otherGranules : ℕ}
    (object : IsSlabObject summary metadata slab addr granules)
    (isOther : IsSlabObject summary metadata slab other otherGranules)
    (covers : Covers addr granules ref) (otherCovers : Covers other otherGranules ref) :
    addr = other ∧ granules = otherGranules := by
  obtain ⟨block, notBefore, notAfter, place⟩ := object.granule covers
  obtain ⟨otherBlock, otherNotBefore, otherNotAfter, otherPlace⟩ := isOther.granule otherCovers
  have sameBlock := block.symm.trans otherBlock
  have otherObject := isOther.object
  rw [← sameBlock] at otherObject otherPlace
  obtain ⟨sameStart, sameGranules⟩ := object.object.unique otherObject ⟨notBefore, notAfter⟩
    ⟨otherNotBefore, otherNotAfter⟩
  refine ⟨?_, sameGranules⟩
  rw [place, otherPlace, sameStart]

/-- What a reference is resolved to: the object that covers it, or nothing. -/
structure Resolves (summary : ℕ → BlockSummary) (metadata : ℕ → Byte) (slab ref : ℕ)
    (resolved : NoflResolvedConservativeRef) : Prop where
  isObject : resolved.addr ≠ 0 → ∃ granules,
    IsSlabObject summary metadata slab resolved.addr granules ∧ Covers resolved.addr granules ref
  isByte : resolved.addr ≠ 0 → resolved.metadata = noflMetadataByteForAddr resolved.addr ∧
    resolved.byte = metadata resolved.metadata
  found : ∀ addr granules, IsSlabObject summary metadata slab addr granules →
    Covers addr granules ref → resolved.addr = addr

/-- Nothing is resolved to where no object is. -/
theorem Resolves.of_none
    (none : ∀ addr granules, IsSlabObject summary metadata slab addr granules →
      ¬Covers addr granules ref) : Resolves summary metadata slab ref notAnObject := by
  refine ⟨fun notNull => absurd rfl notNull, fun notNull => absurd rfl notNull, ?_⟩
  intro addr granules object covers
  exact absurd covers (none addr granules object)

/-- An object is what the references that it covers are resolved to. -/
theorem Resolves.of_object (object : IsSlabObject summary metadata slab addr granules)
    (covers : Covers addr granules ref) :
    Resolves summary metadata slab ref
      ⟨addr, noflMetadataByteForAddr addr, metadata (noflMetadataByteForAddr addr)⟩ := by
  refine ⟨fun _ => ⟨granules, object, covers⟩, fun _ => ⟨rfl, rfl⟩, ?_⟩
  intro other otherGranules isOther otherCovers
  exact (object.unique isOther covers otherCovers).1

/-- Where no object has the granule of a reference, none covers the reference. -/
theorem not_covers_of_noObjectAt
    (noObject : NoObjectAt (blockBytes metadata (alignDown ref NOFL_BLOCK_SIZE))
      (ref % NOFL_BLOCK_SIZE / NOFL_GRANULE_SIZE)) :
    ∀ addr granules, IsSlabObject summary metadata slab addr granules →
      ¬Covers addr granules ref := by
  intro addr granules object covers
  obtain ⟨block, notBefore, notAfter, -⟩ := object.granule covers
  rw [block] at noObject
  exact noObject _ _ object.object ⟨notBefore, notAfter⟩

/-- No object covers an address in a metadata block. -/
theorem not_covers_of_meta (aligned : slab % NOFL_SLAB_SIZE = 0)
    (notBefore : slab ≤ ref) (inSlab : ref < slab + NOFL_SLAB_SIZE)
    (inMeta : ref % NOFL_SLAB_SIZE < NOFL_META_BLOCKS_PER_SLAB * NOFL_BLOCK_SIZE) :
    ∀ addr granules, IsSlabObject summary metadata slab addr granules →
      ¬Covers addr granules ref := by
  rintro addr granules object ⟨afterStart, -⟩
  have aboveMeta := object.inPayload.aboveMeta
  simp only [NOFL_SLAB_SIZE, NOFL_META_BLOCKS_PER_SLAB, NOFL_BLOCK_SIZE,
    NOFL_METADATA_BYTES_PER_BLOCK, NOFL_GRANULE_SIZE, NOFL_BLOCKS_PER_SLAB] at *
  omega

theorem not_covers_of_unavailable
    (unavailable : (summary (alignDown ref NOFL_BLOCK_SIZE)).unavailable = true) :
    ∀ addr granules, IsSlabObject summary metadata slab addr granules →
      ¬Covers addr granules ref := by
  intro addr granules object covers
  obtain ⟨block, -⟩ := object.granule covers
  have available := object.inPayload.available
  rw [← block, unavailable] at available
  cases available

/-- The granule of a reference is in the block of the reference. -/
theorem alignDown_granule (ref : ℕ) :
    alignDown (alignDown ref NOFL_GRANULE_SIZE) NOFL_BLOCK_SIZE = alignDown ref NOFL_BLOCK_SIZE ∧
      alignDown ref NOFL_GRANULE_SIZE % NOFL_BLOCK_SIZE / NOFL_GRANULE_SIZE =
        ref % NOFL_BLOCK_SIZE / NOFL_GRANULE_SIZE ∧
      alignDown ref NOFL_GRANULE_SIZE ≤ ref ∧ ref < alignDown ref NOFL_GRANULE_SIZE + 16 ∧
      alignDown ref NOFL_GRANULE_SIZE % NOFL_GRANULE_SIZE = 0 := by
  simp only [alignDown, NOFL_BLOCK_SIZE, NOFL_GRANULE_SIZE]
  omega

/-- The address of a granule of a block. -/
theorem place_of_granule {start : ℕ} (addr : ℕ) (inBlock : start < NOFL_GRANULES_PER_BLOCK) :
    alignDown (alignDown addr NOFL_BLOCK_SIZE + start * NOFL_GRANULE_SIZE) NOFL_BLOCK_SIZE =
        alignDown addr NOFL_BLOCK_SIZE ∧
      (alignDown addr NOFL_BLOCK_SIZE + start * NOFL_GRANULE_SIZE) % NOFL_BLOCK_SIZE /
        NOFL_GRANULE_SIZE = start ∧
      (alignDown addr NOFL_BLOCK_SIZE + start * NOFL_GRANULE_SIZE) % NOFL_GRANULE_SIZE = 0 := by
  simp only [alignDown, NOFL_BLOCK_SIZE, NOFL_GRANULE_SIZE, NOFL_GRANULES_PER_BLOCK] at *
  omega

/-- Granules of one block are all in blocks with objects, or none is. -/
theorem InPayload.of_sameBlock {other : ℕ} (inPayload : InPayload summary slab addr)
    (aligned : slab % NOFL_SLAB_SIZE = 0)
    (same : alignDown other NOFL_BLOCK_SIZE = alignDown addr NOFL_BLOCK_SIZE) :
    InPayload summary slab other := by
  obtain ⟨aboveMeta, inSlab, available⟩ := inPayload
  refine ⟨?_, ?_, ?_⟩
  · simp only [alignDown, NOFL_SLAB_SIZE, NOFL_META_BLOCKS_PER_SLAB, NOFL_BLOCK_SIZE,
      NOFL_METADATA_BYTES_PER_BLOCK, NOFL_GRANULE_SIZE, NOFL_BLOCKS_PER_SLAB] at *
    omega
  · simp only [alignDown, NOFL_SLAB_SIZE, NOFL_BLOCK_SIZE] at *
    omega
  · rw [same]
    exact available

/-- An object of a block of the slab is one of the slab. -/
theorem IsSlabObject.of_block {start : ℕ} (wellFormed : SlabWellFormed summary metadata slab)
    (inPayload : InPayload summary slab addr)
    (object : IsObject (blockBytes metadata (alignDown addr NOFL_BLOCK_SIZE)) start granules) :
    IsSlabObject summary metadata slab
      (alignDown addr NOFL_BLOCK_SIZE + start * NOFL_GRANULE_SIZE) granules := by
  have positive := object.positive
  have inBlock := object.inBlock
  obtain ⟨sameBlock, sameStart, aligned⟩ := place_of_granule addr (by omega : start < _)
  refine ⟨inPayload.of_sameBlock wellFormed.aligned sameBlock, aligned, ?_⟩
  rw [sameBlock, sameStart]
  exact object

/-- The bytes of a block are in memory one after the other. -/
theorem metadata_eq_blockBytes (metadata : ℕ → Byte) (addr : ℕ) :
    metadata (noflMetadataByteForAddr addr) =
      blockBytes metadata (alignDown addr NOFL_BLOCK_SIZE)
        (addr % NOFL_BLOCK_SIZE / NOFL_GRANULE_SIZE) := by
  rw [blockBytes, ← noflMetadataByteForAddr_eq]

/-- The scan finds the object that has the granule of the reference, if there is one. -/
theorem resolves_scanned (wellFormed : SlabWellFormed summary metadata slab)
    (inPayload : InPayload summary slab ref)
    (unmarked : markOf (blockBytes metadata (alignDown ref NOFL_BLOCK_SIZE)
      (ref % NOFL_BLOCK_SIZE / NOFL_GRANULE_SIZE)) = 0)
    {loc : ℕ}
    (isLast : Swar.IsLast metadata (NOFL_METADATA_BYTE_MARK_MASK ||| NOFL_METADATA_BYTE_END)
      (noflMetadataByteForAddr (alignDown ref NOFL_BLOCK_SIZE))
      (noflMetadataByteForAddr (alignDown ref NOFL_BLOCK_SIZE) +
        ref % NOFL_BLOCK_SIZE / NOFL_GRANULE_SIZE) loc) :
    Resolves summary metadata slab ref
      (if metadata loc &&& NOFL_METADATA_BYTE_END ≠ 0 then notAnObject
      else ⟨alignDown ref NOFL_BLOCK_SIZE +
        (loc - noflMetadataByteForAddr (alignDown ref NOFL_BLOCK_SIZE)) * NOFL_GRANULE_SIZE, loc,
        metadata loc⟩) := by
  obtain ⟨geBase, ltPtr, here, after⟩ := isLast
  obtain ⟨start, rfl⟩ := Nat.exists_eq_add_of_le geBase
  have granuleBound := granule_lt ref
  have startBound : start < ref % NOFL_BLOCK_SIZE / NOFL_GRANULE_SIZE := by omega
  have isByte : metadata (noflMetadataByteForAddr (alignDown ref NOFL_BLOCK_SIZE) + start) =
      blockBytes metadata (alignDown ref NOFL_BLOCK_SIZE) start := rfl
  have noneAfter : ∀ other, start < other → other < ref % NOFL_BLOCK_SIZE / NOFL_GRANULE_SIZE →
      markOf (blockBytes metadata (alignDown ref NOFL_BLOCK_SIZE) other) = 0 ∧
        blockBytes metadata (alignDown ref NOFL_BLOCK_SIZE) other &&& NOFL_METADATA_BYTE_END =
            0 := by
    intro other later below
    rw [← and_startOrEnd_eq_zero_iff]
    exact after _ (by omega) (by omega)
  rw [isByte] at here ⊢
  by_cases ends : blockBytes metadata (alignDown ref NOFL_BLOCK_SIZE) start &&&
      NOFL_METADATA_BYTE_END ≠ 0
  · rw [if_pos ends]
    apply Resolves.of_none
    apply not_covers_of_noObjectAt
    exact noObjectAt_of_end unmarked startBound ends
      fun other later below => (noneAfter other later below).1
  · rw [if_neg ends, Nat.add_sub_cancel_left]
    have marked : markOf (blockBytes metadata (alignDown ref NOFL_BLOCK_SIZE) start) ≠ 0 := by
      intro isUnmarked
      apply here
      rw [and_startOrEnd_eq_zero_iff]
      exact ⟨isUnmarked, not_not.mp ends⟩
    obtain ⟨granules, object⟩ :=
      (wellFormed.blocks ref inPayload).starts start (by omega) marked
    have inObject := object.covers_of_start (not_not.mp ends)
      fun other later below => (noneAfter other later below).2
    have slabObject := IsSlabObject.of_block wellFormed inPayload object
    obtain ⟨sameBlock, sameStart, -⟩ :=
      place_of_granule ref (by omega : start < NOFL_GRANULES_PER_BLOCK)
    have covers : Covers (alignDown ref NOFL_BLOCK_SIZE + start * NOFL_GRANULE_SIZE) granules
        ref := by
      simp only [Covers, alignDown, NOFL_BLOCK_SIZE, NOFL_GRANULE_SIZE] at *
      omega
    have resolves := Resolves.of_object slabObject covers
    rwa [noflMetadataByteForAddr_eq, sameBlock, sameStart] at resolves

/-- A granule whose byte has a mark is the start of an object. -/
theorem isSlabObject_of_marked (wellFormed : SlabWellFormed summary metadata slab)
    (inPayload : InPayload summary slab addr) (aligned : addr % NOFL_GRANULE_SIZE = 0)
    (marked : markOf (metadata (noflMetadataByteForAddr addr)) ≠ 0) :
    ∃ granules, IsSlabObject summary metadata slab addr granules := by
  rw [metadata_eq_blockBytes metadata] at marked
  obtain ⟨granules, object⟩ :=
    (wellFormed.blocks addr inPayload).starts _ (granule_lt addr) marked
  exact ⟨granules, inPayload, aligned, object⟩

/-- Resolving a granule of the slab, for a reference into it that may be interior. -/
theorem resolveGranule_interior (wellFormed : SlabWellFormed summary metadata slab)
    (notBefore : slab ≤ ref) (inSlab : ref < slab + NOFL_SLAB_SIZE) :
    ∃ resolved, resolveGranule summary metadata (alignDown ref NOFL_GRANULE_SIZE) true =
      .next resolved ∧ Resolves summary metadata slab ref resolved := by
  obtain ⟨sameBlock, sameGranule, granuleLe, granuleGt, granuleAligned⟩ := alignDown_granule ref
  have slabAligned := wellFormed.aligned
  have inMeta_iff : alignDown ref NOFL_GRANULE_SIZE % NOFL_SLAB_SIZE <
        NOFL_META_BLOCKS_PER_SLAB * NOFL_BLOCK_SIZE ↔
      ref % NOFL_SLAB_SIZE < NOFL_META_BLOCKS_PER_SLAB * NOFL_BLOCK_SIZE := by
    simp only [alignDown, NOFL_SLAB_SIZE, NOFL_META_BLOCKS_PER_SLAB, NOFL_BLOCK_SIZE,
      NOFL_METADATA_BYTES_PER_BLOCK, NOFL_GRANULE_SIZE, NOFL_BLOCKS_PER_SLAB]
    omega
  rw [resolveGranule, sameBlock]
  by_cases inMeta : ref % NOFL_SLAB_SIZE < NOFL_META_BLOCKS_PER_SLAB * NOFL_BLOCK_SIZE
  · rw [if_pos (inMeta_iff.mpr inMeta)]
    exact ⟨_, rfl, .of_none (not_covers_of_meta slabAligned notBefore inSlab inMeta)⟩
  rw [if_neg (inMeta_iff.not.mpr inMeta)]
  by_cases unavailable : (summary (alignDown ref NOFL_BLOCK_SIZE)).unavailable = true
  · rw [if_pos unavailable]
    exact ⟨_, rfl, .of_none (not_covers_of_unavailable unavailable)⟩
  rw [if_neg unavailable]
  have inPayload : InPayload summary slab ref := by
    refine ⟨?_, inSlab, Bool.eq_false_of_not_eq_true unavailable⟩
    simp only [NOFL_SLAB_SIZE, NOFL_META_BLOCKS_PER_SLAB, NOFL_BLOCK_SIZE,
      NOFL_METADATA_BYTES_PER_BLOCK, NOFL_GRANULE_SIZE, NOFL_BLOCKS_PER_SLAB] at *
    omega
  by_cases marked : metadata (noflMetadataByteForAddr (alignDown ref NOFL_GRANULE_SIZE)) &&&
      NOFL_METADATA_BYTE_MARK_MASK ≠ 0
  · simp only [if_pos marked]
    obtain ⟨granules, object⟩ := isSlabObject_of_marked wellFormed
      (inPayload.of_sameBlock slabAligned sameBlock) granuleAligned marked
    refine ⟨_, rfl, .of_object object ⟨granuleLe, ?_⟩⟩
    have positive := object.object.positive
    simp only [NOFL_GRANULE_SIZE] at *
    omega
  · simp only [if_neg marked, Bool.true_eq_false, ↓reduceIte]
    have unmarked : markOf (blockBytes metadata (alignDown ref NOFL_BLOCK_SIZE)
        (ref % NOFL_BLOCK_SIZE / NOFL_GRANULE_SIZE)) = 0 := by
      rw [metadata_eq_blockBytes metadata, sameBlock, sameGranule] at marked
      exact not_not.mp marked
    rw [noflMetadataByteForAddr_eq, sameBlock, sameGranule]
    obtain ⟨result, scanned, finds⟩ := Swar.scanBackwardsForByteWithBits_spec
      (noflMetadataByteForAddr_mod ref)
      (Nat.le_add_right _ (ref % NOFL_BLOCK_SIZE / NOFL_GRANULE_SIZE))
    rw [scanned]
    cases result with
    | none =>
        refine ⟨_, rfl, .of_none (not_covers_of_noObjectAt (noObjectAt_of_none unmarked ?_))⟩
        intro other below
        have nothing := finds (noflMetadataByteForAddr (alignDown ref NOFL_BLOCK_SIZE) + other)
          (Nat.le_add_right _ _) (Nat.add_lt_add_left below _)
        exact ((and_startOrEnd_eq_zero_iff _).mp nothing).1
    | some loc =>
        have resolves := resolves_scanned wellFormed inPayload unmarked finds
        refine ⟨_, ?_, resolves⟩
        simp only [Outcome.mapFailure, Outcome.bind_next, Outcome.check_bind_eq_next]
        refine ⟨finds.here, ?_⟩
        split <;> rfl

/-- Resolving a granule of the slab that has to be the start of an object. -/
theorem resolveGranule_exact (wellFormed : SlabWellFormed summary metadata slab)
    (aligned : addr % NOFL_GRANULE_SIZE = 0) (notBefore : slab ≤ addr)
    (inSlab : addr < slab + NOFL_SLAB_SIZE) :
    ∃ resolved, resolveGranule summary metadata addr false = .next resolved ∧
      (resolved.addr ≠ 0 ↔ ∃ granules, IsSlabObject summary metadata slab addr granules) ∧
      (resolved.addr ≠ 0 → resolved = ⟨addr, noflMetadataByteForAddr addr,
        metadata (noflMetadataByteForAddr addr)⟩) := by
  have slabAligned := wellFormed.aligned
  have covers : ∀ granules, IsSlabObject summary metadata slab addr granules →
      Covers addr granules addr := by
    intro granules object
    have positive := object.object.positive
    refine ⟨Nat.le_refl addr, ?_⟩
    simp only [NOFL_GRANULE_SIZE]
    omega
  have nothing : (∀ other granules, IsSlabObject summary metadata slab other granules →
      ¬Covers other granules addr) → (notAnObject.addr ≠ 0 ↔
        ∃ granules, IsSlabObject summary metadata slab addr granules) ∧
      (notAnObject.addr ≠ 0 → notAnObject = ⟨addr, noflMetadataByteForAddr addr,
        metadata (noflMetadataByteForAddr addr)⟩) := by
    intro none
    refine ⟨⟨fun notNull => absurd rfl notNull, ?_⟩, fun notNull => absurd rfl notNull⟩
    rintro ⟨granules, object⟩
    exact absurd (covers granules object) (none addr granules object)
  rw [resolveGranule]
  by_cases inMeta : addr % NOFL_SLAB_SIZE < NOFL_META_BLOCKS_PER_SLAB * NOFL_BLOCK_SIZE
  · rw [if_pos inMeta]
    exact ⟨_, rfl, nothing (not_covers_of_meta slabAligned notBefore inSlab inMeta)⟩
  rw [if_neg inMeta]
  by_cases unavailable : (summary (alignDown addr NOFL_BLOCK_SIZE)).unavailable = true
  · rw [if_pos unavailable]
    exact ⟨_, rfl, nothing (not_covers_of_unavailable unavailable)⟩
  rw [if_neg unavailable]
  have inPayload : InPayload summary slab addr := by
    refine ⟨?_, inSlab, Bool.eq_false_of_not_eq_true unavailable⟩
    simp only [NOFL_SLAB_SIZE, NOFL_META_BLOCKS_PER_SLAB, NOFL_BLOCK_SIZE,
      NOFL_METADATA_BYTES_PER_BLOCK, NOFL_GRANULE_SIZE, NOFL_BLOCKS_PER_SLAB] at *
    omega
  by_cases marked : metadata (noflMetadataByteForAddr addr) &&& NOFL_METADATA_BYTE_MARK_MASK ≠ 0
  · simp only [if_pos marked]
    have isObject := isSlabObject_of_marked wellFormed inPayload aligned marked
    refine ⟨_, rfl, ⟨fun _ => isObject, fun _ => ?_⟩, fun _ => rfl⟩
    have aboveMeta := inPayload.aboveMeta
    simp only [NOFL_META_BLOCKS_PER_SLAB, NOFL_BLOCK_SIZE, NOFL_METADATA_BYTES_PER_BLOCK,
      NOFL_GRANULE_SIZE, NOFL_SLAB_SIZE, NOFL_BLOCKS_PER_SLAB] at *
    omega
  · simp only [if_neg marked, ↓reduceIte]
    refine ⟨_, rfl, ⟨fun notNull => absurd rfl notNull, ?_⟩, fun notNull => absurd rfl notNull⟩
    rintro ⟨granules, object⟩
    apply absurd object.object.marked
    rw [← metadata_eq_blockBytes metadata]
    exact marked

/-- In a slab that is well-formed, a reference that may be interior is resolved to the one object
that covers it, and one that may not be is resolved to the object that starts where it points to
once its displacement is taken off. Nothing is in metadata blocks and in blocks that are not
available. -/
theorem noflSpaceResolveConservativeRef_spec (isValidDisplacement : ℕ → Bool)
    (wellFormed : SlabWellFormed summary metadata slab) (notBefore : slab ≤ ref)
    (inSlab : ref < slab + NOFL_SLAB_SIZE) :
    (∃ addr, noflSpaceResolveConservativeRef isValidDisplacement summary metadata ref true =
        .next addr ∧
      (∀ object granules, IsSlabObject summary metadata slab object granules →
        Covers object granules ref → addr = object) ∧
      ((∀ object granules, IsSlabObject summary metadata slab object granules →
        ¬Covers object granules ref) → addr = 0)) ∧
    (∃ addr, noflSpaceResolveConservativeRef isValidDisplacement summary metadata ref false =
        .next addr ∧
      (isValidDisplacement (ref % NOFL_GRANULE_SIZE) = true →
        (∃ granules, IsSlabObject summary metadata slab (ref - ref % NOFL_GRANULE_SIZE) granules) →
        addr = ref - ref % NOFL_GRANULE_SIZE) ∧
      (¬(isValidDisplacement (ref % NOFL_GRANULE_SIZE) = true ∧
        ∃ granules, IsSlabObject summary metadata slab (ref - ref % NOFL_GRANULE_SIZE) granules) →
        addr = 0)) ∧
    (¬InPayload summary slab ref → ∀ possiblyInterior,
      noflSpaceResolveConservativeRef isValidDisplacement summary metadata ref possiblyInterior =
        .next 0) ∧
    (∀ object granules other otherGranules, IsSlabObject summary metadata slab object granules →
      Covers object granules ref → IsSlabObject summary metadata slab other otherGranules →
      Covers other otherGranules ref → object = other ∧ granules = otherGranules) := by
  have interior : ∃ addr,
      noflSpaceResolveConservativeRef isValidDisplacement summary metadata ref true = .next addr ∧
      (∀ object granules, IsSlabObject summary metadata slab object granules →
        Covers object granules ref → addr = object) ∧
      ((∀ object granules, IsSlabObject summary metadata slab object granules →
        ¬Covers object granules ref) → addr = 0) := by
    obtain ⟨resolved, isResolved, resolves⟩ :=
      resolveGranule_interior wellFormed notBefore inSlab
    refine ⟨resolved.addr, ?_, resolves.found, ?_⟩
    · rw [noflSpaceResolveConservativeRef, noflSpaceResolveConservativeRefWithMetadata,
        if_pos rfl, isResolved]
      rfl
    · intro none
      by_contra notNull
      obtain ⟨granules, object, covers⟩ := resolves.isObject notNull
      exact none _ granules object covers
  have exactly : ∃ addr,
      noflSpaceResolveConservativeRef isValidDisplacement summary metadata ref false = .next addr ∧
      (isValidDisplacement (ref % NOFL_GRANULE_SIZE) = true →
        (∃ granules, IsSlabObject summary metadata slab (ref - ref % NOFL_GRANULE_SIZE) granules) →
        addr = ref - ref % NOFL_GRANULE_SIZE) ∧
      (¬(isValidDisplacement (ref % NOFL_GRANULE_SIZE) = true ∧
        ∃ granules, IsSlabObject summary metadata slab (ref - ref % NOFL_GRANULE_SIZE) granules) →
        addr = 0) := by
    by_cases isValid : isValidDisplacement (ref % NOFL_GRANULE_SIZE) = true
    · have slabAligned := wellFormed.aligned
      have aligned : (ref - ref % NOFL_GRANULE_SIZE) % NOFL_GRANULE_SIZE = 0 := by
        simp only [NOFL_GRANULE_SIZE]
        omega
      have afterStart : slab ≤ ref - ref % NOFL_GRANULE_SIZE := by
        simp only [NOFL_GRANULE_SIZE, NOFL_SLAB_SIZE] at *
        omega
      obtain ⟨resolved, isResolved, isObject, eq_of_object⟩ :=
        resolveGranule_exact wellFormed aligned afterStart (by omega)
      refine ⟨resolved.addr, ?_, ?_, ?_⟩
      · rw [noflSpaceResolveConservativeRef, noflSpaceResolveConservativeRefWithMetadata,
          if_neg (by decide), if_neg (by rw [isValid]; decide), isResolved]
        rfl
      · intro _ object
        rw [eq_of_object (isObject.mpr object)]
      · intro noObject
        by_contra notNull
        exact noObject ⟨isValid, isObject.mp notNull⟩
    · refine ⟨0, ?_, fun holds => absurd holds isValid, fun _ => rfl⟩
      rw [noflSpaceResolveConservativeRef, noflSpaceResolveConservativeRefWithMetadata,
        if_neg (by decide), if_pos (Bool.eq_false_of_not_eq_true isValid)]
      rfl
  refine ⟨interior, exactly, ?_, ?_⟩
  · intro notPayload possiblyInterior
    have none : ∀ object granules, IsSlabObject summary metadata slab object granules →
        ¬Covers object granules ref := by
      intro object granules isObject covers
      obtain ⟨sameBlock, -⟩ := isObject.granule covers
      exact notPayload (isObject.inPayload.of_sameBlock wellFormed.aligned sameBlock)
    cases possiblyInterior with
    | true =>
        obtain ⟨addr, resolved, -, isNull⟩ := interior
        rw [resolved, isNull none]
    | false =>
        obtain ⟨addr, resolved, -, isNull⟩ := exactly
        rw [resolved, isNull]
        rintro ⟨-, granules, object⟩
        apply none _ granules object
        have positive := object.object.positive
        simp only [Covers, NOFL_GRANULE_SIZE]
        omega
  · intro object granules other otherGranules isObject covers isOther otherCovers
    exact isObject.unique isOther covers otherCovers

end Found

/-! ## A slab with one object -/

namespace OneObject

def slab : ℕ := NOFL_SLAB_SIZE

/-- The first block of the slab that has objects. -/
def block : ℕ := slab + NOFL_META_BLOCKS_PER_SLAB * NOFL_BLOCK_SIZE

/-- A young object of two granules, from the ninth granule of the block on. -/
def metadata : ℕ → Byte := fun loc =>
  if loc = noflMetadataByteForAddr block + 8 then NOFL_METADATA_BYTE_YOUNG
  else if loc = noflMetadataByteForAddr block + 9 then NOFL_METADATA_BYTE_END else 0

def summary : ℕ → BlockSummary := fun _ => ⟨0, 0, 0, 0, false, false, false, false⟩

/-- The address of the object. -/
def object : ℕ := block + 8 * NOFL_GRANULE_SIZE

theorem metadata_eq_zero {loc : ℕ} (notFirst : loc ≠ noflMetadataByteForAddr block + 8)
    (notLast : loc ≠ noflMetadataByteForAddr block + 9) : metadata loc = 0 := by
  rw [metadata, if_neg notFirst, if_neg notLast]

/-- Whatever block the first byte is looked for in, it is at the ninth granule there. -/
theorem isObject_of_first {base start : ℕ} (aligned : base % NOFL_GRANULES_PER_BLOCK = 0)
    (inBlock : start < NOFL_GRANULES_PER_BLOCK)
    (isFirst : base + start = noflMetadataByteForAddr block + 8) :
    IsObject (fun index => metadata (base + index)) start 2 := by
  have place : noflMetadataByteForAddr block = 4210688 := by decide
  have startEq : start = 8 := by
    simp only [NOFL_GRANULES_PER_BLOCK, NOFL_BLOCK_SIZE, NOFL_GRANULE_SIZE] at aligned inBlock
    omega
  refine ⟨by decide, ?_, ?_, ?_, ?_, ?_⟩
  · rw [startEq]
    decide
  · rw [isFirst]
    decide
  · intro index afterStart inObject
    rw [show base + index = noflMetadataByteForAddr block + 9 by omega]
    decide
  · rw [show base + (start + (2 - 1)) = noflMetadataByteForAddr block + 9 by omega]
    decide
  · intro index notBefore goesOn
    rw [show base + index = noflMetadataByteForAddr block + 8 by omega]
    decide

theorem wellFormed : SlabWellFormed summary metadata slab := by
  refine ⟨by decide, ?_⟩
  intro addr _
  have aligned : noflMetadataByteForAddr (alignDown addr NOFL_BLOCK_SIZE) %
      NOFL_GRANULES_PER_BLOCK = 0 := by
    simp only [noflMetadataByteForAddr, alignDown, NOFL_SLAB_SIZE, NOFL_BLOCK_SIZE,
      NOFL_GRANULE_SIZE, NOFL_GRANULES_PER_BLOCK]
    omega
  have first_or_last : ∀ index, blockBytes metadata (alignDown addr NOFL_BLOCK_SIZE) index ≠ 0 →
      noflMetadataByteForAddr (alignDown addr NOFL_BLOCK_SIZE) + index =
        noflMetadataByteForAddr block + 8 ∨
      noflMetadataByteForAddr (alignDown addr NOFL_BLOCK_SIZE) + index =
        noflMetadataByteForAddr block + 9 := by
    intro index notZero
    by_contra! neither
    exact notZero (metadata_eq_zero neither.1 neither.2)
  constructor
  · intro index inBlock marked
    refine ⟨2, isObject_of_first aligned inBlock ?_⟩
    rcases first_or_last index (by rintro isZero; rw [isZero] at marked; exact marked rfl) with
      isFirst | isLast
    · exact isFirst
    · rw [blockBytes, isLast] at marked
      exact absurd (by decide) marked
  · intro index inBlock ends
    rcases first_or_last index (by rintro isZero; rw [isZero] at ends; exact ends rfl) with
      isFirst | isLast
    · rw [blockBytes, isFirst] at ends
      exact absurd (by decide) ends
    · have place : noflMetadataByteForAddr block = 4210688 := by decide
      have indexEq : index = 9 := by
        rw [show NOFL_GRANULES_PER_BLOCK = 4096 from rfl] at aligned inBlock
        omega
      refine ⟨8, 2, isObject_of_first aligned (by decide) (by omega), by omega⟩

theorem isSlabObject : IsSlabObject summary metadata slab object 2 := by
  refine ⟨⟨by decide, by decide, rfl⟩, by decide, ?_⟩
  exact isObject_of_first (by decide) (by decide) (by decide)

end OneObject

open OneObject in
theorem noflSpaceResolveConservativeRef_spec_one_object :
    noflSpaceResolveConservativeRef (fun displacement => displacement == 0) summary metadata
        (object + 20) true = .next object ∧
      noflSpaceResolveConservativeRef (fun displacement => displacement == 0) summary metadata
        (object + 20) false = .next 0 := by
  obtain ⟨⟨addr, resolved, found, -⟩, ⟨other, exactly, -, isNull⟩, -, -⟩ :=
    noflSpaceResolveConservativeRef_spec (fun displacement => displacement == 0) wellFormed
      (by decide : slab ≤ object + 20) (by decide)
  refine ⟨?_, ?_⟩
  · rw [resolved, found object 2 isSlabObject (by decide)]
  · rw [exactly, isNull]
    rintro ⟨isValid, -⟩
    revert isValid
    decide

end Whippet.Nofl
