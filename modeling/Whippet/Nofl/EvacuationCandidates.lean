import Whippet.Library.Quotas
import Whippet.Nofl.BlockMoves

/-!
How a compacting collection chooses the blocks to evacuate (`nofl_space_prepare_evacuation`).

Owns: the selection with its array accesses and divisions checked, that none of them goes wrong, and
which blocks are flagged: a prefix in the order of survivors that fits in the target blocks. Does
not own: whether the counts of survivors are accurate.
-/

namespace Whippet.Nofl

open Function

/-- What could go wrong in `nofl_space_prepare_evacuation`. -/
inductive EvacuationFailure where
  | outsideHistogram
  | divisionByZero
  deriving DecidableEq, Repr

namespace BlockSpace

variable (space : BlockSpace)

/-! ## The checked selection -/

/-- `NOFL_GRANULES_PER_BLOCK - b.summary->hole_granules`, of type `size_t`. -/
def survivorGranules (block : ℕ) : ℕ :=
  sizeSub NOFL_GRANULES_PER_BLOCK (space.summary block).holeGranules

/-- The bucket of a block, as an index into the histogram. -/
def bucketInHistogram (block : ℕ) : Outcome EvacuationFailure ℕ := do
  let bucket :=
    (space.survivorGranules block + evacuationBucketSize - 1) % 2 ^ 64 / evacuationBucketSize
  Outcome.check (bucket < evacuationBucketCount) .outsideHistogram
  pure bucket

/-- The loop that computes the histogram. -/
def fillHistogram : List ℕ → (ℕ → ℕ) → Outcome EvacuationFailure (ℕ → ℕ)
  | [], histogram => pure histogram
  | block :: blocks, histogram => do
      let bucket ← space.bucketInHistogram block
      fillHistogram blocks (update histogram bucket (histogram bucket + 1))

/-- The loop that selects the number of blocks of each bucket. -/
def selectBucketsChecked : ℕ → ℕ → ℕ → (ℕ → ℕ) → Outcome EvacuationFailure (ℕ → ℕ)
  | 0, _, _, histogram => pure histogram
  | rounds + 1, bucket, targetGranules, histogram => do
      Outcome.check (bucket < evacuationBucketCount) .outsideHistogram
      let bucketGranules := bucket * evacuationBucketSize * histogram bucket
      if bucketGranules ≤ targetGranules then
        selectBucketsChecked rounds (bucket + 1) (targetGranules - bucketGranules) histogram
      else do
        Outcome.check (evacuationBucketSize * bucket ≠ 0) .divisionByZero
        selectBucketsChecked rounds (bucket + 1) 0
          (update histogram bucket (targetGranules / (evacuationBucketSize * bucket)))

/-- The loop that flags the candidates. -/
def flagCandidatesChecked : List ℕ → (ℕ → ℕ) → BlockSpace → Outcome EvacuationFailure BlockSpace
  | [], _, space => pure space
  | block :: blocks, histogram, space => do
      let bucket ← space.bucketInHistogram block
      if histogram bucket ≠ 0 then
        flagCandidatesChecked blocks (update histogram bucket (histogram bucket - 1))
          (space.noflBlockSetFlag block NOFL_BLOCK_EVACUATE)
      else
        flagCandidatesChecked blocks histogram (space.noflBlockClearFlag block NOFL_BLOCK_EVACUATE)

/-- `nofl_space_prepare_evacuation`. -/
def noflSpacePrepareEvacuationChecked : Outcome EvacuationFailure BlockSpace :=
  let drained := space.drain .evacuationTargets .empty
  let targetBlocks := drained.noflBlockCount .empty
  if targetBlocks = 0 then pure drained
  else do
    let filled ← drained.fillHistogram (drained.blocksOf .toSweep) fun _ => 0
    let histogram ← selectBucketsChecked evacuationBucketCount 0
      (targetBlocks * NOFL_GRANULES_PER_BLOCK) filled
    flagCandidatesChecked (drained.blocksOf .toSweep) histogram
      { drained with evacuationReserve := 1 / 2, evacuating := true }

/-! ## Nothing goes wrong -/

variable {space}

/-- There are no more granules of holes in the block than granules. -/
def CountsHoles (space : BlockSpace) (block : ℕ) : Prop :=
  (space.summary block).holeGranules ≤ NOFL_GRANULES_PER_BLOCK

theorem evacuationBucket_lt (space : BlockSpace) (block : ℕ) :
    space.evacuationBucket block < evacuationBucketCount := by
  have granules : NOFL_GRANULES_PER_BLOCK = 4096 := rfl
  have size : evacuationBucketSize = 128 := rfl
  have count : evacuationBucketCount = 33 := rfl
  rw [evacuationBucket, granules, size, count]
  omega

theorem bucketInHistogram_eq {block : ℕ} (counts : space.CountsHoles block) :
    space.bucketInHistogram block = .next (space.evacuationBucket block) := by
  have granules : NOFL_GRANULES_PER_BLOCK = 4096 := rfl
  have size : evacuationBucketSize = 128 := rfl
  have same : (space.survivorGranules block + evacuationBucketSize - 1) % 2 ^ 64 /
      evacuationBucketSize = space.evacuationBucket block := by
    rw [survivorGranules, sizeSub_of_le counts, evacuationBucket, granules, size]
    omega
  have inside := space.evacuationBucket_lt block
  rw [bucketInHistogram, same, Outcome.check_bind inside]
  rfl

theorem fillHistogram_eq {blocks : List ℕ} (histogram : ℕ → ℕ)
    (counts : ∀ block ∈ blocks, space.CountsHoles block) :
    space.fillHistogram blocks histogram = .next fun bucket =>
      histogram bucket + blocks.countP fun block => space.evacuationBucket block = bucket := by
  induction blocks generalizing histogram with
  | nil => simp [fillHistogram]
  | cons block blocks inductionHypothesis =>
      rw [fillHistogram, bucketInHistogram_eq (counts block List.mem_cons_self), Outcome.bind_next,
        inductionHypothesis _ fun other member => counts other (List.mem_cons_of_mem _ member)]
      congr 1
      funext bucket
      by_cases same : bucket = space.evacuationBucket block
      · rw [same, update_self]
        simp
        omega
      · have different : ¬space.evacuationBucket block = bucket := fun equal => same equal.symm
        rw [update_of_ne same]
        simp [different]

theorem selectBucketsChecked_eq (rounds bucket targetGranules : ℕ) (histogram : ℕ → ℕ)
    (inside : bucket + rounds ≤ evacuationBucketCount) :
    selectBucketsChecked rounds bucket targetGranules histogram =
      .next (selectBuckets rounds bucket targetGranules histogram) := by
  induction rounds generalizing bucket targetGranules histogram with
  | zero => rfl
  | succ rounds inductionHypothesis =>
      have isBucket : bucket < evacuationBucketCount := by omega
      rw [selectBucketsChecked, selectBuckets, Outcome.check_bind isBucket]
      dsimp only
      split
      · exact inductionHypothesis _ _ _ (by omega)
      next exceeded =>
        -- The first bucket costs nothing, so this is not it.
        have proper : evacuationBucketSize * bucket ≠ 0 := by
          rintro isZero
          rw [Nat.mul_comm bucket, isZero] at exceeded
          omega
        rw [Outcome.check_bind proper]
        exact inductionHypothesis _ _ _ (by omega)

/-- The flags that are set are none that the buckets depend on. -/
theorem evacuationBucket_congr {changed : BlockSpace} {block : ℕ}
    (same : (changed.summary block).holeGranules = (space.summary block).holeGranules) :
    changed.evacuationBucket block = space.evacuationBucket block := by
  rw [evacuationBucket, same, evacuationBucket]

theorem flagCandidatesChecked_eq {blocks : List ℕ} (histogram : ℕ → ℕ)
    (counts : ∀ block ∈ blocks, space.CountsHoles block) :
    flagCandidatesChecked blocks histogram space =
        .next (flagCandidates blocks histogram space) := by
  induction blocks generalizing histogram space with
  | nil => rfl
  | cons block blocks inductionHypothesis =>
      rw [flagCandidatesChecked, bucketInHistogram_eq (counts block List.mem_cons_self),
        Outcome.bind_next, flagCandidates]
      have ofTail : ∀ {summary : LinkedSummary},
          summary.holeGranules = (space.summary block).holeGranules →
            ∀ other ∈ blocks, (space.setSummary block summary).CountsHoles other := by
        intro summary sameHoles other member
        have counted := counts other (List.mem_cons_of_mem _ member)
        rw [CountsHoles] at counted ⊢
        by_cases same : other = block
        · rw [same] at counted ⊢
          rwa [summary_setSummary_self, sameHoles]
        · rwa [summary_setSummary_of_ne _ _ same]
      split
      · exact inductionHypothesis _ (ofTail rfl)
      · exact inductionHypothesis _ (ofTail rfl)

/-! ## Which blocks are flagged -/

/-- The cost of a block of a bucket: its survivors, rounded up. -/
def bucketGranules (bucket : ℕ) : ℕ := bucket * evacuationBucketSize

theorem selectBuckets_eq_cut (rounds bucket targetGranules : ℕ) (histogram : ℕ → ℕ) :
    selectBuckets rounds bucket targetGranules histogram =
      Quotas.cut bucketGranules rounds bucket targetGranules histogram := by
  induction rounds generalizing bucket targetGranules histogram with
  | zero => rfl
  | succ rounds inductionHypothesis =>
      rw [selectBuckets, Quotas.cut, bucketGranules, Nat.mul_comm evacuationBucketSize bucket,
        inductionHypothesis, inductionHypothesis]

/-- Flagging changes the flag of the blocks in the list, and nothing else. -/
structure Flags (blocks : List ℕ) (before after : BlockSpace) : Prop where
  lists_eq : after.lists = before.lists
  next_eq : after.noflBlockNext = before.noflBlockNext
  bucket_eq : after.evacuationBucket = before.evacuationBucket
  elsewhere : ∀ block, block ∉ blocks → after.summary block = before.summary block

theorem Flags.refl (space : BlockSpace) : Flags [] space space where
  lists_eq := rfl
  next_eq := rfl
  bucket_eq := rfl
  elsewhere := fun _ _ => rfl

/-- One more block at the head, whose summary got a flag or lost it. -/
theorem Flags.cons {block : ℕ} {blocks : List ℕ} {summary : LinkedSummary} {after : BlockSpace}
    (sameNext : summary.noflBlockSummaryNext = space.noflBlockNext block)
    (sameHoles : summary.holeGranules = (space.summary block).holeGranules)
    (rest : Flags blocks (space.setSummary block summary) after) :
    Flags (block :: blocks) space after where
  lists_eq := rest.lists_eq
  next_eq := rest.next_eq.trans (Owned.noflBlockNext_setSummary sameNext)
  bucket_eq := by
    rw [rest.bucket_eq]
    funext other
    apply evacuationBucket_congr
    by_cases same : other = block
    · rw [same, summary_setSummary_self, sameHoles]
    · rw [summary_setSummary_of_ne _ _ same]
  elsewhere := by
    intro other notMember
    rw [List.mem_cons, not_or] at notMember
    rw [rest.elsewhere other notMember.2, summary_setSummary_of_ne _ _ notMember.1]

/-- The flags are the choice that the quotas of the buckets make. -/
theorem flagCandidates_spec (space : BlockSpace) {blocks : List ℕ} (nodup : blocks.Nodup)
    (histogram : ℕ → ℕ) :
    Flags blocks space (flagCandidates blocks histogram space) ∧
      (blocks.map fun block =>
        (flagCandidates blocks histogram space).noflBlockHasFlag block NOFL_BLOCK_EVACUATE) =
        Quotas.choose space.evacuationBucket blocks histogram := by
  induction blocks generalizing histogram space with
  | nil => exact ⟨.refl space, rfl⟩
  | cons block blocks inductionHypothesis =>
      obtain ⟨notInTail, tailNodup⟩ := List.nodup_cons.mp nodup
      have kept : ∀ {summary : LinkedSummary} {quota : ℕ → ℕ},
          summary.noflBlockSummaryNext = space.noflBlockNext block →
          summary.holeGranules = (space.summary block).holeGranules →
          Flags (block :: blocks) space
              (flagCandidates blocks quota (space.setSummary block summary)) ∧
            ((block :: blocks).map fun other =>
              (flagCandidates blocks quota (space.setSummary block summary)).noflBlockHasFlag other
                NOFL_BLOCK_EVACUATE) =
              summary.noflBlockSummaryHasFlag NOFL_BLOCK_EVACUATE ::
                Quotas.choose space.evacuationBucket blocks quota := by
        intro summary quota sameNext sameHoles
        obtain ⟨flags, chosen⟩ :=
          inductionHypothesis (space.setSummary block summary) tailNodup quota
        have whole := flags.cons sameNext sameHoles
        have sameBuckets : (space.setSummary block summary).evacuationBucket =
            space.evacuationBucket := flags.bucket_eq.symm.trans whole.bucket_eq
        refine ⟨whole, ?_⟩
        rw [List.map_cons, chosen, sameBuckets, noflBlockHasFlag,
          flags.elsewhere block notInTail, summary_setSummary_self]
      have isFlag : NOFL_BLOCK_EVACUATE &&& flagMask = NOFL_BLOCK_EVACUATE := by decide
      rw [flagCandidates, Quotas.choose]
      split
      · obtain ⟨flags, chosen⟩ := kept (LinkedSummary.next_setFlag isFlag) rfl
        refine ⟨flags, chosen.trans ?_⟩
        rw [LinkedSummary.hasFlag_setFlag_self]
      · obtain ⟨flags, chosen⟩ := kept (LinkedSummary.next_clearFlag isFlag) rfl
        refine ⟨flags, chosen.trans ?_⟩
        rw [LinkedSummary.hasFlag_clearFlag_self (by decide)]

/-! ## Draining -/

/-- Links are apart from the counts of holes. -/
theorem holeGranules_relink (space : BlockSpace) (block next other : ℕ) :
    (update space.summary block ((space.summary block).noflBlockSummarySetNext next)
      other).holeGranules = (space.summary other).holeGranules := by
  by_cases same : other = block
  · rw [same, update_self]
    rfl
  · rw [update_of_ne same]

/-- Draining a list gives its blocks to the other one, and keeps the counts of their holes. -/
theorem drain_spec {source target : ListName} (different : source ≠ target)
    (notPartlyFull : target ≠ .partlyFull)
    (sameFlag : (∃ age, source = .pagedOut age) ↔ ∃ age, target = .pagedOut age)
    {owner : ℕ → Place} (holds : Owned space owner) :
    Owned (space.drain source target)
        (fun block => if owner block = .list source then .list target else owner block) ∧
      ∀ block, ((space.drain source target).summary block).holeGranules =
        (space.summary block).holeGranules := by
  rw [drain]
  generalize counted : space.noflBlockCount source = rounds
  induction rounds generalizing space owner with
  | zero =>
      refine ⟨?_, fun _ => rfl⟩
      have none : ∀ block, owner block ≠ .list source := by
        intro block onList
        have head := holds.listed.count_eq_zero_iff.mp counted
        apply holds.listed.head_eq_null_iff.mp head block
        rw [onList]
        rfl
      have same : (fun block => if owner block = .list source then .list target else owner block) =
          owner := by
        funext block
        exact if_neg (none block)
      rw [same]
      exact holds
  | succ rounds inductionHypothesis =>
      have nonempty : (space.lists source).blocks ≠ 0 := by
        intro isNull
        have zero := holds.listed.count_eq_zero_iff.mpr isNull
        have one : (space.lists source).count = rounds + 1 := counted
        have none : (space.lists source).count = 0 := zero
        omega
      have taken := noflBlockListPop_eq_some_iff.mpr ⟨nonempty, rfl, rfl⟩
      have popCount : (space.withoutHead source).noflBlockCount source = rounds := by
        have one : (space.lists source).count = rounds + 1 := counted
        simp [noflBlockCount, withoutHead, one]
      have popHoles : ∀ other, ((space.withoutHead source).summary other).holeGranules =
          (space.summary other).holeGranules := holeGranules_relink space _ _
      rw [whilePops, taken]
      dsimp only
      generalize (space.lists source).blocks = block at taken ⊢
      generalize space.withoutHead source = popped at taken popCount popHoles ⊢
      obtain ⟨onList, holdsPopped⟩ := holds.pop taken
      have pushed := holdsPopped.push (update_self _ _ _)
        ((holds.isUnavailable_popped taken).trans sameFlag)
        (fun isPartlyFull => absurd isPartlyFull notPartlyFull)
      rw [update_idem] at pushed
      have pushCount : (popped.noflBlockListPush target block).noflBlockCount source = rounds := by
        rw [noflBlockCount, lists_noflBlockListPush_of_ne _ _ different]
        exact popCount
      obtain ⟨drained, holes⟩ := inductionHypothesis pushed pushCount
      have owners : (fun other => if update owner block (.list target) other = .list source then
          .list target else update owner block (.list target) other) =
          fun other => if owner other = .list source then .list target else owner other := by
        funext other
        by_cases same : other = block
        · rw [same, update_self, onList, if_pos rfl, ite_self]
        · rw [update_of_ne same]
      rw [owners] at drained
      refine ⟨drained, ?_⟩
      intro other
      rw [holes, ← popHoles]
      exact holeGranules_relink popped _ _ other

/-! ## The selection as a whole -/

/-- The block is flagged for evacuation. -/
def isCandidate (space : BlockSpace) (block : ℕ) : Bool :=
  space.noflBlockHasFlag block NOFL_BLOCK_EVACUATE

/-- What a compacting collection is to choose of the blocks to sweep, `blocks`. -/
structure CandidatesChosen (space : BlockSpace) (blocks : List ℕ) (targetBlocks : ℕ) : Prop where
  /-- The survivors of the candidates, rounded up to buckets, fit in the target blocks. -/
  fits : ((blocks.filter space.isCandidate).map fun block =>
    bucketGranules (space.evacuationBucket block)).sum ≤ targetBlocks * NOFL_GRANULES_PER_BLOCK
  /-- The candidates are a prefix in the order of buckets and then of the list. -/
  isPrefix : ∀ first second : Fin blocks.length,
    space.isCandidate (blocks.get second) = true →
    (space.evacuationBucket (blocks.get first) < space.evacuationBucket (blocks.get second) ∨
      space.evacuationBucket (blocks.get first) = space.evacuationBucket (blocks.get second) ∧
        first ≤ second) →
    space.isCandidate (blocks.get first) = true
  /-- Every flag is set or cleared by the quota of the bucket, whatever it was before. -/
  flag_eq : ∃ quota : ℕ → ℕ, ∀ index : Fin blocks.length, space.isCandidate (blocks.get index) =
    decide (Quotas.rank space.evacuationBucket blocks index <
      quota (space.evacuationBucket (blocks.get index)))

/-- The cost of a choice is that of the items that pass. -/
theorem cost_map_isCandidate (space : BlockSpace) (weight : ℕ → ℕ) (blocks : List ℕ) :
    Quotas.cost space.evacuationBucket weight blocks (blocks.map space.isCandidate) =
      ((blocks.filter space.isCandidate).map fun block =>
        weight (space.evacuationBucket block)).sum := by
  induction blocks with
  | nil => rfl
  | cons block blocks inductionHypothesis =>
      cases isChosen : space.isCandidate block with
      | true =>
          rw [List.map_cons, isChosen, Quotas.cost, inductionHypothesis,
            List.filter_cons_of_pos isChosen, List.map_cons, List.sum_cons]
      | false =>
          have notChosen : ¬space.isCandidate block = true := by simp [isChosen]
          rw [List.map_cons, isChosen, Quotas.cost, inductionHypothesis,
            List.filter_cons_of_neg notChosen]

/-- The two passes over a list of distinct blocks choose what they are to choose. -/
theorem candidatesChosen_of_passes (space : BlockSpace) {blocks : List ℕ} (nodup : blocks.Nodup)
    (targetBlocks : ℕ) :
    CandidatesChosen
      (flagCandidates blocks
        (selectBuckets evacuationBucketCount 0 (targetBlocks * NOFL_GRANULES_PER_BLOCK)
          fun bucket => blocks.countP fun block => space.evacuationBucket block = bucket) space)
      blocks targetBlocks := by
  rw [selectBuckets_eq_cut]
  generalize isQuota : Quotas.cut bucketGranules evacuationBucketCount 0
    (targetBlocks * NOFL_GRANULES_PER_BLOCK)
    (fun bucket => blocks.countP fun block => space.evacuationBucket block = bucket) = quota
  obtain ⟨flags, chosen⟩ := flagCandidates_spec space nodup quota
  generalize flagCandidates blocks quota space = result at flags chosen ⊢
  rw [← flags.bucket_eq] at chosen isQuota
  have flag_eq : ∀ index : Fin blocks.length, result.isCandidate (blocks.get index) =
      decide (Quotas.rank result.evacuationBucket blocks index <
        quota (result.evacuationBucket (blocks.get index))) := by
    intro index
    have atIndex := Quotas.choose_eq result.evacuationBucket blocks quota index
    rw [← chosen] at atIndex
    simpa [isCandidate] using atIndex
  refine ⟨?_, ?_, quota, flag_eq⟩
  · have inHistogram : ∀ block ∈ blocks, result.evacuationBucket block ∈
        Finset.Ico 0 (0 + evacuationBucketCount) := by
      intro block _
      rw [Finset.mem_Ico, Nat.zero_add]
      exact ⟨Nat.zero_le _, result.evacuationBucket_lt block⟩
    have costs := Quotas.cost_choose_le bucketGranules quota blocks inHistogram
    have budget := Quotas.sum_cut_le bucketGranules
      (fun bucket => blocks.countP fun block => result.evacuationBucket block = bucket)
      evacuationBucketCount 0 (targetBlocks * NOFL_GRANULES_PER_BLOCK)
    rw [isQuota] at budget
    rw [← chosen] at costs
    exact (cost_map_isCandidate result bucketGranules blocks).symm.le.trans (costs.trans budget)
  · intro first second isChosen isBefore
    rw [flag_eq, decide_eq_true_eq] at isChosen ⊢
    apply Quotas.chosen_of_chosen_later _ _ isQuota isChosen isBefore
    · intro bucket positive
      exact Nat.mul_pos positive (by decide)
    · exact result.evacuationBucket_lt

theorem nodup_blocksOf {owner : ℕ → Place} (holds : Owned space owner) (name : ListName) :
    (space.blocksOf name).Nodup := by
  obtain ⟨nodes, chain, nodup, -⟩ := holds.listed.chain name
  rw [(holds.chained_blocksOf name).1.unique chain]
  exact nodup

/-- The selection goes wrong nowhere and chooses what it is to choose, for every list of blocks to
sweep with any counts of survivors and every positive number of target blocks. -/
theorem prepare_evacuation_spec {space : BlockSpace} {owner : ℕ → Place}
    (holds : Owned space owner)
    (counts : ∀ block ∈ space.blocksOf .toSweep, space.CountsHoles block)
    (targets : 0 < (space.drain .evacuationTargets .empty).noflBlockCount .empty) :
    space.noflSpacePrepareEvacuationChecked = .next space.noflSpacePrepareEvacuation ∧
      (∀ block, block ∈ space.noflSpacePrepareEvacuation.blocksOf .toSweep ↔
        block ∈ space.blocksOf .toSweep) ∧
      CandidatesChosen space.noflSpacePrepareEvacuation
        (space.noflSpacePrepareEvacuation.blocksOf .toSweep)
        ((space.drain .evacuationTargets .empty).noflBlockCount .empty) := by
  have different : ListName.evacuationTargets ≠ .empty := nofun
  have notPartlyFull : ListName.empty ≠ .partlyFull := nofun
  obtain ⟨holdsDrained, holes⟩ := drain_spec different notPartlyFull (by simp) holds
  have toSweep : ∀ block, block ∈ (space.drain .evacuationTargets .empty).blocksOf .toSweep ↔
      block ∈ space.blocksOf .toSweep := by
    intro block
    rw [(holdsDrained.chained_blocksOf .toSweep).2.2, (holds.chained_blocksOf .toSweep).2.2]
    by_cases isTarget : owner block = .list .evacuationTargets
    · rw [if_pos isTarget, isTarget]
      simp
    · rw [if_neg isTarget]
  rw [noflSpacePrepareEvacuationChecked, noflSpacePrepareEvacuation]
  generalize space.drain .evacuationTargets .empty = drained at holdsDrained holes toSweep targets ⊢
  have countsDrained : ∀ block ∈ drained.blocksOf .toSweep, drained.CountsHoles block := by
    intro block member
    rw [CountsHoles, holes]
    exact counts block ((toSweep block).mp member)
  have nodup := nodup_blocksOf holdsDrained .toSweep
  let started : BlockSpace := { drained with evacuationReserve := 1 / 2, evacuating := true }
  have countsStarted : ∀ block ∈ drained.blocksOf .toSweep, started.CountsHoles block :=
    countsDrained
  dsimp only
  rw [if_neg targets.ne', if_neg targets.ne', fillHistogram_eq _ countsDrained, Outcome.bind_next]
  simp only [Nat.zero_add]
  rw [selectBucketsChecked_eq _ _ _ _ (Nat.zero_add _).le, Outcome.bind_next,
    flagCandidatesChecked_eq _ countsStarted]
  have chosen := candidatesChosen_of_passes started nodup (drained.noflBlockCount .empty)
  obtain ⟨flags, -⟩ := flagCandidates_spec started nodup
    (selectBuckets evacuationBucketCount 0
      (drained.noflBlockCount .empty * NOFL_GRANULES_PER_BLOCK) drained.evacuationHistogram)
  have sameList : (flagCandidates (drained.blocksOf .toSweep) (selectBuckets evacuationBucketCount 0
      (drained.noflBlockCount .empty * NOFL_GRANULES_PER_BLOCK) drained.evacuationHistogram)
      started).blocksOf .toSweep = drained.blocksOf .toSweep := by
    rw [blocksOf, flags.lists_eq, flags.next_eq]
    rfl
  refine ⟨rfl, ?_, ?_⟩
  · intro block
    rw [sameList]
    exact toSweep block
  · rw [sameList]
    exact chosen

/-! ## Several blocks -/

/-- Pushing blocks in hand to a list, one after the other. -/
theorem owned_foldl_push (name : ListName) (notPagedOut : ∀ age, name ≠ .pagedOut age)
    (notPartlyFull : name ≠ .partlyFull) (blocks : List ℕ) {space : BlockSpace}
    {owner : ℕ → Place} (holds : Owned space owner) (nodup : blocks.Nodup)
    (inHand : ∀ block ∈ blocks, owner block = .hand)
    (available : ∀ block ∈ blocks, space.isUnavailable block = false) :
    ∃ after, Owned (blocks.foldl (fun space => space.noflBlockListPush name) space) after ∧
      ∀ block, block ∉ blocks → after block = owner block ∧
        (blocks.foldl (fun space => space.noflBlockListPush name) space).isUnavailable block =
          space.isUnavailable block := by
  induction blocks generalizing space owner with
  | nil => exact ⟨owner, holds, fun _ _ => ⟨rfl, rfl⟩⟩
  | cons first rest inductionHypothesis =>
      obtain ⟨notInRest, nodupRest⟩ := List.nodup_cons.mp nodup
      have pushed : Owned (space.noflBlockListPush name first)
          (update owner first (.list name)) := by
        apply holds.push (inHand first List.mem_cons_self)
        · rw [available first List.mem_cons_self]
          exact iff_of_false nofun fun ⟨age, isAge⟩ => notPagedOut age isAge
        · exact fun isPartlyFull => absurd isPartlyFull notPartlyFull
      obtain ⟨after, kept, elsewhere⟩ := inductionHypothesis pushed nodupRest
        (fun block member => by
          rw [update_of_ne (ne_of_mem_of_not_mem member notInRest)]
          exact inHand block (List.mem_cons_of_mem _ member))
        (fun block member => by
          rw [holds.relinked_push.isUnavailable]
          exact available block (List.mem_cons_of_mem _ member))
      refine ⟨after, kept, ?_⟩
      intro block outside
      rw [List.mem_cons, not_or] at outside
      obtain ⟨same, sameFlag⟩ := elsewhere block outside.2
      rw [update_of_ne outside.1] at same
      exact ⟨same, sameFlag.trans (holds.relinked_push.isUnavailable block)⟩

/-- Six blocks of a slab with few, many and no holes. The last one has a flag of an earlier
collection. -/
def unevenSummary (block : ℕ) : LinkedSummary :=
  { holeCount := 1
    holeGranules :=
      if block = 262144 then 4000 else if block = 589824 then 0 else 3000
    holesWithFragmentation := 0
    fragmentationGranules := 0
    nextAndFlags := if block = 589824 then NOFL_BLOCK_EVACUATE else 0 }

def unevenBlocks : List ℕ := [262144, 327680, 393216, 458752, 524288, 589824]

/-- A space in which these blocks are to be swept, and one more is empty. -/
def severalToSweep : BlockSpace :=
  [655360].foldl (fun space => space.noflBlockListPush .empty)
    (unevenBlocks.foldl (fun space => space.noflBlockListPush .toSweep)
      { BlockSpace.unused (1 / 50) (1 / 2) false false with summary := unevenSummary })

theorem owned_severalToSweep : ∃ owner, Owned severalToSweep owner := by
  let unused : BlockSpace :=
    { BlockSpace.unused (1 / 50) (1 / 2) false false with summary := unevenSummary }
  let owner : ℕ → Place := fun block =>
    if block ∈ 655360 :: unevenBlocks then .hand else .nowhere
  have notListed : ∀ block name, (owner block).listName? ≠ some name := by
    intro block name
    by_cases found : block ∈ 655360 :: unevenBlocks <;> simp only [owner, found] <;> exact nofun
  have notUnavailable : ∀ block, unused.isUnavailable block = false := by
    intro block
    change ((if block = 589824 then NOFL_BLOCK_EVACUATE else 0) &&& NOFL_BLOCK_UNAVAILABLE ==
      NOFL_BLOCK_UNAVAILABLE) = false
    split <;> decide
  have holds : Owned unused owner := by
    refine ⟨⟨?_, ?_⟩, ?_, ?_, ?_, ?_⟩
    · intro name
      exact ⟨[], .nil, List.nodup_nil, rfl, fun block => iff_of_false nofun (notListed block name)⟩
    · intro block _
      change ((if block = 589824 then NOFL_BLOCK_EVACUATE else 0) &&& ~~~flagMask).toNat = 0
      split <;> decide
    · rintro block -
      refine iff_of_false (by rw [notUnavailable]; exact nofun) ?_
      rintro ⟨age, isPagedOut⟩
      apply notListed block (.pagedOut age)
      rw [isPagedOut, Place.listName?_list]
    · intro block somewhere
      have addresses : ∀ block ∈ 655360 :: unevenBlocks,
          block ≠ 0 ∧ block % NOFL_BLOCK_SIZE = 0 ∧ block < 2 ^ 64 := by decide +kernel
      apply addresses block
      by_contra notBlock
      exact somewhere (if_neg notBlock)
    · intro block isNowhere
      have notBlock : block ∉ 655360 :: unevenBlocks := by
        intro isBlock
        rw [show owner block = .hand from if_pos isBlock] at isNowhere
        cases isNowhere
      have notLast : block ≠ 589824 := by
        rintro rfl
        exact notBlock (by decide)
      exact if_neg notLast
    · intro block isPartlyFull
      exact absurd (isPartlyFull ▸ rfl) (notListed block .partlyFull)
  obtain ⟨swept, sweptHolds, elsewhere⟩ := owned_foldl_push .toSweep nofun nofun
    unevenBlocks holds (by decide)
    (fun block member => if_pos (List.mem_cons_of_mem _ member))
    (fun block _ => notUnavailable block)
  obtain ⟨isHand, sameFlag⟩ := elsewhere 655360 (by decide)
  obtain ⟨after, kept, -⟩ := owned_foldl_push .empty nofun nofun [655360] sweptHolds
    (List.nodup_singleton _)
    (fun block member => by rw [List.mem_singleton.mp member, isHand]; rfl)
    (fun block member => by rw [List.mem_singleton.mp member, sameFlag, notUnavailable])
  exact ⟨after, kept⟩

theorem prepare_evacuation_severalToSweep :
    severalToSweep.noflSpacePrepareEvacuation.blocksOf .toSweep = unevenBlocks.reverse ∧
      unevenBlocks.map severalToSweep.noflSpacePrepareEvacuation.isCandidate =
        [true, false, true, true, true, false] ∧
      CandidatesChosen severalToSweep.noflSpacePrepareEvacuation unevenBlocks.reverse 1 := by
  obtain ⟨owner, holds⟩ := owned_severalToSweep
  have isList : severalToSweep.blocksOf .toSweep = unevenBlocks.reverse := by decide +kernel
  have sameList : severalToSweep.noflSpacePrepareEvacuation.blocksOf .toSweep =
      unevenBlocks.reverse := by decide +kernel
  have counts : ∀ block ∈ severalToSweep.blocksOf .toSweep, severalToSweep.CountsHoles block := by
    rw [isList]
    simp only [CountsHoles]
    decide +kernel
  have chosen := (prepare_evacuation_spec holds counts (by decide +kernel)).2.2
  rw [sameList] at chosen
  exact ⟨sameList, by decide +kernel, chosen⟩

end BlockSpace

end Whippet.Nofl
