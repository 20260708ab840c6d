import Whippet.Worklist.SimpleWorklist

/-!
The simple worklist refines a queue, as long as it only grows in order.

A growth compares the two indices as numbers. Once `write` has wrapped around and `read` has not, it
copies nothing, and the worklist is as long as before with null references only.

Owns: what each operation does to the references in the worklist, the condition on growth, and the
refinement of the queue in the runs that meet it. Does not own: the worklist.
-/

namespace Whippet.Worklist

open Function

namespace SimpleWorklist

variable {worklist grown after : SimpleWorklist} {acquire : ℕ → Bool} {log : ℕ}

/-! ## The references in a worklist -/

/-- The buffer as a buffer of the work-stealing deque, which is read and written alike. -/
def ring (worklist : SimpleWorklist) : WorklistBuf :=
  { logSize := 0, size := worklist.size, data := worklist.buf }

def length (worklist : SimpleWorklist) : ℕ := (worklist.write - worklist.read).toNat

/-- The reference that is popped after `offset` others. -/
def entry (worklist : SimpleWorklist) (offset : ℕ) : Word :=
  worklist.get (worklist.read + BitVec.ofNat 64 offset)

/-- The references in the worklist, in the order in which they are popped. -/
def contents (worklist : SimpleWorklist) : List Word :=
  (List.range worklist.length).map worklist.entry

/-- The buffer has a power of two of entries, and the references fit in it. -/
structure Sized (worklist : SimpleWorklist) (log : ℕ) : Prop where
  size : worklist.size = BitVec.ofNat 64 (2 ^ log)
  atMost : log ≤ 60
  fits : worklist.length ≤ 2 ^ log

@[simp] theorem length_contents (worklist : SimpleWorklist) :
    worklist.contents.length = worklist.length := by
  rw [contents, List.length_map, List.length_range]

theorem read_eq_write_iff (worklist : SimpleWorklist) :
    worklist.read = worklist.write ↔ worklist.length = 0 := by
  have readLt := worklist.read.isLt
  have writeLt := worklist.write.isLt
  rw [length, ← BitVec.toNat_inj, BitVec.toNat_sub]
  omega

theorem length_le (same : worklist.read = worklist.write) (bound : ℕ) : worklist.length ≤ bound :=
  (worklist.read_eq_write_iff.mp same).trans_le (Nat.zero_le bound)

theorem contents_eq_nil (same : worklist.read = worklist.write) : worklist.contents = [] := by
  rw [contents, worklist.read_eq_write_iff.mp same, List.range_zero, List.map_nil]

theorem write_eq (worklist : SimpleWorklist) :
    worklist.write = worklist.read + BitVec.ofNat 64 worklist.length := by
  rw [length, BitVec.ofNat_toNat, BitVec.setWidth_eq, BitVec.add_comm, BitVec.sub_add_cancel]

theorem two_pow_le (small : log ≤ 60) : 2 ^ log ≤ 2 ^ 60 :=
  Nat.pow_le_pow_right Nat.two_pos small

namespace Sized

variable (sized : Sized worklist log)
include sized

theorem small : log < 64 := by
  have atMost := sized.atMost
  omega

theorem toNat_size : worklist.size.toNat = 2 ^ log := by
  have bound := two_pow_le sized.atMost
  rw [sized.size, BitVec.toNat_ofNat, Nat.mod_eq_of_lt (by omega)]

/-- The entries that are free, as the code counts them. -/
theorem toNat_free :
    (worklist.size - (worklist.write - worklist.read)).toNat = 2 ^ log - worklist.length := by
  have fits := sized.fits
  rw [BitVec.toNat_sub_of_le]
  · rw [sized.toNat_size, length]
  · rw [BitVec.le_def, sized.toNat_size]
    exact fits

/-- The test of `simple_worklist_push_many`. -/
theorem needsRoom_iff (count : Word) :
    worklist.size - (worklist.write - worklist.read) < count ↔
      2 ^ log < worklist.length + count.toNat := by
  have fits := sized.fits
  rw [BitVec.lt_def, sized.toNat_free]
  omega

/-- The test of `simple_worklist_push`. -/
theorem isFull_iff :
    worklist.write - worklist.read = worklist.size ↔ worklist.length = 2 ^ log := by
  rw [← BitVec.toNat_inj, sized.toNat_size, length]

end Sized

/-! ## Growth -/

/-- A buffer in memory that was just acquired. -/
def emptyRing (size : Word) : WorklistBuf := { logSize := 0, size := size, data := fun _ => 0 }

/-- The loop of a growth is the one of the deque. -/
theorem copyLoop_eq (source target : WorklistBuf) (write : Word) (turns : ℕ) (i : Word) :
    copyLoop source.data (source.size - 1) (target.size - 1) write turns i target.data =
      (source.copyEntries write turns i target).data := by
  induction turns generalizing i target with
  | zero => rfl
  | succ turns inductionHypothesis =>
      rw [copyLoop, WorklistBuf.copyEntries]
      split
      · exact inductionHypothesis (target.put i (source.get i)) (i + 1)
      · rfl

/-- The reference at an index after the loop of a growth. -/
theorem get_copyLoop (size write : Word) (turns : ℕ) (i idx : Word) :
    SimpleWorklist.get { worklist with
        size := size
        buf := copyLoop worklist.buf (worklist.size - 1) (size - 1) write turns i fun _ => 0 } idx =
      (worklist.ring.copyEntries write turns i (emptyRing size)).get idx := by
  rw [WorklistBuf.get, WorklistBuf.slot, WorklistBuf.copyEntries_size,
    ← copyLoop_eq worklist.ring (emptyRing size) write turns i]
  rfl

/-- What is there after the worklist grew: null references if `write` wrapped around and `read` did
not. -/
structure Grown (worklist grown : SimpleWorklist) : Prop where
  read : grown.read = worklist.read
  write : grown.write = worklist.write
  entry : ∀ offset < worklist.length, grown.entry offset =
    if worklist.read ≤ worklist.write then worklist.entry offset else 0

theorem Grown.length (isGrown : Grown worklist grown) : grown.length = worklist.length := by
  rw [SimpleWorklist.length, SimpleWorklist.length, isGrown.read, isGrown.write]

theorem Grown.contents (isGrown : Grown worklist grown) (ordered : worklist.read ≤ worklist.write) :
    grown.contents = worklist.contents := by
  rw [SimpleWorklist.contents, SimpleWorklist.contents, isGrown.length]
  apply List.map_congr_left
  intro offset member
  rw [isGrown.entry offset (List.mem_range.mp member), if_pos ordered]

theorem size_lt_max_iff (sized : Sized worklist log) :
    worklist.size < simpleWorklistMaxSize ↔ log < 60 := by
  have greatest : simpleWorklistMaxSize.toNat = 2 ^ 60 := by decide
  rw [BitVec.lt_def, sized.toNat_size, greatest]
  exact Nat.pow_lt_pow_iff_right (by decide)

theorem grow_spec (sized : Sized worklist log) (grows : worklist.grow acquire = .next grown) :
    Sized grown (log + 1) ∧ Grown worklist grown := by
  rw [grow, Outcome.check_bind_eq_next, Outcome.check_bind_eq_next, Outcome.pure_eq_next,
    Outcome.next.injEq, size_lt_max_iff sized] at grows
  obtain ⟨notMax, -, rfl⟩ := grows
  have fits := sized.fits
  have double : worklist.size * 2 = BitVec.ofNat 64 (2 ^ (log + 1)) := by
    rw [sized.size, pow_succ]
    exact (BitVec.ofNat_mul _ _).symm
  have small : log + 1 < 64 := by omega
  refine ⟨⟨double, notMax, ?_⟩, rfl, rfl, ?_⟩
  · rw [pow_succ]
    change worklist.length ≤ _
    omega
  · intro offset inRange
    have fitsGrown : (worklist.write - worklist.read).toNat ≤ 2 ^ (log + 1) := by
      rw [pow_succ]
      change worklist.length ≤ _
      omega
    rw [entry, get_copyLoop]
    exact WorklistBuf.get_copyEntries_top small double fitsGrown inRange

theorem exists_grow (notMax : worklist.size < simpleWorklistMaxSize) :
    ∃ grown, worklist.grow (fun _ => true) = .next grown := by
  rw [grow, Outcome.check_bind notMax, Outcome.check_bind rfl]
  exact ⟨_, rfl⟩

theorem grow_ne_disabled (worklist : SimpleWorklist) (acquire : ℕ → Bool) :
    worklist.grow acquire ≠ .disabled := by
  apply Outcome.check_bind_ne_disabled
  apply Outcome.check_bind_ne_disabled
  exact nofun

/-! ## Writing references -/

theorem putMany_eq (worklist : SimpleWorklist) (pv : ℕ → Word) (count : ℕ) :
    (worklist.putMany pv count).write = worklist.write + BitVec.ofNat 64 count ∧
      (worklist.putMany pv count).read = worklist.read ∧
      (worklist.putMany pv count).ring = worklist.ring.putMany worklist.write pv count := by
  induction count with
  | zero => exact ⟨(BitVec.add_zero _).symm, rfl, rfl⟩
  | succ count inductionHypothesis =>
      obtain ⟨write, read, ring⟩ := inductionHypothesis
      refine ⟨?_, read, ?_⟩
      · change (worklist.putMany pv count).write + 1 = _
        rw [write, BitVec.ofNat_add, BitVec.add_assoc]
        rfl
      · change (worklist.putMany pv count).ring.put (worklist.putMany pv count).write _ = _
        rw [ring, write]
        rfl

theorem putMany_spec (sized : Sized worklist log) (pv : ℕ → Word) {count : ℕ}
    (hasRoom : worklist.length + count ≤ 2 ^ log) :
    Sized (worklist.putMany pv count) log ∧
      (worklist.putMany pv count).contents = worklist.contents ++ (List.range count).map pv := by
  obtain ⟨write, read, ring⟩ := putMany_eq worklist pv count
  have bound := two_pow_le sized.atMost
  have size : (worklist.putMany pv count).size = worklist.size := by
    have sizes := congrArg WorklistBuf.size ring
    rw [WorklistBuf.putMany_size] at sizes
    exact sizes
  have length : (worklist.putMany pv count).length = worklist.length + count := by
    rw [SimpleWorklist.length, write, read, write_eq worklist, BitVec.add_assoc, BitVec.add_comm,
      BitVec.add_sub_cancel, ← BitVec.ofNat_add, BitVec.toNat_ofNat, Nat.mod_eq_of_lt (by omega)]
  have entries : ∀ offset < 2 ^ log, (worklist.putMany pv count).entry offset =
      if worklist.length ≤ offset ∧ offset < worklist.length + count then
        pv (offset - worklist.length)
      else worklist.entry offset := by
    intro offset inRange
    change (worklist.putMany pv count).ring.get _ = _
    rw [ring, read, write_eq worklist]
    exact WorklistBuf.get_putMany sized.small sized.size pv count hasRoom inRange
  refine ⟨⟨size.trans sized.size, sized.atMost, length.trans_le hasRoom⟩, ?_⟩
  rw [contents, length, List.range_add, List.map_append, List.map_map, contents]
  congr 1
  · apply List.map_congr_left
    intro offset member
    have below := List.mem_range.mp member
    rw [entries offset (by omega), if_neg (by omega)]
  · apply List.map_congr_left
    intro offset member
    have below := List.mem_range.mp member
    rw [comp_apply, entries _ (by omega), if_pos (by omega), Nat.add_sub_cancel_left]

/-! ## The operations -/

/-- A worklist that was just initialized is empty. -/
theorem init_spec {pageSizeLog2 : ℕ} (atLeast : 3 ≤ pageSizeLog2) (atMost : pageSizeLog2 ≤ 63)
    (created : init acquire pageSizeLog2 = .next worklist) :
    Sized worklist (pageSizeLog2 - 3) ∧ worklist.contents = [] := by
  rw [init, Outcome.check_bind_eq_next, Outcome.pure_eq_next, Outcome.next.injEq] at created
  obtain ⟨-, rfl⟩ := created
  refine ⟨⟨?_, by omega, length_le rfl _⟩, contents_eq_nil rfl⟩
  have bound : 2 ^ pageSizeLog2 ≤ 2 ^ 63 := Nat.pow_le_pow_right Nat.two_pos atMost
  have whole : 2 ^ pageSizeLog2 = 2 ^ (pageSizeLog2 - 3) * 8 := by
    rw [← Nat.sub_add_cancel atLeast, Nat.add_sub_cancel, pow_add]
    rfl
  have eight : (8 : Word).toNat = 8 := rfl
  apply BitVec.eq_of_toNat_eq
  rw [BitVec.toNat_udiv, BitVec.toNat_ofNat, BitVec.toNat_ofNat, Nat.mod_eq_of_lt (by omega), eight,
    whole, Nat.mul_div_cancel _ (by decide), Nat.mod_eq_of_lt (by omega)]

theorem push_spec (sized : Sized worklist log) {p : Word}
    (pushed : worklist.push acquire p = .next after) :
    ∃ log', Sized after log' ∧
      ((worklist.write - worklist.read = worklist.size → worklist.read ≤ worklist.write) →
        after.contents = worklist.contents ++ [p]) := by
  have positive : 0 < 2 ^ log := Nat.two_pow_pos _
  have fits := sized.fits
  rw [push] at pushed
  split at pushed
  next isFull =>
    rw [Outcome.bind_eq_next] at pushed
    obtain ⟨grown, grows, stored⟩ := pushed
    obtain rfl := Outcome.next.inj stored
    obtain ⟨sizedGrown, isGrown⟩ := grow_spec sized grows
    have hasRoom : grown.length + 1 ≤ 2 ^ (log + 1) := by
      rw [isGrown.length, pow_succ]
      omega
    obtain ⟨sizedAfter, contents⟩ := putMany_spec sizedGrown (fun _ => p) hasRoom
    refine ⟨log + 1, sizedAfter, ?_⟩
    intro inOrder
    rw [← isGrown.contents (inOrder isFull)]
    exact contents
  next notFull =>
    obtain rfl := Outcome.next.inj pushed
    rw [sized.isFull_iff] at notFull
    obtain ⟨sizedAfter, contents⟩ :=
      putMany_spec sized (fun _ => p) (by omega : worklist.length + 1 ≤ 2 ^ log)
    exact ⟨log, sizedAfter, fun _ => contents⟩

theorem push_of_not_full (notFull : worklist.write - worklist.read ≠ worklist.size) (p : Word) :
    worklist.push acquire p = .next (worklist.putNext p) := by
  rw [push, if_neg notFull]
  rfl

theorem push_of_full (isFull : worklist.write - worklist.read = worklist.size)
    (grows : worklist.grow acquire = .next grown) (p : Word) :
    worklist.push acquire p = .next (grown.putNext p) := by
  rw [push, if_pos isFull, grows]
  rfl

theorem push_ne_disabled (worklist : SimpleWorklist) (acquire : ℕ → Bool) (p : Word) :
    worklist.push acquire p ≠ .disabled := by
  rw [push]
  split
  · cases grows : worklist.grow acquire with
    | disabled => exact absurd grows (grow_ne_disabled worklist acquire)
    | failed failure => exact nofun
    | next grown => exact nofun
  · exact nofun

/-- The loop ends with room for the references, which are those there were if the indices were in
order. -/
theorem growUntil_spec (sized : Sized worklist log) {count : Word} {turns : ℕ}
    (grows : growUntil acquire count turns worklist = .next grown) :
    ∃ log', Sized grown log' ∧ grown.length + count.toNat ≤ 2 ^ log' ∧
      ((worklist.size - (worklist.write - worklist.read) < count → worklist.read ≤ worklist.write) →
        grown.contents = worklist.contents) := by
  induction turns generalizing worklist log with
  | zero => cases grows
  | succ turns inductionHypothesis =>
      rw [growUntil] at grows
      split at grows
      next needsRoom =>
        rw [Outcome.bind_eq_next] at grows
        obtain ⟨middle, isMiddle, grows⟩ := grows
        obtain ⟨sizedMiddle, isGrown⟩ := grow_spec sized isMiddle
        obtain ⟨log', sizedGrown, hasRoom, contents⟩ := inductionHypothesis sizedMiddle grows
        refine ⟨log', sizedGrown, hasRoom, ?_⟩
        intro inOrder
        rw [contents, isGrown.contents (inOrder needsRoom)]
        intro _
        rw [isGrown.read, isGrown.write]
        exact inOrder needsRoom
      next hasRoom =>
        obtain rfl := Outcome.next.inj grows
        rw [sized.needsRoom_iff] at hasRoom
        exact ⟨log, sized, Nat.le_of_not_lt hasRoom, fun _ => rfl⟩

/-- There are as many turns as a buffer can grow. -/
theorem growUntil_ne_disabled (sized : Sized worklist log) (count : Word) {turns : ℕ}
    (enough : 62 ≤ log + turns) : growUntil acquire count turns worklist ≠ .disabled := by
  induction turns generalizing worklist log with
  | zero =>
      have atMost := sized.atMost
      omega
  | succ turns inductionHypothesis =>
      rw [growUntil]
      split
      · cases grows : worklist.grow acquire with
        | disabled => exact absurd grows (grow_ne_disabled worklist acquire)
        | failed failure => exact nofun
        | next grown => exact inductionHypothesis (grow_spec sized grows).1 (by omega)
      · exact nofun

theorem pushMany_spec (sized : Sized worklist log) {pv : ℕ → Word} {count : Word}
    (pushed : worklist.pushMany acquire pv count = .next after) :
    ∃ log', Sized after log' ∧
      ((worklist.size - (worklist.write - worklist.read) < count → worklist.read ≤ worklist.write) →
        after.contents = worklist.contents ++ (List.range count.toNat).map pv) := by
  rw [pushMany, Outcome.bind_eq_next] at pushed
  obtain ⟨grown, grows, stored⟩ := pushed
  obtain rfl := Outcome.next.inj stored
  obtain ⟨log', sizedGrown, hasRoom, same⟩ := growUntil_spec sized grows
  obtain ⟨sizedAfter, contents⟩ := putMany_spec sizedGrown pv hasRoom
  refine ⟨log', sizedAfter, ?_⟩
  intro inOrder
  rw [← same inOrder]
  exact contents

theorem pushMany_of_room {count : Word}
    (hasRoom : ¬worklist.size - (worklist.write - worklist.read) < count)
    (pv : ℕ → Word) : worklist.pushMany acquire pv count =
      .next (worklist.putMany pv count.toNat) := by
  rw [pushMany, growUntil, if_neg hasRoom]
  rfl

theorem pushMany_ne_disabled (sized : Sized worklist log) (pv : ℕ → Word) (count : Word) :
    worklist.pushMany acquire pv count ≠ .disabled := by
  rw [pushMany]
  cases grows : growUntil acquire count 62 worklist with
  | disabled => exact absurd grows (growUntil_ne_disabled sized count (by omega))
  | failed failure => exact nofun
  | next grown => exact nofun

theorem contents_eq_cons {others : ℕ} (isLength : worklist.length = others + 1) :
    worklist.contents =
      worklist.entry 0 :: (List.range others).map fun offset => worklist.entry (offset + 1) := by
  rw [contents, isLength, List.range_succ_eq_map, List.map_cons, List.map_map]
  rfl

/-- A pop returns the first reference and leaves the others, or returns null and leaves the empty
worklist. -/
theorem pop_spec (sized : Sized worklist log) :
    Sized worklist.pop.2 log ∧ worklist.pop.1 = worklist.contents.head?.getD 0 ∧
      worklist.pop.2.contents = worklist.contents.tail := by
  by_cases isEmpty : worklist.read = worklist.write
  · rw [pop, if_pos isEmpty, contents_eq_nil isEmpty]
    exact ⟨sized, rfl, rfl⟩
  · have some : worklist.length ≠ 0 := (worklist.read_eq_write_iff.not).mp isEmpty
    obtain ⟨others, isLength⟩ := Nat.exists_eq_succ_of_ne_zero some
    have fits := sized.fits
    have bound := two_pow_le sized.atMost
    have afterLength : worklist.pop.2.length = others := by
      have readLt := worklist.read.isLt
      have writeLt := worklist.write.isLt
      have one : (1 : Word).toNat = 1 := rfl
      rw [length, BitVec.toNat_sub] at isLength
      rw [pop, if_neg isEmpty, length]
      dsimp only
      rw [BitVec.toNat_sub, BitVec.toNat_add, one]
      omega
    have afterEntry (offset : ℕ) : worklist.pop.2.entry offset = worklist.entry (offset + 1) := by
      rw [pop, if_neg isEmpty, entry, entry, BitVec.ofNat_add,
        BitVec.add_comm (BitVec.ofNat 64 offset),
        ← BitVec.add_assoc]
      rfl
    have first : worklist.pop.1 = worklist.entry 0 := by
      rw [pop, if_neg isEmpty, entry, BitVec.add_zero]
    refine ⟨⟨?_, sized.atMost, ?_⟩, ?_, ?_⟩
    · rw [pop, if_neg isEmpty]
      exact sized.size
    · omega
    · rw [first, contents_eq_cons isLength]
      rfl
    · rw [contents_eq_cons isLength, List.tail_cons, contents, afterLength]
      exact List.map_congr_left fun offset _ => afterEntry offset

/-- After a growth out of order the next pop returns null, whatever was pushed. -/
theorem pop_push_of_wrapped (sized : Sized worklist log)
    (isFull : worklist.write - worklist.read = worklist.size)
    (wrapped : ¬worklist.read ≤ worklist.write) (grows : worklist.grow acquire = .next grown)
    (p : Word) : (grown.putNext p).pop.1 = 0 := by
  obtain ⟨sizedGrown, isGrown⟩ := grow_spec sized grows
  have length : worklist.length = 2 ^ log := sized.isFull_iff.mp isFull
  have positive : 0 < 2 ^ log := Nat.two_pow_pos _
  have hasRoom : grown.length + 1 ≤ 2 ^ (log + 1) := by
    rw [isGrown.length, pow_succ]
    omega
  obtain ⟨sizedAfter, contents⟩ := putMany_spec sizedGrown (fun _ => p) hasRoom
  obtain ⟨others, isLength⟩ := Nat.exists_eq_succ_of_ne_zero
    (by rw [isGrown.length]; omega : grown.length ≠ 0)
  change (grown.putMany (fun _ => p) 1).pop.1 = 0
  rw [(pop_spec sizedAfter).2.1, contents, contents_eq_cons isLength, isGrown.entry 0 (by omega),
    if_neg wrapped]
  rfl

theorem release_spec (sized : Sized worklist log) :
    Sized worklist.release log ∧ worklist.release.contents = [] :=
  ⟨⟨sized.size, sized.atMost, length_le rfl _⟩, contents_eq_nil rfl⟩

end SimpleWorklist

/-! ## Runs -/

namespace SimpleRun

variable {pageSizeLog2 : ℕ} {run after : SimpleRun} {action : WorklistAction}

/-- When the worklist grows, `write` has not wrapped around without `read`. -/
def GrowsInOrder (run : SimpleRun) : WorklistAction → Prop
  | .push _ _ => run.worklist.write - run.worklist.read = run.worklist.size →
      run.worklist.read ≤ run.worklist.write
  | .pushMany _ _ count =>
      run.worklist.size - (run.worklist.write - run.worklist.read) < count →
        run.worklist.read ≤ run.worklist.write
  | .pop => True
  | .release => True

instance (run : SimpleRun) (action : WorklistAction) : Decidable (run.GrowsInOrder action) :=
  match action with
  | .push _ _ => inferInstanceAs (Decidable (_ → _))
  | .pushMany _ _ _ => inferInstanceAs (Decidable (_ → _))
  | .pop => inferInstanceAs (Decidable True)
  | .release => inferInstanceAs (Decidable True)

/-- The worklist holds the queue, and the pops returned what they should. -/
structure Refines (run : SimpleRun) : Prop where
  sized : ∃ log, run.worklist.Sized log
  contents : run.worklist.contents = run.queue
  returned : run.returned = run.expected

theorem initial_refines (atLeast : 3 ≤ pageSizeLog2) (atMost : pageSizeLog2 ≤ 63)
    (start : (system pageSizeLog2).initial run) : run.Refines := by
  obtain ⟨acquire, worklist, created, rfl⟩ := start
  obtain ⟨sized, empty⟩ := SimpleWorklist.init_spec atLeast atMost created
  exact ⟨⟨_, sized⟩, empty, rfl⟩

theorem Refines.step (refines : run.Refines) (inOrder : run.GrowsInOrder action)
    (stepped : run.step action = .next after) : after.Refines := by
  obtain ⟨⟨log, sized⟩, contents, returned⟩ := refines
  cases action with
  | push acquire p =>
      rw [SimpleRun.step, Outcome.bind_eq_next] at stepped
      obtain ⟨worklist, pushed, rest⟩ := stepped
      obtain rfl := Outcome.next.inj rest
      obtain ⟨log', sizedAfter, same⟩ := SimpleWorklist.push_spec sized pushed
      refine ⟨⟨log', sizedAfter⟩, ?_, returned⟩
      rw [← contents]
      exact same inOrder
  | pushMany acquire pv count =>
      rw [SimpleRun.step, Outcome.bind_eq_next] at stepped
      obtain ⟨worklist, pushed, rest⟩ := stepped
      obtain rfl := Outcome.next.inj rest
      obtain ⟨log', sizedAfter, same⟩ := SimpleWorklist.pushMany_spec sized pushed
      refine ⟨⟨log', sizedAfter⟩, ?_, returned⟩
      rw [← contents]
      exact same inOrder
  | pop =>
      obtain rfl := Outcome.next.inj stepped
      obtain ⟨sizedAfter, first, others⟩ := SimpleWorklist.pop_spec sized
      refine ⟨⟨log, sizedAfter⟩, ?_, ?_⟩
      · rw [← contents]
        exact others
      · rw [← contents, first, returned]
  | release =>
      obtain rfl := Outcome.next.inj stepped
      obtain ⟨sizedAfter, empty⟩ := SimpleWorklist.release_spec sized
      exact ⟨⟨log, sizedAfter⟩, empty, returned⟩

theorem Refines.step_ne_disabled (refines : run.Refines) (action : WorklistAction) :
    run.step action ≠ .disabled := by
  obtain ⟨⟨log, sized⟩, -, -⟩ := refines
  cases action with
  | push acquire p =>
      cases pushed : run.worklist.push acquire p with
      | disabled => exact absurd pushed (SimpleWorklist.push_ne_disabled _ _ _)
      | failed failure =>
          rw [SimpleRun.step, pushed]
          exact nofun
      | next worklist =>
          rw [SimpleRun.step, pushed]
          exact nofun
  | pushMany acquire pv count =>
      cases pushed : run.worklist.pushMany acquire pv count with
      | disabled => exact absurd pushed (SimpleWorklist.pushMany_ne_disabled sized pv count)
      | failed failure =>
          rw [SimpleRun.step, pushed]
          exact nofun
      | next worklist =>
          rw [SimpleRun.step, pushed]
          exact nofun
  | pop => exact nofun
  | release => exact nofun

theorem reachable_refines (atLeast : 3 ≤ pageSizeLog2) (atMost : pageSizeLog2 ≤ 63)
    (reached : (system pageSizeLog2).ReachableBy GrowsInOrder run) : run.Refines :=
  reached.invariant _ (fun _ start => initial_refines atLeast atMost start)
    fun _ _ _ refines inOrder stepped => refines.step inOrder stepped

/-- In every run that grows in order only, the pops returned the references of the queue in order,
the next pop returns null only if the queue is empty or has a null reference first, and every
operation ends. -/
theorem pops_queue (pageSizeLog2 : ℕ) (atLeast : 3 ≤ pageSizeLog2) (atMost : pageSizeLog2 ≤ 63)
    (run : SimpleRun) (reached : (system pageSizeLog2).ReachableBy GrowsInOrder run) :
    run.returned = run.expected ∧
      (run.worklist.pop.1 = 0 → run.queue = [] ∨ run.queue.head? = some 0) ∧
      ∀ action, run.step action ≠ .disabled := by
  have refines := reachable_refines atLeast atMost reached
  refine ⟨refines.returned, ?_, refines.step_ne_disabled⟩
  obtain ⟨log, sized⟩ := refines.sized
  intro isNull
  rw [(SimpleWorklist.pop_spec sized).2.1, refines.contents] at isNull
  cases isQueue : run.queue with
  | nil => exact .inl rfl
  | cons first others =>
      rw [isQueue] at isNull
      exact .inr (congrArg some isNull)

/-- 513 references are pushed, for which the worklist grows, and one is popped. -/
theorem pops_queue_growing :
    ∃ run, (system 12).ReachableBy GrowsInOrder run ∧ run.returned = [1] ∧ run.expected = [1] := by
  have ran : (System.runBy (system 12).step GrowsInOrder
      { worklist := { size := 512, read := 0, write := 0, buf := fun _ => 0 }
        queue := [], returned := [], expected := [] }
      [.pushMany (fun _ => true) (fun offset => BitVec.ofNat 64 (offset + 1)) 512,
        .push (fun _ => true) 7, .pop]).leadsTo
      (fun run => run.returned = [1]) = true := by
    decide +kernel
  obtain ⟨run, isRun, returned⟩ := Outcome.exists_next_of_leadsTo ran
  have reached : (system 12).ReachableBy GrowsInOrder run :=
    System.ReachableBy.of_runBy _ GrowsInOrder (fun _ _ inOrder => inOrder)
      (.initial ⟨fun _ => true, _, rfl, rfl⟩) _ isRun
  have same := (pops_queue 12 (by decide) (by decide) run reached).1
  exact ⟨run, reached, of_decide_eq_true returned, same.symm.trans (of_decide_eq_true returned)⟩

/-! ## A run that grows out of order -/

/-- An empty worklist of 512 entries with both indices at `idx`, after pops that were as
expected. -/
def emptyAt (idx : Word) (buf : ℕ → Word) (seen : List Word) : SimpleRun :=
  { worklist := { size := 512, read := idx, write := idx, buf := buf }
    queue := [], returned := seen, expected := seen }

theorem step_push {worklist : SimpleWorklist} {acquire : ℕ → Bool} {p : Word}
    (pushed : run.worklist.push acquire p = .next worklist) :
    (system pageSizeLog2).step run (.push acquire p) =
      .next { run with worklist := worklist, queue := run.queue ++ [p] } := by
  change run.step (.push acquire p) = _
  rw [step, pushed]
  rfl

theorem step_pushMany {worklist : SimpleWorklist} {acquire : ℕ → Bool} {pv : ℕ → Word}
    {count : Word}
    (pushed : run.worklist.pushMany acquire pv count = .next worklist) :
    (system pageSizeLog2).step run (.pushMany acquire pv count) =
      .next { run with
        worklist := worklist, queue := run.queue ++ (List.range count.toNat).map pv } := by
  change run.step (.pushMany acquire pv count) = _
  rw [step, pushed]
  rfl

theorem step_pop : (system pageSizeLog2).step run .pop =
    .next { worklist := run.worklist.pop.2
            queue := run.queue.tail
            returned := run.returned ++ [run.worklist.pop.1]
            expected := run.expected ++ [run.queue.head?.getD 0] } := rfl

/-- One reference is pushed and popped. -/
theorem reachable_round {buf : ℕ → Word} {seen : List Word} {idx : Word}
    (reached : (system 12).Reachable (emptyAt idx buf seen)) :
    ∃ buf, (system 12).Reachable (emptyAt (idx + 1) buf (seen ++ [1])) := by
  have sized : (emptyAt idx buf seen).worklist.Sized 9 :=
    ⟨rfl, by decide, SimpleWorklist.length_le rfl _⟩
  have notFull : idx - idx ≠ 512 := by
    rw [BitVec.sub_self]
    decide
  have notEmpty : idx ≠ idx + 1 := by
    intro same
    have sum : idx + 1 - idx = idx - idx := congrArg (· - idx) same.symm
    rw [BitVec.add_comm, BitVec.add_sub_cancel, BitVec.sub_self] at sum
    exact absurd sum (by decide)
  have pushed : (emptyAt idx buf seen).worklist.push (fun _ => true) 1 = .next _ :=
    SimpleWorklist.push_of_not_full notFull 1
  obtain ⟨log, sizedAfter, contents⟩ := SimpleWorklist.push_spec sized pushed
  have first := (SimpleWorklist.pop_spec sizedAfter).2.1
  rw [contents (fun isFull => absurd isFull notFull), SimpleWorklist.contents_eq_nil rfl] at first
  have popped := System.ReachableBy.step (.step reached trivial (step_push pushed)) trivial step_pop
  refine ⟨((emptyAt idx buf seen).worklist.putNext 1).buf, ?_⟩
  have others : ((emptyAt idx buf seen).worklist.putNext 1).pop.2 =
      { size := 512, read := idx + 1, write := idx + 1,
        buf := ((emptyAt idx buf seen).worklist.putNext 1).buf } :=
    congrArg Prod.snd (if_neg notEmpty)
  dsimp only at popped
  rw [first, others] at popped
  exact popped

/-- After as many pushes and pops in turn, both indices are the number of these. -/
theorem reachable_rounds (rounds : ℕ) : ∃ buf seen, (∀ p ∈ seen, p = 1) ∧
    (system 12).Reachable (emptyAt (BitVec.ofNat 64 rounds) buf seen) := by
  induction rounds with
  | zero => exact ⟨_, [], nofun, .initial ⟨fun _ => true, _, rfl, rfl⟩⟩
  | succ rounds inductionHypothesis =>
      obtain ⟨buf, seen, ones, reached⟩ := inductionHypothesis
      obtain ⟨after, reachedAfter⟩ := reachable_round reached
      refine ⟨after, seen ++ [1], ?_, ?_⟩
      · intro p member
        rcases List.mem_append.mp member with before | last
        · exact ones p before
        · exact List.mem_singleton.mp last
      · rw [BitVec.ofNat_add]
        exact reachedAfter

/-- The worklist is filled with `read` at the end of the indices, and grows: the next pop returns
null, though every reference that was pushed is 1. -/
theorem pops_queue_fails :
    ∃ run, (system 12).Reachable run ∧ 0 ∈ run.returned ∧ ∀ p ∈ run.expected, p = 1 := by
  obtain ⟨buf, seen, ones, reached⟩ := reachable_rounds (2 ^ 64 - 1)
  let last : Word := BitVec.ofNat 64 (2 ^ 64 - 1)
  let worklist := (emptyAt last buf seen).worklist
  let full := worklist.putMany (fun _ => 1) 512
  have sized : worklist.Sized 9 := ⟨rfl, by decide, SimpleWorklist.length_le rfl _⟩
  have empty : worklist.length = 0 := worklist.read_eq_write_iff.mp rfl
  have filled : worklist.pushMany (fun _ => true) (fun _ => 1) 512 = .next full := by
    apply SimpleWorklist.pushMany_of_room
    rw [sized.needsRoom_iff, empty]
    decide
  obtain ⟨write, read, -⟩ := SimpleWorklist.putMany_eq worklist (fun _ => 1) 512
  obtain ⟨sizedFull, contents⟩ := SimpleWorklist.putMany_spec sized (fun _ => 1)
    (by rw [empty]; decide : worklist.length + 512 ≤ 2 ^ 9)
  have length : full.length = 512 := by
    rw [← SimpleWorklist.length_contents, contents, SimpleWorklist.contents_eq_nil rfl,
      List.nil_append, List.length_map, List.length_range]
  have isFull : full.write - full.read = full.size := sizedFull.isFull_iff.mpr length
  have wrapped : ¬full.read ≤ full.write := by
    have overflows : ¬last ≤ last + BitVec.ofNat 64 512 := by
      subst last
      decide
    rw [read, write]
    exact overflows
  obtain ⟨grown, grows⟩ :=
    SimpleWorklist.exists_grow ((SimpleWorklist.size_lt_max_iff sizedFull).mpr (by decide))
  have pushed := SimpleWorklist.push_of_full isFull grows 1
  have popped := System.ReachableBy.step (.step (.step reached trivial (step_pushMany filled))
    trivial (step_push pushed)) trivial step_pop
  refine ⟨_, popped, ?_, ?_⟩
  · apply List.mem_append_right
    rw [List.mem_singleton]
    exact (SimpleWorklist.pop_push_of_wrapped sizedFull isFull wrapped grows 1).symm
  · intro p member
    rcases List.mem_append.mp member with before | isLast
    · exact ones p before
    · have count : (512 : Word).toNat = 511 + 1 := rfl
      rw [List.mem_singleton.mp isLast, count, List.range_succ_eq_map]
      rfl

end SimpleRun

end Whippet.Worklist
