import Mathlib.Data.Int.ModEq
import Mathlib.Data.List.Basic
import Whippet.Library.Checked

/-!
The work-stealing deque of a worker (`shared-worklist.h`), as its owner sees it.

References are pushed at `bottom` and stolen at `top`. Both indices only grow, and wrap around as
values of type `size_t`; an index selects an entry of the active buffer by its low bits. When a
buffer is full, the entries from `top` to `bottom` are copied to one of twice its size.

Owns: buffers, their growth, `shared_worklist_push`, `shared_worklist_push_many` and what one of
these does to the entries. Does not own: stealing and popping.
-/

namespace Whippet.Worklist

/-- A `size_t` that counts entries without bound, or a `struct gc_ref`. -/
abbrev Word := BitVec 64

def minLogSize : ℕ := 10
def maxLogSize : ℕ := 28

/-- `struct shared_worklist_buf`. -/
structure WorklistBuf where
  logSize : ℕ
  size : Word
  data : ℕ → Word

/-- `struct shared_worklist`. -/
structure SharedWorklist where
  bottom : Word
  top : Word
  active : ℕ
  bufs : ℕ → WorklistBuf

inductive WorklistFailure where
  /-- An assertion on the size of a buffer. -/
  | sizeAssertion
  /-- `failed to grow deque!!` -/
  | growFailed
  deriving DecidableEq, Repr

namespace WorklistBuf

variable (buf : WorklistBuf)

/-- `i & (buf->size - 1)`. -/
def slot (index : Word) : ℕ := (index &&& (buf.size - 1)).toNat

/-- `shared_worklist_buf_get`. -/
def get (index : Word) : Word := buf.data (buf.slot index)

/-- `shared_worklist_buf_put`. -/
def put (index ref : Word) : WorklistBuf :=
  { buf with data := Function.update buf.data (buf.slot index) ref }

/-- A buffer in memory that was just acquired, which is zero. -/
def zeroed (logSize : ℕ) : WorklistBuf :=
  { logSize := logSize, size := BitVec.ofNat 64 (2 ^ logSize), data := fun _ => 0 }

/-- `shared_worklist_buf_init`. -/
def init (acquire : ℕ → Bool) (logSize : ℕ) : Outcome WorklistFailure WorklistBuf := do
  Outcome.check (minLogSize ≤ logSize ∧ logSize ≤ maxLogSize) .sizeAssertion
  Outcome.check (acquire (2 ^ logSize * 8) = true) .growFailed
  pure (zeroed logSize)

/-- `for (size_t i=t; i<b; i++)`, with as many turns as are left before `i` is `b`. -/
def copyEntries (bottom : Word) : ℕ → Word → WorklistBuf → WorklistBuf
  | 0, _, target => target
  | turns + 1, index, target =>
      if index < bottom then
        copyEntries bottom turns (index + 1) (target.put index (buf.get index))
      else target

/-- `shared_worklist_buf_grow`. -/
def grow (acquire : ℕ → Bool) (bottom top : Word) : Outcome WorklistFailure WorklistBuf := do
  Outcome.check (buf.logSize ≠ maxLogSize) .growFailed
  let target ← init acquire (buf.logSize + 1)
  pure (buf.copyEntries bottom (bottom.toNat - top.toNat) top target)

/-- `for (size_t i = 0; i < count; i++)`, after `count` turns. -/
def putMany (bottom : Word) (objv : ℕ → Word) : ℕ → WorklistBuf
  | 0 => buf
  | count + 1 => (putMany bottom objv count).put (bottom + BitVec.ofNat 64 count) (objv count)

end WorklistBuf

namespace SharedWorklist

variable (worklist : SharedWorklist)

/-- `shared_worklist_init`. -/
def init (acquire : ℕ → Bool) : Outcome WorklistFailure SharedWorklist := do
  let buf ← WorklistBuf.init acquire minLogSize
  pure { bottom := 0, top := 0, active := 0,
         bufs := Function.update (fun _ => { logSize := 0, size := 0, data := fun _ => 0 }) 0 buf }

/-- `shared_worklist_grow`, which also returns the number of the new buffer. -/
def grow (acquire : ℕ → Bool) (current : ℕ) (bottom top : Word) :
    Outcome WorklistFailure (SharedWorklist × ℕ) := do
  let target ← (worklist.bufs current).grow acquire bottom top
  pure ({ worklist with
    bufs := Function.update worklist.bufs (current + 1) target, active := current + 1 },
      current + 1)

/-- `shared_worklist_push`. -/
def push (acquire : ℕ → Bool) (ref : Word) : Outcome WorklistFailure SharedWorklist := do
  let bottom := worklist.bottom
  let top := worklist.top
  let size := bottom - top
  let (grown, active) ←
    if (worklist.bufs worklist.active).size - 1 < size then
      worklist.grow acquire worklist.active bottom top
    else pure (worklist, worklist.active)
  pure { grown with
    bufs := Function.update grown.bufs active ((grown.bufs active).put bottom ref)
    bottom := bottom + 1 }

/-- `while (size > shared_worklist_buf_size (&q->bufs[active]) - count)`, with a number of turns. -/
def growUntil (acquire : ℕ → Bool) (bottom top count : Word) :
    ℕ → SharedWorklist → ℕ → Outcome WorklistFailure (SharedWorklist × ℕ)
  | 0, _, _ => .disabled
  | turns + 1, worklist, active =>
      if (worklist.bufs active).size - count < bottom - top then do
        let (grown, active) ← worklist.grow acquire active bottom top
        growUntil acquire bottom top count turns grown active
      else pure (worklist, active)

/-- `shared_worklist_push_many`. The loop grows the buffer at most to its greatest size. -/
def pushMany (acquire : ℕ → Bool) (objv : ℕ → Word) (count : Word) :
    Outcome WorklistFailure SharedWorklist := do
  let bottom := worklist.bottom
  let top := worklist.top
  let (grown, active) ←
    growUntil acquire bottom top count (maxLogSize + 1) worklist worklist.active
  pure { grown with
    bufs := Function.update grown.bufs active
      ((grown.bufs active).putMany bottom objv count.toNat)
    bottom := bottom + count }

/-- Pushes references one by one. -/
def pushEach (acquire : ℕ → Bool) : List Word → SharedWorklist →
    Outcome WorklistFailure SharedWorklist
  | [], worklist => pure worklist
  | ref :: rest, worklist => do
      let after ← worklist.push acquire ref
      pushEach acquire rest after

/-- The number of references between the two indices. -/
def length : ℕ := (worklist.bottom - worklist.top).toNat

/-- The reference that is `offset` entries below the top. -/
def entry (offset : ℕ) : Word :=
  (worklist.bufs worklist.active).get (worklist.top + BitVec.ofNat 64 offset)

/-- The references in the deque, in the order in which they can be stolen. -/
def contents : List Word := (List.range worklist.length).map worklist.entry

/-- How many references the active buffer can hold. -/
def room : ℕ := 2 ^ (minLogSize + worklist.active)

/-- The active buffer has the size that belongs to its number, and the deque fits in it. -/
structure WellFormed : Prop where
  logSize : (worklist.bufs worklist.active).logSize = minLogSize + worklist.active
  atMost : minLogSize + worklist.active ≤ maxLogSize
  size : (worklist.bufs worklist.active).size = BitVec.ofNat 64 worklist.room
  fits : worklist.length ≤ worklist.room

end SharedWorklist

/-! ## Entries of a buffer -/

namespace WorklistBuf

variable {buf source target : WorklistBuf} {log : ℕ} {start : Word}

/-- The entry that an index selects. -/
theorem slot_eq (small : log < 64) (sized : buf.size = BitVec.ofNat 64 (2 ^ log)) (index : Word) :
    buf.slot index = index.toNat % 2 ^ log := by
  have isPower : (2 : ℕ) ^ log < 2 ^ 64 := Nat.pow_lt_pow_right (by omega) small
  have positive := Nat.two_pow_pos log
  have isMask : (BitVec.ofNat 64 (2 ^ log) - 1).toNat = 2 ^ log - 1 := by
    rw [BitVec.toNat_sub_of_le]
    · rw [BitVec.toNat_ofNat, Nat.mod_eq_of_lt isPower]
      rfl
    · rw [BitVec.le_def, BitVec.toNat_ofNat, Nat.mod_eq_of_lt isPower]
      exact positive
  rw [slot, sized, BitVec.toNat_and, isMask, Nat.and_two_pow_sub_one_eq_mod]

theorem slot_add (small : log < 64) (sized : buf.size = BitVec.ofNat 64 (2 ^ log)) (start : Word)
    (offset : ℕ) :
    buf.slot (start + BitVec.ofNat 64 offset) = (start.toNat + offset) % 2 ^ log := by
  have divides : 2 ^ log ∣ 2 ^ 64 := Nat.pow_dvd_pow 2 small.le
  rw [slot_eq small sized, BitVec.toNat_add, BitVec.toNat_ofNat, Nat.add_mod_mod,
    Nat.mod_mod_of_dvd _ divides]

/-- Less than a buffer's size apart, two indices select two entries. -/
theorem slot_injective (small : log < 64) (sized : buf.size = BitVec.ofNat 64 (2 ^ log))
    {left right : ℕ} (leftLt : left < 2 ^ log) (rightLt : right < 2 ^ log)
    (same : buf.slot (start + BitVec.ofNat 64 left) = buf.slot (start + BitVec.ofNat 64 right)) :
    left = right := by
  rw [slot_add small sized, slot_add small sized] at same
  have congruent : left ≡ right [MOD 2 ^ log] := Nat.ModEq.add_left_cancel' start.toNat same
  rwa [Nat.ModEq, Nat.mod_eq_of_lt leftLt, Nat.mod_eq_of_lt rightLt] at congruent

@[simp] theorem put_size (index ref : Word) : (buf.put index ref).size = buf.size := rfl

@[simp] theorem put_logSize (index ref : Word) : (buf.put index ref).logSize = buf.logSize := rfl

/-- What a buffer holds after one entry was written. -/
theorem get_put (small : log < 64) (sized : buf.size = BitVec.ofNat 64 (2 ^ log))
    {left right : ℕ} (leftLt : left < 2 ^ log) (rightLt : right < 2 ^ log) (ref : Word) :
    (buf.put (start + BitVec.ofNat 64 left) ref).get (start + BitVec.ofNat 64 right) =
      if right = left then ref else buf.get (start + BitVec.ofNat 64 right) := by
  by_cases same : right = left
  · rw [if_pos same, same]
    exact Function.update_self ..
  · rw [if_neg same]
    apply Function.update_of_ne
    intro sameSlot
    exact same (slot_injective small sized rightLt leftLt sameSlot)

@[simp] theorem putMany_size (bottom : Word) (objv : ℕ → Word) (count : ℕ) :
    (buf.putMany bottom objv count).size = buf.size := by
  induction count with
  | zero => rfl
  | succ count inductionHypothesis => exact inductionHypothesis

@[simp] theorem putMany_logSize (bottom : Word) (objv : ℕ → Word) (count : ℕ) :
    (buf.putMany bottom objv count).logSize = buf.logSize := by
  induction count with
  | zero => rfl
  | succ count inductionHypothesis => exact inductionHypothesis

/-- What a buffer holds after the references were written, if there is room for them. -/
theorem get_putMany (small : log < 64) (sized : buf.size = BitVec.ofNat 64 (2 ^ log)) {length : ℕ}
    (objv : ℕ → Word) (count : ℕ) (hasRoom : length + count ≤ 2 ^ log) {offset : ℕ}
    (inRange : offset < 2 ^ log) :
    (buf.putMany (start + BitVec.ofNat 64 length) objv count).get
        (start + BitVec.ofNat 64 offset) =
      if length ≤ offset ∧ offset < length + count then objv (offset - length)
      else buf.get (start + BitVec.ofNat 64 offset) := by
  induction count with
  | zero =>
      rw [putMany, if_neg (by omega)]
  | succ count inductionHypothesis =>
      have sizedBefore : (buf.putMany (start + BitVec.ofNat 64 length) objv count).size =
          BitVec.ofNat 64 (2 ^ log) := (putMany_size _ _ _).trans sized
      rw [putMany, BitVec.add_assoc, ← BitVec.ofNat_add,
        get_put small sizedBefore (by omega) inRange, inductionHypothesis (by omega)]
      by_cases isLast : offset = length + count
      · rw [if_pos isLast, if_pos (by omega), isLast, Nat.add_sub_cancel_left]
      · rw [if_neg isLast]
        by_cases isEarlier : length ≤ offset ∧ offset < length + count
        · rw [if_pos isEarlier, if_pos (by omega)]
        · rw [if_neg isEarlier, if_neg (by omega)]

@[simp] theorem copyEntries_size (bottom : Word) (turns : ℕ) (index : Word) :
    (source.copyEntries bottom turns index target).size = target.size := by
  induction turns generalizing index target with
  | zero => rfl
  | succ turns inductionHypothesis =>
      rw [copyEntries]
      split
      · rw [inductionHypothesis, put_size]
      · rfl

@[simp] theorem copyEntries_logSize (bottom : Word) (turns : ℕ) (index : Word) :
    (source.copyEntries bottom turns index target).logSize = target.logSize := by
  induction turns generalizing index target with
  | zero => rfl
  | succ turns inductionHypothesis =>
      rw [copyEntries]
      split
      · rw [inductionHypothesis, put_logSize]
      · rfl

/-- The loop copies the entries from the index on, if the index does not wrap around before it is
`bottom`. -/
theorem get_copyEntries (small : log < 64) (sized : target.size = BitVec.ofNat 64 (2 ^ log))
    {bottom : Word} (turns done : ℕ) (isBottom : start.toNat + done + turns = bottom.toNat)
    (hasRoom : done + turns ≤ 2 ^ log) {offset : ℕ} (inRange : offset < 2 ^ log) :
    (source.copyEntries bottom turns (start + BitVec.ofNat 64 done) target).get
        (start + BitVec.ofNat 64 offset) =
      if done ≤ offset ∧ offset < done + turns then source.get (start + BitVec.ofNat 64 offset)
      else target.get (start + BitVec.ofNat 64 offset) := by
  induction turns generalizing done target with
  | zero => rw [copyEntries, if_neg (by omega)]
  | succ turns inductionHypothesis =>
      have below : start + BitVec.ofNat 64 done < bottom := by
        have bottomLt := bottom.isLt
        rw [BitVec.lt_def, BitVec.toNat_add, BitVec.toNat_ofNat, Nat.add_mod_mod, Nat.mod_eq_of_lt]
        · omega
        · omega
      have isNext : start + BitVec.ofNat 64 done + 1 = start + BitVec.ofNat 64 (done + 1) := by
        rw [BitVec.ofNat_add, BitVec.add_assoc]
        rfl
      rw [copyEntries, if_pos below, isNext,
        inductionHypothesis ((put_size _ _).trans sized) (done + 1) (by omega) (by omega),
        get_put small sized (by omega) inRange]
      by_cases isThis : offset = done
      · rw [if_neg (by omega), if_pos isThis, if_pos (by omega), isThis]
      · rw [if_neg isThis]
        by_cases isLater : done + 1 ≤ offset ∧ offset < done + 1 + turns
        · rw [if_pos isLater, if_pos (by omega)]
        · rw [if_neg isLater, if_neg (by omega)]

/-- The loop from `top` on copies all entries, or none if `bottom` wrapped around and `top` did
not. -/
theorem get_copyEntries_top (small : log < 64) (sized : target.size = BitVec.ofNat 64 (2 ^ log))
    {bottom top : Word} (fits : (bottom - top).toNat ≤ 2 ^ log) {offset : ℕ}
    (inRange : offset < (bottom - top).toNat) :
    (source.copyEntries bottom (bottom.toNat - top.toNat) top target).get
        (top + BitVec.ofNat 64 offset) =
      if top ≤ bottom then source.get (top + BitVec.ofNat 64 offset)
      else target.get (top + BitVec.ofNat 64 offset) := by
  by_cases ordered : top ≤ bottom
  · have isLength : (bottom - top).toNat = bottom.toNat - top.toNat :=
      BitVec.toNat_sub_of_le ordered
    have below : top.toNat ≤ bottom.toNat := ordered
    have copied : (source.copyEntries bottom (bottom.toNat - top.toNat) (top + BitVec.ofNat 64 0)
        target).get (top + BitVec.ofNat 64 offset) = _ :=
      get_copyEntries small sized _ 0 (by omega) (by omega) (by omega)
    rw [BitVec.add_zero] at copied
    rw [if_pos ordered, copied, if_pos (by omega)]
  · have isOver : bottom.toNat - top.toNat = 0 := by
      rw [BitVec.le_def] at ordered
      omega
    rw [if_neg ordered, isOver]
    rfl

/-- What a grown buffer holds: nothing if `bottom` wrapped around and `top` did not. -/
theorem grow_spec {acquire : ℕ → Bool} {bottom top : Word}
    (grows : buf.grow acquire bottom top = .next target)
    (fits : (bottom - top).toNat ≤ 2 ^ (buf.logSize + 1)) :
    (buf.logSize ≠ maxLogSize ∧ minLogSize ≤ buf.logSize + 1 ∧ buf.logSize + 1 ≤ maxLogSize ∧
      acquire (2 ^ (buf.logSize + 1) * 8) = true) ∧
    target.logSize = buf.logSize + 1 ∧
    target.size = BitVec.ofNat 64 (2 ^ (buf.logSize + 1)) ∧
    ∀ offset < (bottom - top).toNat, target.get (top + BitVec.ofNat 64 offset) =
      if top ≤ bottom then buf.get (top + BitVec.ofNat 64 offset) else 0 := by
  rw [grow, Outcome.check_bind_eq_next, init, Outcome.bind_eq_next] at grows
  obtain ⟨notMax, fresh, isFresh, grows⟩ := grows
  rw [Outcome.check_bind_eq_next, Outcome.check_bind_eq_next, Outcome.pure_eq_next,
    Outcome.next.injEq] at isFresh
  obtain ⟨⟨atLeast, atMost⟩, acquired, rfl⟩ := isFresh
  obtain rfl := Outcome.next.inj grows
  have small : buf.logSize + 1 < 64 := by
    rw [maxLogSize] at atMost
    omega
  refine ⟨⟨notMax, atLeast, atMost, acquired⟩, copyEntries_logSize .., copyEntries_size .., ?_⟩
  intro offset inRange
  exact get_copyEntries_top small rfl fits inRange

end WorklistBuf

end Whippet.Worklist
