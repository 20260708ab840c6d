import Whippet.Worklist.Deque

/-!
Pushing many references at once, compared with pushing them one by one.

Owns: what a push does to the references in the deque, when `shared_worklist_push_many` keeps them
all, and when repeated pushes do. Does not own: the deque.
-/

namespace Whippet.Worklist.SharedWorklist

open Function

variable {acquire : ℕ → Bool} {worklist grown after : SharedWorklist}

/-- There is memory for a buffer of twice the size of the active one. -/
def CanGrow (acquire : ℕ → Bool) (worklist : SharedWorklist) : Prop :=
  minLogSize + worklist.active < maxLogSize ∧ acquire (2 * worklist.room * 8) = true

/-- The references are written below `bottom`. -/
def store (worklist : SharedWorklist) (objv : ℕ → Word) (count : Word) : SharedWorklist :=
  { worklist with
    bufs := update worklist.bufs worklist.active
      ((worklist.bufs worklist.active).putMany worklist.bottom objv count.toNat)
    bottom := worklist.bottom + count }

/-- A new deque is empty. -/
theorem init_spec (created : init acquire = .next worklist) :
    worklist.WellFormed ∧ worklist.contents = [] ∧ worklist.room = 1024 := by
  rw [init, WorklistBuf.init, Outcome.bind_eq_next] at created
  obtain ⟨buf, isBuf, created⟩ := created
  rw [Outcome.check_bind_eq_next, Outcome.check_bind_eq_next] at isBuf
  obtain rfl := Outcome.next.inj isBuf.2.2
  obtain rfl := Outcome.next.inj created
  exact ⟨⟨rfl, by decide, rfl, Nat.zero_le _⟩, rfl, rfl⟩

/-! ## Growth -/

theorem room_pos (worklist : SharedWorklist) : 0 < worklist.room := Nat.two_pow_pos _

theorem WellFormed.room_le (wellFormed : worklist.WellFormed) : worklist.room ≤ 2 ^ 28 :=
  Nat.pow_le_pow_right (by omega) wellFormed.atMost

theorem WellFormed.small (wellFormed : worklist.WellFormed) :
    minLogSize + worklist.active < 64 := by
  have atMost := wellFormed.atMost
  rw [maxLogSize] at atMost
  omega

theorem WellFormed.size_toNat (wellFormed : worklist.WellFormed) :
    (worklist.bufs worklist.active).size.toNat = worklist.room := by
  have roomLe := wellFormed.room_le
  rw [wellFormed.size, BitVec.toNat_ofNat, Nat.mod_eq_of_lt (by omega)]

theorem bottom_eq (worklist : SharedWorklist) :
    worklist.bottom = worklist.top + BitVec.ofNat 64 worklist.length := by
  rw [length, BitVec.ofNat_toNat, BitVec.setWidth_eq, BitVec.add_comm, BitVec.sub_add_cancel]

/-- What is there after the deque grew. -/
structure Grown (worklist grown : SharedWorklist) : Prop where
  wellFormed : grown.WellFormed
  bottom : grown.bottom = worklist.bottom
  top : grown.top = worklist.top
  active : grown.active = worklist.active + 1
  entry : ∀ offset < worklist.length, grown.entry offset =
    if worklist.top ≤ worklist.bottom then worklist.entry offset else 0

theorem Grown.length (isGrown : Grown worklist grown) : grown.length = worklist.length := by
  rw [SharedWorklist.length, SharedWorklist.length, isGrown.bottom, isGrown.top]

theorem Grown.room (isGrown : Grown worklist grown) : grown.room = 2 * worklist.room := by
  rw [SharedWorklist.room, SharedWorklist.room, isGrown.active, ← Nat.add_assoc, Nat.pow_succ,
    Nat.mul_comm]

theorem grow_spec (wellFormed : worklist.WellFormed) {active : ℕ}
    (grows : worklist.grow acquire worklist.active worklist.bottom worklist.top =
      .next (grown, active)) :
    CanGrow acquire worklist ∧ Grown worklist grown ∧ active = grown.active := by
  rw [grow, Outcome.bind_eq_next] at grows
  obtain ⟨target, isTarget, grows⟩ := grows
  rw [Outcome.pure_eq_next, Outcome.next.injEq, Prod.mk.injEq] at grows
  obtain ⟨rfl, rfl⟩ := grows
  have isDouble : 2 ^ (minLogSize + worklist.active + 1) = 2 * worklist.room := by
    rw [Nat.pow_succ, Nat.mul_comm, room]
  have fits := wellFormed.fits
  obtain ⟨⟨notMax, -, atMost, acquired⟩, logSize, size, entries⟩ :=
    WorklistBuf.grow_spec isTarget (by rw [wellFormed.logSize, isDouble, ← length]; omega)
  rw [wellFormed.logSize] at notMax atMost acquired logSize size
  rw [isDouble] at acquired
  refine ⟨⟨by omega, acquired⟩, ⟨⟨?_, atMost, ?_, ?_⟩, rfl, rfl, rfl, ?_⟩, rfl⟩
  · dsimp only
    rw [update_self, logSize, Nat.add_assoc]
  · dsimp only
    rw [update_self, size]
    rfl
  · rw [room, ← Nat.add_assoc, isDouble]
    change worklist.length ≤ _
    omega
  · intro offset inRange
    rw [entry]
    dsimp only
    rw [update_self]
    exact entries offset inRange

theorem exists_grow (wellFormed : worklist.WellFormed) (canGrow : CanGrow acquire worklist) :
    ∃ grown, worklist.grow acquire worklist.active worklist.bottom worklist.top =
      .next (grown, grown.active) := by
  have isDouble : 2 ^ (minLogSize + worklist.active + 1) = 2 * worklist.room := by
    rw [Nat.pow_succ, Nat.mul_comm, room]
  obtain ⟨belowMax, acquired⟩ := canGrow
  rw [grow, WorklistBuf.grow, wellFormed.logSize, Outcome.check_bind (by omega), WorklistBuf.init,
    Outcome.check_bind ⟨by omega, by omega⟩, isDouble, Outcome.check_bind acquired]
  exact ⟨_, rfl⟩

/-! ## References that are written -/

/-- What is there after references were written for which there was room. -/
structure Stored (worklist : SharedWorklist) (objv : ℕ → Word) (count : ℕ)
    (after : SharedWorklist) : Prop where
  wellFormed : after.WellFormed
  length : after.length = worklist.length + count
  top : after.top = worklist.top
  active : after.active = worklist.active
  entry : ∀ offset < worklist.room, after.entry offset =
    if worklist.length ≤ offset ∧ offset < worklist.length + count then
      objv (offset - worklist.length)
    else worklist.entry offset

theorem Stored.room {objv : ℕ → Word} {count : ℕ} (stored : Stored worklist objv count after) :
    after.room = worklist.room := by
  rw [SharedWorklist.room, SharedWorklist.room, stored.active]

theorem store_spec (wellFormed : worklist.WellFormed) (objv : ℕ → Word) {count : Word}
    (hasRoom : worklist.length + count.toNat ≤ worklist.room) :
    Stored worklist objv count.toNat (worklist.store objv count) := by
  have roomLe := wellFormed.room_le
  have isLength : (worklist.store objv count).length = worklist.length + count.toNat := by
    have isBottom : worklist.bottom + count - worklist.top =
        (worklist.bottom - worklist.top) + count := by
      rw [BitVec.sub_eq_add_neg, BitVec.sub_eq_add_neg, BitVec.add_assoc, BitVec.add_assoc,
        BitVec.add_comm count]
    rw [length, length, store, isBottom, BitVec.toNat_add, Nat.mod_eq_of_lt]
    rw [← length]
    omega
  refine ⟨⟨?_, wellFormed.atMost, ?_, ?_⟩, isLength, rfl, rfl, ?_⟩
  · dsimp only [store]
    rw [update_self, WorklistBuf.putMany_logSize, wellFormed.logSize]
  · dsimp only [store]
    rw [update_self, WorklistBuf.putMany_size, wellFormed.size]
    rfl
  · rw [isLength]
    exact hasRoom
  · intro offset inRange
    rw [entry, entry]
    dsimp only [store]
    rw [update_self, bottom_eq worklist,
      WorklistBuf.get_putMany wellFormed.small wellFormed.size objv count.toNat hasRoom inRange]

theorem Stored.canGrow_iff {objv : ℕ → Word} {count : ℕ}
    (stored : Stored worklist objv count after) :
    CanGrow acquire after ↔ CanGrow acquire worklist := by
  rw [CanGrow, CanGrow, stored.active, stored.room]

/-- The references in the deque, followed by those that were written. -/
theorem Stored.contents {objv : ℕ → Word} {count : ℕ} (stored : Stored worklist objv count after)
    (hasRoom : worklist.length + count ≤ worklist.room) :
    after.contents = worklist.contents ++ (List.range count).map objv := by
  rw [SharedWorklist.contents, stored.length, List.range_add, List.map_append, List.map_map]
  congr 1
  · apply List.map_congr_left
    intro offset member
    have below := List.mem_range.mp member
    rw [stored.entry offset (by omega), if_neg (by omega)]
  · apply List.map_congr_left
    intro offset member
    have below := List.mem_range.mp member
    rw [comp_apply, stored.entry _ (by omega), if_pos (by omega), Nat.add_sub_cancel_left]

theorem store_size (worklist : SharedWorklist) (objv : ℕ → Word) (count : Word) :
    ((worklist.store objv count).bufs (worklist.store objv count).active).size =
      (worklist.bufs worklist.active).size := by
  dsimp only [store]
  rw [update_self, WorklistBuf.putMany_size]

/-! ## One reference -/

theorem push_eq (ref : Word) : worklist.push acquire ref =
    (if (worklist.bufs worklist.active).size - 1 < worklist.bottom - worklist.top then
      worklist.grow acquire worklist.active worklist.bottom worklist.top
    else pure (worklist, worklist.active)) >>= fun grown =>
      pure { grown.1 with
        bufs := update grown.1.bufs grown.2
          ((grown.1.bufs grown.2).putMany worklist.bottom (fun _ => ref) 1)
        bottom := worklist.bottom + 1 } := by
  rw [push]
  have same : ∀ buf : WorklistBuf, buf.putMany worklist.bottom (fun _ => ref) 1 =
      buf.put worklist.bottom ref := by
    intro buf
    rw [WorklistBuf.putMany, WorklistBuf.putMany, BitVec.add_zero]
  simp only [same]
  split
  · rfl
  · rfl

theorem isFull_iff (wellFormed : worklist.WellFormed) :
    (worklist.bufs worklist.active).size - 1 < worklist.bottom - worklist.top ↔
      worklist.length = worklist.room := by
  have fits := wellFormed.fits
  have positive := worklist.room_pos
  have roomLe := wellFormed.room_le
  rw [BitVec.lt_def, ← length, BitVec.toNat_sub_of_le, wellFormed.size_toNat]
  · change worklist.room - 1 < worklist.length ↔ _
    omega
  · rw [BitVec.le_def, wellFormed.size_toNat]
    exact positive

theorem push_of_not_full (wellFormed : worklist.WellFormed)
    (notFull : worklist.length < worklist.room) (ref : Word) :
    worklist.push acquire ref = .next (worklist.store (fun _ => ref) 1) := by
  rw [push_eq, if_neg]
  · rfl
  · rw [isFull_iff wellFormed]
    omega

theorem push_of_full (wellFormed : worklist.WellFormed) (isFull : worklist.length = worklist.room)
    (ref : Word) : worklist.push acquire ref =
      worklist.grow acquire worklist.active worklist.bottom worklist.top >>= fun grown =>
        pure { grown.1 with
          bufs := update grown.1.bufs grown.2
            ((grown.1.bufs grown.2).putMany worklist.bottom (fun _ => ref) 1)
          bottom := worklist.bottom + 1 } := by
  rw [push_eq, if_pos ((isFull_iff wellFormed).mpr isFull)]

/-- The deque to which a push adds: the one there was, or one that grew because that was full. -/
structure HasPlace (worklist middle : SharedWorklist) : Prop where
  wellFormed : middle.WellFormed
  top : middle.top = worklist.top
  length : middle.length = worklist.length
  hasRoom : middle.length + 1 ≤ middle.room
  isSame : worklist.length < worklist.room → middle = worklist
  isGrown : worklist.length = worklist.room → Grown worklist middle

/-- What a push does. -/
theorem push_spec (wellFormed : worklist.WellFormed) {ref : Word}
    (pushed : worklist.push acquire ref = .next after) :
    ∃ middle, HasPlace worklist middle ∧ Stored middle (fun _ => ref) 1 after := by
  rcases Nat.lt_or_eq_of_le wellFormed.fits with notFull | isFull
  · rw [push_of_not_full wellFormed notFull, Outcome.next.injEq] at pushed
    rw [← pushed]
    refine ⟨worklist, ⟨wellFormed, rfl, rfl, notFull, fun _ => rfl, ?_⟩,
      @store_spec _ wellFormed (fun _ => ref) 1 notFull⟩
    intro isFull
    omega
  · rw [push_of_full wellFormed isFull, Outcome.bind_eq_next] at pushed
    obtain ⟨⟨grown, active⟩, grows, pushed⟩ := pushed
    obtain ⟨-, isGrown, rfl⟩ := grow_spec wellFormed grows
    have positive := worklist.room_pos
    have hasRoom : grown.length + 1 ≤ grown.room := by
      rw [isGrown.length, isGrown.room]
      omega
    refine ⟨grown, ⟨isGrown.wellFormed, isGrown.top, isGrown.length, hasRoom, ?_, fun _ => isGrown⟩,
      ?_⟩
    · intro notFull
      omega
    · rw [← Outcome.next.inj pushed, ← isGrown.bottom]
      exact @store_spec _ isGrown.wellFormed (fun _ => ref) 1 hasRoom

theorem exists_push (wellFormed : worklist.WellFormed)
    (hasPlace : worklist.length < worklist.room ∨ CanGrow acquire worklist) (ref : Word) :
    ∃ after, worklist.push acquire ref = .next after := by
  rcases Nat.lt_or_eq_of_le wellFormed.fits with notFull | isFull
  · exact ⟨_, push_of_not_full wellFormed notFull ref⟩
  · obtain ⟨grown, grows⟩ := exists_grow wellFormed (hasPlace.resolve_left (by omega))
    rw [push_of_full wellFormed isFull, grows]
    exact ⟨_, rfl⟩

/-! ## Indices that wrap around -/

/-- The bottom is above the top if and only if it did not wrap around. -/
theorem top_le_bottom_iff (worklist : SharedWorklist) :
    worklist.top ≤ worklist.bottom ↔ worklist.top.toNat + worklist.length < 2 ^ 64 := by
  have bottomLt := worklist.bottom.isLt
  have topLt := worklist.top.isLt
  rw [length, BitVec.le_def, BitVec.toNat_sub]
  omega

/-- Growth keeps the references if the bottom did not wrap around. -/
theorem Grown.contents (isGrown : Grown worklist grown) (ordered : worklist.top ≤ worklist.bottom) :
    grown.contents = worklist.contents := by
  rw [SharedWorklist.contents, SharedWorklist.contents, isGrown.length]
  apply List.map_congr_left
  intro offset member
  rw [isGrown.entry offset (List.mem_range.mp member), if_pos ordered]

/-- If it did, the first reference is lost. -/
theorem Grown.entry_zero (isGrown : Grown worklist grown) (positive : 0 < worklist.length)
    (lost : worklist.entry 0 = 0 ∨ 2 ^ 64 ≤ worklist.top.toNat + worklist.length) :
    grown.entry 0 = 0 := by
  rw [isGrown.entry 0 positive]
  by_cases ordered : worklist.top ≤ worklist.bottom
  · have below := worklist.top_le_bottom_iff.mp ordered
    rw [if_pos ordered]
    exact lost.resolve_right (by omega)
  · rw [if_neg ordered]

/-! ## References that are pushed one by one -/

/-- Without a wrapped bottom, the references are added in order. -/
theorem exists_pushEach (refs : List Word) (wellFormed : worklist.WellFormed)
    (hasRoom : worklist.length + refs.length ≤ worklist.room ∨
      worklist.top.toNat + worklist.room < 2 ^ 64 ∧ CanGrow acquire worklist ∧
        worklist.length + refs.length ≤ 2 * worklist.room) :
    ∃ after, pushEach acquire refs worklist = .next after ∧ after.top = worklist.top ∧
      after.length = worklist.length + refs.length ∧ after.contents = worklist.contents ++ refs ∧
      after.active = worklist.active +
        if worklist.length + refs.length ≤ worklist.room then 0 else 1 := by
  induction refs generalizing worklist with
  | nil =>
      have fits : worklist.length + ([] : List Word).length ≤ worklist.room := wellFormed.fits
      refine ⟨worklist, rfl, rfl, rfl, (List.append_nil _).symm, ?_⟩
      rw [if_pos fits, Nat.add_zero]
  | cons ref rest inductionHypothesis =>
      rw [List.length_cons] at hasRoom
      obtain ⟨next, pushed⟩ := exists_push wellFormed
        (hasRoom.imp (fun room => by omega) fun grows => grows.2.1) ref
      obtain ⟨middle, hasPlace, stored⟩ := push_spec wellFormed pushed
      have isNext : pushEach acquire (ref :: rest) worklist = pushEach acquire rest next := by
        rw [pushEach, pushed]
        rfl
      have isLength : next.length = worklist.length + 1 := by rw [stored.length, hasPlace.length]
      have added : next.contents = middle.contents ++ [ref] := stored.contents hasPlace.hasRoom
      rw [isNext, List.length_cons]
      rcases Nat.lt_or_eq_of_le wellFormed.fits with notFull | isFull
      · obtain rfl := hasPlace.isSame notFull
        obtain ⟨after, ran, top, length, contents, active⟩ := inductionHypothesis stored.wellFormed
          (by
            rw [isLength, stored.room, stored.top, stored.canGrow_iff]
            exact hasRoom.imp (fun fits => by omega) fun grows => ⟨grows.1, grows.2.1, by omega⟩)
        refine ⟨after, ran, top.trans stored.top, by omega, ?_, ?_⟩
        · rw [contents, added, List.append_assoc]
          rfl
        · rw [active, stored.active, stored.room, isLength, Nat.add_right_comm, Nat.add_assoc]
      · obtain ⟨noWrap, canGrow, hasRoom⟩ := hasRoom.resolve_left (by omega)
        have isGrown := hasPlace.isGrown isFull
        have room : next.room = 2 * worklist.room := by rw [stored.room, isGrown.room]
        have fits : next.length + rest.length ≤ next.room := by omega
        obtain ⟨after, ran, top, length, contents, active⟩ :=
          inductionHypothesis stored.wellFormed (.inl fits)
        refine ⟨after, ran, by rw [top, stored.top, isGrown.top], by omega, ?_, ?_⟩
        · rw [contents, added, isGrown.contents (worklist.top_le_bottom_iff.mpr (by omega)),
            List.append_assoc]
          rfl
        · rw [active, if_pos fits, if_neg (by omega), stored.active, isGrown.active]

/-- A first reference that was lost stays lost. -/
theorem pushEach_keeps_lost (refs : List Word) (wellFormed : worklist.WellFormed)
    (positive : 0 < worklist.length) (lost : worklist.entry 0 = 0)
    (pushed : pushEach acquire refs worklist = .next after) :
    0 < after.length ∧ after.entry 0 = 0 := by
  induction refs generalizing worklist with
  | nil =>
      cases pushed
      exact ⟨positive, lost⟩
  | cons ref rest inductionHypothesis =>
      rw [pushEach, Outcome.bind_eq_next] at pushed
      obtain ⟨next, pushedOne, pushed⟩ := pushed
      obtain ⟨middle, hasPlace, stored⟩ := push_spec wellFormed pushedOne
      have lostMiddle : middle.entry 0 = 0 := by
        rcases Nat.lt_or_eq_of_le wellFormed.fits with notFull | isFull
        · rw [hasPlace.isSame notFull]
          exact lost
        · exact (hasPlace.isGrown isFull).entry_zero positive (.inl lost)
      have isPositive : 0 < middle.length := by rwa [hasPlace.length]
      apply inductionHypothesis stored.wellFormed _ _ pushed
      · rw [stored.length]
        omega
      · rw [stored.entry 0 middle.room_pos, if_neg (by omega)]
        exact lostMiddle

/-- The first reference is lost when the deque has to grow after its bottom wrapped around. -/
theorem pushEach_loses (refs : List Word) (wellFormed : worklist.WellFormed)
    (isMany : worklist.room < worklist.length + refs.length)
    (wraps : 2 ^ 64 ≤ worklist.top.toNat + worklist.room)
    (pushed : pushEach acquire refs worklist = .next after) :
    0 < after.length ∧ after.entry 0 = 0 := by
  induction refs generalizing worklist with
  | nil =>
      have fits := wellFormed.fits
      rw [List.length_nil] at isMany
      omega
  | cons ref rest inductionHypothesis =>
      rw [List.length_cons] at isMany
      rw [pushEach, Outcome.bind_eq_next] at pushed
      obtain ⟨next, pushedOne, pushed⟩ := pushed
      obtain ⟨middle, hasPlace, stored⟩ := push_spec wellFormed pushedOne
      rcases Nat.lt_or_eq_of_le wellFormed.fits with notFull | isFull
      · obtain rfl := hasPlace.isSame notFull
        apply inductionHypothesis stored.wellFormed _ _ pushed
        · rw [stored.room, stored.length]
          omega
        · rw [stored.room, stored.top]
          exact wraps
      · have positive : 0 < worklist.length := isFull ▸ worklist.room_pos
        have isPositive : 0 < middle.length := by rwa [hasPlace.length]
        apply pushEach_keeps_lost rest stored.wellFormed _ _ pushed
        · rw [stored.length]
          omega
        · rw [stored.entry 0 middle.room_pos, if_neg (by omega)]
          exact (hasPlace.isGrown isFull).entry_zero positive (.inr (by omega))

/-! ## Many references at once -/

/-- The loop grows the buffer only if the number of new references is at most its size: a greater
number wraps around when it is subtracted. -/
theorem mustGrow_iff (wellFormed : worklist.WellFormed) (count : Word) :
    (worklist.bufs worklist.active).size - count < worklist.bottom - worklist.top ↔
      count.toNat ≤ worklist.room ∧ worklist.room < worklist.length + count.toNat := by
  have fits := wellFormed.fits
  have roomLe := wellFormed.room_le
  have countLt := count.isLt
  rw [BitVec.lt_def, ← length, BitVec.toNat_sub, wellFormed.size_toNat]
  omega

theorem growUntil_of_enough {bottom top count : Word} {turns active : ℕ} (positive : 0 < turns)
    (enough : ¬(worklist.bufs active).size - count < bottom - top) :
    growUntil acquire bottom top count turns worklist active = .next (worklist, active) := by
  cases turns with
  | zero => omega
  | succ turns => rw [growUntil, if_neg enough, Outcome.pure_eq_next]

theorem pushMany_of_not_growing (objv : ℕ → Word) {count : Word}
    (enough : ¬(worklist.bufs worklist.active).size - count < worklist.bottom - worklist.top) :
    worklist.pushMany acquire objv count = .next (worklist.store objv count) := by
  rw [pushMany, growUntil_of_enough (Nat.succ_pos _) enough]
  rfl

/-- If the loop grows the buffer, once is enough. -/
theorem pushMany_of_growing (wellFormed : worklist.WellFormed) (objv : ℕ → Word) {count : Word}
    (mustGrow : (worklist.bufs worklist.active).size - count < worklist.bottom - worklist.top) :
    worklist.pushMany acquire objv count =
      worklist.grow acquire worklist.active worklist.bottom worklist.top >>= fun grown =>
        pure (grown.1.store objv count) := by
  rw [pushMany, growUntil, if_pos mustGrow]
  cases grows : worklist.grow acquire worklist.active worklist.bottom worklist.top with
  | disabled => rfl
  | failed failure => rfl
  | next result =>
      obtain ⟨grown, active⟩ := result
      obtain ⟨-, isGrown, rfl⟩ := grow_spec wellFormed grows
      have few := ((mustGrow_iff wellFormed count).mp mustGrow).1
      have fits := wellFormed.fits
      have enough : ¬(grown.bufs grown.active).size - count < worklist.bottom - worklist.top := by
        rw [← isGrown.bottom, ← isGrown.top, mustGrow_iff isGrown.wellFormed, isGrown.room,
          isGrown.length]
        omega
      have stops : growUntil acquire worklist.bottom worklist.top count maxLogSize grown
        grown.active =
          .next (grown, grown.active) := growUntil_of_enough (by decide) enough
      rw [Outcome.bind_next, Outcome.bind_next]
      dsimp only
      rw [stops, store, isGrown.bottom]
      rfl

/-- The loop ends before it is out of turns. -/
theorem pushMany_ne_disabled (wellFormed : worklist.WellFormed) (objv : ℕ → Word) (count : Word) :
    worklist.pushMany acquire objv count ≠ .disabled := by
  by_cases mustGrow :
      (worklist.bufs worklist.active).size - count < worklist.bottom - worklist.top
  · rw [pushMany_of_growing wellFormed objv mustGrow, grow, WorklistBuf.grow, WorklistBuf.init,
      Outcome.check, Outcome.check, Outcome.check]
    split
    · split
      · split
        · rintro ⟨⟩
        · rintro ⟨⟩
      · rintro ⟨⟩
    · rintro ⟨⟩
  · rw [pushMany_of_not_growing objv mustGrow]
    rintro ⟨⟩

/-- The references to be pushed. -/
def references (objv : ℕ → Word) (count : Word) : List Word := (List.range count.toNat).map objv

/-- All references are in the deque, in a buffer that is large enough, as if they were pushed one by
one. -/
structure PushesAll (acquire : ℕ → Bool) (worklist : SharedWorklist) (objv : ℕ → Word)
    (count : Word) (after : SharedWorklist) : Prop where
  contents : after.contents = worklist.contents ++ references objv count
  fits : worklist.contents.length + count.toNat ≤ (after.bufs after.active).size.toNat
  asPushed : ∃ single, pushEach acquire (references objv count) worklist = .next single ∧
    single.bottom = after.bottom ∧ single.top = after.top ∧ single.active = after.active ∧
      single.contents = after.contents

/-- There are at most as many new references as the buffer has entries, and the deque grows only if
its bottom does not wrap around until the buffer is full. -/
def HasRoomFor (worklist : SharedWorklist) (count : Word) : Prop :=
  count.toNat ≤ (worklist.bufs worklist.active).size.toNat ∧
    (worklist.contents.length + count.toNat ≤ (worklist.bufs worklist.active).size.toNat ∨
      worklist.top.toNat + (worklist.bufs worklist.active).size.toNat < 2 ^ 64)

theorem length_contents (worklist : SharedWorklist) :
    worklist.contents.length = worklist.length := by
  rw [contents, List.length_map, List.length_range]

theorem hasRoomFor_iff (wellFormed : worklist.WellFormed) (count : Word) :
    worklist.HasRoomFor count ↔ count.toNat ≤ worklist.room ∧
      (worklist.length + count.toNat ≤ worklist.room ∨
        worklist.top.toNat + worklist.room < 2 ^ 64) := by
  rw [HasRoomFor, wellFormed.size_toNat, length_contents]

/-- The deque has the first reference of a list without null. -/
theorem entry_zero_ne {refs : List Word} (isContents : worklist.contents = refs)
    (positive : 0 < worklist.length) (nonnull : ∀ ref ∈ refs, ref ≠ 0) : worklist.entry 0 ≠ 0 := by
  apply nonnull
  rw [← isContents, contents, List.mem_map]
  exact ⟨0, List.mem_range.mpr positive, rfl⟩

/-- What both ways of pushing lead to when there is room. -/
theorem pushesAll_of_stored {middle : SharedWorklist} (wellFormed : worklist.WellFormed)
    {objv : ℕ → Word} {count : Word}
    (hasRoom : worklist.length + count.toNat ≤ worklist.room ∨
      worklist.top.toNat + worklist.room < 2 ^ 64 ∧ CanGrow acquire worklist ∧
        worklist.length + count.toNat ≤ 2 * worklist.room)
    (isMiddle : middle.WellFormed) (length : middle.length = worklist.length)
    (top : middle.top = worklist.top) (contents : middle.contents = worklist.contents)
    (fits : middle.length + count.toNat ≤ middle.room)
    (active : middle.active = worklist.active +
      if worklist.length + count.toNat ≤ worklist.room then 0 else 1) :
    PushesAll acquire worklist objv count (middle.store objv count) := by
  have stored := store_spec isMiddle objv fits
  have isLength : (references objv count).length = count.toNat := by
    rw [references, List.length_map, List.length_range]
  have isContents : (middle.store objv count).contents =
      worklist.contents ++ references objv count := by
    rw [stored.contents fits, contents]
    rfl
  obtain ⟨single, ran, singleTop, singleLength, singleContents, singleActive⟩ :=
    exists_pushEach (references objv count) wellFormed (isLength ▸ hasRoom)
  rw [isLength] at singleLength singleActive
  refine ⟨isContents, ?_, single, ran, ?_, ?_, ?_, singleContents.trans isContents.symm⟩
  · rw [stored.wellFormed.size_toNat, stored.room, length_contents]
    omega
  · rw [bottom_eq single, bottom_eq (middle.store objv count), singleTop, stored.top, top,
      singleLength, stored.length, length]
  · rw [singleTop, stored.top, top]
  · rw [singleActive, stored.active, active]

/-- `shared_worklist_push_many` is repeated `shared_worklist_push` if and only if there are at most
as many references as the buffer has entries, and it does not grow after its bottom wrapped
around. -/
theorem pushMany_iff (wellFormed : worklist.WellFormed)
    (nonnull : ∀ ref ∈ worklist.contents, ref ≠ 0)
    {objv : ℕ → Word} {count : Word} (nonnullNew : ∀ ref ∈ references objv count, ref ≠ 0)
    (pushed : worklist.pushMany acquire objv count = .next after) :
    PushesAll acquire worklist objv count after ↔ worklist.HasRoomFor count := by
  have fits := wellFormed.fits
  rw [hasRoomFor_iff wellFormed]
  by_cases mustGrow :
      (worklist.bufs worklist.active).size - count < worklist.bottom - worklist.top
  · rw [pushMany_of_growing wellFormed objv mustGrow, Outcome.bind_eq_next] at pushed
    obtain ⟨⟨grown, active⟩, grows, pushed⟩ := pushed
    obtain ⟨canGrow, isGrown, -⟩ := grow_spec wellFormed grows
    obtain rfl := Outcome.next.inj pushed
    obtain ⟨few, isMany⟩ := (mustGrow_iff wellFormed count).mp mustGrow
    constructor
    · rintro ⟨contents, -, single, ran, -, -, -, sameContents⟩
      refine ⟨few, .inr ?_⟩
      apply Nat.lt_of_not_le
      intro wraps
      have isLength : (references objv count).length = count.toNat := by
        rw [references, List.length_map, List.length_range]
      obtain ⟨positive, lost⟩ :=
        pushEach_loses (references objv count) wellFormed (isLength.symm ▸ isMany) wraps ran
      apply entry_zero_ne (sameContents.trans contents) positive _ lost
      exact fun ref member => (List.mem_append.mp member).elim (nonnull ref) (nonnullNew ref)
    · rintro ⟨-, hasRoom⟩
      have noWrap := hasRoom.resolve_left (by omega)
      have ordered : worklist.top ≤ worklist.bottom := worklist.top_le_bottom_iff.mpr (by omega)
      apply pushesAll_of_stored wellFormed (.inr ⟨noWrap, canGrow, by omega⟩) isGrown.wellFormed
        isGrown.length isGrown.top (isGrown.contents ordered)
      · rw [isGrown.length, isGrown.room]
        omega
      · rw [if_neg (by omega)]
        exact isGrown.active
  · rw [pushMany_of_not_growing objv mustGrow] at pushed
    obtain rfl := Outcome.next.inj pushed
    rw [mustGrow_iff wellFormed] at mustGrow
    constructor
    · rintro ⟨-, enough, -⟩
      rw [store_size, wellFormed.size_toNat, length_contents] at enough
      exact ⟨by omega, .inl enough⟩
    · rintro ⟨few, -⟩
      have enough : worklist.length + count.toNat ≤ worklist.room := by omega
      apply pushesAll_of_stored wellFormed (.inl enough) wellFormed rfl rfl rfl enough
      rw [if_pos enough, Nat.add_zero]

theorem references_ne_zero {ref : Word} (nonnull : ref ≠ 0) (count : Word) :
    ∀ other ∈ references (fun _ => ref) count, other ≠ 0 := by
  rw [references, List.forall_mem_map]
  exact fun _ _ => nonnull

/-- Two references in a new deque. -/
theorem pushMany_iff_new : ∃ worklist after : SharedWorklist,
    init (fun _ => true) = .next worklist ∧
      worklist.pushMany (fun _ => true) (fun _ => 0x1000) 2 = .next after ∧
        PushesAll (fun _ => true) worklist (fun _ => 0x1000) 2 after := by
  obtain ⟨worklist, created⟩ : ∃ worklist, init (fun _ => true) = .next worklist := ⟨_, rfl⟩
  obtain ⟨wellFormed, isEmpty, room⟩ := init_spec created
  have nonnull := references_ne_zero (show (0x1000 : Word) ≠ 0 by decide) 2
  have enough : ¬(worklist.bufs worklist.active).size - 2 < worklist.bottom - worklist.top := by
    rw [mustGrow_iff wellFormed, ← length_contents, isEmpty, room]
    decide
  have pushed := @pushMany_of_not_growing (fun _ => true) worklist (fun _ => 0x1000) 2 enough
  refine ⟨worklist, _, created, pushed,
    (pushMany_iff wellFormed (isEmpty ▸ (by rintro _ ⟨⟩)) nonnull pushed).mpr ?_⟩
  rw [HasRoomFor, isEmpty, wellFormed.size_toNat, room]
  exact ⟨by decide, .inl (by decide)⟩

/-- A new deque takes 1025 references without growing, although it has 1024 entries. -/
theorem pushMany_fails :
    ¬∀ (acquire : ℕ → Bool) (worklist after : SharedWorklist) (objv : ℕ → Word) (count : Word),
      worklist.WellFormed → (∀ ref ∈ worklist.contents, ref ≠ 0) →
        (∀ ref ∈ references objv count, ref ≠ 0) →
          worklist.pushMany acquire objv count = .next after →
            PushesAll acquire worklist objv count after := by
  intro holds
  obtain ⟨worklist, created⟩ : ∃ worklist, init (fun _ => true) = .next worklist := ⟨_, rfl⟩
  obtain ⟨wellFormed, isEmpty, room⟩ := init_spec created
  have nonnull := references_ne_zero (show (0x1000 : Word) ≠ 0 by decide) 1025
  have enough : ¬(worklist.bufs worklist.active).size - 1025 < worklist.bottom - worklist.top := by
    rw [mustGrow_iff wellFormed, room]
    exact fun mustGrow => absurd mustGrow.1 (by decide)
  have pushed := @pushMany_of_not_growing (fun _ => true) worklist (fun _ => 0x1000) 1025 enough
  have fits := (holds _ _ _ _ _ wellFormed (isEmpty ▸ (by rintro _ ⟨⟩)) nonnull pushed).fits
  rw [store_size, isEmpty, wellFormed.size_toNat, room] at fits
  exact absurd fits (by decide)

end Whippet.Worklist.SharedWorklist
