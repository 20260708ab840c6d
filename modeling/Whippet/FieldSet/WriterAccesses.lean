import Whippet.FieldSet.WriterSteps

/-!
The accesses inside the calls of the writers keep each buffer in one place and each edge in one
buffer.

Owns: one lemma for each kind of call. Does not own: the collector's steps, and runs.
-/

namespace Whippet.FieldSets

open Function

section Steps

variable {set after : FieldSet} {place : ℕ → BufferPlace} {index : ℕ} {writer : FieldSetWriter}

/-! ## Taking a buffer -/

section PopEmpty

variable {edge : ℕ} (spurious : Bool) (fresh : ℕ)

theorem FieldSet.Invariant.popEmptyReading (invariant : set.Invariant place)
    (found : set.writers[index]? = some writer) {list : BufferList} {seen : ℕ}
    (isCall : writer.call = .popEmpty edge (.reading list seen)) :
    ∃ after placeAfter,
      set.access index writer spurious fresh (.popEmpty edge (.reading list seen)) = .next after ∧
        after.Invariant placeAfter := by
  have controller : set.controller = .idle :=
    invariant.idle_of_call found (.inl (isCall.trans_ne (by rintro ⟨⟩)))
  have knows := invariant.writers index writer found
  have notMoving : writer.call.moving = none := by rw [isCall]; rfl
  obtain ⟨rfl, isZero⟩ : list = .empty ∧ writer.buf = 0 := by
    have call := knows.call
    rw [isCall] at call
    cases list <;> first | exact ⟨rfl, call⟩ | cases call
  by_cases atEnd : seen = 0
  · refine ⟨set.setWriter index { writer with call := .popPartlyFull edge }, place, ?_,
      invariant.quiet found controller ⟨knows.buf, knows.visiting, isZero, by rintro _ ⟨⟩⟩
        (.call notMoving _ 0)⟩
    dsimp only [FieldSet.access, AtomicStacks.step]
    rw [if_pos atEnd]
    rfl
  · refine ⟨set.setWriter index
      { writer with call := .popEmpty edge (.popping .empty seen (set.lists.next seen)) }, place,
      ?_, invariant.quiet found controller ⟨knows.buf, knows.visiting, isZero, ?_⟩
        (.call notMoving _ 0)⟩
    · dsimp only [FieldSet.access, AtomicStacks.step]
      rw [if_neg atEnd]
      rfl
    · rintro stage ⟨⟩
      exact ⟨atEnd, fun _ => rfl⟩

theorem FieldSet.Invariant.popEmptyPopping (invariant : set.Invariant place)
    (found : set.writers[index]? = some writer) {list : BufferList} {seen link : ℕ}
    (isCall : writer.call = .popEmpty edge (.popping list seen link)) :
    ∃ after placeAfter,
      set.access index writer spurious fresh (.popEmpty edge (.popping list seen link)) =
        .next after ∧ after.Invariant placeAfter := by
  have controller : set.controller = .idle :=
    invariant.idle_of_call found (.inl (isCall.trans_ne (by rintro ⟨⟩)))
  have knows := invariant.writers index writer found
  have notMoving : writer.call.moving = none := by rw [isCall]; rfl
  obtain ⟨rfl, isZero⟩ : list = .empty ∧ writer.buf = 0 := by
    have call := knows.call
    rw [isCall] at call
    cases list <;> first | exact ⟨rfl, call⟩ | cases call
  obtain ⟨proper, linked⟩ := knows.stage (.popping .empty seen link) (by rw [isCall]; rfl)
  by_cases swaps : set.lists.head .empty = seen ∧ spurious = false
  · obtain ⟨onList, popped⟩ := invariant.stacked.pop proper swaps.1
    rw [linked onList] at popped
    have isHere : place seen = .empty := BufferPlace.loc_eq onList
    have notWriter : place seen ≠ .inWriter index := isHere.trans_ne (by rintro ⟨⟩)
    have isNow : update place seen (.moving index) seen = .moving index := update_self _ _ _
    have sized := invariant.sized seen
    rw [isHere] at sized
    have changes : Changes set ((set.withLists
        { set.lists with head := update set.lists.head .empty link }).setWriter index
          { writer with call := .popEmpty edge (.clearing seen) }) place
        (update place seen (.moving index)) seen :=
      { buffers := fun _ _ => rfl
        places := fun node elsewhere => update_of_ne elsewhere _ _ }
    refine ⟨(set.withLists
      { set.lists with head := update set.lists.head .empty link }).setWriter index
        { writer with call := .popEmpty edge (.clearing seen) }, _, ?_,
      invariant.transfers found (.moving index) ?_ ?_ ?_ ⟨by rintro ⟨⟩, by rintro ⟨⟩, by rintro ⟨⟩⟩
        (fun _ _ => rfl) rfl ?_ controller rfl rfl
        ⟨knows.buf_of_ne changes.places notWriter,
          knows.visiting_of_ne changes (isHere.trans_ne (by rintro ⟨⟩)), ⟨isZero, isNow, sized⟩, ?_⟩
        (.call notMoving _ seen) (fun _ => rfl) sized.le (by rintro ⟨⟩)
        (invariant.conserved_of_same (fun _ => rfl) rfl rfl rfl)⟩
    · dsimp only [FieldSet.access, AtomicStacks.step]
      rw [if_pos swaps]
    · rw [isHere]
      exact fun _ _ => by rintro ⟨⟩
    · rintro other different ⟨⟩
      exact different rfl
    · rw [isHere]
      exact ⟨by rintro ⟨⟩, by rintro ⟨⟩⟩
    · apply popped.congr
      · intro list
        cases list <;> rfl
      · exact fun _ _ => rfl
      · exact fun _ => rfl
    · rintro stage ⟨⟩
      refine ⟨proper, ?_⟩
      dsimp only
      rw [isNow]
      rfl
  · refine ⟨set.setWriter index
      { writer with call := .popEmpty edge (.reading .empty (set.lists.head .empty)) }, place, ?_,
      invariant.quiet found controller ⟨knows.buf, knows.visiting, isZero, ?_⟩
        (.call notMoving _ 0)⟩
    · dsimp only [FieldSet.access, AtomicStacks.step]
      rw [if_neg swaps]
      rfl
    · rintro stage ⟨⟩
      exact trivial

theorem FieldSet.Invariant.popEmptyClearing (invariant : set.Invariant place)
    (found : set.writers[index]? = some writer) {node : ℕ}
    (isCall : writer.call = .popEmpty edge (.clearing node)) :
    ∃ after placeAfter,
      set.access index writer spurious fresh (.popEmpty edge (.clearing node)) = .next after ∧
        after.Invariant placeAfter := by
  have controller : set.controller = .idle :=
    invariant.idle_of_call found (.inl (isCall.trans_ne (by rintro ⟨⟩)))
  have knows := invariant.writers index writer found
  have call := knows.call
  rw [isCall] at call
  obtain ⟨isZero, isHere, isEmpty⟩ := call
  have proper := invariant.ne_zero (isHere.trans_ne (by rintro ⟨⟩))
  have notVisited : place node ≠ .visiting index := isHere.trans_ne (by rintro ⟨⟩)
  have isNow : update place node (.inWriter index) node = .inWriter index := update_self _ _ _
  refine ⟨(set.withLists
    { set.lists with next := update set.lists.next node 0 }).setWriter index
      { writer with buf := node, call := .store edge }, _, ?_,
    invariant.passes found (.inWriter index) (by rw [isHere]; rfl) rfl ?_ rfl ?_ controller rfl rfl
      ⟨fun _ => isNow, ?_, proper, by rintro _ ⟨⟩⟩ ?_ rfl ?_ (fun _ => update_self _ _ _)
      (invariant.conserved_of_same (fun _ => rfl) rfl rfl rfl)⟩
  · dsimp only [FieldSet.access, AtomicStacks.step]
    rw [if_neg proper]
  · intro other elsewhere
    dsimp only [FieldSet.withLists, FieldSet.setWriter]
    rw [update_of_ne elsewhere]
    rfl
  · intro list
    cases list <;> rfl
  · intro other position isVisiting
    obtain ⟨there, inside⟩ := knows.visiting other position isVisiting
    have elsewhere : other ≠ node := by
      rintro rfl
      exact notVisited there
    exact ⟨(update_of_ne elsewhere _ _).trans there, inside⟩
  · refine .of_visiting_eq (.inr (.inl isZero)) rfl ?_
    rw [isCall]
    rintro other ⟨⟩
    rfl
  · exact lt_of_eq_of_lt isEmpty (Nat.succ_pos _)

end PopEmpty

section TakeBuffer

variable {edge : ℕ} (spurious : Bool) (fresh : ℕ)

theorem FieldSet.Invariant.takePartlyFull (invariant : set.Invariant place)
    (found : set.writers[index]? = some writer) (isCall : writer.call = .popPartlyFull edge) :
    ∃ after placeAfter,
      set.access index writer spurious fresh (.popPartlyFull edge) = .next after ∧
        after.Invariant placeAfter := by
  have controller : set.controller = .idle :=
    invariant.idle_of_call found (.inl (isCall.trans_ne (by rintro ⟨⟩)))
  have knows := invariant.writers index writer found
  have notMoving : writer.call.moving = none := by rw [isCall]; rfl
  have isZero : writer.buf = 0 := by
    have call := knows.call
    rw [isCall] at call
    exact call
  by_cases none : set.partlyFull = 0
  · refine ⟨set.setWriter index { writer with call := .allocate edge }, place, ?_,
      invariant.quiet found controller ⟨knows.buf, knows.visiting, isZero, by rintro _ ⟨⟩⟩
        (.call notMoving _ 0)⟩
    dsimp only [FieldSet.access]
    rw [if_pos none]
  · obtain ⟨isHere, popped⟩ := invariant.popPartlyFull none
    have sized := invariant.sized set.partlyFull
    rw [isHere] at sized
    have isNow : update place set.partlyFull (.inWriter index) set.partlyFull = .inWriter index :=
      update_self _ _ _
    have changes : Changes set (set.popPartlyFull.setWriter index
        { writer with buf := set.partlyFull, call := .store edge }) place
        (update place set.partlyFull (.inWriter index)) set.partlyFull :=
      { buffers := fun node elsewhere => update_of_ne elsewhere _ _
        places := fun node elsewhere => update_of_ne elsewhere _ _ }
    refine ⟨set.popPartlyFull.setWriter index
        { writer with buf := set.partlyFull, call := .store edge }, _, ?_,
      invariant.transfers found (.inWriter index) ?_ ?_ ?_
        ⟨by rintro ⟨⟩, by rintro ⟨⟩, by rintro ⟨⟩⟩
        changes.buffers rfl popped controller rfl rfl
        ⟨fun _ => isNow, knows.visiting_of_ne changes (isHere.trans_ne (by rintro ⟨⟩)), none,
          by rintro _ ⟨⟩⟩ ?_
        (fun _ => rfl) ?_ ?_ (invariant.conserved_of_same ?_ rfl rfl rfl)⟩
    · dsimp only [FieldSet.access]
      rw [if_neg none]
    · rw [isHere]
      exact fun _ _ => by rintro ⟨⟩
    · rintro other different ⟨⟩
      exact different rfl
    · rw [isHere]
      exact ⟨by rintro ⟨⟩, by rintro ⟨⟩⟩
    · refine .of_visiting_eq (.inr (.inl isZero)) rfl ?_
      rw [notMoving]
      rintro _ ⟨⟩
    · dsimp only [FieldSet.popPartlyFull, FieldSet.setBuffer, FieldSet.setWriter]
      rw [update_self]
      exact sized
    · dsimp only [FieldSet.popPartlyFull, FieldSet.setBuffer, FieldSet.setWriter]
      rw [update_self]
      exact fun _ => rfl
    · exact contents_relink _ _ _

theorem FieldSet.Invariant.allocate (invariant : set.Invariant place)
    (found : set.writers[index]? = some writer) (isCall : writer.call = .allocate edge)
    (stepped : set.access index writer spurious fresh (.allocate edge) = .next after) :
    ∃ placeAfter, after.Invariant placeAfter := by
  have controller : set.controller = .idle :=
    invariant.idle_of_call found (.inl (isCall.trans_ne (by rintro ⟨⟩)))
  have knows := invariant.writers index writer found
  have notMoving : writer.call.moving = none := by rw [isCall]; rfl
  have isZero : writer.buf = 0 := by
    have call := knows.call
    rw [isCall] at call
    exact call
  simp only [FieldSet.access, Outcome.require_bind_eq_next] at stepped
  obtain ⟨⟨proper, isNew⟩, stepped⟩ := stepped
  cases stepped
  have isHere : place fresh = .unallocated := by
    rw [invariant.allocated] at isNew
    exact not_not.mp isNew
  have isNow : update place fresh (.inWriter index) fresh = .inWriter index := update_self _ _ _
  have changes : Changes set ({ set.setBuffer fresh emptyBuffer with
      allocated := insert fresh set.allocated }.setWriter index
        { writer with buf := fresh, call := .store edge }) place
      (update place fresh (.inWriter index)) fresh :=
    { buffers := fun node elsewhere => update_of_ne elsewhere _ _
      places := fun node elsewhere => update_of_ne elsewhere _ _ }
  have keeps : Keeps writer { writer with buf := fresh, call := .store edge } fresh := by
    refine .of_visiting_eq (.inr (.inl isZero)) rfl ?_
    rw [notMoving]
    rintro _ ⟨⟩
  have isEmpty : update set.buffers fresh emptyBuffer fresh = emptyBuffer := update_self _ _ _
  refine ⟨_, invariant.moves found (.of_changes invariant changes rfl ?_ ?_
    ⟨fun _ => isNow, knows.visiting_of_ne changes (isHere.trans_ne (by rintro ⟨⟩)), proper,
        by rintro _ ⟨⟩⟩
      (keeps.has invariant found changes.places ?_)) ?_ controller ?_ invariant.rootsOnce ?_ ?_ ?_
      ?_ ?_⟩
  · intro other different
    rw [isHere, isNow]
    refine ⟨by rintro ⟨⟩, ?_⟩
    rintro ⟨⟩
    exact different rfl
  · rw [isNow]
    rintro ⟨⟩
  · intro _
    rw [isNow]
    rfl
  · apply invariant.stacked.congr
    · intro list
      cases list <;> rfl
    · intro node isListed
      have elsewhere : node ≠ fresh := by
        rintro rfl
        rw [isHere] at isListed
        exact isListed rfl
      exact congrArg EdgeBuffer.next (changes.buffers node elsewhere)
    · intro node
      by_cases isIt : node = fresh
      · rw [isIt, isNow, isHere]
        rfl
      · rw [update_of_ne isIt]
  · intro node
    refine (invariant.roots node).trans ?_
    by_cases isIt : node = fresh
    · rw [isIt, isNow, isHere]
      exact iff_of_false (by rintro ⟨⟩) (by rintro ⟨⟩)
    · rw [update_of_ne isIt]
  · intro node
    dsimp only [FieldSet.setWriter]
    rw [Finset.mem_insert, invariant.allocated]
    by_cases isIt : node = fresh
    · rw [isIt, isNow]
      exact iff_of_true (.inl rfl) (by rintro ⟨⟩)
    · rw [update_of_ne isIt]
      exact or_iff_right isIt
  · rw [update_of_ne (Ne.symm proper), invariant.proper]
  · rw [isNow]
    dsimp only [FieldSet.setWriter, FieldSet.setBuffer]
    rw [isEmpty]
    exact Nat.succ_pos _
  · intro _
    dsimp only [FieldSet.setWriter, FieldSet.setBuffer]
    rw [isEmpty]
    rfl
  · dsimp only [FieldSet.setWriter, FieldSet.setBuffer]
    rw [Finset.sum_insert isNew, isEmpty, invariant.conserved]
    have same : ∑ node ∈ set.allocated, (update set.buffers fresh emptyBuffer node).contents =
        ∑ node ∈ set.allocated, (set.buffers node).contents := by
      apply Finset.sum_congr rfl
      intro node member
      rw [update_of_ne]
      rintro rfl
      exact isNew member
    rw [same]
    exact congrArg (· + set.dropped + set.forgotten) (zero_add _).symm

end TakeBuffer

/-! ## Storing and releasing -/

theorem FieldSet.beginPushFull_eq {buffer : ℕ} (loose : (set.buffers buffer).next = 0) :
    set.beginPushFull buffer = .next (.pushFull (.linking .full buffer set.full)) :=
  Outcome.check_bind loose

/-- The set when the edge has been written to the buffer. -/
def FieldSet.stored (set : FieldSet) (address edge : ℕ) : FieldSet :=
  { set.setBuffer address { set.buffers address with
      size := (set.buffers address).size + 1
      edges := update (set.buffers address).edges (set.buffers address).size edge } with
    added := edge ::ₘ set.added }

theorem FieldSet.stored_self (set : FieldSet) (address edge : ℕ) :
    ((set.stored address edge).buffers address).next = (set.buffers address).next ∧
      ((set.stored address edge).buffers address).size = (set.buffers address).size + 1 := by
  dsimp only [FieldSet.stored, FieldSet.setBuffer]
  rw [update_self]
  exact ⟨rfl, rfl⟩

theorem FieldSet.Invariant.conserved_stored (invariant : set.Invariant place) {address : ℕ}
    (member : address ∈ set.allocated) (edge : ℕ) :
    (set.stored address edge).added =
      (∑ node ∈ set.allocated, ((set.stored address edge).buffers node).contents) +
        set.dropped + set.forgotten := by
  obtain ⟨rest, before, now⟩ := sum_update set.buffers
    { set.buffers address with
      size := (set.buffers address).size + 1
      edges := update (set.buffers address).edges (set.buffers address).size edge } member
  have appended := arrayBag.append (set.buffers address).edges (set.buffers address).size edge
  dsimp only [FieldSet.stored, FieldSet.setBuffer]
  rw [now, EdgeBuffer.contents, appended, invariant.conserved, before, Multiset.cons_add,
    Multiset.cons_add, Multiset.cons_add]
  rfl

theorem FieldSet.Invariant.store (invariant : set.Invariant place) {edge : ℕ}
    (found : set.writers[index]? = some writer) (isCall : writer.call = .store edge)
    (spurious : Bool) (fresh : ℕ) :
    ∃ after placeAfter, set.access index writer spurious fresh (.store edge) = .next after ∧
      after.Invariant placeAfter := by
  have controller : set.controller = .idle :=
    invariant.idle_of_call found (.inl (isCall.trans_ne (by rintro ⟨⟩)))
  have knows := invariant.writers index writer found
  have notMoving : writer.call.moving = none := by rw [isCall]; rfl
  have proper : writer.buf ≠ 0 := by
    have call := knows.call
    rw [isCall] at call
    exact call
  have isHere := knows.buf proper
  have notVisited : place writer.buf ≠ .visiting index := isHere.trans_ne (by rintro ⟨⟩)
  have isHeld : (place writer.buf).heldBy = some index := by rw [isHere]; rfl
  have sized := invariant.sized writer.buf
  have loose := invariant.loose writer.buf
  rw [isHere] at sized loose
  have member : writer.buf ∈ set.allocated := by
    rw [invariant.allocated, isHere]
    rintro ⟨⟩
  have inside : (set.buffers writer.buf).size < GC_EDGE_BUFFER_CAPACITY := sized
  obtain ⟨nextStored, sizeStored⟩ := set.stored_self writer.buf edge
  have others (node : ℕ) (elsewhere : node ≠ writer.buf) :
      (set.stored writer.buf edge).buffers node = set.buffers node :=
    update_of_ne elsewhere _ _
  have changes (here : BufferPlace) (new : FieldSetWriter) :
      Changes set ((set.stored writer.buf edge).setWriter index new) place
        (update place writer.buf here) writer.buf :=
    { buffers := others
      places := fun node elsewhere => update_of_ne elsewhere _ _ }
  by_cases isFull : (set.buffers writer.buf).size + 1 = GC_EDGE_BUFFER_CAPACITY
  · refine ⟨(set.stored writer.buf edge).setWriter index
        { writer with buf := 0, call := .pushFull (.linking .full writer.buf set.full) }, _, ?_,
      invariant.passes found (.moving index) isHeld rfl others rfl (fun _ => rfl) controller rfl
        rfl ⟨fun notZero => absurd rfl notZero,
          knows.visiting_of_ne (changes (.moving index) _) notVisited,
          ⟨update_self _ _ _, sizeStored.trans isFull⟩, ?_⟩ ?_ rfl
        (le_of_eq (sizeStored.trans isFull)) (by rintro ⟨⟩)
        (invariant.conserved_stored member edge)⟩
    · unfold FieldSet.access
      dsimp only
      rw [Outcome.check_bind inside, if_pos isFull]
      have begun := FieldSet.beginPushFull_eq (nextStored.trans (loose trivial))
      exact congrArg (· >>= _) begun
    · rintro stage ⟨⟩
      refine ⟨proper, ?_⟩
      dsimp only
      rw [update_self]
      rfl
    · refine .of_visiting_eq (.inr (.inr rfl)) rfl ?_
      rw [notMoving]
      rintro _ ⟨⟩
  · refine ⟨(set.stored writer.buf edge).setWriter index { writer with call := .idle }, _, ?_,
      invariant.passes found (.inWriter index) isHeld rfl others rfl (fun _ => rfl) controller rfl
        rfl ⟨fun _ => update_self _ _ _,
          knows.visiting_of_ne (changes (.inWriter index) _) notVisited, trivial, by rintro _ ⟨⟩⟩
        (.call notMoving _ _) rfl ?_ ?_ (invariant.conserved_stored member edge)⟩
    · unfold FieldSet.access
      dsimp only
      rw [Outcome.check_bind inside, if_neg isFull]
      rfl
    · refine lt_of_le_of_ne (le_of_eq_of_le sizeStored sized) ?_
      exact sizeStored.trans_ne isFull
    · exact fun _ => nextStored.trans (loose trivial)

/-- The set when the buffer is the first of the partly full ones. -/
def FieldSet.pushedPartlyFull (set : FieldSet) (buffer : ℕ) : FieldSet :=
  { set.setBuffer buffer { set.buffers buffer with next := set.partlyFull } with
    partlyFull := buffer }

theorem FieldSet.Invariant.release (invariant : set.Invariant place) {buffer : ℕ}
    (found : set.writers[index]? = some writer) (isCall : writer.call = .release buffer)
    (spurious : Bool) (fresh : ℕ) :
    ∃ after placeAfter, set.access index writer spurious fresh (.release buffer) = .next after ∧
      after.Invariant placeAfter := by
  have controller : set.controller = .idle :=
    invariant.idle_of_call found (.inl (isCall.trans_ne (by rintro ⟨⟩)))
  have knows := invariant.writers index writer found
  have call := knows.call
  rw [isCall] at call
  obtain ⟨isHere, loose⟩ := call
  have notWriter : place buffer ≠ .inWriter index := isHere.trans_ne (by rintro ⟨⟩)
  have notVisited : place buffer ≠ .visiting index := isHere.trans_ne (by rintro ⟨⟩)
  have proper := invariant.ne_zero (isHere.trans_ne (by rintro ⟨⟩))
  have sized := invariant.sized buffer
  rw [isHere] at sized
  have onlyIt (node : ℕ) (isMoving : writer.call.moving = some node) : node = buffer := by
    rw [isCall] at isMoving
    exact (Option.some.inj isMoving).symm
  by_cases isFull : (set.buffers buffer).size = GC_EDGE_BUFFER_CAPACITY
  · have changes : Changes set (set.setWriter index
        { writer with call := .pushFull (.linking .full buffer set.full) }) place
        (update place buffer (.moving index)) buffer :=
      { buffers := fun _ _ => rfl
        places := fun node elsewhere => update_of_ne elsewhere _ _ }
    refine ⟨set.setWriter index { writer with call := .pushFull (.linking .full buffer set.full) },
      _, ?_, invariant.passes found (.moving index) (by rw [isHere]; rfl) rfl (fun _ _ => rfl) rfl
        (fun _ => rfl) controller rfl rfl ⟨knows.buf_of_ne changes.places notWriter,
          knows.visiting_of_ne changes notVisited, ⟨update_self _ _ _, isFull⟩, ?_⟩
        (.of_visiting_eq (.inl rfl) rfl onlyIt) rfl sized (by rintro ⟨⟩)
        (invariant.conserved_of_same (fun _ => rfl) rfl rfl rfl)⟩
    · dsimp only [FieldSet.access]
      rw [if_pos isFull, FieldSet.beginPushFull_eq loose]
      rfl
    · rintro stage ⟨⟩
      refine ⟨proper, ?_⟩
      dsimp only
      rw [update_self]
      rfl
  · have others (node : ℕ) (elsewhere : node ≠ buffer) :
        (set.pushedPartlyFull buffer).buffers node = set.buffers node :=
      update_of_ne elsewhere _ _
    have changes : Changes set
        ((set.pushedPartlyFull buffer).setWriter index { writer with call := .idle }) place
        (update place buffer .partlyFull) buffer :=
      { buffers := others
        places := fun node elsewhere => update_of_ne elsewhere _ _ }
    have writers_eq : ((set.pushedPartlyFull buffer).setWriter index
      { writer with call := .idle }).writers =
        set.writers.set index { writer with call := .idle } := rfl
    refine ⟨(set.pushedPartlyFull buffer).setWriter index { writer with call := .idle }, _, ?_,
      invariant.transfers found .partlyFull ?_ (fun _ _ => by rintro ⟨⟩) ?_
        ⟨by rintro ⟨⟩, by rintro ⟨⟩, by rintro ⟨⟩⟩ others
        writers_eq ?_ controller rfl rfl ⟨knows.buf_of_ne changes.places notWriter,
          knows.visiting_of_ne changes notVisited, trivial, by rintro _ ⟨⟩⟩
        (.of_visiting_eq (.inl rfl) rfl onlyIt) (by rintro ⟨⟩) ?_ (by rintro ⟨⟩)
        (invariant.conserved_of_same (contents_relink _ _ _) rfl rfl rfl)⟩
    · dsimp only [FieldSet.access, FieldSet.pushPartlyFull]
      rw [if_neg isFull, Outcome.check_bind loose]
      rfl
    · rw [isHere]
      rintro other different ⟨⟩
      exact different rfl
    · rw [isHere]
      exact ⟨by rintro ⟨⟩, by rintro ⟨⟩⟩
    · have isFree : (place buffer).loc = none := by rw [isHere]; rfl
      apply ((invariant.stacked.relink isFree set.partlyFull).push .partlyFull proper
        isFree (update_self _ _ _)).congr
      · intro list
        cases list <;> rfl
      · exact fun node _ => next_relink _ _ _ _
      · exact fun _ => rfl
    · dsimp only [FieldSet.setWriter, FieldSet.pushedPartlyFull, FieldSet.setBuffer]
      rw [update_self]
      exact lt_of_le_of_ne sized isFull

/-- The push to the full buffers. -/
theorem FieldSet.Invariant.pushFull (invariant : set.Invariant place)
    {stage : StackStage BufferList ℕ} (found : set.writers[index]? = some writer)
    (isCall : writer.call = .pushFull stage) (spurious : Bool) (fresh : ℕ) :
    ∃ after placeAfter, set.access index writer spurious fresh (.pushFull stage) = .next after ∧
      after.Invariant placeAfter := by
  have controller : set.controller = .idle :=
    invariant.idle_of_call found (.inl (isCall.trans_ne (by rintro ⟨⟩)))
  have knows := invariant.writers index writer found
  have call := knows.call
  have isStage : writer.call.stage = some stage := by rw [isCall]; rfl
  have atStage := knows.stage stage isStage
  rw [isCall] at call
  cases stage with
  | linking list buffer seen =>
      obtain rfl : list = .full := by
        cases list <;> first | rfl | cases call
      obtain ⟨isHere, isFull⟩ := call
      have notWriter : place buffer ≠ .inWriter index := isHere.trans_ne (by rintro ⟨⟩)
      have notVisited : place buffer ≠ .visiting index := isHere.trans_ne (by rintro ⟨⟩)
      have changes : Changes set ((set.withLists
          { set.lists with next := update set.lists.next buffer seen }).setWriter index
            { writer with call := .pushFull (.pushing .full buffer seen) }) place
          (update place buffer (.moving index)) buffer :=
        { buffers := by
            intro node elsewhere
            dsimp only [FieldSet.withLists, FieldSet.setWriter]
            rw [update_of_ne elsewhere]
            rfl
          places := fun node elsewhere => update_of_ne elsewhere _ _ }
      refine ⟨(set.withLists
        { set.lists with next := update set.lists.next buffer seen }).setWriter index
          { writer with call := .pushFull (.pushing .full buffer seen) }, _, rfl,
        invariant.passes found (.moving index) (by rw [isHere]; rfl) rfl changes.buffers rfl ?_
          controller rfl rfl ⟨knows.buf_of_ne changes.places notWriter,
            knows.visiting_of_ne changes notVisited, ⟨update_self _ _ _, isFull⟩, ?_⟩
          (.of_visiting_eq (.inl rfl) rfl ?_) rfl (le_of_eq isFull) (by rintro ⟨⟩)
          (invariant.conserved_of_same (fun _ => rfl) rfl rfl rfl)⟩
      · intro list
        cases list <;> rfl
      · rintro stage ⟨⟩
        refine ⟨atStage.1, ?_, update_self _ _ _⟩
        dsimp only
        rw [update_self]
        rfl
      · rw [isCall]
        rintro node ⟨⟩
        rfl
  | pushing list buffer seen =>
      obtain rfl : list = .full := by
        cases list <;> first | rfl | cases call
      obtain ⟨isHere, isFull⟩ := call
      obtain ⟨proper, isFree, linked⟩ := atStage
      have notWriter : place buffer ≠ .inWriter index := isHere.trans_ne (by rintro ⟨⟩)
      have notVisited : place buffer ≠ .visiting index := isHere.trans_ne (by rintro ⟨⟩)
      have onlyIt (node : ℕ) (isMoving : writer.call.moving = some node) : node = buffer := by
        rw [isCall] at isMoving
        exact (Option.some.inj isMoving).symm
      by_cases swaps : set.lists.head .full = seen ∧ spurious = false
      · have changes : Changes set ((set.withLists
            { set.lists with head := update set.lists.head .full buffer }).setWriter index
              { writer with call := .idle }) place (update place buffer .full) buffer :=
          { buffers := fun _ _ => rfl
            places := fun node elsewhere => update_of_ne elsewhere _ _ }
        have writers_eq : ((set.withLists
            { set.lists with head := update set.lists.head .full buffer }).setWriter index
              { writer with call := .idle }).writers =
            set.writers.set index { writer with call := .idle } := rfl
        refine ⟨(set.withLists
          { set.lists with head := update set.lists.head .full buffer }).setWriter index
            { writer with call := .idle }, _, ?_,
          invariant.transfers found .full ?_ (fun _ _ => by rintro ⟨⟩) ?_
            ⟨by rintro ⟨⟩, by rintro ⟨⟩, by rintro ⟨⟩⟩
            (fun _ _ => rfl) writers_eq ?_ controller rfl rfl
            ⟨knows.buf_of_ne changes.places notWriter, knows.visiting_of_ne changes notVisited,
              trivial, by rintro _ ⟨⟩⟩
            (.of_visiting_eq (.inl rfl) rfl onlyIt) (by rintro ⟨⟩) isFull (by rintro ⟨⟩)
            (invariant.conserved_of_same (fun _ => rfl) rfl rfl rfl)⟩
        · dsimp only [FieldSet.access, AtomicStacks.step]
          rw [if_pos swaps]
        · rw [isHere]
          rintro other different ⟨⟩
          exact different rfl
        · rw [isHere]
          exact ⟨by rintro ⟨⟩, by rintro ⟨⟩⟩
        · rw [← swaps.1] at linked
          apply (invariant.stacked.push .full proper isFree linked).congr
          · intro list
            cases list <;> rfl
          · exact fun _ _ => rfl
          · exact fun _ => rfl
      · refine ⟨set.setWriter index
          { writer with call := .pushFull (.linking .full buffer (set.lists.head .full)) }, place,
          ?_, invariant.quiet found controller ⟨knows.buf, knows.visiting, ⟨isHere, isFull⟩, ?_⟩
            ⟨.inl rfl, fun _ _ _ was => ⟨_, was⟩, ?_⟩⟩
        · dsimp only [FieldSet.access, AtomicStacks.step]
          rw [if_neg swaps]
          rfl
        · rintro stage ⟨⟩
          exact ⟨proper, isFree⟩
        · intro node _ isMoving
          rw [onlyIt node isMoving]
          rfl
  | reading => cases call
  | popping => cases call
  | clearing => cases call
  | pushed => cases call
  | popped => cases call

end Steps

end Whippet.FieldSets
