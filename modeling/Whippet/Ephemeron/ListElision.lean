import Whippet.Ephemeron.ListInvariant

/-!
Following lists of ephemerons while they are shortened.

A call of `ephemeron_list_follow` is answered by the first node that is live at some moment of the
call. A node that it finds live is the first one at that moment, unless a node was pushed in front
of where it started and is live. Then the location has left the old head, and can only be back when
the node in front has died before the old head did; but the old head was dead already.

Owns: what the links of a location lead to, what a step advances past, and the answer of a call.
Does not own: the invariant.
-/

namespace Whippet.EphemeronList

open Function
open Fronts

namespace State

variable {state before after : State} {loc : Loc} {node other item : ℕ}

/-! ## Links -/

/-- The first node of a list that is live, as the list was pushed. -/
def firstLive (state : State) (loc : Loc) : ℕ := ((state.behind loc).find? state.isLive).getD 0

namespace Listed

variable (listed : state.Listed)
include listed

theorem firstLive_eq (known : state.Known loc)
    (isFirst : item = 0 ∨ item ∈ state.behind loc ∧ state.isLive item = true)
    (dead : ∀ node ∈ front (state.behind loc) item, state.isLive node = false) :
    state.firstLive loc = item := by
  apply find?_getD_eq _ dead
  rcases isFirst with rfl | live
  · exact .inr ⟨listed.zero_not_mem known, rfl⟩
  · exact .inl live

/-- Where the value of a location is in its list. -/
theorem exists_rest (known : state.Known loc) (isNode : state.value loc ≠ 0) :
    ∃ rest, state.behind loc =
        front (state.behind loc) (state.value loc) ++ state.value loc :: rest ∧
      state.Known (.link (state.value loc)) ∧ state.behind (.link (state.value loc)) = rest := by
  have member := (listed.value_mem loc known).resolve_left isNode
  obtain ⟨rest, split⟩ := exists_split member
  exact ⟨rest, split, listed.pushed_of_mem known member, listed.behind_link known split⟩

/-- A node that was pushed and is live is led to. -/
theorem reaches_of_live (known : state.Known loc) (member : node ∈ state.behind loc)
    (live : state.isLive node = true) : state.Reaches loc node := by
  induction length : (state.behind loc).length using Nat.strong_induction_on generalizing loc with
  | _ count inductionHypothesis =>
      have passed := listed.passed loc known
      have notPassed : node ∉ front (state.behind loc) (state.value loc) := by
        intro inFront
        have dead := (passed node inFront).dead
        rw [live] at dead
        cases dead
      have isNode : state.value loc ≠ 0 := by
        intro isZero
        apply notPassed
        rw [isZero, front_of_not_mem (listed.zero_not_mem known)]
        exact member
      obtain ⟨rest, split, linkKnown, isRest⟩ := listed.exists_rest known isNode
      by_cases isHere : state.value loc = node
      · rw [isHere] at isNode
        exact .here isHere isNode
      · refine .later rfl isNode ?_
        have inRest : node ∈ rest := by
          rw [split] at member
          rcases List.mem_append.mp member with inFront | inBack
          · exact absurd inFront notPassed
          · exact (List.mem_cons.mp inBack).resolve_left fun same => isHere same.symm
        have shorter : rest.length < count := by
          rw [← length, split, List.length_append, List.length_cons]
          omega
        rw [← isRest] at inRest shorter
        exact inductionHypothesis _ shorter linkKnown inRest rfl

/-- What a location leads to was pushed behind it. -/
theorem mem_of_reaches (known : state.Known loc) (reaches : state.Reaches loc node) :
    node ∈ state.behind loc := by
  induction reaches with
  | here isValue isNode =>
      subst isValue
      exact (listed.value_mem _ known).resolve_left isNode
  | later isValue isNode _ inductionHypothesis =>
      subst isValue
      obtain ⟨rest, split, linkKnown, isRest⟩ := listed.exists_rest known isNode
      have inRest := inductionHypothesis linkKnown
      rw [isRest] at inRest
      rw [split]
      exact List.mem_append_right _ (List.mem_cons_of_mem _ inRest)

/-- No node leads to itself. -/
theorem not_reaches_self (node : ℕ) : ¬state.Reaches (.link node) node := by
  intro reaches
  by_cases isPushed : node ∈ state.pushed
  · have known : state.Known (.link node) := isPushed
    have member := listed.mem_of_reaches known reaches
    obtain ⟨list, inList⟩ := (listed.pushed_iff node).mp isPushed
    obtain ⟨earlier, rest, split⟩ := List.append_of_mem inList
    have distinct := listed.nodup list
    rw [listed.suffix list earlier node rest split] at member
    rw [split] at distinct
    exact (List.nodup_cons.mp (List.nodup_append.mp distinct).2.1).1 member
  · have isStored := listed.stored node isPushed
    cases reaches with
    | here isValue isNode =>
        rw [isValue] at isStored
        exact isPushed (isStored.resolve_left isNode)
    | @later _ _ other isValue isNode reaches =>
        rw [isValue] at isStored
        have known : state.Known (.link other) := isStored.resolve_left isNode
        exact isPushed (listed.pushed_of_mem known (listed.mem_of_reaches known reaches))

/-- The first node that is live is the one that the links lead to first. -/
theorem firstLive_links (known : state.Known loc) : state.FirstLive loc (state.firstLive loc) := by
  induction length : (state.behind loc).length using Nat.strong_induction_on generalizing loc with
  | _ count inductionHypothesis =>
      have passed := listed.passed loc known
      have dead : ∀ node ∈ front (state.behind loc) (state.value loc), state.isLive node = false :=
        fun node inFront => (passed node inFront).dead
      by_cases isNode : state.value loc = 0
      · rw [listed.firstLive_eq known (.inl rfl) (by rw [← isNode]; exact dead)]
        exact .none isNode
      · have member := (listed.value_mem loc known).resolve_left isNode
        by_cases live : state.isLive (state.value loc) = true
        · rw [listed.firstLive_eq known (.inr ⟨member, live⟩) dead]
          exact .here rfl isNode live
        · obtain ⟨rest, split, linkKnown, isRest⟩ := listed.exists_rest known isNode
          have shorter : (state.behind (.link (state.value loc))).length < count := by
            rw [isRest, ← length, split, List.length_append, List.length_cons]
            omega
          have later := inductionHypothesis _ shorter linkKnown rfl
          have same : state.firstLive loc = state.firstLive (.link (state.value loc)) := by
            have noneInFront : (front (state.behind loc) (state.value loc)).find? state.isLive =
                none := by
              rw [List.find?_eq_none]
              intro node inFront
              rw [dead node inFront]
              exact Bool.false_ne_true
            rw [firstLive, split, List.find?_append, noneInFront, List.find?_cons_of_neg live,
              firstLive, isRest]
            rfl
          rw [same]
          exact .later rfl isNode (Bool.eq_false_iff.mpr live) later

end Listed

/-! ## What a step does to the locations and to other threads -/

/-- A step of a push moves the thread, after a store to the link of the node, or after the
exchange. -/
theorem stepPush_cases (state : State) (thread list node : ℕ) (spurious : Bool)
    (point : PushPoint) :
    ∃ now, state.stepPush thread list node spurious point = state.setThread thread now ∨
      (∃ tail, state.stepPush thread list node spurious point =
        (state.store (.link node) tail).setThread thread now) ∨
      point = .exchange (state.value (.head list)) ∧
        state.stepPush thread list node spurious point =
          (state.publish list node).setThread thread now := by
  cases point with
  | load => exact ⟨_, .inl rfl⟩
  | store tail => exact ⟨_, .inr (.inl ⟨tail, rfl⟩)⟩
  | exchange tail =>
      by_cases succeeds : state.value (.head list) = tail ∧ spurious = false
      · refine ⟨.idle, .inr (.inr ⟨by rw [succeeds.1], ?_⟩)⟩
        exact if_pos succeeds
      · exact ⟨_, .inl (if_neg succeeds)⟩

/-- A step of a call that follows moves the thread, after an exchange that advances the location. -/
theorem stepFollow_cases (state : State) (thread : ℕ) (loc : Loc) (point : FollowPoint) :
    ∃ now, state.stepFollow thread loc point = state.setThread thread now ∨
      ∃ head newHead, point = .chosen head newHead ∧ head ≠ newHead ∧ state.value loc = head ∧
        state.stepFollow thread loc point = (state.store loc newHead).setThread thread now := by
  cases point with
  | load =>
      by_cases isEmpty : state.value loc = 0
      · exact ⟨_, .inl (if_pos isEmpty)⟩
      · exact ⟨_, .inl (if_neg isEmpty)⟩
  | check head newHead =>
      by_cases live : state.isLive newHead = true
      · exact ⟨_, .inl (if_pos live)⟩
      · exact ⟨_, .inl (if_neg live)⟩
  | advance head newHead =>
      by_cases isEnd : state.value (.link newHead) = 0
      · exact ⟨_, .inl (if_pos isEnd)⟩
      · exact ⟨_, .inl (if_neg isEnd)⟩
  | chosen head newHead =>
      rw [stepFollow]
      split_ifs with same atHead atNewHead
      · exact ⟨_, .inl rfl⟩
      · exact ⟨_, .inr ⟨head, newHead, rfl, same, atHead, rfl⟩⟩
      · exact ⟨_, .inl rfl⟩
      · exact ⟨_, .inl rfl⟩
  | returned result => exact ⟨_, .inl rfl⟩

theorem Invariant.extends_step {action : Action} (invariant : before.Invariant)
    (stepped : before.step action = .next after) : Extends before after := by
  cases action with
  | callPush thread list node =>
      rw [State.step, Outcome.require_bind_eq_next, Outcome.require_bind_eq_next] at stepped
      obtain rfl := Outcome.next.inj stepped.2.2
      exact extends_callPush ..
  | callFollow thread loc =>
      rw [State.step, Outcome.require_bind_eq_next, Outcome.require_bind_eq_next] at stepped
      obtain rfl := Outcome.next.inj stepped.2.2
      exact extends_setThread ..
  | go thread spurious =>
      have ok := invariant.threadOk thread
      rw [State.step] at stepped
      split at stepped
      next => cases stepped
      next list node point isPushing =>
        obtain rfl := Outcome.next.inj stepped
        rw [isPushing] at ok
        obtain ⟨now, isSet | ⟨tail, isSet⟩ | ⟨-, isSet⟩⟩ :=
          before.stepPush_cases thread list node spurious point
        · rw [isSet]
          exact extends_setThread ..
        · rw [isSet]
          exact extends_store ..
        · rw [isSet]
          exact extends_publish invariant.listed ok.1 ok.2.1
      next loc point isFollowing =>
        obtain rfl := Outcome.next.inj stepped
        obtain ⟨now, isSet | ⟨head, newHead, -, -, -, isSet⟩⟩ :=
          before.stepFollow_cases thread loc point
        · rw [isSet]
          exact extends_setThread ..
        · rw [isSet]
          exact extends_store ..
  | markDead node =>
      rw [State.step, Outcome.require_bind_eq_next] at stepped
      obtain rfl := Outcome.next.inj stepped.2
      exact extends_markDead (invariant.listed.markDead stepped.1).2

/-- A thread that is in a call moves by its own steps only. -/
theorem threads_of_step {action : Action} {thread : ℕ} (busy : before.threads thread ≠ .idle)
    (notOwn : ∀ spurious, action ≠ .go thread spurious)
    (stepped : before.step action = .next after) :
    after.threads thread = before.threads thread := by
  cases action with
  | callPush other list node =>
      rw [State.step, Outcome.require_bind_eq_next, Outcome.require_bind_eq_next] at stepped
      obtain ⟨isIdle, -, rest⟩ := stepped
      obtain rfl := Outcome.next.inj rest
      apply setThread_threads_of_ne
      rintro rfl
      exact busy isIdle
  | callFollow other loc =>
      rw [State.step, Outcome.require_bind_eq_next, Outcome.require_bind_eq_next] at stepped
      obtain ⟨isIdle, -, rest⟩ := stepped
      obtain rfl := Outcome.next.inj rest
      apply setThread_threads_of_ne
      rintro rfl
      exact busy isIdle
  | go other spurious =>
      have different : thread ≠ other := by
        rintro rfl
        exact notOwn spurious rfl
      rw [State.step] at stepped
      split at stepped
      next => cases stepped
      next list node point isPushing =>
        obtain rfl := Outcome.next.inj stepped
        obtain ⟨now, isSet | ⟨tail, isSet⟩ | ⟨-, isSet⟩⟩ :=
          before.stepPush_cases other list node spurious point
        all_goals rw [isSet, setThread_threads_of_ne different]
        · rfl
        · rfl
      next loc point isFollowing =>
        obtain rfl := Outcome.next.inj stepped
        obtain ⟨now, isSet | ⟨head, newHead, -, -, -, isSet⟩⟩ :=
          before.stepFollow_cases other loc point
        all_goals rw [isSet, setThread_threads_of_ne different]
        rfl
  | markDead node =>
      rw [State.step, Outcome.require_bind_eq_next] at stepped
      obtain rfl := Outcome.next.inj stepped.2
      rw [markDead_threads]

/-- The location is advanced: it was at a node of its list, and everything from there up to where it
is now is dead. -/
def AdvancedPast (before after : State) (loc : Loc) : Prop :=
  before.value loc ∈ front (before.behind loc) (after.value loc) ∧
    (after.value loc = 0 ∨ after.value loc ∈ before.behind loc) ∧
    ∀ node ∈ front (before.behind loc) (after.value loc), before.isLive node = false

/-- A node that was in no list is put in front of the head. -/
def PutInFront (before after : State) (loc : Loc) : Prop :=
  ∃ list, loc = .head list ∧ after.value loc ∉ before.pushed ∧
    after.value (.link (after.value loc)) = before.value loc

theorem Invariant.step_value {action : Action} (invariant : before.Invariant)
    (stepped : before.step action = .next after) (known : before.Known loc) :
    after.value loc = before.value loc ∨ AdvancedPast before after loc ∨
      PutInFront before after loc := by
  have listed := invariant.listed
  cases action with
  | callPush thread list node =>
      rw [State.step, Outcome.require_bind_eq_next, Outcome.require_bind_eq_next] at stepped
      obtain rfl := Outcome.next.inj stepped.2.2
      exact .inl rfl
  | callFollow thread other =>
      rw [State.step, Outcome.require_bind_eq_next, Outcome.require_bind_eq_next] at stepped
      obtain rfl := Outcome.next.inj stepped.2.2
      exact .inl rfl
  | go thread spurious =>
      have ok := invariant.threadOk thread
      rw [State.step] at stepped
      split at stepped
      next => cases stepped
      next list node point isPushing =>
        obtain rfl := Outcome.next.inj stepped
        rw [isPushing] at ok
        obtain ⟨-, isNew, pushOk⟩ := ok
        obtain ⟨now, isSet | ⟨tail, isSet⟩ | ⟨isExchange, isSet⟩⟩ :=
          before.stepPush_cases thread list node spurious point
        · rw [isSet]
          exact .inl rfl
        · rw [isSet]
          left
          apply store_value_of_ne
          rintro rfl
          exact isNew known
        · rw [isSet]
          subst isExchange
          by_cases isHead : loc = .head list
          · subst isHead
            refine .inr (.inr ⟨list, rfl, ?_, ?_⟩)
            · change (before.publish list node).value (.head list) ∉ _
              rw [publish_value_head]
              exact isNew
            · change (before.publish list node).value
                (.link ((before.publish list node).value (.head list))) = _
              rw [publish_value_head, publish_value_link]
              exact pushOk.2
          · exact .inl (publish_value_of_ne before isHead node)
      next other point isFollowing =>
        obtain rfl := Outcome.next.inj stepped
        rw [isFollowing] at ok
        obtain ⟨otherKnown, followOk⟩ := ok
        obtain ⟨now, isSet | ⟨head, newHead, isChosen, different, atHead, isSet⟩⟩ :=
          before.stepFollow_cases thread other point
        · rw [isSet]
          exact .inl rfl
        · rw [isSet]
          subst isChosen
          by_cases same : loc = other
          · subst same
            have isNow : ((before.store loc newHead).setThread thread now).value loc = newHead :=
              store_value_self ..
            refine .inr (.inl ⟨?_, ?_, ?_⟩)
            · rw [isNow, atHead]
              exact followOk.order.resolve_left different
            · rw [isNow]
              exact followOk.newHead_mem
            · rw [isNow]
              intro node inFront
              exact (Walked.diedBefore listed otherKnown atHead followOk node inFront).dead
          · exact .inl (store_value_of_ne before same newHead)
  | markDead node =>
      rw [State.step, Outcome.require_bind_eq_next] at stepped
      obtain rfl := Outcome.next.inj stepped.2
      rw [markDead_value]
      exact .inl rfl

/-! ## Answers -/

/-- What is known of the answer of a call: `seen` are the nodes, or null, that were the first live
ones at some moment of the call. -/
def Answers (state : State) (seen : ℕ → Prop) (loc : Loc) : FollowPoint → Prop
  | .load => True
  | .check head _ => state.isLive head = true → seen head
  | .advance head _ => state.isLive head = true → seen head
  | .chosen head newHead =>
      (head = newHead → seen newHead) ∧
        (head ≠ newHead → seen newHead ∨
          ∃ node ∈ front (state.behind loc) head, ¬state.DiedBefore node head) ∧
        (state.isLive newHead = false → seen newHead ∨
          ∃ node ∈ front (state.behind loc) newHead, ¬state.DiedBefore node newHead)
  | .returned result => seen result

section Answers

variable {seen seenAfter : ℕ → Prop}

theorem Answers.setThread {thread : ℕ} {now : Thread} {point : FollowPoint}
    (answers : state.Answers seen loc point) :
    (state.setThread thread now).Answers seen loc point := by
  cases point <;> exact answers

theorem Answers.mono {point : FollowPoint} (keeps : ∀ item, seen item → seenAfter item)
    (answers : state.Answers seen loc point) : state.Answers seenAfter loc point := by
  cases point with
  | load => trivial
  | check head newHead => exact fun live => keeps head (answers live)
  | advance head newHead => exact fun live => keeps head (answers live)
  | chosen head newHead =>
      exact ⟨fun same => keeps newHead (answers.1 same),
        fun different => (answers.2.1 different).imp (keeps newHead) id,
        fun dead => (answers.2.2 dead).imp (keeps newHead) id⟩
  | returned result => exact keeps result answers

/-- Of a node that is in front of a dead one and did not die before it, this stays so. -/
theorem Extends.exists_front (extended : Extends before after) (listed : before.Listed)
    (known : before.Known loc) (isItem : item = 0 ∨ item ∈ before.behind loc)
    (dead : before.isLive item = false)
    (inFront : ∃ node ∈ front (before.behind loc) item, ¬before.DiedBefore node item) :
    ∃ node ∈ front (after.behind loc) item, ¬after.DiedBefore node item := by
  obtain ⟨node, member, notBefore⟩ := inFront
  refine ⟨node, ?_, ?_⟩
  · rcases extended.front_cases listed known with same | ⟨new, -, fronts⟩
    · rw [same]
      exact member
    · rw [fronts item isItem]
      exact List.mem_cons_of_mem _ member
  · exact fun died => notBefore
      (extended.ages.diedBefore_of_dead listed.clocked dead died)

/-- The first live node is the item, or one in front of it is live. -/
theorem Listed.seen_or_live (listed : state.Listed) (known : state.Known loc)
    (isFirst : item = 0 ∨ item ∈ state.behind loc ∧ state.isLive item = true)
    (seesNow : seen (state.firstLive loc)) :
    seen item ∨ ∃ node ∈ front (state.behind loc) item, state.isLive node = true := by
  by_cases allDead : ∀ node ∈ front (state.behind loc) item, state.isLive node = false
  · rw [listed.firstLive_eq known isFirst allDead] at seesNow
    exact .inl seesNow
  · push Not at allDead
    obtain ⟨node, inFront, live⟩ := allDead
    exact .inr ⟨node, inFront, Bool.ne_false_iff.mp live⟩

theorem Answers.extend {point : FollowPoint} (extended : Extends before after)
    (listed : before.Listed) (known : before.Known loc) (ok : before.FollowOk loc point)
    (keeps : ∀ item, seen item → seenAfter item) (seesNow : seenAfter (before.firstLive loc))
    (answers : before.Answers seen loc point) : after.Answers seenAfter loc point := by
  cases point with
  | load => trivial
  | check head newHead => exact fun live => keeps head (answers (extended.ages.live live))
  | advance head newHead => exact fun live => keeps head (answers (extended.ages.live live))
  | chosen head newHead =>
      obtain ⟨ofSame, ofDifferent, ofDead⟩ := answers
      refine ⟨fun same => keeps newHead (ofSame same), ?_, ?_⟩
      · intro different
        have headDead : before.isLive head = false := by
          have headInFront := ok.order.resolve_left different
          exact ((ok.skipped head headInFront).resolve_left
            fun inOwn => ne_of_mem_front inOwn rfl).dead
        exact (ofDifferent different).imp (keeps newHead)
          (extended.exists_front listed known ok.head_mem headDead)
      · intro dead
        by_cases wasLive : before.isLive newHead = true
        · -- it died in this step: what was live in front of it did not die before
          rcases listed.seen_or_live known (ok.newHead_mem.imp id fun member => ⟨member, wasLive⟩)
            seesNow with sees | ⟨node, inFront, live⟩
          · exact .inl sees
          · right
            refine ⟨node, ?_, extended.ages.not_diedBefore_of_live live wasLive dead⟩
            rcases extended.front_cases listed known with same | ⟨new, -, fronts⟩
            · rw [same]
              exact inFront
            · rw [fronts newHead ok.newHead_mem]
              exact List.mem_cons_of_mem _ inFront
        · have wasDead := Bool.eq_false_iff.mpr wasLive
          exact (ofDead wasDead).imp (keeps newHead)
            (extended.exists_front listed known ok.newHead_mem wasDead)
  | returned result => exact keeps result answers

/-- The value of a location, if it is null or live, is the first live node. -/
theorem Listed.seen_value (listed : state.Listed) (known : state.Known loc)
    (seesNow : seen (state.firstLive loc))
    (live : state.value loc = 0 ∨ state.isLive (state.value loc) = true) :
    seen (state.value loc) := by
  have isFirst : state.value loc = 0 ∨
      state.value loc ∈ state.behind loc ∧ state.isLive (state.value loc) = true := by
    rcases listed.value_mem loc known with isZero | member
    · exact .inl isZero
    · rcases live with isZero | isLive
      · exact .inl isZero
      · exact .inr ⟨member, isLive⟩
  rw [listed.firstLive_eq known isFirst fun node inFront =>
    (listed.passed loc known node inFront).dead] at seesNow
  exact seesNow

theorem Listed.answers_loop (listed : state.Listed) (known : state.Known loc)
    (seesNow : seen (state.firstLive loc)) :
    state.Answers seen loc (loop (state.value loc)) := by
  rw [loop]
  split
  next isZero =>
    have seesZero := listed.seen_value known seesNow (.inl isZero)
    rw [isZero] at seesZero
    exact ⟨fun _ => seesZero, fun different => absurd rfl different, fun _ => .inl seesZero⟩
  next => exact fun live => listed.seen_value known seesNow (.inr live)

/-- What the walk ends at is the first live node now, or one in front of the old head is live. -/
theorem Walked.answers_chosen {head newHead : ℕ} (listed : state.Listed) (known : state.Known loc)
    (walked : state.Walked loc head newHead fun node => state.isLive node = false)
    (live : newHead = 0 ∨ state.isLive newHead = true) (seesNow : seen (state.firstLive loc))
    (ofHead : state.isLive head = true → seen head) :
    state.Answers seen loc (.chosen head newHead) := by
  have newHeadLive : state.isLive newHead = true := by
    rcases live with rfl | isLive
    · exact listed.live_zero
    · exact isLive
  refine ⟨?_, ?_, ?_⟩
  · rintro rfl
    exact ofHead newHeadLive
  · intro _
    rcases listed.seen_or_live known (walked.newHead_mem.imp id fun member => ⟨member, newHeadLive⟩)
      seesNow with sees | ⟨node, inFront, nodeLive⟩
    · exact .inl sees
    · right
      have beforeHead := (walked.skipped node inFront).resolve_right (by
        rw [nodeLive]
        exact nofun)
      refine ⟨node, beforeHead, ?_⟩
      intro died
      have dead := died.dead
      rw [nodeLive] at dead
      cases dead
  · intro dead
    rw [newHeadLive] at dead
    cases dead

/-- The point that a step of a call leads to, and what is known of the answer there. -/
theorem Invariant.answers_stepFollow {thread : ℕ} {point : FollowPoint}
    (invariant : state.Invariant) (isFollowing : state.threads thread = .follow loc point)
    (seesNow : seen (state.firstLive loc)) (answers : state.Answers seen loc point) :
    (state.stepFollow thread loc point).threads thread = .idle ∨
      ∃ later, (state.stepFollow thread loc point).threads thread = .follow loc later ∧
        (state.stepFollow thread loc point).Answers seen loc later := by
  have listed := invariant.listed
  have ok := invariant.threadOk thread
  rw [isFollowing] at ok
  obtain ⟨known, followOk⟩ := ok
  have moved (now : Thread) : (state.setThread thread now).threads thread = now :=
    setThread_threads_self ..
  cases point with
  | load =>
      right
      rw [State.stepFollow]
      split
      next isZero =>
        refine ⟨_, moved _, ?_⟩
        have seesValue := listed.seen_value known seesNow (.inl isZero)
        rw [isZero] at seesValue
        exact seesValue
      next => exact ⟨_, moved _, (listed.answers_loop known seesNow).setThread⟩
  | check head newHead =>
      obtain ⟨nonzero, walked⟩ := followOk
      right
      rw [State.stepFollow]
      split
      next live =>
        exact ⟨_, moved _,
          (walked.answers_chosen listed known (.inr live) seesNow answers).setThread⟩
      next => exact ⟨_, moved _, answers⟩
  | advance head newHead =>
      obtain ⟨nonzero, dead, walked⟩ := followOk
      have further := walked.advance listed known nonzero dead
      right
      rw [State.stepFollow]
      split
      next isEnd =>
        rw [isEnd] at further
        exact ⟨_, moved _,
          (further.answers_chosen listed known (.inl rfl) seesNow answers).setThread⟩
      next => exact ⟨_, moved _, answers⟩
  | chosen head newHead =>
      obtain ⟨ofSame, ofDifferent, ofDead⟩ := answers
      have passed := listed.passed loc known
      right
      rw [State.stepFollow]
      split_ifs with same atHead atNewHead
      · exact ⟨_, moved _, ofSame same⟩
      · refine ⟨_, setThread_threads_self .., ?_⟩
        -- the old head is back: all in front of it died before it did
        refine (ofDifferent same).resolve_right ?_
        rintro ⟨node, inFront, notBefore⟩
        rw [atHead] at passed
        exact notBefore (passed node inFront)
      · refine ⟨_, moved _, ?_⟩
        by_cases live : state.isLive newHead = true
        · rw [← atNewHead] at live
          have seesValue := listed.seen_value known seesNow (.inr live)
          rw [atNewHead] at seesValue
          exact seesValue
        · refine (ofDead (Bool.eq_false_iff.mpr live)).resolve_right ?_
          rintro ⟨node, inFront, notBefore⟩
          rw [atNewHead] at passed
          exact notBefore (passed node inFront)
      · exact ⟨_, moved _, (listed.answers_loop known seesNow).setThread⟩
  | returned result => exact .inl (moved _)

end Answers

end State

/-! ## Calls -/

/-- The steps during which the thread is in a call at the location. -/
def InCall (thread : ℕ) (loc : Loc) (state : State) (_ : Action) : Prop :=
  ∃ point, state.threads thread = .follow loc point

/-- Of a call that began in `called`, null or a node that was the first live one at some moment. -/
def Seen (thread : ℕ) (loc : Loc) (called state : State) (item : ℕ) : Prop :=
  ∃ moment, system.Follows (InCall thread loc) called moment ∧
    system.Follows (InCall thread loc) moment state ∧ moment.firstLive loc = item

theorem seen_now {thread : ℕ} {loc : Loc} {called state : State}
    (follows : system.Follows (InCall thread loc) called state) :
    Seen thread loc called state (state.firstLive loc) :=
  ⟨state, follows, .refl, rfl⟩

/-- In every state of a call what is known of its answer holds. -/
theorem answers_of_follows {thread : ℕ} {loc : Loc} {called state : State}
    (invariant : called.Invariant) (begun : called.threads thread = .follow loc .load)
    (follows : system.Follows (InCall thread loc) called state) :
    state.Invariant ∧ state.Known loc ∧ ∀ point, state.threads thread = .follow loc point →
      state.Answers (Seen thread loc called state) loc point := by
  induction follows with
  | refl =>
      have ok := invariant.threadOk thread
      rw [begun] at ok
      refine ⟨invariant, ok.1, ?_⟩
      intro point isAt
      rw [begun] at isAt
      cases isAt
      trivial
  | @tail before after follows stepped inductionHypothesis =>
      obtain ⟨invariant, known, answered⟩ := inductionHypothesis
      obtain ⟨action, ⟨point, isAt⟩, stepped⟩ := stepped
      have later : system.Follows (InCall thread loc) called after :=
        follows.tail ⟨action, ⟨point, isAt⟩, stepped⟩
      have keeps (item : ℕ) (sees : Seen thread loc called before item) :
          Seen thread loc called after item := by
        obtain ⟨moment, untilMoment, fromMoment, isFirst⟩ := sees
        exact ⟨moment, untilMoment, fromMoment.tail ⟨action, ⟨point, isAt⟩, stepped⟩, isFirst⟩
      have seesBefore := seen_now follows
      have ok := invariant.threadOk thread
      rw [isAt] at ok
      have extended := invariant.extends_step stepped
      refine ⟨invariant.step stepped, extended.known known, ?_⟩
      by_cases own : ∃ spurious, action = .go thread spurious
      · obtain ⟨spurious, rfl⟩ := own
        change before.step (.go thread spurious) = .next after at stepped
        rw [State.step, isAt] at stepped
        obtain rfl := Outcome.next.inj stepped
        intro next isNext
        rcases invariant.answers_stepFollow isAt (keeps _ seesBefore)
          ((answered point isAt).mono keeps) with isIdle | ⟨reached, isReached, answers⟩
        · rw [isIdle] at isNext
          cases isNext
        · rw [isReached] at isNext
          cases isNext
          exact answers
      · have busy : before.threads thread ≠ .idle := by
          rw [isAt]
          rintro ⟨⟩
        have same := State.threads_of_step busy (fun spurious isOwn => own ⟨spurious, isOwn⟩)
          stepped
        rw [same]
        intro next isNext
        rw [isAt] at isNext
        cases isNext
        exact (answered point isAt).extend extended invariant.listed known ok.2 keeps
          (keeps _ seesBefore)

/-- The result of a call is the first node that was live at some moment of it, or null if there was
none. -/
theorem exists_moment {thread : ℕ} {loc : Loc} {called state : State} {result : ℕ}
    (invariant : called.Invariant) (begun : called.threads thread = .follow loc .load)
    (follows : system.Follows (InCall thread loc) called state)
    (returned : state.threads thread = .follow loc (.returned result)) :
    ∃ moment, system.Follows (InCall thread loc) called moment ∧
      system.Follows (InCall thread loc) moment state ∧ moment.FirstLive loc result := by
  obtain ⟨-, -, answered⟩ := answers_of_follows invariant begun follows
  obtain ⟨moment, untilMoment, fromMoment, isFirst⟩ := answered _ returned
  obtain ⟨atMoment, known, -⟩ := answers_of_follows invariant begun untilMoment
  refine ⟨moment, untilMoment, fromMoment, ?_⟩
  rw [← isFirst]
  exact atMoment.listed.firstLive_links known

/-- In every run of threads that push nodes, follow lists and mark nodes dead: every node that was
pushed and is live is led to from the head it was pushed at, and from every node pushed later; a
call that follows returns the first node that was live at some moment of the call, or null if there
was none; a step that changes a location advances it past dead nodes or puts a node in front of it;
and no node leads to itself. -/
theorem follows_first_live (state : State) (reached : system.Reachable state) :
    (∀ loc node, state.Known loc → node ∈ state.behind loc → state.isLive node = true →
      state.Reaches loc node) ∧
    (∀ thread loc called after result, state.step (.callFollow thread loc) = .next called →
      system.Follows (InCall thread loc) called after →
      after.threads thread = .follow loc (.returned result) →
      ∃ moment, system.Follows (InCall thread loc) called moment ∧
        system.Follows (InCall thread loc) moment after ∧ moment.FirstLive loc result) ∧
    (∀ action after loc, state.step action = .next after → state.Known loc →
      after.value loc = state.value loc ∨ state.AdvancedPast after loc ∨
        state.PutInFront after loc) ∧
    ∀ node, ¬state.Reaches (.link node) node := by
  have invariant := reachable_invariant reached
  refine ⟨?_, ?_, ?_, invariant.listed.not_reaches_self⟩
  · intro loc node known member live
    exact invariant.listed.reaches_of_live known member live
  · intro thread loc called after result begins follows returned
    have calledInvariant := invariant.step begins
    rw [State.step, Outcome.require_bind_eq_next, Outcome.require_bind_eq_next] at begins
    obtain rfl := Outcome.next.inj begins.2.2
    exact exists_moment calledInvariant (State.setThread_threads_self ..) follows returned
  · intro action after loc stepped known
    exact invariant.step_value stepped known

/-- Two nodes are pushed, and the one in front is marked dead. -/
def deadInFront : List Action :=
  [.callPush 0 0 1, .callPush 1 0 2, .go 0 false, .go 1 false, .go 0 false, .go 0 false,
    .go 1 false, .go 1 false, .go 1 false, .go 1 false, .markDead 2]

/-- A call passes the dead node. Before it exchanges the head, a third node is pushed there, and it
has to start again. -/
def overtaken : List Action :=
  [.go 2 false, .go 2 false, .go 2 false, .callPush 0 0 3, .go 0 false, .go 0 false, .go 0 false,
    .go 2 false, .go 2 false, .go 2 false, .go 2 false]

/-- Whether a thread is in a call at the location. -/
def isInCall (thread : ℕ) (loc : Loc) (state : State) : Bool :=
  match state.threads thread with
  | .follow its _ => decide (its = loc)
  | _ => false

theorem inCall_of_isInCall {thread : ℕ} {loc : Loc} (state : State) (action : Action)
    (test : isInCall thread loc state = true) : InCall thread loc state action := by
  rw [isInCall] at test
  split at test
  next its point isAt =>
    obtain rfl := of_decide_eq_true test
    exact ⟨point, isAt⟩
  next => cases test

theorem follows_first_live_overtaken :
    ∃ state called after, system.Reachable state ∧ state.Reaches (.head 0) 1 ∧
      state.step (.callFollow 2 (.head 0)) = .next called ∧
      system.Follows (InCall 2 (.head 0)) called after ∧
      after.threads 2 = .follow (.head 0) (.returned 3) ∧
      ∃ moment, system.Follows (InCall 2 (.head 0)) called moment ∧
        system.Follows (InCall 2 (.head 0)) moment after ∧ moment.FirstLive (.head 0) 3 := by
  have leads : (System.runBy system.step (fun _ _ => True) State.initial deadInFront).leadsTo
      (fun state => decide (state.behind (.head 0) = [2, 1] ∧ state.isLive 1 = true) &&
        (state.step (.callFollow 2 (.head 0))).leadsTo fun called =>
          (System.runBy system.step (fun state _ => isInCall 2 (.head 0) state = true) called
            overtaken).leadsTo fun after =>
              decide (after.threads 2 = .follow (.head 0) (.returned 3))) = true := by
    decide +kernel
  obtain ⟨state, isState, holds⟩ := Outcome.exists_next_of_leadsTo leads
  obtain ⟨facts, goesOn⟩ := Bool.and_eq_true_iff.mp holds
  obtain ⟨isBehind, live⟩ := of_decide_eq_true facts
  obtain ⟨called, isCalled, ends⟩ := Outcome.exists_next_of_leadsTo goesOn
  obtain ⟨after, ranOn, isReturned⟩ := Outcome.exists_next_of_leadsTo ends
  have reached : system.Reachable state :=
    System.ReachableBy.of_runBy system (fun _ _ => True) (fun _ _ _ => trivial) (.initial rfl) _
      isState
  have follows : system.Follows (InCall 2 (.head 0)) called after :=
    .of_runBy _ inCall_of_isInCall overtaken ranOn
  have returned := of_decide_eq_true isReturned
  have spec := follows_first_live state reached
  refine ⟨state, called, after, reached, ?_, isCalled, follows, returned,
    spec.2.1 2 (.head 0) called after 3 isCalled follows returned⟩
  apply spec.1 (.head 0) 1 trivial _ live
  rw [isBehind]
  decide

end Whippet.EphemeronList
