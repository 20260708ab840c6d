import Whippet.Ephemeron.ListTraversal
import Whippet.Library.Fronts

/-!
The invariant of concurrent lists of ephemerons.

Of two nodes of which both are dead, one died first. What a location was advanced past died before
the node that it was advanced to: that node was seen live when the others were dead already. So what
is in front of the value of a location died before it, and an exchange that finds an old value there
again finds everything in front of it dead.

Owns: the invariant, and that every step keeps it. Does not own: what it says about the links.
-/

namespace Whippet.EphemeronList

open Function
open Fronts

namespace State

variable {state before after : State} {loc : Loc} {node other : ℕ}

/-! ## Deaths -/

/-- The first node is dead, and was before the second one died, if that is dead. -/
def DiedBefore (state : State) (node other : ℕ) : Prop :=
  ∃ time, state.diedAt node = some time ∧ ∀ later, state.diedAt other = some later → time < later

theorem isLive_eq_false_iff :
    state.isLive node = false ↔ ∃ time, state.diedAt node = some time := by
  rw [isLive]
  cases state.diedAt node with
  | none => simp
  | some time => simp

theorem isLive_iff : state.isLive node = true ↔ state.diedAt node = none := by
  rw [isLive, Option.isNone_iff_eq_none]

theorem DiedBefore.dead (died : state.DiedBefore node other) : state.isLive node = false :=
  isLive_eq_false_iff.mpr (died.imp fun _ holds => holds.1)

theorem diedBefore_of_live (dead : state.isLive node = false) (live : state.isLive other = true) :
    state.DiedBefore node other := by
  obtain ⟨time, died⟩ := isLive_eq_false_iff.mp dead
  refine ⟨time, died, ?_⟩
  intro later diedToo
  rw [isLive_iff.mp live] at diedToo
  cases diedToo

theorem DiedBefore.trans {third : ℕ} (first : state.DiedBefore node other)
    (second : state.DiedBefore other third) : state.DiedBefore node third := by
  obtain ⟨time, died, earlier⟩ := first
  obtain ⟨middle, diedMiddle, earlierMiddle⟩ := second
  exact ⟨time, died, fun later diedThird =>
    (earlier middle diedMiddle).trans (earlierMiddle later diedThird)⟩

/-- Nodes stay dead, and those that died since died at the time of the clock. -/
structure Ages (before after : State) : Prop where
  stays : ∀ node time, before.diedAt node = some time → after.diedAt node = some time
  later : ∀ node time, after.diedAt node = some time →
    before.diedAt node = some time ∨ time = before.clock

/-- The clock is ahead of all deaths. -/
def Clocked (state : State) : Prop :=
    ∀ node time, state.diedAt node = some time → time < state.clock

theorem Ages.of_eq (same : after.diedAt = before.diedAt) : Ages before after := by
  constructor
  · intro node time died
    rw [same]
    exact died
  · intro node time died
    rw [same] at died
    exact .inl died

theorem Ages.dead (ages : Ages before after) (dead : before.isLive node = false) :
    after.isLive node = false :=
  isLive_eq_false_iff.mpr ((isLive_eq_false_iff.mp dead).imp fun time => ages.stays node time)

theorem Ages.live (ages : Ages before after) (live : after.isLive node = true) :
    before.isLive node = true := by
  by_contra notLive
  have dead := ages.dead (Bool.eq_false_iff.mpr notLive)
  rw [live] at dead
  cases dead

theorem Ages.diedBefore (ages : Ages before after) (clocked : before.Clocked)
    (died : before.DiedBefore node other) : after.DiedBefore node other := by
  obtain ⟨time, diedAt, earlier⟩ := died
  refine ⟨time, ages.stays node time diedAt, ?_⟩
  intro later diedOther
  rcases ages.later other later diedOther with already | since
  · exact earlier later already
  · rw [since]
    exact clocked node time diedAt

/-- Which of two nodes died before the other is settled when that is dead. -/
theorem Ages.diedBefore_of_dead (ages : Ages before after) (clocked : before.Clocked)
    (dead : before.isLive other = false) (died : after.DiedBefore node other) :
    before.DiedBefore node other := by
  obtain ⟨time, diedAt, earlier⟩ := died
  obtain ⟨later, diedOther⟩ := isLive_eq_false_iff.mp dead
  have isEarlier := earlier later (ages.stays other later diedOther)
  rcases ages.later node time diedAt with already | since
  · refine ⟨time, already, ?_⟩
    intro otherTime diedOtherAt
    rw [diedOther] at diedOtherAt
    cases diedOtherAt
    exact isEarlier
  · have ahead := clocked other later diedOther
    omega

/-- Of nodes that died since none died before another. -/
theorem Ages.not_diedBefore_of_live (ages : Ages before after) (live : before.isLive node = true)
    (otherLive : before.isLive other = true) (dead : after.isLive other = false) :
    ¬after.DiedBefore node other := by
  rintro ⟨time, died, earlier⟩
  obtain ⟨later, diedOther⟩ := isLive_eq_false_iff.mp dead
  have isEarlier := earlier later diedOther
  have now : time = before.clock := by
    apply (ages.later node time died).resolve_left
    rw [isLive_iff.mp live]
    exact nofun
  have otherNow : later = before.clock := by
    apply (ages.later other later diedOther).resolve_left
    rw [isLive_iff.mp otherLive]
    exact nofun
  omega

/-! ## What threads share -/

/-- The lists as they were pushed, and where the locations are in them. -/
structure Listed (state : State) : Prop where
  clocked : state.Clocked
  immortal : state.diedAt 0 = none
  nonzero : ∀ node ∈ state.started, node ≠ 0
  started : ∀ node ∈ state.pushed, node ∈ state.started
  pushed_iff : ∀ node, node ∈ state.pushed ↔ ∃ list, node ∈ state.behind (.head list)
  nodup : ∀ list, (state.behind (.head list)).Nodup
  suffix : ∀ list before node after,
    state.behind (.head list) = before ++ node :: after → state.behind (.link node) = after
  /-- The location is at a node of its list, or at the end. -/
  value_mem : ∀ loc, state.Known loc → state.value loc = 0 ∨ state.value loc ∈ state.behind loc
  /-- What the location was advanced past died before the node it is at. -/
  passed : ∀ loc, state.Known loc → ∀ node ∈ front (state.behind loc) (state.value loc),
    state.DiedBefore node (state.value loc)
  /-- The link of a node that was not pushed leads into a list, or nowhere. -/
  stored : ∀ node, node ∉ state.pushed →
    state.value (.link node) = 0 ∨ state.value (.link node) ∈ state.pushed

namespace Listed

variable (listed : state.Listed)
include listed

/-- The list of a location that is known is a part of the list of a head. -/
theorem exists_head (known : state.Known loc) :
    ∃ list earlier, state.behind (.head list) = earlier ++ state.behind loc := by
  cases loc with
  | head list => exact ⟨list, [], rfl⟩
  | link node =>
      obtain ⟨list, member⟩ := (listed.pushed_iff node).mp known
      obtain ⟨rest, split⟩ := List.append_of_mem member
      obtain ⟨rest', split⟩ := split
      refine ⟨list, rest ++ [node], ?_⟩
      rw [listed.suffix list rest node rest' split, split, List.append_assoc, List.singleton_append]

theorem nodup_behind (known : state.Known loc) : (state.behind loc).Nodup := by
  obtain ⟨list, earlier, whole⟩ := listed.exists_head known
  have distinct := listed.nodup list
  rw [whole] at distinct
  exact (List.nodup_append.mp distinct).2.1

theorem pushed_of_mem (known : state.Known loc) (member : node ∈ state.behind loc) :
    node ∈ state.pushed := by
  obtain ⟨list, earlier, whole⟩ := listed.exists_head known
  apply (listed.pushed_iff node).mpr
  refine ⟨list, ?_⟩
  rw [whole]
  exact List.mem_append_right _ member

theorem ne_zero_of_mem (known : state.Known loc) (member : node ∈ state.behind loc) : node ≠ 0 :=
  listed.nonzero node (listed.started node (listed.pushed_of_mem known member))

theorem zero_not_mem (known : state.Known loc) : 0 ∉ state.behind loc :=
  fun member => listed.ne_zero_of_mem known member rfl

/-- What is behind a node of a list is the rest of the list. -/
theorem behind_link (known : state.Known loc) {earlier rest : List ℕ}
    (split : state.behind loc = earlier ++ node :: rest) : state.behind (.link node) = rest := by
  obtain ⟨list, first, whole⟩ := listed.exists_head known
  apply listed.suffix list (first ++ earlier) node rest
  rw [whole, split, List.append_assoc]

theorem live_zero : state.isLive 0 = true := isLive_iff.mpr listed.immortal

/-- What a location is at, and the nodes in front of that, do not change the parts of the state that
threads have of their own. -/
theorem setThread (thread : ℕ) (now : Thread) : (state.setThread thread now).Listed :=
  ⟨listed.clocked, listed.immortal, listed.nonzero, listed.started, listed.pushed_iff, listed.nodup,
    listed.suffix, listed.value_mem, listed.passed, listed.stored⟩

/-- The store to the link of a node that was not pushed. -/
theorem store_link (isNew : node ∉ state.pushed) {tail : ℕ}
    (isTail : tail = 0 ∨ tail ∈ state.pushed) : (state.store (.link node) tail).Listed := by
  have elsewhere {loc : Loc} (known : state.Known loc) :
      (state.store (.link node) tail).value loc = state.value loc := by
    apply store_value_of_ne
    rintro rfl
    exact isNew known
  refine ⟨listed.clocked, listed.immortal, listed.nonzero, listed.started, listed.pushed_iff,
    listed.nodup, listed.suffix, ?_, ?_, ?_⟩
  · intro loc known
    rw [elsewhere known]
    exact listed.value_mem loc known
  · intro loc known
    rw [elsewhere known]
    exact listed.passed loc known
  · intro candidate notPushed
    by_cases same : candidate = node
    · subst same
      rw [store_value_self]
      exact isTail
    · rw [store_value_of_ne state (fun equal => same (Loc.link.inj equal))]
      exact listed.stored candidate notPushed

/-- A location that is advanced past what died before the node it is advanced to. -/
theorem advance (known : state.Known loc) {newHead : ℕ}
    (isMember : newHead = 0 ∨ newHead ∈ state.behind loc)
    (skipped : ∀ node ∈ front (state.behind loc) newHead, state.DiedBefore node newHead) :
    (state.store loc newHead).Listed := by
  refine ⟨listed.clocked, listed.immortal, listed.nonzero, listed.started, listed.pushed_iff,
    listed.nodup, listed.suffix, ?_, ?_, ?_⟩
  · intro candidate knownCandidate
    by_cases same : candidate = loc
    · subst same
      rw [store_value_self]
      exact isMember
    · rw [store_value_of_ne state same]
      exact listed.value_mem candidate knownCandidate
  · intro candidate knownCandidate
    by_cases same : candidate = loc
    · subst same
      rw [store_value_self]
      exact skipped
    · rw [store_value_of_ne state same]
      exact listed.passed candidate knownCandidate
  · intro candidate notPushed
    have different : Loc.link candidate ≠ loc := by
      rintro rfl
      exact notPushed known
    rw [store_value_of_ne state different]
    exact listed.stored candidate notPushed

theorem markDead (nonzero : node ≠ 0) :
    (state.markDead node).Listed ∧ Ages state (state.markDead node) := by
  rw [State.markDead]
  split
  next live =>
    have alive := isLive_iff.mp live
    have ages : Ages state { state with
        diedAt := update state.diedAt node (some state.clock), clock := state.clock + 1 } := by
      constructor
      · intro other time died
        have different : other ≠ node := by
          rintro rfl
          rw [alive] at died
          cases died
        exact (update_of_ne different ..).trans died
      · intro other time died
        change update _ _ _ other = _ at died
        by_cases same : other = node
        · subst same
          rw [update_self] at died
          cases died
          exact .inr rfl
        · rw [update_of_ne same] at died
          exact .inl died
    refine ⟨⟨?_, ?_, listed.nonzero, listed.started, listed.pushed_iff, listed.nodup,
      listed.suffix, listed.value_mem, ?_, listed.stored⟩, ages⟩
    · intro other time died
      rcases ages.later other time died with already | since
      · exact (listed.clocked other time already).trans (Nat.lt_succ_self _)
      · change update _ _ _ other = _ at died
        by_cases same : other = node
        · subst same
          rw [update_self] at died
          cases died
          exact Nat.lt_succ_self _
        · rw [update_of_ne same] at died
          exact (listed.clocked other time died).trans (Nat.lt_succ_self _)
    · exact (update_of_ne nonzero.symm ..).trans listed.immortal
    · intro loc known other inFront
      exact ages.diedBefore listed.clocked (listed.passed loc known other inFront)
  next => exact ⟨listed, .of_eq rfl⟩

omit listed in
/-- The locations that are known after the exchange of a push. -/
theorem known_publish {list : ℕ} (known : (state.publish list node).Known loc) :
    loc = .head list ∨ loc = .link node ∨
      state.Known loc ∧ loc ≠ .head list ∧ loc ≠ .link node := by
  by_cases isHead : loc = .head list
  · exact .inl isHead
  · by_cases isLink : loc = .link node
    · exact .inr (.inl isLink)
    · refine .inr (.inr ⟨?_, isHead, isLink⟩)
      cases loc with
      | head other => trivial
      | link other =>
          apply (List.mem_cons.mp known).resolve_left
          rintro rfl
          exact isLink rfl

/-- The exchange of a push: what was at the head is behind the node now. -/
theorem publish {list : ℕ} (isStarted : node ∈ state.started) (isNew : node ∉ state.pushed)
    (linked : state.value (.link node) = state.value (.head list)) :
    (state.publish list node).Listed := by
  have headsElsewhere {other : ℕ} (different : other ≠ list) :
      (state.publish list node).behind (.head other) = state.behind (.head other) :=
    publish_behind_of_ne state (fun equal => different (Loc.head.inj equal)) nofun
  have linksElsewhere {other : ℕ} (isPushed : other ∈ state.pushed) :
      (state.publish list node).behind (.link other) = state.behind (.link other) := by
    apply publish_behind_of_ne state
    · exact nofun
    · intro equal
      rw [Loc.link.inj equal] at isPushed
      exact isNew isPushed
  refine ⟨listed.clocked, listed.immortal, listed.nonzero, ?_, ?_, ?_, ?_, ?_, ?_, ?_⟩
  · intro other isPushed
    rcases List.mem_cons.mp isPushed with rfl | already
    · exact isStarted
    · exact listed.started other already
  · intro other
    constructor
    · intro isPushed
      rcases List.mem_cons.mp isPushed with rfl | already
      · refine ⟨list, ?_⟩
        rw [publish_behind_head]
        exact List.mem_cons_self
      · obtain ⟨owner, member⟩ := (listed.pushed_iff other).mp already
        refine ⟨owner, ?_⟩
        by_cases same : owner = list
        · rw [same] at member ⊢
          rw [publish_behind_head]
          exact List.mem_cons_of_mem _ member
        · rw [headsElsewhere same]
          exact member
    · rintro ⟨owner, member⟩
      by_cases same : owner = list
      · rw [same, publish_behind_head] at member
        rcases List.mem_cons.mp member with rfl | already
        · exact List.mem_cons_self
        · exact List.mem_cons_of_mem _ ((listed.pushed_iff other).mpr ⟨list, already⟩)
      · rw [headsElsewhere same] at member
        exact List.mem_cons_of_mem _ ((listed.pushed_iff other).mpr ⟨owner, member⟩)
  · intro other
    by_cases same : other = list
    · rw [same, publish_behind_head]
      refine (listed.nodup list).cons ?_
      exact fun member => isNew ((listed.pushed_iff node).mpr ⟨list, member⟩)
    · rw [headsElsewhere same]
      exact listed.nodup other
  · intro owner earlier other rest split
    have ofHead {owner : ℕ} {earlier : List ℕ}
        (split : state.behind (.head owner) = earlier ++ other :: rest) :
        (state.publish list node).behind (.link other) = rest := by
      have isPushed : other ∈ state.pushed := by
        apply (listed.pushed_iff other).mpr
        refine ⟨owner, ?_⟩
        rw [split]
        exact List.mem_append_right _ List.mem_cons_self
      rw [linksElsewhere isPushed]
      exact listed.suffix owner earlier other rest split
    by_cases same : owner = list
    · rw [same, publish_behind_head] at split
      cases earlier with
      | nil =>
          obtain ⟨rfl, rfl⟩ := List.cons.inj split
          exact publish_behind_link state list node
      | cons first earlier => exact ofHead (List.cons.inj split).2
    · rw [headsElsewhere same] at split
      exact ofHead split
  · intro loc known
    rcases known_publish known with rfl | rfl | ⟨already, notHead, notLink⟩
    · rw [publish_value_head, publish_behind_head]
      exact .inr List.mem_cons_self
    · rw [publish_value_link, publish_behind_link, linked]
      exact listed.value_mem (.head list) trivial
    · rw [publish_value_of_ne state notHead, publish_behind_of_ne state notHead notLink]
      exact listed.value_mem loc already
  · intro loc known
    rcases known_publish known with rfl | rfl | ⟨already, notHead, notLink⟩
    · rw [publish_value_head, publish_behind_head, front_cons_self]
      exact nofun
    · rw [publish_value_link, publish_behind_link, linked]
      exact listed.passed (.head list) trivial
    · rw [publish_value_of_ne state notHead, publish_behind_of_ne state notHead notLink]
      exact listed.passed loc already
  · intro other notPushed
    rw [publish_value_link]
    exact (listed.stored other fun already => notPushed (List.mem_cons_of_mem _ already)).imp id
      (List.mem_cons_of_mem _)

end Listed

/-! ## What threads know -/

/-- A walk from `head` to `newHead` in the list of the location, past nodes that are gone. -/
structure Walked (state : State) (loc : Loc) (head newHead : ℕ) (gone : ℕ → Prop) : Prop where
  newHead_mem : newHead = 0 ∨ newHead ∈ state.behind loc
  order : head = newHead ∨ head ∈ front (state.behind loc) newHead
  skipped : ∀ node ∈ front (state.behind loc) newHead,
    node ∈ front (state.behind loc) head ∨ gone node

def FollowOk (state : State) (loc : Loc) : FollowPoint → Prop
  | .load => True
  | .check head newHead =>
      newHead ≠ 0 ∧ state.Walked loc head newHead fun node => state.isLive node = false
  | .advance head newHead =>
      newHead ≠ 0 ∧ state.isLive newHead = false ∧
        state.Walked loc head newHead fun node => state.isLive node = false
  | .chosen head newHead =>
      state.Walked loc head newHead fun node => state.DiedBefore node newHead
  | .returned _ => True

def PushOk (state : State) (node : ℕ) : PushPoint → Prop
  | .load => True
  | .store tail => tail = 0 ∨ tail ∈ state.pushed
  | .exchange tail => (tail = 0 ∨ tail ∈ state.pushed) ∧ state.value (.link node) = tail

def ThreadOk (state : State) : Thread → Prop
  | .idle => True
  | .push _ node point => node ∈ state.started ∧ node ∉ state.pushed ∧ state.PushOk node point
  | .follow loc point => state.Known loc ∧ state.FollowOk loc point

end State

/-- The thread is about to push the node. -/
def Thread.Pushes (node : ℕ) : Thread → Prop
  | .push _ pushed _ => pushed = node
  | _ => False

namespace State

variable {state before after : State} {loc : Loc} {node other : ℕ}

theorem ThreadOk.own {thread : Thread} (ok : state.ThreadOk thread) (pushes : thread.Pushes node) :
    node ∈ state.started ∧ node ∉ state.pushed := by
  cases thread with
  | idle => exact pushes.elim
  | push list pushed point =>
      obtain rfl : pushed = node := pushes
      exact ⟨ok.1, ok.2.1⟩
  | follow loc point => exact pushes.elim

structure Invariant (state : State) : Prop where
  listed : state.Listed
  threadOk : ∀ thread, state.ThreadOk (state.threads thread)
  distinct : ∀ thread other node, (state.threads thread).Pushes node →
    (state.threads other).Pushes node → thread = other

/-- Nodes die and are pushed, and stay so. -/
structure Extends (before after : State) : Prop where
  ages : Ages before after
  started : before.started ⊆ after.started
  pushed : before.pushed ⊆ after.pushed
  behind : ∀ loc, before.Known loc → after.behind loc = before.behind loc ∨
    ∃ node, node ∉ before.pushed ∧ node ≠ 0 ∧ after.behind loc = node :: before.behind loc

theorem Extends.known (extended : Extends before after) (known : before.Known loc) :
    after.Known loc := by
  cases loc with
  | head list => trivial
  | link node => exact extended.pushed known

/-- A new node in front of the list is in front of all of it. -/
theorem Extends.front_cases (extended : Extends before after) (listed : before.Listed)
    (known : before.Known loc) :
    after.behind loc = before.behind loc ∨
      ∃ node, after.behind loc = node :: before.behind loc ∧
        ∀ item, item = 0 ∨ item ∈ before.behind loc →
          front (after.behind loc) item = node :: front (before.behind loc) item := by
  rcases extended.behind loc known with same | ⟨node, isNew, nonzero, grown⟩
  · exact .inl same
  · refine .inr ⟨node, grown, ?_⟩
    intro item isItem
    rw [grown]
    apply front_cons_of_ne
    rintro rfl
    rcases isItem with isZero | member
    · exact nonzero isZero
    · exact isNew (listed.pushed_of_mem known member)

theorem Walked.head_mem {head newHead : ℕ} {gone : ℕ → Prop}
    (walked : state.Walked loc head newHead gone) : head = 0 ∨ head ∈ state.behind loc := by
  rcases walked.order with rfl | inFront
  · exact walked.newHead_mem
  · exact .inr (mem_of_mem_front inFront)

theorem Walked.extend {head newHead : ℕ} {gone goneAfter : ℕ → Prop}
    (extended : Extends before after) (listed : before.Listed) (known : before.Known loc)
    (stillGone : ∀ node, gone node → goneAfter node)
    (walked : before.Walked loc head newHead gone) :
    after.Walked loc head newHead goneAfter := by
  rcases extended.front_cases listed known with same | ⟨node, grown, fronts⟩
  · refine ⟨?_, ?_, ?_⟩
    · rw [same]
      exact walked.newHead_mem
    · rw [same]
      exact walked.order
    · rw [same]
      exact fun item inFront => (walked.skipped item inFront).imp id (stillGone item)
  · refine ⟨?_, ?_, ?_⟩
    · rw [grown]
      exact walked.newHead_mem.imp id (List.mem_cons_of_mem _)
    · rw [fronts newHead walked.newHead_mem]
      exact walked.order.imp id (List.mem_cons_of_mem _)
    · rw [fronts newHead walked.newHead_mem, fronts head walked.head_mem]
      intro item inFront
      rcases List.mem_cons.mp inFront with rfl | inOld
      · exact .inl List.mem_cons_self
      · exact (walked.skipped item inOld).imp (List.mem_cons_of_mem _) (stillGone item)

theorem FollowOk.extend {point : FollowPoint} (extended : Extends before after)
    (listed : before.Listed) (known : before.Known loc) (ok : before.FollowOk loc point) :
    after.FollowOk loc point := by
  cases point with
  | load => trivial
  | check head newHead =>
      exact ⟨ok.1, ok.2.extend extended listed known fun _ => extended.ages.dead⟩
  | advance head newHead =>
      exact ⟨ok.1, extended.ages.dead ok.2.1,
        ok.2.2.extend extended listed known fun _ => extended.ages.dead⟩
  | chosen head newHead =>
      exact Walked.extend extended listed known
        (fun _ => extended.ages.diedBefore listed.clocked) ok
  | returned result => trivial

theorem ThreadOk.extend {thread : Thread} (extended : Extends before after)
    (listed : before.Listed)
    (own : ∀ node, thread.Pushes node →
      node ∉ after.pushed ∧ after.value (.link node) = before.value (.link node))
    (ok : before.ThreadOk thread) : after.ThreadOk thread := by
  cases thread with
  | idle => trivial
  | push list node point =>
      obtain ⟨isStarted, -, pushOk⟩ := ok
      obtain ⟨isNew, sameLink⟩ := own node rfl
      refine ⟨extended.started isStarted, isNew, ?_⟩
      cases point with
      | load => trivial
      | store tail => exact pushOk.imp id fun member => extended.pushed member
      | exchange tail =>
          exact ⟨pushOk.1.imp id fun member => extended.pushed member, sameLink.trans pushOk.2⟩
  | follow loc point =>
      exact ⟨extended.known ok.1, FollowOk.extend extended listed ok.1 ok.2⟩

/-- What a step of one thread has to keep. -/
theorem Invariant.of_step (invariant : before.Invariant) (thread : ℕ) (listed : after.Listed)
    (extended : Extends before after)
    (others : ∀ other, other ≠ thread → after.threads other = before.threads other)
    (othersOwn : ∀ other node, other ≠ thread → (before.threads other).Pushes node →
      node ∉ after.pushed ∧ after.value (.link node) = before.value (.link node))
    (ok : after.ThreadOk (after.threads thread))
    (pushes : ∀ node, (after.threads thread).Pushes node →
      (before.threads thread).Pushes node ∨ node ∉ before.started) : after.Invariant := by
  have stillPushes {other node : ℕ} (different : other ≠ thread)
      (pushed : (after.threads other).Pushes node) : (before.threads other).Pushes node := by
    rw [others other different] at pushed
    exact pushed
  have apart {other node : ℕ} (different : other ≠ thread)
      (own : (after.threads thread).Pushes node) (their : (after.threads other).Pushes node) :
      False := by
    have already := stillPushes different their
    rcases pushes node own with isOwn | fresh
    · exact different (invariant.distinct other thread node already isOwn)
    · exact fresh ((invariant.threadOk other).own already).1
  refine ⟨listed, ?_, ?_⟩
  · intro other
    by_cases same : other = thread
    · rw [same]
      exact ok
    · rw [others other same]
      exact (invariant.threadOk other).extend extended invariant.listed
        fun node pushed => othersOwn other node same pushed
  · intro first second node ofFirst ofSecond
    by_cases isFirst : first = thread
    · by_cases isSecond : second = thread
      · exact isFirst.trans isSecond.symm
      · rw [isFirst] at ofFirst
        exact (apart isSecond ofFirst ofSecond).elim
    · by_cases isSecond : second = thread
      · rw [isSecond] at ofSecond
        exact (apart isFirst ofSecond ofFirst).elim
      · exact invariant.distinct first second node (stillPushes isFirst ofFirst)
          (stillPushes isSecond ofSecond)

/-! ## Steps -/

theorem Extends.of_eq (sameDeaths : after.diedAt = before.diedAt)
    (sameStarted : before.started ⊆ after.started) (samePushed : after.pushed = before.pushed)
    (sameBehind : after.behind = before.behind) : Extends before after := by
  refine ⟨.of_eq sameDeaths, sameStarted, ?_, ?_⟩
  · rw [samePushed]
    exact List.Subset.refl _
  · intro loc _
    rw [sameBehind]
    exact .inl rfl

theorem extends_setThread (state : State) (thread : ℕ) (now : Thread) :
    Extends state (state.setThread thread now) := .of_eq rfl (List.Subset.refl _) rfl rfl

theorem extends_store (state : State) (loc : Loc) (node thread : ℕ) (now : Thread) :
    Extends state ((state.store loc node).setThread thread now) :=
  .of_eq rfl (List.Subset.refl _) rfl rfl

theorem extends_publish {list thread : ℕ} {now : Thread} (listed : state.Listed)
    (isStarted : node ∈ state.started) (isNew : node ∉ state.pushed) :
    Extends state ((state.publish list node).setThread thread now) := by
  refine ⟨.of_eq rfl, List.Subset.refl _, List.subset_cons_self .., ?_⟩
  intro loc known
  by_cases isHead : loc = .head list
  · subst isHead
    exact .inr ⟨node, isNew, listed.nonzero node isStarted, publish_behind_head ..⟩
  · refine .inl (publish_behind_of_ne state isHead ?_)
    rintro rfl
    exact isNew known

theorem extends_callPush (state : State) (thread list node : ℕ) :
    Extends state { state.setThread thread (.push list node .load) with
      started := node :: state.started } := .of_eq rfl (List.subset_cons_self ..) rfl rfl

theorem extends_markDead (ages : Ages state (state.markDead node)) :
    Extends state (state.markDead node) := by
  refine ⟨ages, ?_, ?_, ?_⟩
  · rw [markDead_started]
    exact List.Subset.refl _
  · rw [markDead_pushed]
    exact List.Subset.refl _
  · intro loc _
    rw [markDead_behind]
    exact .inl rfl

theorem setThread_threads_self (state : State) (thread : ℕ) (now : Thread) :
    (state.setThread thread now).threads thread = now := update_self ..

theorem setThread_threads_of_ne {thread : ℕ} (different : other ≠ thread) (now : Thread) :
    (state.setThread thread now).threads other = state.threads other := update_of_ne different ..

/-- What a thread knows does not depend on the threads. -/
theorem ThreadOk.setThread {own now : Thread} (ok : state.ThreadOk own) (listed : state.Listed)
    (thread : ℕ) : (state.setThread thread now).ThreadOk own :=
  ok.extend (extends_setThread ..) listed fun _ pushes => ⟨(ok.own pushes).2, rfl⟩

namespace Invariant

variable (invariant : state.Invariant)
include invariant

/-- A step that only moves a thread. -/
theorem setThread {thread : ℕ} {now : Thread} (ok : state.ThreadOk now)
    (pushes : ∀ node, now.Pushes node → (state.threads thread).Pushes node) :
    (state.setThread thread now).Invariant := by
  refine invariant.of_step thread (invariant.listed.setThread thread now) (extends_setThread ..)
    ?_ ?_ ?_ ?_
  · exact fun other different => setThread_threads_of_ne different now
  · exact fun other node _ pushes => ⟨((invariant.threadOk other).own pushes).2, rfl⟩
  · rw [setThread_threads_self]
    exact ok.setThread invariant.listed thread
  · rw [setThread_threads_self]
    exact fun node own => .inl (pushes node own)

theorem callPush {thread list : ℕ} (nonzero : node ≠ 0) (isNew : node ∉ state.started) :
    Invariant { state.setThread thread (.push list node .load) with
      started := node :: state.started } := by
  have listed := invariant.listed
  have notPushed : node ∉ state.pushed := fun pushed => isNew (listed.started node pushed)
  refine invariant.of_step thread ?_ (extends_callPush ..) ?_ ?_ ?_ ?_
  · refine ⟨listed.clocked, listed.immortal, ?_, ?_, listed.pushed_iff, listed.nodup,
      listed.suffix, listed.value_mem, listed.passed, listed.stored⟩
    · intro other isStarted
      rcases List.mem_cons.mp isStarted with rfl | already
      · exact nonzero
      · exact listed.nonzero other already
    · exact fun other pushed => List.mem_cons_of_mem _ (listed.started other pushed)
  · exact fun other different => setThread_threads_of_ne different _
  · exact fun other node _ pushes => ⟨((invariant.threadOk other).own pushes).2, rfl⟩
  · rw [setThread_threads_self]
    exact ⟨List.mem_cons_self, notPushed, trivial⟩
  · rw [setThread_threads_self]
    rintro other rfl
    exact .inr isNew

theorem callFollow {thread : ℕ} (known : state.Known loc) :
    (state.setThread thread (.follow loc .load)).Invariant :=
  invariant.setThread ⟨known, trivial⟩ fun _ pushes => pushes.elim

theorem markDead (nonzero : node ≠ 0) : (state.markDead node).Invariant := by
  obtain ⟨listed, ages⟩ := invariant.listed.markDead nonzero
  refine ⟨listed, ?_, ?_⟩
  · intro thread
    rw [markDead_threads]
    refine (invariant.threadOk thread).extend (extends_markDead ages) invariant.listed ?_
    intro own pushes
    rw [markDead_pushed, markDead_value]
    exact ⟨((invariant.threadOk thread).own pushes).2, rfl⟩
  · rw [markDead_threads]
    exact invariant.distinct

theorem stepPush {thread list : ℕ} {point : PushPoint}
    (isPushing : state.threads thread = .push list node point) (spurious : Bool) :
    (state.stepPush thread list node spurious point).Invariant := by
  have listed := invariant.listed
  have ok := invariant.threadOk thread
  rw [isPushing] at ok
  obtain ⟨isStarted, isNew, pushOk⟩ := ok
  have headKnown : state.Known (.head list) := trivial
  have isHead : state.value (.head list) = 0 ∨ state.value (.head list) ∈ state.pushed :=
    (listed.value_mem (.head list) headKnown).imp id (listed.pushed_of_mem headKnown)
  have stillPushes (later : PushPoint) (other : ℕ)
      (pushes : (Thread.push list node later).Pushes other) :
      (state.threads thread).Pushes other := by
    rw [isPushing]
    exact pushes
  have othersNode {other own : ℕ} (different : other ≠ thread)
      (pushes : (state.threads other).Pushes own) : own ≠ node := by
    rintro rfl
    refine different (invariant.distinct other thread own pushes ?_)
    exact stillPushes .load own rfl
  cases point with
  | load => exact invariant.setThread ⟨isStarted, isNew, isHead⟩ (stillPushes _)
  | store tail =>
      refine invariant.of_step thread ((listed.store_link isNew pushOk).setThread thread _)
        (extends_store ..) ?_ ?_ ?_ ?_
      · exact fun other different => setThread_threads_of_ne different _
      · intro other own different pushes
        refine ⟨((invariant.threadOk other).own pushes).2, ?_⟩
        apply store_value_of_ne
        exact fun same => othersNode different pushes (Loc.link.inj same)
      · rw [State.stepPush, setThread_threads_self]
        exact ⟨isStarted, isNew, pushOk, store_value_self ..⟩
      · rw [State.stepPush, setThread_threads_self]
        exact fun other pushes => .inl (stillPushes _ other pushes)
  | exchange tail =>
      rw [State.stepPush]
      split
      next succeeds =>
        have linked : state.value (.link node) = state.value (.head list) :=
          pushOk.2.trans succeeds.1.symm
        refine invariant.of_step thread ((listed.publish isStarted isNew linked).setThread thread _)
          (extends_publish listed isStarted isNew) ?_ ?_ ?_ ?_
        · exact fun other different => setThread_threads_of_ne different _
        · intro other own different pushes
          refine ⟨?_, publish_value_link state list node own⟩
          intro isPushed
          rcases List.mem_cons.mp isPushed with same | already
          · exact othersNode different pushes same
          · exact ((invariant.threadOk other).own pushes).2 already
        · rw [setThread_threads_self]
          trivial
        · rw [setThread_threads_self]
          exact fun other pushes => pushes.elim
      next => exact invariant.setThread ⟨isStarted, isNew, isHead⟩ (stillPushes _)

end Invariant

/-- The outer loop starts at the value of the location. -/
theorem Listed.followOk_loop (listed : state.Listed) (known : state.Known loc) :
    state.FollowOk loc (loop (state.value loc)) := by
  rw [loop]
  split
  next => exact ⟨.inl rfl, .inl rfl, fun _ inFront => .inl inFront⟩
  next nonzero =>
    exact ⟨nonzero, listed.value_mem loc known, .inl rfl, fun _ inFront => .inl inFront⟩

/-- From a node that is dead the walk goes on to the value of its link: what is between them is
dead. -/
theorem Walked.advance {head newHead : ℕ} (listed : state.Listed) (known : state.Known loc)
    (nonzero : newHead ≠ 0) (dead : state.isLive newHead = false)
    (walked : state.Walked loc head newHead fun node => state.isLive node = false) :
    state.Walked loc head (state.value (.link newHead)) fun node => state.isLive node = false := by
  have member : newHead ∈ state.behind loc := walked.newHead_mem.resolve_left nonzero
  have linkKnown : state.Known (.link newHead) := listed.pushed_of_mem known member
  obtain ⟨rest, split⟩ := exists_split member
  have isRest := listed.behind_link known split
  have isNext := listed.value_mem (.link newHead) linkKnown
  have passed := listed.passed (.link newHead) linkKnown
  rw [isRest] at isNext passed
  have fronts := front_of_behind (listed.nodup_behind known) split
    (isNext.symm.imp id fun isZero => by rw [isZero]; exact listed.zero_not_mem known)
  refine ⟨?_, ?_, ?_⟩
  · apply isNext.imp id
    intro inRest
    rw [split]
    exact List.mem_append_right _ (List.mem_cons_of_mem _ inRest)
  · right
    rw [fronts]
    rcases walked.order with rfl | inFront
    · exact List.mem_append_right _ List.mem_cons_self
    · exact List.mem_append_left _ inFront
  · rw [fronts]
    intro node inFront
    rcases List.mem_append.mp inFront with inOld | inNew
    · exact walked.skipped node inOld
    · rcases List.mem_cons.mp inNew with rfl | between
      · exact .inr dead
      · exact .inr (passed node between).dead

/-- What a location that is still at `head` may be advanced past. -/
theorem Walked.diedBefore {head newHead : ℕ} (listed : state.Listed) (known : state.Known loc)
    (atHead : state.value loc = head)
    (walked : state.Walked loc head newHead fun node => state.DiedBefore node newHead) :
    ∀ node ∈ front (state.behind loc) newHead, state.DiedBefore node newHead := by
  have passed := listed.passed loc known
  rw [atHead] at passed
  intro node inFront
  rcases walked.skipped node inFront with beforeHead | died
  · rcases walked.order with same | headInFront
    · rw [← same]
      exact passed node beforeHead
    · have headDied : state.DiedBefore head newHead :=
        (walked.skipped head headInFront).resolve_left fun inOwn => ne_of_mem_front inOwn rfl
      exact (passed node beforeHead).trans headDied
  · exact died

namespace Invariant

variable (invariant : state.Invariant)
include invariant

theorem stepFollow {thread : ℕ} {point : FollowPoint}
    (isFollowing : state.threads thread = .follow loc point) :
    (state.stepFollow thread loc point).Invariant := by
  have listed := invariant.listed
  have ok := invariant.threadOk thread
  rw [isFollowing] at ok
  obtain ⟨known, followOk⟩ := ok
  have none (later : FollowPoint) (node : ℕ) (pushes : (Thread.follow loc later).Pushes node) :
      (state.threads thread).Pushes node := pushes.elim
  cases point with
  | load =>
      rw [State.stepFollow]
      split
      next => exact invariant.setThread ⟨known, trivial⟩ (none _)
      next => exact invariant.setThread ⟨known, listed.followOk_loop known⟩ (none _)
  | check head newHead =>
      obtain ⟨nonzero, walked⟩ := followOk
      rw [State.stepFollow]
      split
      next live =>
        refine invariant.setThread ⟨known, walked.newHead_mem, walked.order, ?_⟩ (none _)
        intro node inFront
        exact (walked.skipped node inFront).imp id fun dead => diedBefore_of_live dead live
      next notLive =>
        exact invariant.setThread
          ⟨known, nonzero, Bool.eq_false_iff.mpr notLive, walked⟩ (none _)
  | advance head newHead =>
      obtain ⟨nonzero, dead, walked⟩ := followOk
      have further := walked.advance listed known nonzero dead
      rw [State.stepFollow]
      split
      next isEnd =>
        rw [isEnd] at further
        refine invariant.setThread ⟨known, further.newHead_mem, further.order, ?_⟩ (none _)
        intro node inFront
        exact (further.skipped node inFront).imp id
          fun dead => diedBefore_of_live dead listed.live_zero
      next isNode => exact invariant.setThread ⟨known, isNode, further⟩ (none _)
  | chosen head newHead =>
      rw [State.stepFollow]
      split
      next => exact invariant.setThread ⟨known, trivial⟩ (none _)
      next =>
        split
        next atHead =>
          have skipped := Walked.diedBefore listed known atHead followOk
          refine invariant.of_step thread
            ((listed.advance known followOk.newHead_mem skipped).setThread thread _)
            (extends_store ..) ?_ ?_ ?_ ?_
          · exact fun other different => setThread_threads_of_ne different _
          · intro other own different pushes
            have isNew := ((invariant.threadOk other).own pushes).2
            refine ⟨isNew, store_value_of_ne state ?_ newHead⟩
            rintro rfl
            exact isNew known
          · rw [setThread_threads_self]
            exact ⟨known, trivial⟩
          · rw [setThread_threads_self]
            exact fun node pushes => pushes.elim
        next =>
          split
          next => exact invariant.setThread ⟨known, trivial⟩ (none _)
          next => exact invariant.setThread ⟨known, listed.followOk_loop known⟩ (none _)
  | returned result => exact invariant.setThread trivial fun _ pushes => pushes.elim

theorem step {action : Action} (stepped : state.step action = .next after) : after.Invariant := by
  cases action with
  | callPush thread list node =>
      rw [State.step, Outcome.require_bind_eq_next, Outcome.require_bind_eq_next] at stepped
      obtain ⟨-, ⟨nonzero, isNew⟩, rest⟩ := stepped
      obtain rfl := Outcome.next.inj rest
      exact invariant.callPush nonzero isNew
  | callFollow thread loc =>
      rw [State.step, Outcome.require_bind_eq_next, Outcome.require_bind_eq_next] at stepped
      obtain ⟨-, known, rest⟩ := stepped
      obtain rfl := Outcome.next.inj rest
      exact invariant.callFollow known
  | go thread spurious =>
      rw [State.step] at stepped
      split at stepped
      next => cases stepped
      next list node point isPushing =>
        obtain rfl := Outcome.next.inj stepped
        exact invariant.stepPush isPushing spurious
      next loc point isFollowing =>
        obtain rfl := Outcome.next.inj stepped
        exact invariant.stepFollow isFollowing
  | markDead node =>
      rw [State.step, Outcome.require_bind_eq_next] at stepped
      obtain ⟨nonzero, rest⟩ := stepped
      obtain rfl := Outcome.next.inj rest
      exact invariant.markDead nonzero

end Invariant

theorem initial_invariant : State.initial.Invariant := by
  refine ⟨⟨nofun, rfl, nofun, nofun, ?_, fun _ => .nil, ?_, ?_, ?_, ?_⟩, fun _ => trivial, nofun⟩
  · exact fun node => ⟨nofun, fun ⟨_, member⟩ => nomatch member⟩
  · intro list earlier node rest split
    cases earlier <;> cases split
  · exact fun _ _ => .inl rfl
  · exact fun _ _ => nofun
  · exact fun _ _ => .inl rfl

end State

theorem reachable_invariant {state : State} (reached : system.Reachable state) :
    state.Invariant := by
  refine reached.invariant _ ?_ ?_
  · rintro _ rfl
    exact State.initial_invariant
  · exact fun _ _ _ invariant _ stepped => invariant.step stepped

end Whippet.EphemeronList
