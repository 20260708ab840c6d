import Mathlib.Data.Fintype.Card
import Mathlib.Data.ZMod.Basic
import Mathlib.Tactic.LinearCombination
import Mathlib.Tactic.Ring
import Mathlib.Tactic.Tauto

/-!
Open addressing with linear probing in the order of homes.

The slots of a table are in a circle. An entry has a home slot, and sits there or in a slot behind
it. The table is ordered when an entry away from home is at most one slot farther from it than its
predecessor is from its own home; then all slots between the home of an entry and its own are
taken, and a search can stop at the first entry that is nearer to its home than the search is.

Owns: the order, what follows for searches, inserting an entry before a run of slots that moves up
by one, and removing one before a run that moves down. Does not own: how the loops of a program
find the run.
-/

namespace Whippet.RobinHood

/-! ## The circle of slots -/

section Circle

variable {N : ℕ} {offset : ZMod N}

theorem val_add_one (offset : ZMod N) (room : offset.val + 1 < N) :
    (offset + 1).val = offset.val + 1 := by
  have one : (1 : ZMod N).val = 1 := by
    apply ZMod.val_one''
    omega
  rw [ZMod.val_add_of_lt, one]
  rwa [one]

theorem sub_one_sub (slot start : ZMod N) : slot - 1 - start = slot - start - 1 := by ring

theorem val_natCast_of_lt {count : ℕ} (below : count < N) : (count : ZMod N).val = count :=
  ZMod.val_cast_of_lt below

variable [NeZero N]

theorem val_sub_one (moved : offset ≠ 0) : (offset - 1).val = offset.val - 1 := by
  have positive : offset.val ≠ 0 := by rwa [ne_eq, ZMod.val_eq_zero]
  have one : (1 : ZMod N).val = 1 := by
    apply ZMod.val_one''
    rintro rfl
    exact moved (Subsingleton.elim _ _)
  rw [ZMod.val_sub, one]
  rw [one]
  omega

theorem add_val_sub (start slot : ZMod N) : start + ((slot - start).val : ZMod N) = slot := by
  rw [ZMod.natCast_zmod_val]
  ring

end Circle

variable {N : ℕ} {Entry : Type} {home : Entry → ZMod N} {slots : ZMod N → Option Entry}
variable {slot hole : ZMod N} {entry other : Entry}

/-- How far the slot is behind the home of the entry. -/
def distance (home : Entry → ZMod N) (slot : ZMod N) (entry : Entry) : ℕ :=
  (slot - home entry).val

/-- An entry away from home is at most one slot farther from it than the entry in the slot before
is from its own. -/
def Ordered (home : Entry → ZMod N) (slots : ZMod N → Option Entry) : Prop :=
  ∀ slot entry, slots slot = some entry → distance home slot entry ≠ 0 →
    ∃ previous, slots (slot - 1) = some previous ∧
      distance home slot entry ≤ distance home (slot - 1) previous + 1

/-- The entries of a table. -/
def Holds (slots : ZMod N → Option Entry) (entry : Entry) : Prop := ∃ slot, slots slot = some entry

/-- No two slots have entries with the same key. -/
def Distinct {Key : Type} (key : Entry → Key) (slots : ZMod N → Option Entry) : Prop :=
  ∀ left right entry other, slots left = some entry → slots right = some other →
    key entry = key other → left = right

section Searches

/-- The slots before an entry, down to its home, are taken by entries that are not much nearer to
their own homes. -/
theorem Ordered.before (ordered : Ordered home slots) (found : slots slot = some entry) (back : ℕ)
    (within : back ≤ distance home slot entry) :
    ∃ previous, slots (slot - back) = some previous ∧
      distance home slot entry ≤ distance home (slot - back) previous + back := by
  induction back with
  | zero =>
      refine ⟨entry, ?_, ?_⟩
      · simpa using found
      · simp
  | succ back inductionHypothesis =>
      obtain ⟨next, foundNext, near⟩ := inductionHypothesis (by omega)
      obtain ⟨previous, foundPrevious, step⟩ := ordered _ _ foundNext (by omega)
      have same : slot - ((back + 1 : ℕ) : ZMod N) = slot - back - 1 := by
        push_cast
        ring
      rw [same]
      refine ⟨previous, foundPrevious, ?_⟩
      omega

variable [NeZero N]

theorem home_add_distance (home : Entry → ZMod N) (slot : ZMod N) (entry : Entry) :
    home entry + (distance home slot entry : ZMod N) = slot :=
  add_val_sub _ _

theorem distance_lt (home : Entry → ZMod N) (slot : ZMod N) (entry : Entry) :
    distance home slot entry < N := ZMod.val_lt _

/-- The same counted from the home of the entry. -/
theorem Ordered.from_home (ordered : Ordered home slots) (found : slots slot = some entry)
    (ahead : ℕ) (within : ahead ≤ distance home slot entry) :
    ∃ previous, slots (home entry + ahead) = some previous ∧
      ahead ≤ distance home (home entry + ahead) previous := by
  have backwards := ordered.before found (distance home slot entry - ahead) (by omega)
  have same : slot - ((distance home slot entry - ahead : ℕ) : ZMod N) = home entry + ahead := by
    rw [Nat.cast_sub within]
    have reached := home_add_distance home slot entry
    linear_combination -reached
  rw [same] at backwards
  obtain ⟨previous, foundPrevious, near⟩ := backwards
  refine ⟨previous, foundPrevious, ?_⟩
  omega

/-- Where a search finds a hole or an entry nearer to its home than the search is, the entry that
is searched for is nearer to its home as well. -/
theorem Ordered.distance_lt_of_stop (ordered : Ordered home slots)
    (found : slots slot = some entry) {ahead : ℕ}
    (stop : ∀ stopped, slots (home entry + ahead) = some stopped →
      distance home (home entry + ahead) stopped < ahead) :
    distance home slot entry < ahead := by
  by_contra beyond
  obtain ⟨previous, foundPrevious, near⟩ := ordered.from_home found ahead (by omega)
  have nearer := stop previous foundPrevious
  omega

/-- With a hole in the table no entry is all the way around from its home. -/
theorem Ordered.distance_add_one_lt (ordered : Ordered home slots) (empty : slots hole = none)
    (found : slots slot = some entry) : distance home slot entry + 1 < N := by
  by_contra around
  have below := distance_lt home slot entry
  have back := ZMod.val_lt (slot - hole)
  obtain ⟨previous, foundPrevious, -⟩ := ordered.before found (slot - hole).val (by omega)
  have reached : slot - ((slot - hole).val : ZMod N) = hole := by
    rw [ZMod.natCast_zmod_val]
    ring
  rw [reached, empty] at foundPrevious
  cases foundPrevious

omit [NeZero N] in
theorem distance_add_one (room : distance home slot entry + 1 < N) :
    distance home (slot + 1) entry = distance home slot entry + 1 := by
  have same : slot + 1 - home entry = slot - home entry + 1 := by ring
  rw [distance, same]
  exact val_add_one _ room

theorem distance_sub_one (away : distance home slot entry ≠ 0) :
    distance home (slot - 1) entry = distance home slot entry - 1 := by
  have same : slot - 1 - home entry = slot - home entry - 1 := by ring
  rw [distance, same]
  apply val_sub_one
  rwa [ne_eq, ← ZMod.val_eq_zero]

end Searches

/-! ## Inserting -/

/-- The entry goes into the slot, and the `moved` entries from there on move up by one. -/
def insertAt (slots : ZMod N → Option Entry) (start : ZMod N) (moved : ℕ) (entry : Entry) :
    ZMod N → Option Entry := fun slot =>
  if slot = start then some entry
  else if (slot - start).val ≤ moved then slots (slot - 1)
  else slots slot

section Insert

variable {start : ZMod N} {moved : ℕ}

@[simp] theorem insertAt_start : insertAt slots start moved entry start = some entry := by
  rw [insertAt, if_pos rfl]

theorem insertAt_moved (other : slot ≠ start) (within : (slot - start).val ≤ moved) :
    insertAt slots start moved entry slot = slots (slot - 1) := by
  rw [insertAt, if_neg other, if_pos within]

theorem insertAt_beyond (beyond : moved < (slot - start).val) :
    insertAt slots start moved entry slot = slots slot := by
  have other : slot ≠ start := by
    rintro rfl
    simp at beyond
  rw [insertAt, if_neg other, if_neg (by omega)]

/-- The run of entries that moves up ends at a hole. -/
structure Run (slots : ZMod N → Option Entry) (start : ZMod N) (moved : ℕ) : Prop where
  fits : moved < N
  taken : ∀ ahead < moved, ∃ entry, slots (start + ahead) = some entry
  hole : slots (start + moved) = none

variable [NeZero N]

theorem Run.taken_of_val_lt (run : Run slots start moved) (slot : ZMod N)
    (within : (slot - start).val < moved) :
    ∃ entry, slots slot = some entry := by
  have found := run.taken _ within
  rwa [add_val_sub] at found

omit [NeZero N] in
theorem Run.val_sub_hole (run : Run slots start moved) :
    (start + (moved : ZMod N) - start).val = moved := by
  rw [add_sub_cancel_left]
  exact val_natCast_of_lt run.fits

theorem Run.hole_of_val_eq (run : Run slots start moved) (same : (slot - start).val = moved) :
    slots slot = none := by
  have empty := run.hole
  rwa [← same, add_val_sub] at empty

theorem holds_insertAt (run : Run slots start moved) :
    Holds (insertAt slots start moved entry) other ↔ other = entry ∨ Holds slots other := by
  constructor
  · rintro ⟨slot, found⟩
    rw [insertAt] at found
    split_ifs at found with isStart within
    · cases found
      exact .inl rfl
    · exact .inr ⟨_, found⟩
    · exact .inr ⟨_, found⟩
  · rintro (rfl | ⟨slot, found⟩)
    · exact ⟨start, insertAt_start⟩
    · by_cases within : (slot - start).val < moved
      · refine ⟨slot + 1, ?_⟩
        have same : slot + 1 - start = slot - start + 1 := by ring
        have next : (slot + 1 - start).val = (slot - start).val + 1 := by
          have fits := run.fits
          rw [same, val_add_one]
          omega
        have notStart : slot + 1 ≠ start := by
          rintro rfl
          rw [sub_self, ZMod.val_zero] at next
          omega
        rw [insertAt_moved notStart (by omega), add_sub_cancel_right]
        exact found
      · refine ⟨slot, ?_⟩
        rw [insertAt_beyond]
        · exact found
        · by_contra notBeyond
          rw [run.hole_of_val_eq (by omega)] at found
          cases found

theorem insertAt_eq_none_iff (run : Run slots start moved) :
    insertAt slots start moved entry slot = none ↔
      slots slot = none ∧ slot ≠ start + moved := by
  rw [insertAt]
  split_ifs with isStart within
  · subst isStart
    refine iff_of_false nofun ?_
    rintro ⟨empty, notHole⟩
    cases moved with
    | zero => simp at notHole
    | succ moved =>
        obtain ⟨entry, found⟩ := run.taken 0 (by omega)
        rw [Nat.cast_zero, add_zero, empty] at found
        cases found
  · have previous : (slot - 1 - start).val = (slot - start).val - 1 := by
      rw [sub_one_sub]
      exact val_sub_one (sub_ne_zero.mpr isStart)
    have positive : (slot - start).val ≠ 0 := by
      rw [ne_eq, ZMod.val_eq_zero, sub_eq_zero]
      exact isStart
    obtain ⟨before, foundBefore⟩ :=
      run.taken_of_val_lt (slot - 1) (by omega)
    rw [foundBefore]
    refine iff_of_false nofun ?_
    rintro ⟨empty, notHole⟩
    by_cases atHole : (slot - start).val = moved
    · rw [← atHole, add_val_sub] at notHole
      exact notHole rfl
    · obtain ⟨here, foundHere⟩ := run.taken_of_val_lt slot (by omega)
      rw [empty] at foundHere
      cases foundHere
  · refine iff_of_eq ?_
    have notHole : slot ≠ start + moved := by
      rintro rfl
      rw [run.val_sub_hole] at within
      exact within (Nat.le_refl _)
    simp [notHole]

/-- An entry may go where its predecessor is at least as far from home as it would have to be, and
the entry that it displaces is nearer to its own home. -/
theorem Ordered.insertAt (ordered : Ordered home slots) (run : Run slots start moved)
    (previous : distance home start entry ≠ 0 → ∃ before, slots (start - 1) = some before ∧
      distance home start entry ≤ distance home (start - 1) before + 1)
    (displaced : ∀ there, slots start = some there →
      distance home start there < distance home start entry) :
    Ordered home (insertAt slots start moved entry) := by
  have shifted : ∀ {slot : ZMod N} {there : Entry}, slots slot = some there →
      distance home (slot + 1) there = distance home slot there + 1 := by
    intro slot there found
    exact distance_add_one (ordered.distance_add_one_lt run.hole found)
  intro slot there found away
  by_cases isStart : slot = start
  · subst isStart
    rw [insertAt_start, Option.some.injEq] at found
    subst found
    obtain ⟨before, foundBefore, near⟩ := previous away
    refine ⟨before, ?_, near⟩
    rw [insertAt_beyond]
    · exact foundBefore
    · -- The slot before the start is the last of the circle, beyond the hole of the run.
      by_contra within
      by_cases atHole : (slot - 1 - slot).val = moved
      · rw [run.hole_of_val_eq atHole] at foundBefore
        cases foundBefore
      · have fits := run.fits
        have wraps : slot - 1 - slot + 1 = 0 := by ring
        have next := val_add_one (slot - 1 - slot) (by omega)
        rw [wraps, ZMod.val_zero] at next
        omega
  · have offset : (slot - 1 - start).val = (slot - start).val - 1 := by
      rw [sub_one_sub]
      exact val_sub_one (sub_ne_zero.mpr isStart)
    have positive : (slot - start).val ≠ 0 := by
      rw [ne_eq, ZMod.val_eq_zero, sub_eq_zero]
      exact isStart
    by_cases within : (slot - start).val ≤ moved
    · rw [insertAt_moved isStart within] at found
      have farther := shifted found
      rw [sub_add_cancel] at farther
      by_cases second : slot - 1 = start
      · refine ⟨entry, ?_, ?_⟩
        · rw [second, insertAt_start]
        · rw [second] at found farther ⊢
          have nearer := displaced there found
          omega
      · obtain ⟨before, foundBefore⟩ := run.taken_of_val_lt (slot - 1 - 1) (by
          rw [sub_one_sub, val_sub_one (sub_ne_zero.mpr second)]
          omega)
        refine ⟨before, ?_, ?_⟩
        · rw [insertAt_moved second (by omega)]
          exact foundBefore
        · have beforeFarther := shifted foundBefore
          rw [sub_add_cancel] at beforeFarther
          by_cases atHome : distance home (slot - 1) there = 0
          · omega
          · obtain ⟨neighbour, foundNeighbour, near⟩ := ordered _ _ found atHome
            rw [foundBefore, Option.some.injEq] at foundNeighbour
            subst foundNeighbour
            omega
    · rw [insertAt_beyond (by omega)] at found
      obtain ⟨before, foundBefore, near⟩ := ordered slot there found away
      refine ⟨before, ?_, near⟩
      by_cases atHole : (slot - 1 - start).val = moved
      · rw [run.hole_of_val_eq atHole] at foundBefore
        cases foundBefore
      · rw [insertAt_beyond (by omega)]
        exact foundBefore

omit [NeZero N] in
/-- An entry of the new table is the new one or was in a slot of the old one, each in its own. -/
theorem insertAt_eq_some (found : insertAt slots start moved entry slot = some other) :
    slot = start ∧ other = entry ∨
      slot ≠ start ∧ slots (if (slot - start).val ≤ moved then slot - 1 else slot) =
        some other := by
  rw [insertAt] at found
  split_ifs at found with isStart within
  · cases found
    exact .inl ⟨isStart, rfl⟩
  · rw [if_pos within]
    exact .inr ⟨isStart, found⟩
  · rw [if_neg within]
    exact .inr ⟨isStart, found⟩

theorem Distinct.insertAt {Key : Type} {key : Entry → Key} (distinct : Distinct key slots)
    (fresh : ∀ there, Holds slots there → key there ≠ key entry) :
    Distinct key (insertAt slots start moved entry) := by
  have offset : ∀ {slot : ZMod N}, slot ≠ start →
      (slot - 1 - start).val = (slot - start).val - 1 := by
    intro slot notStart
    rw [sub_one_sub]
    exact val_sub_one (sub_ne_zero.mpr notStart)
  intro left right one two foundLeft foundRight same
  rcases insertAt_eq_some foundLeft with ⟨leftStart, rfl⟩ | ⟨leftMoved, oldLeft⟩
  · rcases insertAt_eq_some foundRight with ⟨rightStart, rfl⟩ | ⟨rightMoved, oldRight⟩
    · rw [leftStart, rightStart]
    · exact absurd same.symm (fresh two ⟨_, oldRight⟩)
  · rcases insertAt_eq_some foundRight with ⟨rightStart, rfl⟩ | ⟨rightMoved, oldRight⟩
    · exact absurd same (fresh one ⟨_, oldLeft⟩)
    · have equal := distinct _ _ _ _ oldLeft oldRight same
      have positiveLeft : (left - start).val ≠ 0 := by
        rwa [ne_eq, ZMod.val_eq_zero, sub_eq_zero]
      have positiveRight : (right - start).val ≠ 0 := by
        rwa [ne_eq, ZMod.val_eq_zero, sub_eq_zero]
      split_ifs at equal with leftWithin rightWithin rightWithin
      · exact sub_left_injective equal
      · have apart := offset leftMoved
        rw [equal] at apart
        omega
      · have apart := offset rightMoved
        rw [← equal] at apart
        omega
      · exact equal

end Insert

/-! ## Removing -/

/-- The `moved` entries after the slot move down by one, onto the one in it. -/
def removeAt (slots : ZMod N → Option Entry) (start : ZMod N) (moved : ℕ) :
    ZMod N → Option Entry := fun slot =>
  if (slot - start).val < moved then slots (slot + 1)
  else if (slot - start).val = moved then none
  else slots slot

section Remove

variable {start : ZMod N} {moved : ℕ}

/-- The run of entries that moves down: they are away from home, and what follows is a hole or at
home. -/
structure Tail (home : Entry → ZMod N) (slots : ZMod N → Option Entry) (start : ZMod N)
    (moved : ℕ) : Prop where
  fits : moved + 1 < N
  away : ∀ ahead < moved, ∃ entry, slots (start + ahead + 1) = some entry ∧
    distance home (start + ahead + 1) entry ≠ 0
  stop : ∀ entry, slots (start + moved + 1) = some entry →
    distance home (start + moved + 1) entry = 0

theorem removeAt_within (within : (slot - start).val < moved) :
    removeAt slots start moved slot = slots (slot + 1) := by
  rw [removeAt, if_pos within]

theorem removeAt_last (last : (slot - start).val = moved) :
    removeAt slots start moved slot = none := by
  rw [removeAt, if_neg (by omega), if_pos last]

theorem removeAt_beyond (beyond : moved < (slot - start).val) :
    removeAt slots start moved slot = slots slot := by
  rw [removeAt, if_neg (by omega), if_neg (by omega)]

variable [NeZero N]

theorem Tail.away_of_val_lt (tail : Tail home slots start moved) (slot : ZMod N)
    (within : (slot - start).val < moved) :
    ∃ entry, slots (slot + 1) = some entry ∧ distance home (slot + 1) entry ≠ 0 := by
  have found := tail.away _ within
  rwa [add_val_sub] at found

omit [NeZero N] in
/-- An entry of the new table was in a slot of the old one other than `start`, each in its own. -/
theorem removeAt_eq_some (tail : Tail home slots start moved)
    (found : removeAt slots start moved slot = some entry) :
    slots (if (slot - start).val < moved then slot + 1 else slot) = some entry ∧
      (if (slot - start).val < moved then slot + 1 else slot) ≠ start := by
  have fits := tail.fits
  rw [removeAt] at found
  split_ifs at found with within last
  · rw [if_pos within]
    refine ⟨found, ?_⟩
    intro wraps
    have same : slot - start + 1 = 0 := by linear_combination wraps
    have next := val_add_one (slot - start) (by omega)
    rw [same, ZMod.val_zero] at next
    omega
  · rw [if_neg within]
    refine ⟨found, ?_⟩
    rintro rfl
    rw [sub_self, ZMod.val_zero] at within last
    omega

theorem holds_removeAt (tail : Tail home slots start moved) :
    Holds (removeAt slots start moved) other ↔ ∃ slot ≠ start, slots slot = some other := by
  constructor
  · rintro ⟨slot, found⟩
    obtain ⟨old, apart⟩ := removeAt_eq_some tail found
    exact ⟨_, apart, old⟩
  · rintro ⟨slot, notStart, found⟩
    have offset : (slot - 1 - start).val = (slot - start).val - 1 := by
      rw [sub_one_sub]
      exact val_sub_one (sub_ne_zero.mpr notStart)
    have positive : (slot - start).val ≠ 0 := by
      rwa [ne_eq, ZMod.val_eq_zero, sub_eq_zero]
    by_cases beyond : moved < (slot - start).val
    · refine ⟨slot, ?_⟩
      rw [removeAt_beyond beyond]
      exact found
    · refine ⟨slot - 1, ?_⟩
      rw [removeAt_within (by omega), sub_add_cancel]
      exact found

omit [NeZero N] in
theorem Distinct.removeAt {Key : Type} {key : Entry → Key} (distinct : Distinct key slots)
    (tail : Tail home slots start moved) : Distinct key (removeAt slots start moved) := by
  have fits := tail.fits
  have offset : ∀ {slot : ZMod N}, (slot - start).val < moved →
      (slot + 1 - start).val = (slot - start).val + 1 := by
    intro slot within
    have same : slot + 1 - start = slot - start + 1 := by ring
    rw [same, val_add_one]
    omega
  intro left right one two foundLeft foundRight same
  have lastLeft : (left - start).val ≠ moved := by
    intro last
    rw [removeAt_last last] at foundLeft
    cases foundLeft
  have lastRight : (right - start).val ≠ moved := by
    intro last
    rw [removeAt_last last] at foundRight
    cases foundRight
  have equal := distinct _ _ _ _ (removeAt_eq_some tail foundLeft).1
    (removeAt_eq_some tail foundRight).1 same
  split_ifs at equal with leftWithin rightWithin rightWithin
  · exact add_left_injective 1 equal
  · have apart := offset leftWithin
    rw [equal] at apart
    omega
  · have apart := offset rightWithin
    rw [← equal] at apart
    omega
  · exact equal

theorem Ordered.removeAt (ordered : Ordered home slots) (tail : Tail home slots start moved)
    (found : slots start = some entry) : Ordered home (removeAt slots start moved) := by
  have fits := tail.fits
  intro slot there foundThere away
  by_cases within : (slot - start).val < moved
  · rw [removeAt_within within] at foundThere
    obtain ⟨same, foundSame, oldAway⟩ := tail.away_of_val_lt slot within
    rw [foundThere, Option.some.injEq] at foundSame
    subst foundSame
    have nearer := distance_sub_one oldAway
    rw [add_sub_cancel_right] at nearer
    obtain ⟨previous, foundPrevious, near⟩ := ordered _ _ foundThere oldAway
    rw [add_sub_cancel_right] at foundPrevious near
    by_cases isStart : slot = start
    · -- The entry takes the place of the removed one, which is at least as far from home.
      subst isStart
      rw [found, Option.some.injEq] at foundPrevious
      subst foundPrevious
      obtain ⟨before, foundBefore, step⟩ := ordered _ _ found (by omega)
      refine ⟨before, ?_, by omega⟩
      rw [removeAt_beyond]
      · exact foundBefore
      · by_contra notBeyond
        have wraps : slot - 1 - slot + 1 = 0 := by ring
        have next := val_add_one (slot - 1 - slot) (by omega)
        rw [wraps, ZMod.val_zero] at next
        omega
    · have offset : (slot - 1 - start).val = (slot - start).val - 1 := by
        rw [sub_one_sub]
        exact val_sub_one (sub_ne_zero.mpr isStart)
      have positive : (slot - start).val ≠ 0 := by
        rwa [ne_eq, ZMod.val_eq_zero, sub_eq_zero]
      obtain ⟨same, foundSame, previousAway⟩ :=
        tail.away_of_val_lt (slot - 1) (by omega)
      rw [sub_add_cancel, foundPrevious, Option.some.injEq] at foundSame
      subst foundSame
      rw [sub_add_cancel] at previousAway
      have previousNearer := distance_sub_one previousAway
      refine ⟨previous, ?_, by omega⟩
      rw [removeAt_within (by omega), sub_add_cancel]
      exact foundPrevious
  · have notLast : (slot - start).val ≠ moved := by
      intro last
      rw [removeAt_last last] at foundThere
      cases foundThere
    rw [removeAt_beyond (by omega)] at foundThere
    obtain ⟨previous, foundPrevious, near⟩ := ordered _ _ foundThere away
    refine ⟨previous, ?_, near⟩
    have notStart : slot ≠ start := by
      rintro rfl
      rw [sub_self, ZMod.val_zero] at within notLast
      omega
    have offset : (slot - 1 - start).val = (slot - start).val - 1 := by
      rw [sub_one_sub]
      exact val_sub_one (sub_ne_zero.mpr notStart)
    by_cases first : (slot - start).val = moved + 1
    · have atEnd : start + (moved : ZMod N) + 1 = slot := by
        have reached := add_val_sub start slot
        rw [first] at reached
        push_cast at reached
        rwa [← add_assoc] at reached
      have atHome := tail.stop there (by rwa [atEnd])
      rw [atEnd] at atHome
      exact absurd atHome away
    · rw [removeAt_beyond (by omega)]
      exact foundPrevious

end Remove

/-! ## Replacing -/

section Replace

open Function

variable {start : ZMod N} {old new : Entry} {Key : Type} {key : Entry → Key}

/-- An entry makes room for another one with the same home. -/
theorem Ordered.replace (ordered : Ordered home slots) (found : slots start = some old)
    (sameHome : home new = home old) : Ordered home (update slots start (some new)) := by
  have same : ∀ slot, distance home slot new = distance home slot old := by
    intro slot
    rw [distance, distance, sameHome]
  have previous : ∀ {slot : ZMod N} {entry : Entry}, slots slot = some entry →
      distance home slot entry ≠ 0 →
      ∃ before, update slots start (some new) (slot - 1) = some before ∧
        distance home slot entry ≤ distance home (slot - 1) before + 1 := by
    intro slot entry foundEntry away
    obtain ⟨before, foundBefore, near⟩ := ordered _ _ foundEntry away
    by_cases atStart : slot - 1 = start
    · rw [atStart, found, Option.some.injEq] at foundBefore
      subst foundBefore
      refine ⟨new, ?_, ?_⟩
      · rw [atStart, update_self]
      · rw [same]
        exact near
    · refine ⟨before, ?_, near⟩
      rw [update_of_ne atStart]
      exact foundBefore
  intro slot entry foundEntry away
  by_cases atStart : slot = start
  · subst atStart
    rw [update_self, Option.some.injEq] at foundEntry
    subst foundEntry
    rw [same] at away ⊢
    exact previous found away
  · rw [update_of_ne atStart] at foundEntry
    exact previous foundEntry away

theorem Distinct.replace (distinct : Distinct key slots) (found : slots start = some old)
    (sameKey : key new = key old) : Distinct key (update slots start (some new)) := by
  have source : ∀ {slot : ZMod N} {entry : Entry},
      update slots start (some new) slot = some entry →
      ∃ before, slots slot = some before ∧ key before = key entry := by
    intro slot entry foundEntry
    by_cases atStart : slot = start
    · subst atStart
      rw [update_self, Option.some.injEq] at foundEntry
      subst foundEntry
      exact ⟨old, found, sameKey.symm⟩
    · rw [update_of_ne atStart] at foundEntry
      exact ⟨entry, foundEntry, rfl⟩
  intro left right one two foundLeft foundRight equal
  obtain ⟨oldLeft, wasLeft, keyLeft⟩ := source foundLeft
  obtain ⟨oldRight, wasRight, keyRight⟩ := source foundRight
  apply distinct left right oldLeft oldRight wasLeft wasRight
  rw [keyLeft, keyRight, equal]

theorem holds_replace (distinct : Distinct key slots) (found : slots start = some old)
    (sameKey : key new = key old) :
    Holds (update slots start (some new)) other ↔
      other = new ∨ Holds slots other ∧ key other ≠ key new := by
  constructor
  · rintro ⟨slot, foundOther⟩
    by_cases atStart : slot = start
    · subst atStart
      rw [update_self, Option.some.injEq] at foundOther
      exact .inl foundOther.symm
    · rw [update_of_ne atStart] at foundOther
      refine .inr ⟨⟨slot, foundOther⟩, ?_⟩
      intro equal
      exact atStart (distinct _ _ _ _ foundOther found (equal.trans sameKey))
  · rintro (rfl | ⟨⟨slot, foundOther⟩, apart⟩)
    · exact ⟨start, update_self _ _ _⟩
    · refine ⟨slot, ?_⟩
      rw [update_of_ne]
      · exact foundOther
      · rintro rfl
        rw [found, Option.some.injEq] at foundOther
        subst foundOther
        exact apart sameKey.symm

end Replace

/-! ## Counting -/

/-- The slots with an entry. -/
def taken [NeZero N] (slots : ZMod N → Option Entry) : Finset (ZMod N) :=
  Finset.univ.filter fun slot => (slots slot).isSome

section Count

variable [NeZero N] {start : ZMod N} {moved : ℕ}

@[simp] theorem mem_taken : slot ∈ taken slots ↔ ∃ entry, slots slot = some entry := by
  rw [taken, Finset.mem_filter, Option.isSome_iff_exists]
  exact and_iff_right (Finset.mem_univ _)

/-- Fewer entries than slots leave a hole. -/
theorem exists_hole (few : (taken slots).card < N) : ∃ slot, slots slot = none := by
  by_contra full
  have everything : taken slots = Finset.univ := by
    ext slot
    rw [mem_taken, ← Option.ne_none_iff_exists']
    exact iff_of_true (fun empty => full ⟨slot, empty⟩) (Finset.mem_univ _)
  rw [everything, Finset.card_univ, ZMod.card] at few
  omega

theorem taken_replace {old new : Entry} (found : slots start = some old) :
    taken (Function.update slots start (some new)) = taken slots := by
  ext slot
  rw [mem_taken, mem_taken]
  by_cases atStart : slot = start
  · subst atStart
    rw [Function.update_self]
    exact iff_of_true ⟨new, rfl⟩ ⟨old, found⟩
  · rw [Function.update_of_ne atStart]

theorem card_insertAt (run : Run slots start moved) :
    (taken (insertAt slots start moved entry)).card = (taken slots).card + 1 := by
  have added : taken (insertAt slots start moved entry) =
      insert (start + (moved : ZMod N)) (taken slots) := by
    ext slot
    rw [mem_taken, Finset.mem_insert, mem_taken, ← Option.ne_none_iff_exists',
      ← Option.ne_none_iff_exists', ne_eq, insertAt_eq_none_iff run]
    tauto
  rw [added, Finset.card_insert_of_notMem]
  rw [mem_taken, run.hole]
  exact nofun

theorem card_removeAt (tail : Tail home slots start moved) (found : slots start = some entry) :
    (taken (removeAt slots start moved)).card + 1 = (taken slots).card := by
  have lastTaken : start + (moved : ZMod N) ∈ taken slots := by
    rw [mem_taken]
    cases moved with
    | zero => exact ⟨entry, by rwa [Nat.cast_zero, add_zero]⟩
    | succ moved =>
        obtain ⟨there, foundThere, -⟩ := tail.away moved (by omega)
        refine ⟨there, ?_⟩
        push_cast
        rwa [← add_assoc]
  have fits := tail.fits
  have erased : taken (removeAt slots start moved) =
      (taken slots).erase (start + (moved : ZMod N)) := by
    ext slot
    rw [mem_taken, Finset.mem_erase, mem_taken]
    by_cases within : (slot - start).val < moved
    · rw [removeAt_within within]
      obtain ⟨there, foundThere, away⟩ := tail.away_of_val_lt slot within
      refine iff_of_true ⟨there, foundThere⟩ ⟨?_, ?_⟩
      · rintro rfl
        rw [add_sub_cancel_left, val_natCast_of_lt (by omega)] at within
        omega
      · cases offset : (slot - start).val with
        | zero =>
            rw [ZMod.val_eq_zero, sub_eq_zero] at offset
            exact ⟨entry, by rwa [offset]⟩
        | succ before =>
            obtain ⟨here, foundHere, -⟩ := tail.away before (by omega)
            refine ⟨here, ?_⟩
            have reached := add_val_sub start slot
            rw [offset] at reached
            push_cast at reached
            rwa [← reached, ← add_assoc]
    · by_cases last : (slot - start).val = moved
      · have atLast : slot = start + (moved : ZMod N) := by rw [← last, add_val_sub]
        rw [removeAt_last last]
        refine iff_of_false nofun ?_
        exact fun apart => apart.1 atLast
      · rw [removeAt_beyond (by omega)]
        have apart : slot ≠ start + (moved : ZMod N) := by
          rintro rfl
          rw [add_sub_cancel_left, val_natCast_of_lt (by omega)] at last
          exact last rfl
        exact (and_iff_right apart).symm
  rw [erased]
  exact Finset.card_erase_add_one lastTaken

end Count

end Whippet.RobinHood
