import Whippet.FieldSet.WriterRules

/-!
The steps with which writers begin a call or take and visit a root.

Owns: that they keep each buffer in one place and each edge in one buffer. Does not own: the
accesses inside the calls.
-/

namespace Whippet.FieldSets

open Function

section Steps

variable {set after : FieldSet} {place : ℕ → BufferPlace} {index : ℕ} {writer : FieldSetWriter}

theorem found_of_inRange (inRange : index < set.writers.length) :
    set.writers[index]? = some (set.writers.getD index freshWriter) := by
  rw [List.getD_eq_getElem?_getD, List.getElem?_eq_getElem inRange, Option.getD_some]

theorem FieldSet.Invariant.start (invariant : set.Invariant place)
    (stepped : set.step .start = .next after) : after.Invariant place := by
  cases stepped
  have kept {other : ℕ} {writer : FieldSetWriter} (found : set.writers[other]? = some writer) :
      (set.writers ++ [freshWriter])[other]? = some writer := by
    rw [List.getElem?_append_left (List.getElem?_eq_some_iff.mp found).1]
    exact found
  refine { invariant with writers := ?_, held := ?_, controlled := ?_ }
  · intro other writer found
    by_cases inRange : other < set.writers.length
    · rw [List.getElem?_append_left inRange] at found
      have knows := invariant.writers other writer found
      exact ⟨knows.buf, knows.visiting, knows.call, knows.stage⟩
    · rw [List.getElem?_append_right (not_lt.mp inRange)] at found
      have isFresh := List.mem_singleton.mp (List.mem_of_getElem? found)
      subst isFresh
      exact ⟨fun proper => absurd rfl proper, nofun, trivial, nofun⟩
  · intro node other isHeld
    obtain ⟨writer, found, has⟩ := invariant.held node other isHeld
    exact ⟨writer, kept found, has⟩
  · intro atWork writer member
    rcases List.mem_append.mp member with before | isNew
    · exact invariant.controlled atWork writer before
    · rw [List.mem_singleton.mp isNew]
      exact ⟨rfl, rfl⟩

theorem FieldSet.Invariant.addEdge (invariant : set.Invariant place) {edge : ℕ}
    (stepped : set.step (.addEdge index edge) = .next after) : after.Invariant place := by
  simp only [FieldSet.step, Outcome.require_bind_eq_next] at stepped
  obtain ⟨⟨inRange, isIdle, controller⟩, stepped⟩ := stepped
  have found := found_of_inRange inRange
  generalize set.writers.getD index freshWriter = writer at found isIdle stepped
  have knows := invariant.writers index writer found
  have noMoving : writer.call.moving = none := by rw [isIdle]; rfl
  by_cases isZero : writer.buf = 0
  · rw [if_pos isZero] at stepped
    cases stepped
    refine invariant.quiet found controller ⟨knows.buf, knows.visiting, isZero, ?_⟩
      (.call noMoving _ 0)
    rintro stage ⟨⟩
    exact trivial
  · rw [if_neg isZero] at stepped
    cases stepped
    exact invariant.quiet found controller ⟨knows.buf, knows.visiting, isZero, nofun⟩
      (.call noMoving _ 0)

theorem FieldSet.Invariant.ne_zero (invariant : set.Invariant place) {address : ℕ}
    (isPlaced : place address ≠ .unallocated) : address ≠ 0 := by
  rintro rfl
  exact isPlaced invariant.proper

theorem FieldSet.Invariant.releaseBuffer (invariant : set.Invariant place)
    (stepped : set.step (.releaseBuffer index) = .next after) :
    ∃ placeAfter, after.Invariant placeAfter := by
  simp only [FieldSet.step, Outcome.require_bind_eq_next] at stepped
  obtain ⟨⟨inRange, isIdle, notVisiting, controller⟩, stepped⟩ := stepped
  have found := found_of_inRange inRange
  generalize set.writers.getD index freshWriter = writer at found isIdle notVisiting stepped
  have knows := invariant.writers index writer found
  by_cases isZero : writer.buf = 0
  · rw [if_pos isZero] at stepped
    cases stepped
    exact ⟨place, invariant⟩
  · rw [if_neg isZero] at stepped
    cases stepped
    have isHere := knows.buf isZero
    have isHeld : (place writer.buf).heldBy = some index := by
      rw [isHere]
      rfl
    have sized := invariant.sized writer.buf
    have loose := invariant.loose writer.buf
    rw [isHere] at sized loose
    refine ⟨_, invariant.passes found (.moving index) isHeld rfl (fun _ _ => rfl) rfl
      (fun _ => rfl) controller rfl rfl ?_ ?_ rfl sized.le nofun
      (invariant.conserved_of_same (fun _ => rfl) rfl rfl rfl)⟩
    · exact
        { buf := fun proper => absurd rfl proper
          visiting := by
            rw [notVisiting]
            exact nofun
          call := ⟨update_self _ _ _, loose trivial⟩
          stage := nofun }
    · refine .of_visiting_eq (.inr (.inr rfl)) rfl ?_
      rw [isIdle]
      exact nofun

theorem FieldSet.Invariant.takeRoot (invariant : set.Invariant place) {position : ℕ}
    (stepped : set.step (.takeRoot index position) = .next after) :
    ∃ placeAfter, after.Invariant placeAfter := by
  simp only [FieldSet.step, Outcome.require_bind_eq_next] at stepped
  obtain ⟨⟨inRange, isIdle, notVisiting, controller, inRoots⟩, stepped⟩ := stepped
  have found := found_of_inRange inRange
  generalize set.writers.getD index freshWriter = writer at found isIdle notVisiting stepped
  have knows := invariant.writers index writer found
  have isAddress : set.roots.getD position 0 = set.roots[position] := by
    rw [List.getD_eq_getElem?_getD, List.getElem?_eq_getElem inRoots, Option.getD_some]
  rw [isAddress] at stepped
  cases stepped
  generalize isRoot : set.roots[position] = address
  have member : address ∈ set.roots := by
    rw [← isRoot]
    exact List.getElem_mem inRoots
  have isHere := (invariant.roots address).mp member
  have proper := invariant.ne_zero (isHere.trans_ne nofun)
  have isNow : update place address (.visiting index) address = .visiting index :=
    update_self _ _ _
  have changes : Changes set
      ({ set with roots := set.roots.eraseIdx position }.setWriter index
        { writer with visiting := some (address, 0) })
      place (update place address (.visiting index)) address :=
    { buffers := fun _ _ => rfl
      places := fun node elsewhere => update_of_ne elsewhere _ _ }
  have sized := invariant.sized address
  have loose := invariant.loose address
  rw [isHere] at sized loose
  refine ⟨_, invariant.moves found
    (.of_changes invariant changes rfl ?_ ?_ ?_ ?_) ?_ controller ?_ ?_ ?_ ?_ ?_ ?_
    invariant.conserved⟩
  · intro other different
    rw [isNow, isHere]
    refine ⟨nofun, ?_⟩
    intro isHeld
    cases isHeld
    exact different rfl
  · rw [isNow]
    exact nofun
  · exact
      { buf := knows.buf_of_ne changes.places (isHere.trans_ne nofun)
        visiting := by
          rintro node other ⟨⟩
          exact ⟨isNow, Nat.zero_le _⟩
        call := by
          dsimp only
          rw [isIdle]
          exact trivial
        stage := by
          dsimp only
          rw [isIdle]
          exact nofun }
  · have keeps : Keeps writer { writer with visiting := some (address, 0) } address :=
      { buf := .inl rfl
        visiting := by
          rw [notVisiting]
          exact nofun
        moving := fun _ _ => id }
    apply keeps.has invariant found changes.places
    intro _
    rw [isNow]
    exact ⟨0, rfl⟩
  · apply invariant.stacked.congr (fun _ => rfl) (fun _ _ => rfl)
    intro node
    by_cases isIt : node = address
    · subst isIt
      rw [isNow, isHere]
      rfl
    · rw [update_of_ne isIt]
  · intro node
    dsimp only [FieldSet.setWriter]
    rw [← invariant.rootsOnce.erase_getElem position inRoots, isRoot,
      invariant.rootsOnce.mem_erase_iff,
      invariant.roots]
    by_cases isIt : node = address
    · subst isIt
      rw [isNow]
      exact iff_of_false (fun both => both.1 rfl) nofun
    · rw [update_of_ne isIt]
      exact and_iff_right isIt
  · exact invariant.rootsOnce.eraseIdx position
  · apply invariant.allocated_of_changes changes
    · exact isHere.trans_ne nofun
    · exact isNow.trans_ne nofun
  · rw [update_of_ne proper.symm, invariant.proper]
  · rw [isNow]
    exact sized
  · rw [isNow]
    exact fun _ => loose trivial

theorem found_of_busy (busy : set.writers.getD index freshWriter ≠ freshWriter) :
    set.writers[index]? = some (set.writers.getD index freshWriter) := by
  apply found_of_inRange
  by_contra outside
  rw [List.getD_eq_getElem?_getD, List.getElem?_eq_none (not_lt.mp outside)] at busy
  exact busy rfl

/-- A visited edge is kept where it is, or the last edge takes its place. -/
theorem FieldSet.Invariant.visits (invariant : set.Invariant place)
    (found : set.writers[index]? = some writer) (isIdle : writer.call = .idle)
    (controller : set.controller = .idle) {address position : ℕ}
    (isVisiting : writer.visiting = some (address, position)) (keep : Bool) :
    ∃ placeAfter, (set.visit index writer keep address position).Invariant placeAfter := by
  have knows := invariant.writers index writer found
  obtain ⟨isHere, -⟩ := knows.visiting address position isVisiting
  have isHeld : (place address).heldBy = some index := by
    rw [isHere]
    rfl
  have sized := invariant.sized address
  have loose := invariant.loose address
  rw [isHere] at sized loose
  have onlyIt {node other : ℕ} (elsewhere : node ≠ address) :
      writer.visiting ≠ some (node, other) := by
    rw [isVisiting]
    rintro ⟨⟩
    exact elsewhere rfl
  unfold FieldSet.visit
  dsimp only
  by_cases inside : position < (set.buffers address).size
  · rw [if_pos inside]
    cases keep with
    | true =>
        refine ⟨place, invariant.quiet found controller ?_ ?_⟩
        · exact
            { buf := knows.buf
              visiting := by
                rintro node other ⟨⟩
                exact ⟨isHere, inside⟩
              call := knows.call
              stage := knows.stage }
        · exact
            { buf := .inl rfl
              visiting := by
                intro node other _ was
                rw [isVisiting] at was
                cases was
                exact ⟨_, rfl⟩
              moving := fun _ _ => id }
    | false =>
        rw [if_neg Bool.false_ne_true]
        have inRange := (List.getElem?_eq_some_iff.mp found).1
        have writers_eq : set.writers = set.writers.set index writer := by
          rw [← (List.getElem?_eq_some_iff.mp found).2, List.set_getElem_self]
        refine ⟨_, invariant.passes found (.visiting index) isHeld rfl
          (fun node elsewhere => update_of_ne elsewhere _ _) writers_eq (fun list => ?_) controller
          rfl rfl ?_ ⟨.inl rfl, fun _ _ _ was => ⟨_, was⟩, fun _ _ => id⟩ ⟨position, isVisiting⟩
          ?_ ?_ ?_⟩
        · cases list <;> rfl
        · exact
            { buf := knows.buf_of_ne (fun _ elsewhere => update_of_ne elsewhere _ _)
                (isHere.trans_ne nofun)
              visiting := by
                intro node other was
                have same : (address, position) = (node, other) :=
                  Option.some.inj (isVisiting.symm.trans was)
                cases same
                refine ⟨update_self _ _ _, ?_⟩
                dsimp only [FieldSet.setBuffer]
                rw [update_self]
                exact Nat.le_sub_one_of_lt inside
              call := by
                rw [isIdle]
                exact trivial
              stage := by
                rw [isIdle]
                exact nofun }
        · dsimp only [FieldSet.setBuffer]
          rw [update_self]
          exact (Nat.sub_le _ _).trans sized
        · dsimp only [FieldSet.setBuffer]
          rw [update_self]
          exact fun _ => loose trivial
        · have member : address ∈ set.allocated := by
            rw [invariant.allocated, isHere]
            exact nofun
          obtain ⟨rest, before, now⟩ := sum_update set.buffers
            { set.buffers address with
              size := (set.buffers address).size - 1
              edges := update (set.buffers address).edges position
                ((set.buffers address).edges ((set.buffers address).size - 1)) } member
          have removed : (set.buffers address).contents = _ :=
            arrayBag.swapRemove inside
          dsimp only [FieldSet.setBuffer]
          rw [now, invariant.conserved, before, removed, Multiset.cons_add, Multiset.cons_add,
            Multiset.add_cons]
          rfl
  · rw [if_neg inside]
    refine ⟨_, invariant.passes found (.moving index) isHeld rfl (fun _ _ => rfl) rfl
      (fun _ => rfl) controller rfl rfl ?_ ?_ rfl sized nofun
      (invariant.conserved_of_same (fun _ => rfl) rfl rfl rfl)⟩
    · exact
        { buf := knows.buf_of_ne (fun _ elsewhere => update_of_ne elsewhere _ _)
            (isHere.trans_ne nofun)
          visiting := nofun
          call := ⟨update_self _ _ _, loose trivial⟩
          stage := nofun }
    · exact
        { buf := .inl rfl
          visiting := fun _ _ elsewhere was => absurd was (onlyIt elsewhere)
          moving := by
            rw [isIdle]
            exact nofun }

end Steps

end Whippet.FieldSets
