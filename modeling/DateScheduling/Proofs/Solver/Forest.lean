import DateScheduling.Proofs.Search.Effort
import DateScheduling.Proofs.Solver.LeastSolution

/-!
# Forest-shaped models

In a forest-shaped model no event is joined to two different events before it.
After both pruning passes the date of the one earlier event has a partner at the
next event, for all constraints between the two at once, and a partner satisfies
everything else that is asked of it by then.  The search can therefore always go
on and never returns to an event, whatever comparisons the model uses.

Main results:

- Theorem `ArcConsistent.exists_extension`: consistent dates of the first events
  can be continued by a date of the next event.
- Theorem `Solver.run_forest`: the run on a forest-shaped model meets no dead
  end.
-/

namespace DateScheduling

/-- No event is joined to two different events before it. -/
def ForestShaped (cs : List Constraint) : Prop :=
  ∀ k i j, i < k → j < k → Joined cs k i → Joined cs k j → i = j

variable {cs : List Constraint} {D : Nat → Set Date}

/-! ## Going on from an assignment -/

/-- The next event has a date that is compatible with those of all events before
it. -/
theorem ArcConsistent.exists_compatible (h : ArcConsistent cs D) (hforest : ForestShaped cs)
    {l : List Date} (hmem : ∀ (i : Nat) v, l[i]? = some v → v ∈ D i)
    (hnonempty : (D l.length).Nonempty) :
    ∃ w ∈ D l.length, ∀ (i : Nat) v, l[i]? = some v → Compatible cs i v l.length w := by
  by_cases hparent : ∃ j, j < l.length ∧ Joined cs l.length j
  · rcases hparent with ⟨j, hlt, hjoined⟩
    have hj : l[j]? = some l[j] := List.getElem?_eq_getElem hlt
    rcases h.supported j l.length (Nat.ne_of_lt hlt) (joined_comm.1 hjoined) l[j] (hmem j l[j] hj)
      with ⟨w, hw, hcompatible⟩
    refine ⟨w, hw, ?_⟩
    intro i v hi
    by_cases hother : Joined cs i l.length
    · have hlti := (List.getElem?_eq_some_iff.1 hi).1
      have hij := hforest l.length i j hlti hlt (joined_comm.1 hother) hjoined
      subst hij
      rw [hj, Option.some.injEq] at hi
      rw [← hi]
      exact hcompatible
    · exact .of_not_joined hother v w
  · rcases hnonempty with ⟨w, hw⟩
    refine ⟨w, hw, ?_⟩
    intro i v hi
    apply Compatible.of_not_joined
    intro hjoined
    exact hparent ⟨i, (List.getElem?_eq_some_iff.1 hi).1, joined_comm.1 hjoined⟩

/-- Consistent dates of the first events can be continued by a date of the next
event. -/
theorem ArcConsistent.exists_extension (h : ArcConsistent cs D) (hforest : ForestShaped cs)
    (hbounds : ∀ i, ∀ v ∈ D i, MeetsBounds cs i v) {l : List Date}
    (hl : consistent cs l.toArray = true) (hmem : ∀ (i : Nat) v, l[i]? = some v → v ∈ D i)
    (hnonempty : (D l.length).Nonempty) :
    ∃ w ∈ D l.length, consistent cs (l ++ [w]).toArray = true := by
  rcases h.exists_compatible hforest hmem hnonempty with ⟨w, hw, hcompatible⟩
  exact ⟨w, hw, consistent_append_singleton hl (hbounds l.length w hw) hcompatible
    (h.compatible_self hw)⟩

/-! ## Runs on forest-shaped models -/

namespace Solver

variable {m : Model} {config : Config} {net : Network} {store : Store} {stats : Stats}

/-- On a forest-shaped model both passes prepare a search without dead ends. -/
theorem Course.direct_explore (h : Course m config net store stats)
    (hnode : config.nodeConsistency = true) (harc : config.arcConsistency = true)
    (hforest : ForestShaped m.constraints) (hempty : store.hasEmptyDomain = false) :
    (Search.explore net.admits store.candidates.toList #[]).Direct := by
  rcases h.pruned with ⟨bounded, hpruned⟩
  have harcs := (hpruned.greatest harc).consistent
  have hlength := h.length_candidates
  -- What is reached are consistent dates that are left to their events.
  refine Search.direct_explore store.candidates.toList
    (fun l => consistent m.constraints l.toArray = true ∧
      ∀ (i : Nat) v, l[i]? = some v → v ∈ store.dates i) ?hextends ?hkeeps (l := []) rfl ?hstart
  case hstart =>
    refine ⟨consistent_empty m.constraints, ?_⟩
    intro i v hi
    cases hi
  case hextends =>
    rintro l candidates ⟨hl, hmem⟩ hcandidates
    have hlt := (List.getElem?_eq_some_iff.1 hcandidates).1
    have hnonempty : (store.dates l.length).Nonempty := by
      have hne := store.ne_nil_of_mem_candidates hempty candidates
        (List.mem_of_getElem? hcandidates)
      rcases List.exists_mem_of_ne_nil _ hne with ⟨w, hw⟩
      exact ⟨w, (Store.mem_candidates_iff hcandidates).1 hw⟩
    rcases harcs.exists_extension hforest (fun i v => hpruned.meetsBounds hnode) hl hmem hnonempty
      with ⟨w, hw, hconsistent⟩
    exact ⟨w, (Store.mem_candidates_iff hcandidates).2 hw,
      ((consistent_push_iff h.files (by omega) w).1 hconsistent).2⟩
  case hkeeps =>
    rintro l candidates ⟨hl, hmem⟩ hcandidates day hday hadmits
    have hlt := (List.getElem?_eq_some_iff.1 hcandidates).1
    refine ⟨(consistent_push_iff h.files (by omega) day).2 ⟨hl, hadmits⟩, ?_⟩
    intro i v hi
    rcases getElem?_append_singleton_iff.1 hi with hbefore | ⟨rfl, rfl⟩
    · exact hmem i v hbefore
    · exact (Store.mem_candidates_iff hcandidates).1 hday

/-- On every forest-shaped model that passes its check, a run with both pruning
passes and without limits meets no dead end.  It says that there is no solution
exactly when pruning leaves some event without dates, and then it has not
searched; otherwise it finds one. -/
theorem run_forest (m : Model) (hvalid : m.validate = .ok ())
    (hforest : ForestShaped m.constraints) (late : Nat → Bool) :
    ∃ store r, (propagate m ⟨true, true, 0, 0⟩).result = .ok (.ok store) ∧
      (run m ⟨true, true, 0, 0⟩ ⟨fun _ => false, late⟩).result = .ok r ∧
      r.stats.backtracks = 0 ∧
      (r.status = .infeasible ↔ store.hasEmptyDomain = true) ∧
      (store.hasEmptyDomain = true → r.stats.nodes = 0) ∧
      (store.hasEmptyDomain = false → r.status = .feasible ∧
        ∃ a, r.assignment = some a ∧ m.isSolution a = true) := by
  rcases exists_course hvalid ⟨true, true, 0, 0⟩ with ⟨net, store, stats, hcourse⟩
  obtain ⟨r, hrun, hdecides, hassignment, hnodes, hbacktracks⟩ :=
    hcourse.exists_run ⟨fun _ => false, late⟩ (verdict_unlimited true true late)
  refine ⟨store, r, hcourse.propagate_eq, hrun, ?_⟩
  have hstatus := hdecides.status_eq
  unfold tally at hassignment hnodes hbacktracks
  cases hempty : store.hasEmptyDomain with
  | true =>
      rw [if_pos hempty] at hassignment hnodes hbacktracks
      rw [hassignment] at hstatus
      exact ⟨hbacktracks, by simp [hstatus], fun _ => hnodes, nofun⟩
  | false =>
      have hdirect := hcourse.direct_explore rfl rfl hforest hempty
      rcases Option.isSome_iff_exists.1 hdirect.isSome_found with ⟨a, ha⟩
      rw [if_neg (by simp [hempty])] at hassignment hbacktracks
      rw [ha] at hassignment
      rw [hassignment] at hstatus
      refine ⟨hbacktracks.trans hdirect.backtracks_eq, by simp [hstatus], nofun, ?_⟩
      intro _
      exact ⟨hstatus, a, hassignment, (hdecides.assignment_eq_some_iff.1 hassignment).isSolution⟩

/-- Four events over two days: the third is joined to the first by two constraints,
the fourth to the second by `!=`, and the second compares with itself. -/
theorem run_forest_of_four :
    let first : Date := ⟨2024, 2, 28, by decide⟩
    let last : Date := ⟨2024, 2, 29, by decide⟩
    let m : Model := ⟨4, ⟨first, last⟩,
      [.unary 2 .notEqual first, .binary 0 .notEqual 2, .binary 2 .onOrAfter 0,
        .binary 3 .notEqual 1, .binary 1 .onOrBefore 1]⟩
    m.validate = .ok () ∧ ForestShaped m.constraints ∧
      ∃ r, (run m ⟨true, true, 0, 0⟩ ⟨fun _ => false, fun _ => true⟩).result = .ok r ∧
        r.status = .feasible ∧ r.stats.backtracks = 0 := by
  intro first last m
  have hvalid : m.validate = .ok () := by decide
  have hforest : ForestShaped m.constraints := by
    intro k i j hi hj hki hkj
    simp [m, Joined] at hki hkj
    omega
  have hsolution : m.isSolution #[first, first, last, last] = true := by decide +kernel
  rcases run_forest m hvalid hforest fun _ => true with
      ⟨store, r, -, hrun, hbacktracks, -⟩
  obtain ⟨r', hrun', hdecides⟩ := exists_decides hvalid ⟨true, true, 0, 0⟩
    ⟨fun _ => false, fun _ => true⟩ (verdict_unlimited true true fun _ => true)
  rw [hrun, Except.ok.injEq] at hrun'
  subst hrun'
  exact ⟨hvalid, hforest, r, hrun, hdecides.status_eq_feasible hsolution, hbacktracks⟩

end Solver
end DateScheduling
