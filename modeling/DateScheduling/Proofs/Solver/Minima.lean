import Mathlib.Order.Bounds.Defs
import DateScheduling.Proofs.Solver.LeastSolution

/-!
# Models without inequations

All comparisons but `!=` are closed under minima: when each of two dates has a
partner at the other event, the comparison also holds between the least dates of
the two events.  After arc consistency the least dates that are left therefore
satisfy all constraints at once, and a search that tries them first never meets
a dead end.  Only constraints between events matter here; a date may well be
forbidden by a constraint with a fixed date.

Main results:

- Theorem `ArcConsistent.compatible_of_isLeast`: least dates of an arc-consistent
  family are compatible.
- Theorem `Search.explore_heads`: a search whose first candidates are consistent
  takes them and never returns to an event.
- Theorem `Solver.run_minima`: pruning decides models without inequations.
-/

namespace DateScheduling

variable {cs : List Constraint} {D : Nat → Set Date} {a b : Nat} {v w : Date}

/-! ## Least dates of an arc-consistent family -/

/-- A comparison other than `!=` holds between the least dates of two events. -/
theorem ArcConsistent.holds_of_isLeast (h : ArcConsistent cs D) (hne : a ≠ b) {op : Comparison}
    (hmem : Constraint.binary a op b ∈ cs) (hop : op ≠ .notEqual) (hv : IsLeast (D a) v)
    (hw : IsLeast (D b) w) : op.holds v w = true := by
  have hjoined : Joined cs a b := ⟨op, Or.inl hmem⟩
  rcases h.supported a b hne hjoined v hv.1 with ⟨w', hw', hforward⟩
  rcases h.supported b a (Ne.symm hne) (joined_comm.1 hjoined) w hw.1 with ⟨v', hv', hbackward⟩
  have hvw' : op.holds v w' = true := (hforward op).1 hmem
  have hv'w : op.holds v' w = true := (hbackward op).2 hmem
  have hvv' : v ≤ v' := hv.2 hv'
  have hww' : w ≤ w' := hw.2 hw'
  cases op with
  | notEqual => exact absurd rfl hop
  | equal =>
      simp only [Comparison.holds, decide_eq_true_eq] at *
      subst hvw' hv'w
      exact Date.le_antisymm hvv' hww'
  | after =>
      simp only [Comparison.holds, decide_eq_true_eq] at *
      exact Date.lt_of_le_of_lt hww' hvw'
  | before =>
      simp only [Comparison.holds, decide_eq_true_eq] at *
      exact Date.lt_of_le_of_lt hvv' hv'w
  | onOrAfter =>
      simp only [Comparison.holds, decide_eq_true_eq] at *
      exact Date.le_trans hww' hvw'
  | onOrBefore =>
      simp only [Comparison.holds, decide_eq_true_eq] at *
      exact Date.le_trans hvv' hv'w

/-- Least dates of an arc-consistent family are compatible. -/
theorem ArcConsistent.compatible_of_isLeast (h : ArcConsistent cs D)
    (hop : ∀ left right, Constraint.binary left .notEqual right ∉ cs) (hv : IsLeast (D a) v)
    (hw : IsLeast (D b) w) : Compatible cs a v b w := by
  intro op
  by_cases hab : a = b
  · subst hab
    have hvw : v = w := Date.le_antisymm (hv.2 hw.1) (hw.2 hv.1)
    subst hvw
    exact h.compatible_self hv.1 op
  · constructor
    · intro hmem
      refine h.holds_of_isLeast hab hmem ?_ hv hw
      rintro rfl
      exact hop a b hmem
    · intro hmem
      refine h.holds_of_isLeast (Ne.symm hab) hmem ?_ hw hv
      rintro rfl
      exact hop b a hmem

/-! ## Trying the right candidates first -/

namespace Search

/-- A search whose first candidates are consistent takes them and never returns
to an event. -/
theorem explore_heads {n : Nat} {net : Network} (hnet : net.Files n cs)
    {levels : List (List Date)} {heads : List Date}
    (hheads : heads.map some = levels.map List.head?) {l : List Date}
    (hsize : l.length + levels.length ≤ n) (h : consistent cs (l ++ heads).toArray = true) :
    explore net.admits levels l.toArray = ⟨some (l ++ heads).toArray, levels.length, 0⟩ := by
  induction levels generalizing heads l with
  | nil =>
      have hnil : heads = [] := by simpa using hheads
      rw [hnil, List.append_nil]
      rfl
  | cons candidates rest ih =>
      cases heads with
      | nil => cases hheads
      | cons day heads =>
          rw [List.map_cons, List.map_cons, List.cons.injEq] at hheads
          rcases hheads with ⟨hday, hheads⟩
          obtain ⟨later, rfl⟩ : ∃ later, candidates = day :: later :=
            List.head?_eq_some_iff.1 hday.symm
          rw [List.length_cons] at hsize
          have happend : l ++ day :: heads = (l ++ [day]) ++ heads := by simp
          rw [happend] at h ⊢
          have hbelow := ih hheads (by simp; omega) h
          have hadmits := ((consistent_push_iff hnet (by omega) day).1 (consistent_of_append h)).2
          unfold explore sweep
          rw [List.push_toArray, if_pos hadmits, hbelow]
          rfl

/-- Events that all have candidates have first candidates. -/
theorem exists_heads {levels : List (List Date)} (h : ∀ candidates ∈ levels, candidates ≠ []) :
    ∃ heads : List Date, heads.map some = levels.map List.head? := by
  induction levels with
  | nil => exact ⟨[], rfl⟩
  | cons candidates rest ih =>
      rcases ih fun c hc => h c (List.mem_cons_of_mem _ hc) with ⟨heads, hheads⟩
      rcases List.exists_cons_of_ne_nil (h candidates List.mem_cons_self) with ⟨day, later, rfl⟩
      exact ⟨day :: heads, by simp [hheads]⟩

end Search

/-- The first candidate of an event is the least date left to it. -/
theorem Store.isLeast_of_head? {s : Store} {i : Nat} {candidates : List Date}
    (hi : s.candidates.toList[i]? = some candidates) (hhead : candidates.head? = some v) :
    IsLeast (s.dates i) v := by
  rw [getElem?_candidates, Option.map_eq_some_iff] at hi
  rcases hi with ⟨d, hd, rfl⟩
  rcases List.head?_eq_some_iff.1 hhead with ⟨later, hdays⟩
  have hascending := d.ascending
  rw [hdays, List.pairwise_cons] at hascending
  constructor
  · rw [mem_dates_of_domain? hd, Domain.mem_iff, hdays]
    exact List.mem_cons_self
  · intro w hw
    rw [mem_dates_of_domain? hd, Domain.mem_iff, hdays, List.mem_cons] at hw
    rcases hw with rfl | hw
    · exact Date.le_refl w
    · exact Date.le_of_lt (hascending.1 w hw)

/-! ## Runs on models without inequations -/

namespace Solver

variable {m : Model} {config : Config} {net : Network} {store : Store} {stats : Stats}

namespace Course

/-- Least dates within the bounds of their events satisfy all constraints when
pruning has made the store arc-consistent. -/
theorem consistent_of_isLeast (h : Course m config net store stats)
    (hnode : config.nodeConsistency = true) (harc : config.arcConsistency = true)
    (hop : ∀ left right, Constraint.binary left .notEqual right ∉ m.constraints)
    {a : Array Date} (ha : ∀ (i : Nat) v, a[i]? = some v → IsLeast (store.dates i) v) :
    consistent m.constraints a = true := by
  rcases h.pruned with ⟨bounded, hpruned⟩
  have harcs := (hpruned.greatest harc).consistent
  rw [consistent_iff]
  constructor
  · intro i v hi
    exact hpruned.meetsBounds hnode (ha i v hi).1
  · intro i j v w hi hj
    exact harcs.compatible_of_isLeast hop (ha i v hi) (ha j w hj)

/-- The search then gives every event its least date and meets no dead end. -/
theorem exists_explore_eq (h : Course m config net store stats)
    (hnode : config.nodeConsistency = true) (harc : config.arcConsistency = true)
    (hop : ∀ left right, Constraint.binary left .notEqual right ∉ m.constraints)
    (hempty : store.hasEmptyDomain = false) :
    ∃ a : Array Date, a.size = m.eventCount ∧
      (∀ (i : Nat) v, a[i]? = some v → IsLeast (store.dates i) v) ∧
      Search.explore net.admits store.candidates.toList #[] = ⟨some a, m.eventCount, 0⟩ := by
  have hlength := h.length_candidates
  rcases Search.exists_heads (store.ne_nil_of_mem_candidates hempty) with ⟨heads, hheads⟩
  have hleast : ∀ (i : Nat) v, heads.toArray[i]? = some v → IsLeast (store.dates i) v := by
    intro i v hi
    rw [List.getElem?_toArray] at hi
    have hlevel := congrArg (·[i]?) hheads
    simp only [List.getElem?_map, hi, Option.map_some] at hlevel
    rcases Option.map_eq_some_iff.1 hlevel.symm with ⟨candidates, hcandidates, hhead⟩
    exact Store.isLeast_of_head? hcandidates hhead
  refine ⟨heads.toArray, ?_, hleast, ?_⟩
  · have hsame := congrArg List.length hheads
    rw [List.length_map, List.length_map, hlength] at hsame
    exact hsame
  · have hexplore := Search.explore_heads h.files hheads (l := []) (by simp [hlength])
      (h.consistent_of_isLeast hnode harc hop hleast)
    rw [hlength] at hexplore
    exact hexplore

end Course

/-- Pruning with both passes decides every checked model that compares no two
events by `!=`.  Either it leaves some event without dates, and the run says so
without having searched, or the run gives every event the least date that
pruning has left to it, with one node for each event and without a dead end. -/
theorem run_minima (m : Model) (hvalid : m.validate = .ok ())
    (hop : ∀ left right, Constraint.binary left .notEqual right ∉ m.constraints)
    (late : Nat → Bool) :
    ∃ store r, (propagate m ⟨true, true, 0, 0⟩).result = .ok (.ok store) ∧
      (run m ⟨true, true, 0, 0⟩ ⟨fun _ => false, late⟩).result = .ok r ∧
      store.size = m.eventCount ∧ r.stats.backtracks = 0 ∧
      ((∃ i, i < m.eventCount ∧ store.dates i = ∅) ∧
          r.status = .infeasible ∧ r.assignment = none ∧ r.stats.nodes = 0 ∨
        (∀ i, i < m.eventCount → store.dates i ≠ ∅) ∧
          r.status = .feasible ∧ r.stats.nodes = m.eventCount ∧
          ∃ a, r.assignment = some a ∧ a.size = m.eventCount ∧
            ∀ (i : Nat) v, a[i]? = some v → IsLeast (store.dates i) v) := by
  rcases exists_course hvalid ⟨true, true, 0, 0⟩ with ⟨net, store, stats, hcourse⟩
  have hsize := hcourse.size_store
  cases hempty : store.hasEmptyDomain with
  | true =>
      have hrun := hcourse.result_run_of_emptied hempty ⟨fun _ => false, late⟩
      refine ⟨store, _, hcourse.propagate_eq, hrun, hsize, hcourse.backtracks_eq, Or.inl ?_⟩
      rw [Store.hasEmptyDomain_iff, hsize] at hempty
      exact ⟨hempty, rfl, rfl, hcourse.nodes_eq⟩
  | false =>
      rcases hcourse.exists_explore_eq rfl rfl hop hempty with ⟨a, ha, hleast, hexplore⟩
      have hsearch := hcourse.result_search
      rw [hexplore] at hsearch
      have hlimited := Search.result_search_of_quiet hsearch fun t _ =>
        verdict_unlimited true true late t
      have hrun := hcourse.result_run_of_search ⟨fun _ => false, late⟩ hempty hlimited
      refine ⟨store, _, hcourse.propagate_eq, hrun, hsize, rfl, Or.inr ?_⟩
      refine ⟨?_, rfl, rfl, a, rfl, ha, hleast⟩
      intro i hi hnone
      have hsome := Store.hasEmptyDomain_iff.2 ⟨i, hsize.symm ▸ hi, hnone⟩
      rw [hempty] at hsome
      cases hsome

/-- Three events over two days: the first cannot take the first day, the second
is before it, and the third is not before either. -/
theorem run_minima_of_three :
    let first : Date := ⟨2024, 2, 28, by decide⟩
    let last : Date := ⟨2024, 2, 29, by decide⟩
    let m : Model := ⟨3, ⟨first, last⟩,
      [.unary 0 .notEqual first, .binary 1 .before 0, .binary 2 .onOrAfter 1,
        .binary 0 .onOrBefore 2]⟩
    m.validate = .ok () ∧
      (∀ left right, Constraint.binary left .notEqual right ∉ m.constraints) ∧
      ∃ r, (run m ⟨true, true, 0, 0⟩ ⟨fun _ => false, fun _ => true⟩).result = .ok r ∧
        r.status = .feasible ∧ r.stats.nodes = 3 ∧ r.stats.backtracks = 0 := by
  intro first last m
  have hvalid : m.validate = .ok () := by decide
  have hop : ∀ left right, Constraint.binary left .notEqual right ∉ m.constraints := by
    intro left right
    simp [m]
  have hsolution : m.isSolution #[last, first, last] = true := by decide +kernel
  rcases run_minima m hvalid hop fun _ => true with ⟨store, r, -, hrun, -, hbacktracks, hcases⟩
  refine ⟨hvalid, hop, r, hrun, ?_⟩
  rcases hcases with ⟨-, -, hnone, -⟩ | ⟨-, hstatus, hnodes, -⟩
  · -- A model with a solution is not told to have none.
    obtain ⟨r', hrun', hdecides⟩ := exists_decides hvalid ⟨true, true, 0, 0⟩
      ⟨fun _ => false, fun _ => true⟩ (verdict_unlimited true true fun _ => true)
    rw [hrun, Except.ok.injEq] at hrun'
    subst hrun'
    have hfalse := hdecides.assignment_eq_none_iff.1 hnone #[last, first, last]
    rw [hsolution] at hfalse
    cases hfalse
  · exact ⟨hstatus, hnodes, hbacktracks⟩

end Solver
end DateScheduling
