import DateScheduling.Proofs.Search.Effort
import DateScheduling.Proofs.Solver.Interruption

/-!
# What pruning decides

Pruning takes out no date of a solution and lets nothing in, so the solutions of
a model are the consistent choices among the dates that are left.  When an event
has none left, the run says that there is no solution without a look at the
limits.  This is the only way in which it can say so with a count of 0 nodes: a
search in vain through domains that all have dates has tried some.

Main results:

- Theorem `Solver.Course.exists_run_iff`: which runs say that there is no solution
  without having searched.
- Theorem `Solver.pruning_exact`: pruning keeps exactly the solutions, and the
  early answer is given exactly when it has emptied a domain.
-/

namespace DateScheduling

/-- A stopped search is no proof that there is no solution. -/
theorem Status.ofStop_ne_infeasible (stop : Stop) : ofStop stop ≠ .infeasible := by
  cases stop <;> decide

namespace Solver

variable {m : Model} {config : Config} {net : Network} {store : Store} {stats : Stats}

/-- An exploration stands for the answer that there is no solution only if it has
found nothing. -/
theorem found_eq_none_of_status {t : Search.Tally} (h : status t.report.outcome = .infeasible) :
    t.found = none := by
  unfold Search.Tally.report at h
  cases hfound : t.found with
  | none => rfl
  | some a =>
      rw [hfound] at h
      cases h

/-- A run says that there is no solution with a count of 0 nodes exactly when
pruning has left some event without dates. -/
theorem Course.exists_run_iff (h : Course m config net store stats) (readings : Readings) :
    ∃ r, (run m config readings).result = .ok r ∧
      (r.status = .infeasible ∧ r.stats.nodes = 0 ↔ store.hasEmptyDomain = true) := by
  cases hempty : store.hasEmptyDomain with
  | true =>
      refine ⟨_, h.result_run_of_emptied hempty readings, ?_⟩
      simp [h.nodes_eq]
  | false =>
      rcases Search.exists_report_cases h.result_search (config.limits readings) with
          ⟨report, hreport, hcases⟩
      refine ⟨_, h.result_run_of_search readings hempty hreport, ?_⟩
      suffices hnot : ¬ (status report.outcome = .infeasible ∧ report.nodes = 0) by
        simpa using hnot
      intro hearly
      rcases hearly with ⟨hstatus, hnodes⟩
      rcases hcases with rfl | ⟨stop, hstop⟩
      · have hnone := found_eq_none_of_status hstatus
        have hpos := Search.one_le_nodes_explore (store.ne_nil_of_mem_candidates hempty) hnone
        rw [Search.Tally.nodes_report] at hnodes
        omega
      · rw [hstop] at hstatus
        exact Status.ofStop_ne_infeasible stop hstatus

/-- For every model that passes its check and every configuration, pruning leaves
one domain of days of the range for each event, and dates for all events solve
the model exactly when they are left to their events and satisfy every
constraint.  Hence every date of every solution is left, and there is no solution
when some event has no date left.  Whatever the limits are and whatever is read
during the search, the run says that there is no solution with a count of 0 nodes
in this case only. -/
theorem pruning_exact (m : Model) (hvalid : m.validate = .ok ()) (config : Config) :
    ∃ store, (propagate m config).result = .ok (.ok store) ∧
      store.size = m.eventCount ∧
      (∀ i, ∀ v ∈ store.dates i, v ∈ m.range) ∧
      (∀ a : Array Date, a.size = m.eventCount →
        (m.isSolution a = true ↔ (∀ (i : Nat) v, a[i]? = some v → v ∈ store.dates i) ∧
          ∀ c ∈ m.constraints, c.isSatisfiedBy a = true)) ∧
      (∀ a, m.isSolution a = true → ∀ (i : Nat) v, a[i]? = some v → v ∈ store.dates i) ∧
      (store.hasEmptyDomain = true → ∀ a, m.isSolution a = false) ∧
      ∀ readings : Readings, ∃ r, (run m config readings).result = .ok r ∧
        (r.status = .infeasible ∧ r.stats.nodes = 0 ↔ store.hasEmptyDomain = true) := by
  rcases exists_course hvalid config with ⟨net, store, stats, hcourse⟩
  rcases hcourse.pruned with ⟨bounded, hpruned⟩
  have hsolution := fun a => hpruned.isSolution_iff hcourse.maxIndex_lt (a := a)
  refine ⟨store, hcourse.propagate_eq, hcourse.size_store, ?_, ?_, ?_,
    hcourse.isSolution_eq_false_of_emptied, hcourse.exists_run_iff⟩
  · intro i v hv
    exact hpruned.mem_range hv
  · intro a ha
    rw [hsolution, consistent, List.all_eq_true]
    simp only [ha, true_and]
  · intro a ha
    exact ((hsolution a).1 ha).2.1

/-- Two events over two days: the first is to be before the second and not on the
last day.  The only solution survives, and a run that is cancelled at once does
not say that there is none. -/
theorem pruning_exact_of_two :
    let first : Date := ⟨2024, 2, 28, by decide⟩
    let last : Date := ⟨2024, 2, 29, by decide⟩
    let m : Model := ⟨2, ⟨first, last⟩, [.binary 1 .after 0, .unary 0 .notEqual last]⟩
    m.validate = .ok () ∧
      ∃ store r, (propagate m { nodeConsistency := false }).result = .ok (.ok store) ∧
        first ∈ store.dates 0 ∧ last ∈ store.dates 1 ∧
        (run m { nodeConsistency := false } (.constant true false)).result = .ok r ∧
        ¬ (r.status = .infeasible ∧ r.stats.nodes = 0) := by
  intro first last m
  have hvalid : m.validate = .ok () := by decide
  have hsolution : m.isSolution #[first, last] = true := by decide +kernel
  rcases pruning_exact m hvalid { nodeConsistency := false } with
      ⟨store, hpropagate, -, -, -, hkept, hemptied, hruns⟩
  rcases hruns (.constant true false) with ⟨r, hrun, hearly⟩
  refine ⟨hvalid, store, r, hpropagate, hkept _ hsolution 0 first rfl,
    hkept _ hsolution 1 last rfl, hrun, ?_⟩
  intro h
  have hnone := hemptied (hearly.1 h) #[first, last]
  rw [hsolution] at hnone
  cases hnone

end Solver
end DateScheduling
