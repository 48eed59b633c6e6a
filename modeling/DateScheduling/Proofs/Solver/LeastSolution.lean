import DateScheduling.Proofs.Search.Interruption
import DateScheduling.Proofs.Solver.Pipeline

/-!
# The least solution

Pruning keeps all solutions of a model, the search finds the first consistent
tuple of the candidates that are left, and ascending candidates give tuples in
lexicographic order.  Together this makes the answer of an unlimited run
independent of the passes that were made: it is the least solution of the model,
with event 0 as the most significant, or the statement that there is none.

Main results:

- Theorem `Solver.Course.settles_outcome`: what the unlimited search says about
  the model.
- Theorem `Solver.Course.exists_run`: what a run that is never stopped reports.
- Theorem `Solver.exists_decides`: what a run that is never stopped says about a
  checked model.
- Theorem `Solver.run_least_solution`: the same, and what solving a model gives,
  in terms of the solutions of the model.
-/

namespace DateScheduling

/-- The dates solve the model, and in lexicographic order they come before the
dates of every other solution. -/
structure Model.IsLeastSolution (m : Model) (a : Array Date) : Prop where
  isSolution : m.isSolution a = true
  least : ∀ b, m.isSolution b = true → b ≠ a → a.toList < b.toList

/-- A model has at most one least solution. -/
theorem Model.IsLeastSolution.unique {m : Model} {a b : Array Date} (ha : m.IsLeastSolution a)
    (hb : m.IsLeastSolution b) : a = b := by
  by_cases heq : a = b
  · exact heq
  · have hab := ha.least b hb.isSolution (Ne.symm heq)
    have hba := hb.least a ha.isSolution heq
    exact absurd hba (List.lt_asymm hab)

namespace Solver

variable {m : Model} {config : Config} {readings : Readings} {net : Network} {store : Store}
  {stats : Stats}

/-! ## What a search says about a model -/

/-- The outcome of a search is the right answer for the model. -/
inductive Settles (m : Model) : Search.Outcome → Prop where
  /-- The dates found are the least solution. -/
  | found {a : Array Date} (hleast : m.IsLeastSolution a) : Settles m (.found a)
  /-- There is no solution. -/
  | exhausted (hnone : ∀ a, m.isSolution a = false) : Settles m .exhausted

/-- The unlimited search finds the least solution, or there is none. -/
theorem Course.settles_outcome (h : Course m config net store stats) :
    Settles m (Search.explore net.admits store.candidates.toList #[]).report.outcome := by
  have hfound := h.found_eq
  unfold Search.Tally.report
  cases hfind : (Search.tuples store.candidates.toList).find? fun t =>
      consistent m.constraints t.toArray with
  | none =>
      rw [hfind] at hfound
      rw [hfound]
      refine .exhausted ?_
      intro a
      rw [← Bool.not_eq_true]
      intro hsolution
      rcases h.mem_tuples_iff.2 hsolution with ⟨hmem, hconsistent⟩
      exact List.find?_eq_none.1 hfind a.toList hmem hconsistent
  | some t =>
      rw [hfind] at hfound
      rw [hfound]
      refine .found ⟨?_, ?_⟩
      · apply h.mem_tuples_iff.1
        have hconsistent := List.find?_some hfind
        exact ⟨List.mem_of_find?_eq_some hfind, hconsistent⟩
      · intro b hb hne
        rcases h.mem_tuples_iff.2 hb with ⟨hmem, hconsistent⟩
        apply Search.rel_of_find?_eq_some (Search.pairwise_tuples store.ascending_candidates)
          hfind hmem hconsistent
        rintro rfl
        exact hne rfl

/-- The result of a run is the right answer for the model. -/
inductive Decides (m : Model) (r : Result) : Prop where
  | feasible {a : Array Date} (hleast : m.IsLeastSolution a) (hstatus : r.status = .feasible)
      (hassignment : r.assignment = some a)
  | infeasible (hnone : ∀ a, m.isSolution a = false) (hstatus : r.status = .infeasible)
      (hassignment : r.assignment = none)

namespace Decides

variable {r : Result}

/-- A right answer brings the least solution and no other dates. -/
theorem assignment_eq_some_iff (h : Decides m r) {a : Array Date} :
    r.assignment = some a ↔ m.IsLeastSolution a := by
  cases h with
  | feasible hleast _ hassignment =>
      rw [hassignment, Option.some.injEq]
      constructor
      · rintro rfl
        exact hleast
      · intro ha
        exact hleast.unique ha
  | infeasible hnone _ hassignment =>
      rw [hassignment]
      constructor
      · intro ha
        cases ha
      · intro ha
        have hfalse := hnone a
        rw [ha.isSolution] at hfalse
        cases hfalse

/-- A right answer brings no dates exactly when there is no solution. -/
theorem assignment_eq_none_iff (h : Decides m r) :
    r.assignment = none ↔ ∀ a, m.isSolution a = false := by
  cases h with
  | @feasible a hleast _ hassignment =>
      rw [hassignment]
      constructor
      · intro ha
        cases ha
      · intro hnone
        have hfalse := hnone a
        rw [hleast.isSolution] at hfalse
        cases hfalse
  | infeasible hnone _ hassignment => exact ⟨fun _ => hnone, fun _ => hassignment⟩

/-- The status of a right answer goes with the dates it brings. -/
theorem status_eq (h : Decides m r) :
    r.status = if r.assignment.isSome then .feasible else .infeasible := by
  cases h with
  | feasible _ hstatus hassignment =>
      rw [hstatus, hassignment]
      rfl
  | infeasible _ hstatus hassignment =>
      rw [hstatus, hassignment]
      rfl

/-- A model with a solution is not told to have none. -/
theorem status_eq_feasible (h : Decides m r) {a : Array Date} (ha : m.isSolution a = true) :
    r.status = .feasible := by
  cases h with
  | feasible _ hstatus _ => exact hstatus
  | infeasible hnone _ _ =>
      rw [hnone a] at ha
      cases ha

end Decides

/-- The right outcome makes the right result. -/
theorem Settles.decides {outcome : Search.Outcome} (h : Settles m outcome) (stats : Stats) :
    Decides m ⟨status outcome, assignment? outcome, stats⟩ := by
  cases h with
  | found hleast => exact .feasible hleast rfl rfl
  | exhausted hnone => exact .infeasible hnone rfl rfl

/-- The dates an unlimited search brings are those its exploration finds. -/
theorem assignment?_report (t : Search.Tally) : assignment? t.report.outcome = t.found := by
  unfold Search.Tally.report
  cases t.found with
  | none => rfl
  | some a => rfl

/-- What the search of an unlimited run finds and counts; there is no search when
some event has no dates. -/
def tally (net : Network) (store : Store) : Search.Tally :=
  if store.hasEmptyDomain then ⟨none, 0, 0⟩
  else Search.explore net.admits store.candidates.toList #[]

/-- A run that is never stopped gives the right answer, and reports what its search
finds and counts. -/
theorem Course.exists_run (h : Course m config net store stats) (readings : Readings)
    (hquiet : ∀ t, (config.limits readings).verdict t = none) :
    ∃ r, (run m config readings).result = .ok r ∧ Decides m r ∧
      r.assignment = (tally net store).found ∧ r.stats.nodes = (tally net store).nodes ∧
      r.stats.backtracks = (tally net store).backtracks := by
  unfold tally
  cases hempty : store.hasEmptyDomain with
  | true =>
      exact ⟨_, h.result_run_of_emptied hempty readings,
        .infeasible (h.isSolution_eq_false_of_emptied hempty) rfl rfl, rfl, h.nodes_eq,
        h.backtracks_eq⟩
  | false =>
      have hsearch := Search.result_search_of_quiet h.result_search fun t _ => hquiet t
      exact ⟨_, h.result_run_of_search readings hempty hsearch, h.settles_outcome.decides _,
        assignment?_report _, Search.Tally.nodes_report _, Search.Tally.backtracks_report _⟩

/-- A run that is never stopped gives the right answer for a checked model. -/
theorem exists_decides (hvalid : m.validate = .ok ()) (config : Config) (readings : Readings)
    (hquiet : ∀ t, (config.limits readings).verdict t = none) :
    ∃ r, (run m config readings).result = .ok r ∧ Decides m r := by
  rcases exists_course hvalid config with ⟨net, store, stats, hcourse⟩
  rcases hcourse.exists_run readings hquiet with ⟨r, hrun, hdecides, -⟩
  exact ⟨r, hrun, hdecides⟩

/-! ## Solving a model -/

/-- A budget of 0 nodes and a time limit of 0 milliseconds never stop a run that
is not cancelled. -/
theorem verdict_unlimited (nodeConsistency arcConsistency : Bool) (late : Nat → Bool) (t : Nat) :
    (Config.limits ⟨nodeConsistency, arcConsistency, 0, 0⟩ ⟨fun _ => false, late⟩).verdict t =
      none := by
  simp [Config.limits, Limits.verdict]

/-- What solving a model gives. -/
theorem solve_cases (m : Model) :
    (∃ e, m.validate = .error e ∧ (solve m).result = .ok (.error e)) ∨
    (m.validate = .ok () ∧ ∃ r, Decides m r ∧ (solve m).result = .ok (.ok r.assignment)) := by
  unfold solve
  cases hvalid : m.validate with
  | error e => exact Or.inl ⟨e, rfl, rfl⟩
  | ok =>
      rcases exists_decides hvalid {} .quiet (verdict_unlimited true true fun _ => false) with
          ⟨r, hrun, hdecides⟩
      refine Or.inr ⟨rfl, r, hdecides, ?_⟩
      simp only
      rw [Traced.result_bind_ok hrun]
      rfl

/-- For every model that passes its check, and whichever passes are switched on,
an unlimited run ends with the least solution if there is a solution, and says
that there is none otherwise.  Solving a model gives the least solution, nothing
if there is no solution, and the error of the check if the model fails it. -/
theorem run_least_solution (m : Model) :
    (m.validate = .ok () → ∀ (nodeConsistency arcConsistency : Bool) (late : Nat → Bool),
      ∃ r, (run m ⟨nodeConsistency, arcConsistency, 0, 0⟩ ⟨fun _ => false, late⟩).result = .ok r ∧
        ((∃ a, m.isSolution a = true) →
          ∃ a, m.IsLeastSolution a ∧ r.status = .feasible ∧ r.assignment = some a) ∧
        ((∀ a, m.isSolution a = false) → r.status = .infeasible ∧ r.assignment = none)) ∧
    (∀ a, (solve m).result = .ok (.ok (some a)) ↔ m.validate = .ok () ∧ m.IsLeastSolution a) ∧
    ((solve m).result = .ok (.ok none) ↔
      m.validate = .ok () ∧ ∀ a, m.isSolution a = false) ∧
    ∀ e, (solve m).result = .ok (.error e) ↔ m.validate = .error e := by
  refine ⟨?_, ?_⟩
  · intro hvalid nodeConsistency arcConsistency late
    obtain ⟨r, hrun, hdecides⟩ := exists_decides hvalid ⟨nodeConsistency, arcConsistency, 0, 0⟩
      ⟨fun _ => false, late⟩ (verdict_unlimited nodeConsistency arcConsistency late)
    refine ⟨r, hrun, ?_, ?_⟩
    · intro h
      rcases h with ⟨b, hb⟩
      cases hdecides with
      | @feasible a hleast hstatus hassignment => exact ⟨a, hleast, hstatus, hassignment⟩
      | infeasible hnone _ _ =>
          rw [hnone b] at hb
          cases hb
    · intro hnone
      have hassignment := hdecides.assignment_eq_none_iff.2 hnone
      refine ⟨?_, hassignment⟩
      rw [hdecides.status_eq, hassignment]
      rfl
  · rcases solve_cases m with ⟨e, hvalid, hsolve⟩ | ⟨hvalid, r, hdecides, hsolve⟩
    · rw [hvalid, hsolve]
      simp
    · rw [hvalid, hsolve]
      simp only [Except.ok.injEq, reduceCtorEq, hdecides.assignment_eq_some_iff,
        hdecides.assignment_eq_none_iff, true_and, implies_true, and_self]

/-- Two events over three days, of which the first is to be after the second. -/
theorem run_least_solution_of_two :
    let first : Date := ⟨2024, 2, 28, by decide⟩
    let last : Date := ⟨2024, 3, 1, by decide⟩
    let m : Model := ⟨2, ⟨first, last⟩, [.binary 0 .after 1, .binary 1 .notEqual 0]⟩
    m.validate = .ok () ∧
      ∃ r a, (run m ⟨false, true, 0, 0⟩ ⟨fun _ => false, fun _ => true⟩).result = .ok r ∧
        m.IsLeastSolution a ∧ r.status = .feasible ∧ r.assignment = some a := by
  intro first last m
  have hvalid : m.validate = .ok () := by decide
  rcases (run_least_solution m).1 hvalid false true fun _ => true with ⟨r, hrun, hfeasible, -⟩
  have hsolution : m.isSolution #[last, first] = true := by decide +kernel
  rcases hfeasible ⟨_, hsolution⟩ with ⟨a, hleast, hstatus, hassignment⟩
  exact ⟨hvalid, r, a, hrun, hleast, hstatus, hassignment⟩

end Solver
end DateScheduling
