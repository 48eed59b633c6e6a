import DateScheduling.Proofs.Search.Effort
import DateScheduling.Proofs.Solver.Interruption

/-!
# The effort of a run

A run that makes more pruning passes searches fewer candidates, but it still has
every solution among them.  It therefore gives the same answer and never takes
more nodes or meets more dead ends than a run that makes fewer passes.  A budget
of nodes that is enough for the latter is enough for the former.

Main results:

- Theorem `Solver.Pruned.dates_subset`: more passes leave fewer dates.
- Theorem `Solver.Course.tally_le`: the search after more passes costs no more than
  the search after fewer.
- Theorem `Solver.run_effort`: two runs on the same model of which one makes every
  pass that the other makes.
-/

namespace DateScheduling

/-- A domain within another one is what is left when the other is filtered. -/
theorem Domain.eq_filter_of_subset {d e : Domain} (h : ∀ day, day ∈ d → day ∈ e) :
    d = e.filter d.contains := by
  apply ext_of_mem
  intro day
  rw [mem_filter, contains_iff]
  constructor
  · intro hday
    exact ⟨h day hday, hday⟩
  · intro hday
    exact hday.2

/-- A store that leaves no more dates to any event has fewer candidates. -/
theorem Store.thins_candidates {s t : Store} (hsize : s.size = t.size)
    (hsubset : ∀ i, s.dates i ⊆ t.dates i) :
    List.Forall₂ Search.Thins s.candidates.toList t.candidates.toList := by
  rw [List.forall₂_iff_get]
  refine ⟨by simp [hsize], ?_⟩
  intro i hi hi'
  have hs := List.getElem?_eq_getElem hi
  have ht := List.getElem?_eq_getElem hi'
  rw [getElem?_candidates, Option.map_eq_some_iff] at hs ht
  rcases hs with ⟨d, hd, hdays⟩
  rcases ht with ⟨e, he, hdays'⟩
  have hfilter : d = e.filter d.contains := by
    apply Domain.eq_filter_of_subset
    intro day hday
    exact (mem_dates_of_domain? he).1 (hsubset i ((mem_dates_of_domain? hd).2 hday))
  rw [List.get_eq_getElem, List.get_eq_getElem, ← hdays, ← hdays']
  exact ⟨d.contains, congrArg Domain.days hfilter⟩

namespace Solver

variable {m : Model} {more fewer : Config} {net net' : Network} {store store' : Store}
  {stats stats' : Stats}

/-! ## Candidates after more passes -/

/-- More passes leave fewer dates. -/
theorem Pruned.dates_subset {bounded bounded' : Store}
    (h : Pruned m more bounded store stats) (h' : Pruned m fewer bounded' store' stats')
    (hnode : fewer.nodeConsistency = true → more.nodeConsistency = true)
    (harc : fewer.arcConsistency = true → more.arcConsistency = true) (i : Nat) :
    store.dates i ⊆ store'.dates i := by
  have hbounded : ∀ j, bounded.dates j ⊆ bounded'.dates j := by
    intro j v hv
    rcases (h.mem_bounded_iff j v).1 hv with ⟨hrange, hbounds⟩
    exact (h'.mem_bounded_iff j v).2 ⟨hrange, fun henabled => hbounds (hnode henabled)⟩
  cases hfewer : fewer.arcConsistency with
  | true => exact (h.greatest (harc hfewer)).dates_mono (h'.greatest hfewer) hbounded i
  | false =>
      rw [h'.eq_bounded hfewer]
      exact (h.subset_bounded i).trans (hbounded i)

namespace Course

variable (h : Course m more net store stats) (h' : Course m fewer net' store' stats')
include h h'

/-- Two runs on the same model search the same network. -/
theorem network_eq : net = net' := by
  have hbuild := h.build?_eq
  rw [h'.build?_eq, Option.some.injEq] at hbuild
  exact hbuild.symm

/-- A domain emptied by fewer passes is emptied by more. -/
theorem hasEmptyDomain_of_subset (hsubset : ∀ i, store.dates i ⊆ store'.dates i)
    (hempty : store'.hasEmptyDomain = true) : store.hasEmptyDomain = true := by
  rw [Store.hasEmptyDomain_iff, h'.size_store] at hempty
  rw [Store.hasEmptyDomain_iff, h.size_store]
  rcases hempty with ⟨i, hi, hnone⟩
  refine ⟨i, hi, ?_⟩
  rw [← Set.subset_empty_iff, ← hnone]
  exact hsubset i

/-- The search after more passes finds the same as the search after fewer, for no
more effort. -/
theorem explore_le (hsubset : ∀ i, store.dates i ⊆ store'.dates i) :
    (Search.explore net.admits store.candidates.toList #[]).Le
      (Search.explore net'.admits store'.candidates.toList #[]) := by
  have hsize : store.size = store'.size := by
    rw [h.size_store, h'.size_store]
  rw [← h.network_eq h']
  have hlength : ([] : List Date).length + store'.candidates.toList.length ≤ m.eventCount := by
    rw [h'.length_candidates, List.length_nil, Nat.zero_add]
  refine Search.explore_le h.files (Store.thins_candidates hsize hsubset) hlength
    (consistent_empty m.constraints) ?_
  -- A consistent tuple of the larger search is a solution and so survives.
  intro t ht hconsistent
  exact (h.mem_tuples_iff.2 (h'.mem_tuples_iff.1 ⟨ht, hconsistent⟩)).1

end Course

/-! ## Two runs on the same model -/

/-- A right answer is determined by the model. -/
theorem Decides.eq {r r' : Result} (h : Decides m r) (h' : Decides m r') :
    r.status = r'.status ∧ r.assignment = r'.assignment := by
  have hassignment : r.assignment = r'.assignment := by
    apply Option.ext
    intro a
    rw [h.assignment_eq_some_iff, h'.assignment_eq_some_iff]
  refine ⟨?_, hassignment⟩
  rw [h.status_eq, h'.status_eq, hassignment]

/-- The search after more passes costs no more than the search after fewer. -/
theorem Course.tally_le (h : Course m more net store stats)
    (h' : Course m fewer net' store' stats')
    (hnode : fewer.nodeConsistency = true → more.nodeConsistency = true)
    (harc : fewer.arcConsistency = true → more.arcConsistency = true) :
    (tally net store).nodes ≤ (tally net' store').nodes ∧
      (tally net store).backtracks ≤ (tally net' store').backtracks := by
  have hsubset : ∀ i, store.dates i ⊆ store'.dates i := by
    rcases h.pruned with ⟨bounded, hpruned⟩
    rcases h'.pruned with ⟨bounded', hpruned'⟩
    exact hpruned.dates_subset hpruned' hnode harc
  unfold tally
  cases hempty : store.hasEmptyDomain with
  | true => exact ⟨Nat.zero_le _, Nat.zero_le _⟩
  | false =>
      have hempty' : ¬ store'.hasEmptyDomain = true := by
        intro hemptied
        rw [h.hasEmptyDomain_of_subset h' hsubset hemptied] at hempty
        cases hempty
      rw [if_neg hempty']
      have hle := h.explore_le h' hsubset
      exact ⟨hle.nodes_le, hle.backtracks_le⟩

/-- The first of two runs on a model makes every pass that the second makes, and
neither has limits. -/
theorem exists_effort_le (hvalid : m.validate = .ok ()) {nodeMore arcMore nodeFewer arcFewer : Bool}
    (hnode : nodeFewer = true → nodeMore = true) (harc : arcFewer = true → arcMore = true)
    (late : Nat → Bool) :
    ∃ r r', (run m ⟨nodeMore, arcMore, 0, 0⟩ ⟨fun _ => false, late⟩).result = .ok r ∧
      (run m ⟨nodeFewer, arcFewer, 0, 0⟩ ⟨fun _ => false, late⟩).result = .ok r' ∧
      Decides m r ∧ Decides m r' ∧
      r.stats.nodes ≤ r'.stats.nodes ∧ r.stats.backtracks ≤ r'.stats.backtracks := by
  rcases exists_course hvalid ⟨nodeMore, arcMore, 0, 0⟩ with ⟨net, store, stats, hmore⟩
  rcases exists_course hvalid ⟨nodeFewer, arcFewer, 0, 0⟩ with ⟨net', store', stats', hfewer⟩
  obtain ⟨r, hrun, hdecides, -, hnodes, hbacktracks⟩ :=
    hmore.exists_run ⟨fun _ => false, late⟩ (verdict_unlimited nodeMore arcMore late)
  obtain ⟨r', hrun', hdecides', -, hnodes', hbacktracks'⟩ :=
    hfewer.exists_run ⟨fun _ => false, late⟩ (verdict_unlimited nodeFewer arcFewer late)
  refine ⟨r, r', hrun, hrun', hdecides, hdecides', ?_⟩
  rw [hnodes, hnodes', hbacktracks, hbacktracks']
  exact hmore.tally_le hfewer hnode harc

/-- A budget under which the run with fewer passes gives an answer is enough for the
run with more passes, which gives the same. -/
theorem exists_answer_le (hvalid : m.validate = .ok ()) {nodeMore arcMore nodeFewer arcFewer : Bool}
    (hnode : nodeFewer = true → nodeMore = true) (harc : arcFewer = true → arcMore = true)
    (maxNodes : Nat) (late : Nat → Bool) :
    ∃ r r', (run m ⟨nodeMore, arcMore, maxNodes, 0⟩ ⟨fun _ => false, late⟩).result = .ok r ∧
      (run m ⟨nodeFewer, arcFewer, maxNodes, 0⟩ ⟨fun _ => false, late⟩).result = .ok r' ∧
      (r'.status = .feasible ∨ r'.status = .infeasible →
        r.status = r'.status ∧ r.assignment = r'.assignment) := by
  rcases exists_interrupted hvalid ⟨nodeMore, arcMore, maxNodes, 0⟩ ⟨fun _ => false, late⟩ with
      ⟨unlimited, r, hunlimited, hrun, hdecides, hinterrupts⟩
  rcases exists_interrupted hvalid ⟨nodeFewer, arcFewer, maxNodes, 0⟩ ⟨fun _ => false, late⟩ with
      ⟨unlimited', r', hunlimited', hrun', hdecides', hinterrupts'⟩
  have hnodes : unlimited.stats.nodes ≤ unlimited'.stats.nodes := by
    rcases exists_effort_le hvalid hnode harc fun _ => false with
        ⟨u, u', hu, hu', -, -, hle, -⟩
    cases hunlimited.symm.trans hu
    cases hunlimited'.symm.trans hu'
    exact hle
  refine ⟨r, r', hrun, hrun', ?_⟩
  intro hanswer
  rcases hinterrupts'.eq_of_answer hanswer with ⟨rfl, hquiet⟩
  -- The limits are the same in both runs, and the larger search was not stopped.
  have hsame := hinterrupts.eq_of_quiet fun t hlt => hquiet t (Nat.lt_of_lt_of_le hlt hnodes)
  rw [hsame]
  exact hdecides.eq hdecides'

/-- On every model that passes its check, a run that makes every pruning pass that
another run makes gives the same answer as that run, for at most as many nodes
and dead ends, when neither has limits.  Under a common budget of nodes it gives
the answer of that run whenever that run gives one. -/
theorem run_effort (m : Model) (hvalid : m.validate = .ok ())
    (nodeMore arcMore nodeFewer arcFewer : Bool) (hnode : nodeFewer = true → nodeMore = true)
    (harc : arcFewer = true → arcMore = true) (late : Nat → Bool) :
    (∃ r r', (run m ⟨nodeMore, arcMore, 0, 0⟩ ⟨fun _ => false, late⟩).result = .ok r ∧
      (run m ⟨nodeFewer, arcFewer, 0, 0⟩ ⟨fun _ => false, late⟩).result = .ok r' ∧
      r.status = r'.status ∧ r.assignment = r'.assignment ∧
      r.stats.nodes ≤ r'.stats.nodes ∧ r.stats.backtracks ≤ r'.stats.backtracks) ∧
    ∀ maxNodes, ∃ r r',
      (run m ⟨nodeMore, arcMore, maxNodes, 0⟩ ⟨fun _ => false, late⟩).result = .ok r ∧
      (run m ⟨nodeFewer, arcFewer, maxNodes, 0⟩ ⟨fun _ => false, late⟩).result = .ok r' ∧
      (r'.status = .feasible ∨ r'.status = .infeasible →
        r.status = r'.status ∧ r.assignment = r'.assignment) := by
  constructor
  · rcases exists_effort_le hvalid hnode harc late with
        ⟨r, r', hrun, hrun', hdecides, hdecides', hnodes, hbacktracks⟩
    rcases hdecides.eq hdecides' with ⟨hstatus, hassignment⟩
    exact ⟨r, r', hrun, hrun', hstatus, hassignment, hnodes, hbacktracks⟩
  · intro maxNodes
    exact exists_answer_le hvalid hnode harc maxNodes late

/-- Two events over three days, the first after the second: both passes against arc
consistency alone. -/
theorem run_effort_of_two :
    let first : Date := ⟨2024, 2, 28, by decide⟩
    let last : Date := ⟨2024, 3, 1, by decide⟩
    let m : Model := ⟨2, ⟨first, last⟩, [.binary 0 .after 1, .unary 1 .notEqual first]⟩
    m.validate = .ok () ∧ (false = true → true = true) ∧ (true = true → true = true) ∧
      ∃ r r', (run m ⟨true, true, 0, 0⟩ ⟨fun _ => false, fun _ => true⟩).result = .ok r ∧
        (run m ⟨false, true, 0, 0⟩ ⟨fun _ => false, fun _ => true⟩).result = .ok r' ∧
        r.status = .feasible ∧ r'.status = .feasible ∧ r.assignment = r'.assignment ∧
        r.stats.nodes ≤ r'.stats.nodes ∧ r.stats.backtracks ≤ r'.stats.backtracks := by
  intro first last m
  have hvalid : m.validate = .ok () := by decide
  have hnode : false = true → true = true := fun _ => rfl
  have harc : true = true → true = true := id
  have hsolution : m.isSolution #[last, ⟨2024, 2, 29, by decide⟩] = true := by decide +kernel
  rcases (run_effort m hvalid true true false true hnode harc fun _ => true).1 with
      ⟨r, r', hrun, hrun', hstatus, hassignment, hnodes, hbacktracks⟩
  obtain ⟨q, hq, hdecides⟩ := exists_decides hvalid ⟨true, true, 0, 0⟩
    ⟨fun _ => false, fun _ => true⟩ (verdict_unlimited true true fun _ => true)
  rw [hrun, Except.ok.injEq] at hq
  subst hq
  have hfeasible := hdecides.status_eq_feasible hsolution
  exact ⟨hvalid, hnode, harc, r, r', hrun, hrun', hfeasible, hstatus ▸ hfeasible, hassignment,
    hnodes, hbacktracks⟩

end Solver
end DateScheduling
