import DateScheduling.Proofs.Search.FirstTuple
import DateScheduling.Proofs.Solver.Pruning

/-!
# From the model to the search

A run on a checked model builds a network, prunes the store, and searches the
candidates that are left, unless some event has none.  The tuples of candidates
that satisfy all constraints are exactly the solutions of the model, whatever
pruning was done.

Main results:

- Theorem `Solver.exists_course`: a checked model gets as far as the search
  without a fault.
- Theorem `Solver.Course.mem_tuples_iff`: the consistent tuples of candidates are
  the solutions.
- Theorem `Solver.Course.found_eq`: the unlimited search finds the first of them.
-/

namespace DateScheduling

/-! ## Candidates -/

namespace Store

variable {s : Store}

@[simp] theorem size_candidates (s : Store) : s.candidates.size = s.size := by
  simp [candidates, size]

theorem getElem?_candidates (s : Store) (i : Nat) :
    s.candidates.toList[i]? = (s.domain? i).map Domain.days := by
  simp [candidates, domain?]

/-- The candidates of an event are in ascending order. -/
theorem ascending_candidates (s : Store) :
    ∀ candidates ∈ s.candidates.toList, candidates.Pairwise (· < ·) := by
  intro candidates hmem
  unfold Store.candidates at hmem
  rw [Array.toList_map, List.mem_map] at hmem
  rcases hmem with ⟨d, -, rfl⟩
  exact d.ascending

/-- The candidates of an event are the dates left to it. -/
theorem exists_mem_candidates_iff {i : Nat} {v : Date} :
    (∃ candidates, s.candidates.toList[i]? = some candidates ∧ v ∈ candidates) ↔
      v ∈ s.dates i := by
  rw [getElem?_candidates, mem_dates_iff]
  simp [Domain.mem_iff]

theorem mem_candidates_iff {i : Nat} {candidates : List Date}
    (h : s.candidates.toList[i]? = some candidates) {v : Date} :
    v ∈ candidates ↔ v ∈ s.dates i := by
  rw [← exists_mem_candidates_iff, h]
  simp

/-- A tuple of candidates has one of the dates left to each event. -/
theorem mem_tuples_candidates_iff {t : List Date} :
    t ∈ Search.tuples s.candidates.toList ↔
      t.length = s.size ∧ ∀ (i : Nat) v, t[i]? = some v → v ∈ s.dates i := by
  have hlength : s.candidates.toList.length = s.size := size_candidates s
  rw [Search.mem_tuples_iff, hlength]
  simp only [exists_mem_candidates_iff]

/-- Every event of a store without empty domains has candidates. -/
theorem ne_nil_of_mem_candidates (s : Store) (h : s.hasEmptyDomain = false) :
    ∀ candidates ∈ s.candidates.toList, candidates ≠ [] := by
  intro candidates hmem
  unfold Store.candidates at hmem
  rw [Array.toList_map, List.mem_map] at hmem
  rcases hmem with ⟨d, hd, rfl⟩
  unfold hasEmptyDomain at h
  rw [Array.any_eq_false'] at h
  have hempty := h d (Array.mem_toList_iff.1 hd)
  unfold Domain.isEmpty at hempty
  rw [List.isEmpty_iff] at hempty
  exact hempty

/-- Some domain is empty exactly when some event has no date left. -/
theorem hasEmptyDomain_iff : s.hasEmptyDomain = true ↔ ∃ i, i < s.size ∧ s.dates i = ∅ := by
  have hempty : ∀ i d, s.domain? i = some d → (d.isEmpty = true ↔ s.dates i = ∅) := by
    intro i d hd
    unfold Domain.isEmpty
    rw [List.isEmpty_iff, List.eq_nil_iff_forall_not_mem, Set.eq_empty_iff_forall_notMem]
    simp only [mem_dates_of_domain? hd, Domain.mem_iff]
  unfold hasEmptyDomain
  rw [Array.any_eq_true]
  constructor
  · intro hexists
    rcases hexists with ⟨i, hi, h⟩
    exact ⟨i, hi, (hempty i _ (Array.getElem?_eq_getElem hi)).1 h⟩
  · intro hexists
    rcases hexists with ⟨i, hi, h⟩
    exact ⟨i, hi, (hempty i _ (Array.getElem?_eq_getElem hi)).2 h⟩

end Store

namespace Solver

variable {m : Model} {config : Config} {readings : Readings} {net : Network} {store : Store}
  {stats : Stats}

/-! ## The way of a model through a run -/

/-- How far a checked model gets without a search: it has a network, pruning
leaves a store, and the run goes on with the candidates of the store unless an
event has none. -/
structure Course (m : Model) (config : Config) (net : Network) (store : Store)
    (stats : Stats) : Prop where
  maxIndex_lt : ∀ c ∈ m.constraints, c.maxIndex < m.eventCount
  build?_eq : Network.build? m.eventCount m.constraints = some net
  files : net.Files m.eventCount m.constraints
  pruned : ∃ bounded, Pruned m config bounded store stats
  nodes_eq : stats.nodes = 0
  backtracks_eq : stats.backtracks = 0
  propagate_eq : (propagate m config).result = .ok (.ok store)
  prepare_eq : (prepare m config).result =
    .ok (if store.hasEmptyDomain then .decided ⟨.infeasible, none, stats⟩
      else .pending net store.candidates stats)

/-- A model whose network can be built has that network. -/
theorem network_of_build? (h : Network.build? m.eventCount m.constraints = some net) :
    network m = .ok net := by
  unfold network
  rw [h]

/-- Pruning a checked model only leaves the store that pruning leaves. -/
theorem result_propagate (hvalid : m.validate = .ok ())
    (hbuild : Network.build? m.eventCount m.constraints = some net)
    (hprune : (prune m net config).result = .ok (store, stats)) :
    (propagate m config).result = .ok (.ok store) := by
  unfold propagate
  simp only [hvalid, network_of_build? hbuild]
  rw [Traced.result_bind_ok rfl, Traced.result_bind_ok hprune]
  rfl

/-- A checked model is decided before the search when pruning leaves an event without
dates. -/
theorem result_prepare (hvalid : m.validate = .ok ())
    (hbuild : Network.build? m.eventCount m.constraints = some net)
    (hprune : (prune m net config).result = .ok (store, stats)) :
    (prepare m config).result =
      .ok (if store.hasEmptyDomain then .decided ⟨.infeasible, none, stats⟩
        else .pending net store.candidates stats) := by
  unfold prepare
  simp only [hvalid, network_of_build? hbuild]
  rw [Traced.result_bind_ok rfl, Traced.result_bind_ok hprune]
  cases hempty : store.hasEmptyDomain with
  | false => rfl
  | true => rfl

/-- A checked model gets as far as the search without a fault. -/
theorem exists_course (hvalid : m.validate = .ok ()) (config : Config) :
    ∃ net store stats, Course m config net store stats := by
  rcases Model.validate_eq_ok_iff.1 hvalid with ⟨-, hcs⟩
  rcases Network.exists_build? hcs with ⟨net, hbuild, hnet⟩
  rcases exists_prune hnet hcs config with
      ⟨bounded, store, stats, hprune, hpruned, hnodes, hbacktracks⟩
  exact ⟨net, store, stats, hcs, hbuild, hnet, ⟨bounded, hpruned⟩, hnodes, hbacktracks,
    result_propagate hvalid hbuild hprune, result_prepare hvalid hbuild hprune⟩

namespace Course

/-- When pruning has left an event without dates, the run is over. -/
theorem result_run_of_emptied (h : Course m config net store stats)
    (hempty : store.hasEmptyDomain = true) (readings : Readings) :
    (run m config readings).result = .ok ⟨.infeasible, none, stats⟩ := by
  have hprepare := h.prepare_eq
  rw [if_pos hempty] at hprepare
  unfold run
  rw [Traced.result_bind_ok hprepare]
  rfl

/-- Otherwise the run ends with what the search reports. -/
theorem result_run_of_search (h : Course m config net store stats) (readings : Readings)
    (hempty : store.hasEmptyDomain = false) {report : Search.Report}
    (hsearch : (search net store.candidates (config.limits readings)).result = .ok report) :
    (run m config readings).result =
      .ok ⟨status report.outcome, assignment? report.outcome,
        { stats with nodes := report.nodes, backtracks := report.backtracks }⟩ := by
  have hprepare := h.prepare_eq
  rw [hempty] at hprepare
  unfold run
  rw [Traced.result_bind_ok hprepare]
  simp only [Bool.false_eq_true, if_false]
  rw [Traced.result_bind_ok hsearch]
  rfl

theorem size_store (h : Course m config net store stats) : store.size = m.eventCount := by
  rcases h.pruned with ⟨bounded, hpruned⟩
  exact hpruned.size_eq

theorem length_candidates (h : Course m config net store stats) :
    store.candidates.toList.length = m.eventCount := by
  rw [Array.length_toList, Store.size_candidates, h.size_store]

/-- The unlimited search of the candidates reports an exploration. -/
theorem result_search (h : Course m config net store stats) :
    (search net store.candidates .none).result =
      .ok (Search.explore net.admits store.candidates.toList #[]).report := by
  apply Search.result_search h.files
  rw [Store.size_candidates, h.size_store]

/-- The consistent tuples of candidates are the solutions of the model. -/
theorem mem_tuples_iff (h : Course m config net store stats) {t : List Date} :
    t ∈ Search.tuples store.candidates.toList ∧ consistent m.constraints t.toArray = true ↔
      m.isSolution t.toArray = true := by
  rcases h.pruned with ⟨bounded, hpruned⟩
  rw [Store.mem_tuples_candidates_iff, hpruned.isSolution_iff h.maxIndex_lt, h.size_store,
    and_assoc]
  simp only [List.size_toArray, List.getElem?_toArray]

/-- The unlimited search finds the first solution among the tuples of candidates. -/
theorem found_eq (h : Course m config net store stats) :
    (Search.explore net.admits store.candidates.toList #[]).found =
      ((Search.tuples store.candidates.toList).find? fun t =>
        consistent m.constraints t.toArray).map List.toArray := by
  have hsize : ([] : List Date).length + store.candidates.toList.length ≤ m.eventCount := by
    rw [h.length_candidates, List.length_nil, Nat.zero_add]
  have hfound := Search.found_explore h.files store.candidates.toList [] hsize
    (consistent_empty m.constraints)
  simpa using hfound

/-- A model has no solution when pruning has left an event without dates. -/
theorem isSolution_eq_false_of_emptied (h : Course m config net store stats)
    (hempty : store.hasEmptyDomain = true) (a : Array Date) : m.isSolution a = false := by
  rcases Store.hasEmptyDomain_iff.1 hempty with ⟨i, hi, hnone⟩
  rcases h.pruned with ⟨bounded, hpruned⟩
  rw [← Bool.not_eq_true]
  intro hsolution
  have hsize := (Model.isSolution_iff.1 hsolution).1
  rw [h.size_store, ← hsize] at hi
  have hmem := hpruned.mem_dates_of_isSolution h.maxIndex_lt hsolution
    (Array.getElem?_eq_getElem hi)
  rw [hnone] at hmem
  exact hmem

end Course
end Solver
end DateScheduling
