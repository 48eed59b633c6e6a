import DateScheduling.Proofs.Network.Relations
import DateScheduling.Proofs.Solver.Interruption

/-!
# Runs on models that state the same relations

The order of the constraints decides in which order bounds are applied, arcs are
revised and constraints are checked, and repeated or mirrored constraints make
the lists that are gone through longer.  None of this shows in a result: the
first pass leaves the dates within all bounds, the second leaves the greatest
arc-consistent store whatever it revises first, each pass counts what the store
has lost, and a date is admitted when all constraints hold.  Only the number of
revisions depends on how the relations are written down.

Main results:

- Theorem `Solver.Pruned.eq_of_alike`: pruning leaves the same store and counts the
  same dates.
- Theorem `Search.search_congr`: a search under any limits makes the same steps.
- Theorem `Solver.run_alike`: runs on such models end in the same way.
-/

namespace DateScheduling

/-- Two models ask for the same: they have as many events, the same range and
constraints that state the same relations. -/
structure Model.Alike (m m' : Model) : Prop where
  eventCount_eq : m.eventCount = m'.eventCount
  range_eq : m.range = m'.range
  relations_eq : relations m.constraints = relations m'.constraints

/-- Such models pass the check together. -/
theorem Model.Alike.validate_iff {m m' : Model} (h : m.Alike m') :
    m.validate = .ok () ↔ m'.validate = .ok () := by
  rw [validate_eq_ok_iff, validate_eq_ok_iff, h.range_eq, h.eventCount_eq,
    maxIndex_lt_congr h.relations_eq]

variable {cs cs' : List Constraint}

/-! ## Pruning -/

theorem arcConsistent_congr (h : relations cs = relations cs') {D : Nat → Set Date} :
    ArcConsistent cs D ↔ ArcConsistent cs' D := by
  simp only [arcConsistent_iff, Supported, joined_congr h, compatible_congr h]

/-- The greatest arc-consistent store depends on the relations only. -/
theorem GreatestConsistent.eq_of_relations (hrel : relations cs = relations cs') {s t t' : Store}
    (h : GreatestConsistent cs s t) (h' : GreatestConsistent cs' s t') : t = t' := by
  apply Store.ext_of_dates (h.size_eq.trans h'.size_eq.symm)
  intro i
  apply Set.Subset.antisymm
  · exact h'.greatest t.dates h.subset ((arcConsistent_congr hrel).1 h.consistent) i
  · exact h.greatest t'.dates h'.subset ((arcConsistent_congr hrel).2 h'.consistent) i

namespace Solver

variable {m m' : Model} {config : Config} {bounded bounded' store store' : Store}
  {stats stats' : Stats} {net net' : Network}

/-- The first pass leaves the same store. -/
theorem Pruned.bounded_eq_of_alike (halike : m.Alike m')
    (h : Pruned m config bounded store stats) (h' : Pruned m' config bounded' store' stats') :
    bounded = bounded' := by
  apply Store.ext_of_dates
  · rw [h.size_bounded, h'.size_bounded, halike.eventCount_eq]
  · intro i
    ext v
    rw [h.mem_bounded_iff, h'.mem_bounded_iff, halike.eventCount_eq, halike.range_eq,
      meetsBounds_congr halike.relations_eq]

/-- Both passes leave the same store and count the same dates. -/
theorem Pruned.eq_of_alike (halike : m.Alike m')
    (h : Pruned m config bounded store stats) (h' : Pruned m' config bounded' store' stats') :
    store = store' ∧ stats.nodePruned = stats'.nodePruned ∧
      stats.arcPruned = stats'.arcPruned := by
  have hbounded := h.bounded_eq_of_alike halike h'
  subst hbounded
  have hstore : store = store' := by
    cases harc : config.arcConsistency with
    | false => rw [h.eq_bounded harc, h'.eq_bounded harc]
    | true => exact (h.greatest harc).eq_of_relations halike.relations_eq (h'.greatest harc)
  subst hstore
  have hnode := h.nodePruned_eq
  have hnode' := h'.nodePruned_eq
  rw [← halike.eventCount_eq, ← halike.range_eq] at hnode'
  have harc := h.arcPruned_eq
  have harc' := h'.arcPruned_eq
  refine ⟨rfl, ?_, ?_⟩
  · omega
  · omega

end Solver

/-! ## Search -/

namespace Search

variable {n : Nat} {net net' : Network}

/-- A candidate is admitted by both networks or by neither. -/
theorem tryDate_congr (hrel : relations cs = relations cs') (hnet : net.Files n cs)
    (hnet' : net'.Files n cs') (domains : Array (List Date)) (day : Date) (untried : List Date)
    (s : State) : tryDate net domains day untried s = tryDate net' domains day untried s := by
  rcases s with ⟨a, current, earlier, nodes, backtracks, log⟩
  have hchecks := Network.Files.completed_all_congr hrel hnet hnet' a.size (a.push day)
  cases hcompleted : net.completedAt? a.size with
  | none =>
      rw [hcompleted, Option.map_none, eq_comm, Option.map_eq_none_iff] at hchecks
      simp only [tryDate, hcompleted, hchecks]
  | some constraints =>
      rw [hcompleted, Option.map_some, eq_comm, Option.map_eq_some_iff] at hchecks
      rcases hchecks with ⟨constraints', hcompleted', hall⟩
      simp only [tryDate, hcompleted, hcompleted', hall]

/-- A search under any limits makes the same steps on both networks. -/
theorem run_congr (hrel : relations cs = relations cs') (hnet : net.Files n cs)
    (hnet' : net'.Files n cs') (domains : Array (List Date)) (limits : Limits) (s : State) :
    run net domains limits s = run net' domains limits s := by
  have hstep : ∀ verdict s, step net domains verdict s = step net' domains verdict s := by
    intro verdict s
    unfold step
    simp only [tryDate_congr hrel hnet hnet']
  fun_induction run net domains limits s with
  | case1 s outcome final hended =>
      rw [hstep] at hended
      rw [run_eq, hended]
  | case2 s fault final hfaulty =>
      rw [hstep] at hfaulty
      rw [run_eq, hfaulty]
  | case3 s s' hnext ih =>
      rw [hstep] at hnext
      rw [run_eq net', hnext]
      exact ih

theorem search_congr (hrel : relations cs = relations cs') (hnet : net.Files n cs)
    (hnet' : net'.Files n cs') (domains : Array (List Date)) (limits : Limits) :
    search net domains limits = search net' domains limits := by
  unfold search
  rw [run_congr hrel hnet hnet']

end Search

/-! ## Whole runs -/

namespace Solver

variable {m m' : Model} {config : Config} {store store' : Store} {stats stats' : Stats}
  {net net' : Network}

/-- The results agree in everything but the number of revisions. -/
structure Agrees (r r' : Result) : Prop where
  status_eq : r.status = r'.status
  assignment_eq : r.assignment = r'.assignment
  nodePruned_eq : r.stats.nodePruned = r'.stats.nodePruned
  arcPruned_eq : r.stats.arcPruned = r'.stats.arcPruned
  nodes_eq : r.stats.nodes = r'.stats.nodes
  backtracks_eq : r.stats.backtracks = r'.stats.backtracks

theorem Agrees.refl (r : Result) : Agrees r r :=
  ⟨rfl, rfl, rfl, rfl, rfl, rfl⟩

/-- A run on a model that fails its check says so and nothing else. -/
theorem result_run_of_invalid {e : ModelError} (h : m.validate = .error e) (config : Config)
    (readings : Readings) : (run m config readings).result = .ok (.empty .modelInvalid) := by
  have hprepare : (prepare m config).result = .ok (.decided (.empty .modelInvalid)) := by
    unfold prepare
    rw [h]
    rfl
  unfold run
  rw [Traced.result_bind_ok hprepare]
  rfl

/-- Runs on models that pass the check and ask for the same end in the same way. -/
theorem Course.exists_agrees (halike : m.Alike m') (h : Course m config net store stats)
    (h' : Course m' config net' store' stats') (readings : Readings) :
    store = store' ∧ ∃ r r', (run m config readings).result = .ok r ∧
      (run m' config readings).result = .ok r' ∧ Agrees r r' := by
  have hpruned : store = store' ∧ stats.nodePruned = stats'.nodePruned ∧
      stats.arcPruned = stats'.arcPruned := by
    rcases h.pruned with ⟨bounded, hleft⟩
    rcases h'.pruned with ⟨bounded', hleft'⟩
    exact hleft.eq_of_alike halike hleft'
  rcases hpruned with ⟨rfl, hnode, harc⟩
  refine ⟨rfl, ?_⟩
  cases hempty : store.hasEmptyDomain with
  | true =>
      have hnodes : stats.nodes = stats'.nodes := h.nodes_eq.trans h'.nodes_eq.symm
      have hbacktracks : stats.backtracks = stats'.backtracks :=
        h.backtracks_eq.trans h'.backtracks_eq.symm
      exact ⟨_, _, h.result_run_of_emptied hempty readings,
        h'.result_run_of_emptied hempty readings, rfl, rfl, hnode, harc, hnodes, hbacktracks⟩
  | false =>
      rcases Search.exists_report h.result_search (config.limits readings) with ⟨report, hreport⟩
      have hfiles' := h'.files
      rw [← halike.eventCount_eq] at hfiles'
      have hreport' := hreport
      rw [Search.search_congr halike.relations_eq h.files hfiles'] at hreport'
      exact ⟨_, _, h.result_run_of_search readings hempty hreport,
        h'.result_run_of_search readings hempty hreport', rfl, rfl, hnode, harc, rfl, rfl⟩

/-- On every two models that ask for the same, and under every configuration, the
runs agree in everything but the number of revisions, whatever the cancel signal
and the clock say at each count of nodes.  If one of the models passes the check,
so does the other, and pruning leaves the same store of both. -/
theorem run_alike (m m' : Model) (halike : m.Alike m') (config : Config) (readings : Readings) :
    (∃ r r', (run m config readings).result = .ok r ∧
      (run m' config readings).result = .ok r' ∧ Agrees r r') ∧
    (m.validate = .ok () ↔ m'.validate = .ok ()) ∧
    (m.validate = .ok () → ∃ store, (propagate m config).result = .ok (.ok store) ∧
      (propagate m' config).result = .ok (.ok store)) := by
  have hvalidate := halike.validate_iff
  cases hvalid : m.validate with
  | ok =>
      have hvalid' := hvalidate.1 hvalid
      rcases exists_course hvalid config with ⟨net, store, stats, h⟩
      rcases exists_course hvalid' config with ⟨net', store', stats', h'⟩
      rcases h.exists_agrees halike h' readings with ⟨rfl, hagrees⟩
      refine ⟨hagrees, by simp [hvalid'], ?_⟩
      intro _
      exact ⟨store, h.propagate_eq, h'.propagate_eq⟩
  | error e =>
      cases hvalid' : m'.validate with
      | ok =>
          rw [hvalidate.2 hvalid'] at hvalid
          cases hvalid
      | error e' =>
          refine ⟨⟨_, _, result_run_of_invalid hvalid config readings,
            result_run_of_invalid hvalid' config readings, .refl _⟩, by simp, ?_⟩
          intro hok
          cases hok

/-- Three events over two days, written down in two ways: in another order, with a
constraint repeated, and with both constraints between events mirrored. -/
theorem run_alike_of_three :
    let first : Date := ⟨2024, 2, 28, by decide⟩
    let last : Date := ⟨2024, 2, 29, by decide⟩
    let m : Model := ⟨3, ⟨first, last⟩,
      [.binary 0 .before 1, .binary 1 .notEqual 2, .unary 2 .notEqual last]⟩
    let m' : Model := ⟨3, ⟨first, last⟩,
      [.binary 2 .notEqual 1, .unary 2 .notEqual last, .binary 1 .after 0, .binary 0 .before 1]⟩
    m.Alike m' ∧ m.validate = .ok () ∧
      (∃ r r', (run m { maxNodes := 2 } .quiet).result = .ok r ∧
        (run m' { maxNodes := 2 } .quiet).result = .ok r' ∧ Agrees r r') ∧
      ∃ store, (propagate m { maxNodes := 2 }).result = .ok (.ok store) ∧
        (propagate m' { maxNodes := 2 }).result = .ok (.ok store) := by
  intro first last m m'
  have halike : m.Alike m' := ⟨rfl, rfl, relations_eq_iff.2 (by decide)⟩
  have hvalid : m.validate = .ok () := by decide
  rcases run_alike m m' halike { maxNodes := 2 } .quiet with ⟨hagrees, -, hpropagate⟩
  exact ⟨halike, hvalid, hagrees, hpropagate hvalid⟩

end Solver
end DateScheduling
