import DateScheduling.Proofs.Solver.LeastSolution

/-!
# Runs under limits

A run under limits either ends as the unlimited run does, or it is stopped by
the first check that does not let it pass and then brings no dates.  Whatever
the limits are, it never gives a wrong answer.

Main results:

- Theorem `Solver.exists_interrupted`: a run under limits against the unlimited
  run.
- Theorem `Solver.interruption_law`: which checks a search makes, and how it and
  the run around it end when one of them stops it.
-/

namespace DateScheduling

/-- Below a bound no check stops a search, or there is a first one that does. -/
theorem Limits.quiet_or_first_stop (limits : Limits) (bound : Nat) :
    (∀ t, t < bound → limits.verdict t = Option.none) ∨
      ∃ t stop, t < bound ∧ (∀ u, u < t → limits.verdict u = Option.none) ∧
        limits.verdict t = some stop := by
  induction bound with
  | zero =>
      left
      intro t ht
      cases ht
  | succ bound ih =>
      rcases ih with hquiet | ⟨t, stop, hlt, hquiet, hstop⟩
      · cases hverdict : limits.verdict bound with
        | none =>
            left
            intro t ht
            rcases Nat.lt_succ_iff_lt_or_eq.1 ht with hlt | rfl
            · exact hquiet t hlt
            · exact hverdict
        | some stop => exact Or.inr ⟨bound, stop, Nat.lt_succ_self bound, hquiet, hverdict⟩
      · exact Or.inr ⟨t, stop, Nat.lt_succ_of_lt hlt, hquiet, hstop⟩

/-- A budget alone stops a search when it is used up and not before. -/
theorem Limits.verdict_budget (maxNodes : Nat) (late : Nat → Bool) (t : Nat) :
    verdict ⟨maxNodes, false, ⟨fun _ => false, late⟩⟩ t =
      if 0 < maxNodes ∧ maxNodes ≤ t then some .nodeLimit else Option.none := by
  simp [verdict]

namespace Search

/-- An exploration is never stopped. -/
theorem Tally.outcome_report_ne_stopped (t : Tally) (stop : Stop) :
    t.report.outcome ≠ .stopped stop := by
  unfold report
  cases t.found with
  | none => exact Outcome.noConfusion
  | some a => exact Outcome.noConfusion

variable {net : Network} {domains : Array (List Date)} {unlimited : Report}

/-- A search that ends without limits ends under any limits, in the same way or
because it was stopped. -/
theorem exists_report_cases (h : (search net domains .none).result = .ok unlimited)
    (limits : Limits) : ∃ r, (search net domains limits).result = .ok r ∧
      (r = unlimited ∨ ∃ stop, r.outcome = .stopped stop) := by
  rcases limits.quiet_or_first_stop unlimited.nodes with hquiet | ⟨t, stop, hlt, hquiet, hstop⟩
  · exact ⟨unlimited, result_search_of_quiet h hquiet, Or.inl rfl⟩
  · rcases result_search_of_stop h hlt hquiet hstop with ⟨backtracks, hsearch, -⟩
    exact ⟨_, hsearch, Or.inr ⟨stop, rfl⟩⟩

theorem exists_report (h : (search net domains .none).result = .ok unlimited) (limits : Limits) :
    ∃ r, (search net domains limits).result = .ok r := by
  rcases exists_report_cases h limits with ⟨r, hr, -⟩
  exact ⟨r, hr⟩

/-- With nothing but a budget, a search ends undisturbed if the budget is enough,
and is stopped at the budget otherwise. -/
theorem result_search_of_budget (h : (search net domains .none).result = .ok unlimited)
    {maxNodes : Nat} (hpos : 0 < maxNodes) (late : Nat → Bool) :
    (unlimited.nodes ≤ maxNodes →
      (search net domains ⟨maxNodes, false, ⟨fun _ => false, late⟩⟩).result = .ok unlimited) ∧
    (maxNodes < unlimited.nodes → ∃ backtracks,
      (search net domains ⟨maxNodes, false, ⟨fun _ => false, late⟩⟩).result =
        .ok ⟨.stopped .nodeLimit, maxNodes, backtracks⟩ ∧ backtracks ≤ unlimited.backtracks) := by
  have hbelow : ∀ t, t < maxNodes →
      Limits.verdict ⟨maxNodes, false, ⟨fun _ => false, late⟩⟩ t = none := by
    intro t ht
    rw [Limits.verdict_budget, if_neg (by omega)]
  constructor
  · intro henough
    apply result_search_of_quiet h
    intro t ht
    exact hbelow t (by omega)
  · intro hless
    apply result_search_of_stop h hless hbelow
    rw [Limits.verdict_budget, if_pos ⟨hpos, Nat.le_refl _⟩]

end Search

namespace Solver

variable {m : Model} {config : Config} {net : Network} {store : Store} {stats : Stats}

/-- Pruning does not depend on the limits of a run. -/
theorem Course.unlimited (h : Course m config net store stats) :
    Course m ((config.withMaxNodes 0).withTimeLimitMs 0) net store stats := by
  rcases h.pruned with ⟨bounded, hpruned⟩
  exact ⟨h.maxIndex_lt, h.build?_eq, h.files, ⟨bounded, hpruned.size_bounded,
    hpruned.mem_bounded_iff, hpruned.eq_bounded, hpruned.greatest, hpruned.nodePruned_eq,
    hpruned.arcPruned_eq⟩, h.nodes_eq, h.backtracks_eq, h.propagate_eq, h.prepare_eq⟩

/-- Whether or not a search follows, the result has the counters of pruning. -/
theorem Course.exists_run_stats (h : Course m config net store stats) (readings : Readings) :
    ∃ r, (run m config readings).result = .ok r ∧ r.stats.nodePruned = stats.nodePruned ∧
      r.stats.arcPruned = stats.arcPruned ∧ r.stats.arcRevisions = stats.arcRevisions := by
  cases hempty : store.hasEmptyDomain with
  | true => exact ⟨_, h.result_run_of_emptied hempty readings, rfl, rfl, rfl⟩
  | false =>
      rcases Search.exists_report h.result_search (config.limits readings) with ⟨report, hreport⟩
      exact ⟨_, h.result_run_of_search readings hempty hreport, rfl, rfl, rfl⟩

/-- How a run under limits ends, when the unlimited run ends as given. -/
inductive Interrupts (limits : Limits) (unlimited : Result) : Result → Prop where
  /-- No check stops the run, and it ends in the same way. -/
  | undisturbed (hquiet : ∀ t, t < unlimited.stats.nodes → limits.verdict t = none) :
      Interrupts limits unlimited unlimited
  /-- The check at the count `t` is the first that stops the run. -/
  | stopped {t : Nat} {stop : Stop} {r : Result} (hlt : t < unlimited.stats.nodes)
      (hquiet : ∀ u, u < t → limits.verdict u = none) (hstop : limits.verdict t = some stop)
      (hstatus : r.status = .ofStop stop) (hassignment : r.assignment = none)
      (hnodes : r.stats.nodes = t) (hbacktracks : r.stats.backtracks ≤ unlimited.stats.backtracks) :
      Interrupts limits unlimited r

/-- A run under limits on a checked model against the unlimited run, which gives
the right answer. -/
theorem exists_interrupted (hvalid : m.validate = .ok ()) (config : Config)
    (readings : Readings) :
    ∃ unlimited r,
      (run m ((config.withMaxNodes 0).withTimeLimitMs 0) .quiet).result = .ok unlimited ∧
      (run m config readings).result = .ok r ∧ Decides m unlimited ∧
      Interrupts (config.limits readings) unlimited r := by
  rcases exists_course hvalid config with ⟨net, store, stats, hcourse⟩
  have hfree := hcourse.unlimited
  have hverdict := verdict_unlimited config.nodeConsistency config.arcConsistency fun _ => false
  cases hempty : store.hasEmptyDomain with
  | true =>
      refine ⟨_, _, hfree.result_run_of_emptied hempty .quiet,
        hcourse.result_run_of_emptied hempty readings,
        .infeasible (hcourse.isSolution_eq_false_of_emptied hempty) rfl rfl, .undisturbed ?_⟩
      intro t hlt
      rw [hcourse.nodes_eq] at hlt
      cases hlt
  | false =>
      have hsearch := hcourse.result_search
      have hquiet := Search.result_search_of_quiet hsearch fun t _ => hverdict t
      have hunlimited := hfree.result_run_of_search .quiet hempty hquiet
      have hdecides := hcourse.settles_outcome.decides
      rcases (config.limits readings).quiet_or_first_stop
          (Search.explore net.admits store.candidates.toList #[]).report.nodes with
        hnone | ⟨t, stop, hlt, hbefore, hstop⟩
      · have hlimited := Search.result_search_of_quiet hsearch hnone
        exact ⟨_, _, hunlimited, hcourse.result_run_of_search readings hempty hlimited, hdecides _,
          .undisturbed hnone⟩
      · rcases Search.result_search_of_stop hsearch hlt hbefore hstop with
            ⟨backtracks, hlimited, hle⟩
        exact ⟨_, _, hunlimited, hcourse.result_run_of_search readings hempty hlimited, hdecides _,
          .stopped hlt hbefore hstop rfl rfl rfl hle⟩

/-- A run under limits never gives a wrong answer. -/
theorem Interrupts.sound {limits : Limits} {unlimited r : Result}
    (h : Interrupts limits unlimited r) (hdecides : Decides m unlimited) :
    (r.status = .feasible → ∃ a, m.IsLeastSolution a ∧ r.assignment = some a) ∧
    (r.status = .infeasible → r.assignment = none ∧ ∀ a, m.isSolution a = false) ∧
    (r.status ≠ .feasible → r.assignment = none) := by
  cases h with
  | undisturbed _ =>
      cases hdecides with
      | @feasible a hleast hstatus hassignment =>
          rw [hstatus]
          refine ⟨fun _ => ⟨a, hleast, hassignment⟩, ?_, ?_⟩
          · intro hother
            cases hother
          · intro hother
            exact absurd rfl hother
      | infeasible hnone hstatus hassignment =>
          rw [hstatus]
          refine ⟨?_, fun _ => ⟨hassignment, hnone⟩, fun _ => hassignment⟩
          intro hother
          cases hother
  | @stopped t stop r _ _ _ hstatus hassignment _ _ =>
      rw [hstatus]
      refine ⟨?_, ?_, fun _ => hassignment⟩
      · intro hother
        cases stop <;> cases hother
      · intro hother
        cases stop <;> cases hother

/-- A run that no check stops ends as without limits. -/
theorem Interrupts.eq_of_quiet {limits : Limits} {unlimited r : Result}
    (h : Interrupts limits unlimited r)
    (hquiet : ∀ t, t < unlimited.stats.nodes → limits.verdict t = none) : r = unlimited := by
  cases h with
  | undisturbed _ => rfl
  | stopped hlt _ hstop _ _ _ _ =>
      rw [hquiet _ hlt] at hstop
      cases hstop

/-- A run that gives an answer was not stopped. -/
theorem Interrupts.eq_of_answer {limits : Limits} {unlimited r : Result}
    (h : Interrupts limits unlimited r) (hanswer : r.status = .feasible ∨ r.status = .infeasible) :
    r = unlimited ∧ ∀ t, t < unlimited.stats.nodes → limits.verdict t = none := by
  cases h with
  | undisturbed hquiet => exact ⟨rfl, hquiet⟩
  | @stopped t stop r _ _ _ hstatus _ _ _ =>
      rw [hstatus] at hanswer
      cases stop <;> simp [Status.ofStop] at hanswer

/-- For all candidates and every network of at least as many events, an unlimited
search is never stopped, and its report says how the search ends under any
limits.  The limits are checked at the counts 0, 1, 2, and so on, once each, and
the first check below the number of nodes of the unlimited search that does not
let the search pass decides its outcome.  A run on a model that passes its check
is interrupted in the same way, and what it says about solutions is right. -/
theorem interruption_law :
    (∀ (n : Nat) (cs : List Constraint) (domains : Array (List Date)),
      (∀ c ∈ cs, c.maxIndex < n) → domains.size ≤ n →
      ∃ net unlimited, Network.build? n cs = some net ∧
        (search net domains .none).result = .ok unlimited ∧
        (∀ stop, unlimited.outcome ≠ .stopped stop) ∧
        (∀ limits : Limits,
          (∃ r, (search net domains limits).result = .ok r ∧
            Search.checks net domains limits = List.range r.checkCount) ∧
          ((∀ t, t < unlimited.nodes → limits.verdict t = none) →
            (search net domains limits).result = .ok unlimited) ∧
          ∀ t stop, t < unlimited.nodes → (∀ u, u < t → limits.verdict u = none) →
            limits.verdict t = some stop → ∃ backtracks,
              (search net domains limits).result = .ok ⟨.stopped stop, t, backtracks⟩ ∧
                backtracks ≤ unlimited.backtracks) ∧
        ∀ (maxNodes : Nat) (late : Nat → Bool), 0 < maxNodes →
          (unlimited.nodes ≤ maxNodes →
            (search net domains ⟨maxNodes, false, ⟨fun _ => false, late⟩⟩).result =
              .ok unlimited) ∧
          (maxNodes < unlimited.nodes → ∃ backtracks,
            (search net domains ⟨maxNodes, false, ⟨fun _ => false, late⟩⟩).result =
              .ok ⟨.stopped .nodeLimit, maxNodes, backtracks⟩ ∧
                backtracks ≤ unlimited.backtracks)) ∧
    (∀ (limits : Limits) (t : Nat), limits.verdict t =
      if limits.readings.cancelled t then some .cancelled
      else if 0 < limits.maxNodes ∧ limits.maxNodes ≤ t then some .nodeLimit
      else if limits.hasDeadline ∧ t % 256 = 0 ∧ limits.readings.late t then some .timeout
      else none) ∧
    ∀ (m : Model) (config : Config) (readings : Readings), m.validate = .ok () →
      ∃ unlimited r,
        (run m ((config.withMaxNodes 0).withTimeLimitMs 0) .quiet).result = .ok unlimited ∧
        (run m config readings).result = .ok r ∧
        Interrupts (config.limits readings) unlimited r ∧
        (r.status = .feasible → ∃ a, m.IsLeastSolution a ∧ r.assignment = some a) ∧
        (r.status = .infeasible → r.assignment = none ∧ ∀ a, m.isSolution a = false) ∧
        (r.status ≠ .feasible → r.assignment = none) := by
  refine ⟨?_, fun _ _ => rfl, ?_⟩
  · intro n cs domains hcs hsize
    rcases Network.exists_build? hcs with ⟨net, hbuild, hnet⟩
    have hsearch := Search.result_search hnet hsize
    refine ⟨net, _, hbuild, hsearch, Search.Tally.outcome_report_ne_stopped _, ?_, ?_⟩
    · intro limits
      rcases Search.exists_report hsearch limits with ⟨r, hr⟩
      exact ⟨⟨r, hr, Search.checks_eq_range hr⟩, Search.result_search_of_quiet hsearch,
        fun _ _ => Search.result_search_of_stop hsearch⟩
    · intro maxNodes late hpos
      exact Search.result_search_of_budget hsearch hpos late
  · intro m config readings hvalid
    rcases exists_interrupted hvalid config readings with
        ⟨unlimited, r, hunlimited, hrun, hdecides, hinterrupts⟩
    exact ⟨unlimited, r, hunlimited, hrun, hinterrupts, hinterrupts.sound hdecides⟩

/-- One event with one candidate: the search of it needs one node, and is stopped
by a signal raised before. -/
theorem interruption_law_of_one :
    let day : Date := ⟨2024, 2, 29, by decide⟩
    let m : Model := ⟨1, ⟨day, day⟩, []⟩
    let raised : Limits := ⟨0, false, ⟨fun _ => true, fun _ => false⟩⟩
    (∀ c ∈ m.constraints, c.maxIndex < 1) ∧ m.validate = .ok () ∧
      (∃ net unlimited, Network.build? 1 m.constraints = some net ∧
        (search net #[[day]] .none).result = .ok unlimited ∧ unlimited.nodes = 1 ∧
        ∃ backtracks, (search net #[[day]] raised).result =
          .ok ⟨.stopped .cancelled, 0, backtracks⟩) ∧
      ∃ r, (run m { maxNodes := 1 } .quiet).result = .ok r ∧
        (r.status = .feasible → ∃ a, m.IsLeastSolution a ∧ r.assignment = some a) := by
  intro day m raised
  have hcs : ∀ c ∈ m.constraints, c.maxIndex < 1 := by decide
  have hvalid : m.validate = .ok () := by decide
  rcases interruption_law with ⟨hsearch, -, hrun⟩
  rcases hsearch 1 m.constraints #[[day]] hcs (by decide) with
      ⟨net, unlimited, hbuild, hunlimited, -, hlimits, -⟩
  rcases hrun m { maxNodes := 1 } .quiet hvalid with ⟨-, r, -, hr, -, hfeasible, -⟩
  refine ⟨hcs, hvalid, ⟨net, unlimited, hbuild, hunlimited, ?_⟩, r, hr, hfeasible⟩
  have hnodes : unlimited.nodes = 1 := by
    cases hbuild
    have hsize : (#[[day]] : Array (List Date)).size ≤ 1 := by decide
    have hexplore := Search.result_search (Network.files_empty 1) hsize
    rw [hunlimited, Except.ok.injEq] at hexplore
    rw [hexplore]
    rfl
  obtain ⟨backtracks, hstopped, -⟩ := (hlimits raised).2.2 0 .cancelled (by omega)
    (fun u hu => absurd hu (Nat.not_lt_zero u)) rfl
  exact ⟨hnodes, backtracks, hstopped⟩

end Solver
end DateScheduling
