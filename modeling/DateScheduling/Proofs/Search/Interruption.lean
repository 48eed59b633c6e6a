import DateScheduling.Search.Run

/-!
# Interrupted searches

The limits of a search only ever decide whether the next candidate is tried.  A
search under limits therefore goes through the states of the unlimited search
until the first check that stops it.  Whether a candidate is tried next depends
on the state alone, and each tried candidate counts as one node, so the checks
are made at the counts 0, 1, 2, and so on, once each.

Main results:

- Theorem `Search.moves_step`: what a step does to the counters.
- Theorem `Search.follows_run`: a search under limits against the unlimited one.
- Theorem `Search.forall_mem_trail`: what holds of every state on the way.
- Theorem `Search.checks_eq_range'`: at which counts the limits are checked.
-/

namespace DateScheduling
namespace Search

variable {net : Network} {domains : Array (List Date)} {limits : Limits}
  {s s' : State}

/-! ## What a step does to the counters -/

/-- What one step does to the counters of a search. -/
inductive Moves (domains : Array (List Date)) (verdict : Option Stop) (s : State) :
    Step → Prop where
  /-- The search is decided. -/
  | decided {outcome : Outcome} {final : State} (hcheck : ¬ s.AtCheck domains)
      (houtcome : ∀ stop, outcome ≠ .stopped stop) (hnodes : final.nodes = s.nodes)
      (hbacktracks : s.backtracks ≤ final.backtracks) :
      Moves domains verdict s (.ended outcome final)
  /-- The next event had no candidates left. -/
  | retreated {s' : State} (hcheck : ¬ s.AtCheck domains) (hnodes : s'.nodes = s.nodes)
      (hbacktracks : s.backtracks ≤ s'.backtracks) : Moves domains verdict s (.next s')
  /-- The check of the limits stopped the search. -/
  | stopped {stop : Stop} {final : State} (hcheck : s.AtCheck domains)
      (hverdict : verdict = some stop) (hnodes : final.nodes = s.nodes)
      (hbacktracks : final.backtracks = s.backtracks) :
      Moves domains verdict s (.ended (.stopped stop) final)
  /-- A candidate was tried. -/
  | tried {s' : State} (hcheck : s.AtCheck domains) (hverdict : verdict = none)
      (hnodes : s'.nodes = s.nodes + 1) (hbacktracks : s'.backtracks = s.backtracks) :
      Moves domains verdict s (.next s')
  /-- A candidate was to be tried for an event the network lacks. -/
  | faulted {fault : Fault} {final : State} (hcheck : s.AtCheck domains)
      (hverdict : verdict = none) (hnodes : final.nodes = s.nodes + 1)
      (hbacktracks : final.backtracks = s.backtracks) :
      Moves domains verdict s (.faulty fault final)

/-- Every step does one of these. -/
theorem moves_step (net : Network) (domains : Array (List Date)) (verdict : Option Stop)
    (s : State) : Moves domains verdict s (step net domains verdict s) := by
  rcases s with ⟨a, current, earlier, nodes, backtracks, log⟩
  unfold step
  by_cases hsize : a.size = domains.size
  · rw [if_pos hsize]
    refine .decided ?_ ?_ rfl (Nat.le_refl _)
    · intro h
      rcases h with ⟨hne, -⟩
      exact hne hsize
    · intro stop hstop
      cases hstop
  · rw [if_neg hsize]
    cases current with
    | nil =>
        have hcheck : ¬ State.AtCheck domains ⟨a, [], earlier, nodes, backtracks, log⟩ := by
          intro h
          rcases h with ⟨-, hne⟩
          exact hne rfl
        cases earlier with
        | nil =>
            refine .decided hcheck ?_ rfl (Nat.le_succ _)
            intro stop hstop
            cases hstop
        | cons candidates rest => exact .retreated hcheck rfl (Nat.le_succ _)
    | cons day untried =>
        have hcheck : State.AtCheck domains
            ⟨a, day :: untried, earlier, nodes, backtracks, log⟩ :=
          ⟨hsize, List.cons_ne_nil _ _⟩
        cases verdict with
        | some stop => exact .stopped hcheck rfl rfl rfl
        | none =>
            simp only [tryDate]
            split
            · exact .faulted hcheck rfl rfl rfl
            · split
              · exact .tried hcheck rfl rfl rfl
              · exact .tried hcheck rfl rfl rfl

/-- The verdict counts only when there is a candidate to be tried, and only if it
is to stop the search. -/
theorem step_none_eq {verdict : Option Stop} (h : ¬ s.AtCheck domains ∨ verdict = none) :
    step net domains none s = step net domains verdict s := by
  rcases h with hcheck | rfl
  · rcases s with ⟨a, current, earlier, nodes, backtracks, log⟩
    unfold step
    by_cases hsize : a.size = domains.size
    · rw [if_pos hsize, if_pos hsize]
    · cases current with
      | nil => rfl
      | cons day untried => exact absurd ⟨hsize, List.cons_ne_nil _ _⟩ hcheck
  · rfl

/-! ## A search under limits against the unlimited search -/

/-- The counters of a search never go down. -/
theorem counters_le_run (net : Network) (domains : Array (List Date)) (limits : Limits)
    (s : State) : s.nodes ≤ (run net domains limits s).2.nodes ∧
      s.backtracks ≤ (run net domains limits s).2.backtracks := by
  fun_induction run net domains limits s with
  | case1 s outcome final hended =>
      have hmoves := moves_step net domains (limits.verdict s.nodes) s
      rw [hended] at hmoves
      cases hmoves with
      | decided _ _ hnodes hbacktracks =>
          simp only
          omega
      | stopped _ _ hnodes hbacktracks =>
          simp only
          omega
  | case2 s fault final hfaulty =>
      have hmoves := moves_step net domains (limits.verdict s.nodes) s
      rw [hfaulty] at hmoves
      cases hmoves with
      | faulted _ _ hnodes hbacktracks =>
          simp only
          omega
  | case3 s s' hnext ih =>
      have hmoves := moves_step net domains (limits.verdict s.nodes) s
      rw [hnext] at hmoves
      cases hmoves with
      | retreated _ hnodes hbacktracks => omega
      | tried _ _ hnodes hbacktracks => omega

/-- A search that is allowed to try a candidate counts at least one more node. -/
theorem lt_nodes_run (net : Network) (hcheck : s.AtCheck domains)
    (hverdict : limits.verdict s.nodes = none) : s.nodes < (run net domains limits s).2.nodes := by
  have hmoves := moves_step net domains (limits.verdict s.nodes) s
  rw [run_eq]
  generalize step net domains (limits.verdict s.nodes) s = result at hmoves
  cases hmoves with
  | decided hnot _ _ _ => exact absurd hcheck hnot
  | retreated hnot _ _ => exact absurd hcheck hnot
  | stopped _ hstop _ _ =>
      rw [hverdict] at hstop
      cases hstop
  | @tried s' _ _ hnodes _ =>
      have hrest := (counters_le_run net domains limits s').1
      simp only
      omega
  | faulted _ _ hnodes _ =>
      simp only
      omega

/-- How a search under limits from a state ends, when the unlimited search from
there ends as given. -/
inductive Follows (limits : Limits) (s : State) (unlimited : Except Fault Outcome × State) :
    Except Fault Outcome × State → Prop where
  /-- No check stops the search, and it ends in the same way. -/
  | undisturbed
      (hquiet : ∀ t, s.nodes ≤ t → t < unlimited.2.nodes → limits.verdict t = none) :
      Follows limits s unlimited unlimited
  /-- The check at the count `t` is the first that stops the search. -/
  | stopped {t : Nat} {stop : Stop} {final : State} (hfrom : s.nodes ≤ t)
      (hlt : t < unlimited.2.nodes)
      (hquiet : ∀ u, s.nodes ≤ u → u < t → limits.verdict u = none)
      (hstop : limits.verdict t = some stop) (hnodes : final.nodes = t)
      (hbacktracks : final.backtracks ≤ unlimited.2.backtracks) :
      Follows limits s unlimited (.ok (.stopped stop), final)

/-- A check that lets the search pass may be put in front. -/
theorem Follows.of_next {unlimited ended : Except Fault Outcome × State}
    (h : Follows limits s' unlimited ended)
    (hnext : s'.nodes = s.nodes ∨ s'.nodes = s.nodes + 1 ∧ limits.verdict s.nodes = none) :
    Follows limits s unlimited ended := by
  have hearlier : ∀ t, s.nodes ≤ t → ¬ s'.nodes ≤ t → limits.verdict t = none := by
    intro t hfrom hbefore
    rcases hnext with hsame | ⟨hone, hnone⟩
    · omega
    · have ht : t = s.nodes := by omega
      rw [ht]
      exact hnone
  have hfrom' : s.nodes ≤ s'.nodes := by omega
  cases h with
  | undisturbed hquiet =>
      refine .undisturbed ?_
      intro t hfrom hlt
      by_cases ht : s'.nodes ≤ t
      · exact hquiet t ht hlt
      · exact hearlier t hfrom ht
  | stopped hfrom hlt hquiet hstop hnodes hbacktracks =>
      refine .stopped (Nat.le_trans hfrom' hfrom) hlt ?_ hstop hnodes hbacktracks
      intro u hu hlt
      by_cases hu' : s'.nodes ≤ u
      · exact hquiet u hu' hlt
      · exact hearlier u hu hu'

/-- From every state a search under limits follows the unlimited search. -/
theorem follows_run (net : Network) (domains : Array (List Date)) (limits : Limits) (s : State) :
    Follows limits s (run net domains .none s) (run net domains limits s) := by
  fun_induction run net domains limits s with
  | case1 s outcome final hended =>
      have hmoves := moves_step net domains (limits.verdict s.nodes) s
      rw [hended] at hmoves
      cases hmoves with
      | decided hcheck _ hnodes _ =>
          have hsame : run net domains .none s = (.ok outcome, final) := by
            rw [run_eq, Limits.verdict_none, step_none_eq (Or.inl hcheck), hended]
          rw [hsame]
          refine .undisturbed ?_
          intro t hfrom hlt
          simp only at hlt
          omega
      | @stopped stop _ hcheck hverdict hnodes hbacktracks =>
          have hmore := lt_nodes_run net hcheck (Limits.verdict_none s.nodes)
          have hcounters := counters_le_run net domains .none s
          refine .stopped (Nat.le_refl _) hmore ?_ hverdict hnodes (by omega)
          intro u hfrom hlt
          omega
  | case2 s fault final hfaulty =>
      have hmoves := moves_step net domains (limits.verdict s.nodes) s
      rw [hfaulty] at hmoves
      cases hmoves with
      | faulted hcheck hverdict hnodes _ =>
          have hsame : run net domains .none s = (.error fault, final) := by
            rw [run_eq, Limits.verdict_none, step_none_eq (Or.inr hverdict), hfaulty]
          rw [hsame]
          refine .undisturbed ?_
          intro t hfrom hlt
          have ht : t = s.nodes := by
            simp only at hlt
            omega
          rw [ht]
          exact hverdict
  | case3 s s' hnext ih =>
      have hmoves := moves_step net domains (limits.verdict s.nodes) s
      rw [hnext] at hmoves
      cases hmoves with
      | retreated hcheck hnodes _ =>
          have hsame : run net domains .none s = run net domains .none s' := by
            rw [run_eq, Limits.verdict_none, step_none_eq (Or.inl hcheck), hnext]
          rw [hsame]
          exact ih.of_next (Or.inl hnodes)
      | tried hcheck hverdict hnodes _ =>
          have hsame : run net domains .none s = run net domains .none s' := by
            rw [run_eq, Limits.verdict_none, step_none_eq (Or.inr hverdict), hnext]
          rw [hsame]
          exact ih.of_next (Or.inr ⟨hnodes, hverdict⟩)

/-! ## Reports -/

/-- A report comes from the last state of a run. -/
theorem exists_run_of_search {r : Report} (h : (search net domains limits).result = .ok r) :
    ∃ outcome final, run net domains limits (.start domains) = (.ok outcome, final) ∧
      r = ⟨outcome, final.nodes, final.backtracks⟩ := by
  unfold search report at h
  cases hrun : run net domains limits (.start domains) with
  | mk ended final =>
      rw [hrun] at h
      cases ended with
      | error fault => cases h
      | ok outcome =>
          cases h
          exact ⟨outcome, final, rfl, rfl⟩

/-- As long as no check stops it, a search reports what the unlimited search
does. -/
theorem result_search_of_quiet {r : Report} (h : (search net domains .none).result = .ok r)
    (hquiet : ∀ t, t < r.nodes → limits.verdict t = none) :
    (search net domains limits).result = .ok r := by
  rcases exists_run_of_search h with ⟨outcome, final, hrun, rfl⟩
  have hfollows := follows_run net domains limits (.start domains)
  rw [hrun] at hfollows
  unfold search report
  generalize run net domains limits (.start domains) = ended at hfollows
  cases hfollows with
  | undisturbed _ => rfl
  | @stopped t _ _ _ hlt _ hstop _ _ =>
      rw [hquiet t hlt] at hstop
      cases hstop

/-- The first check that stops a search decides its outcome. -/
theorem result_search_of_stop {r : Report} (h : (search net domains .none).result = .ok r)
    {t : Nat} {stop : Stop} (hlt : t < r.nodes)
    (hquiet : ∀ u, u < t → limits.verdict u = none) (hstop : limits.verdict t = some stop) :
    ∃ backtracks, (search net domains limits).result = .ok ⟨.stopped stop, t, backtracks⟩ ∧
      backtracks ≤ r.backtracks := by
  rcases exists_run_of_search h with ⟨outcome, final, hrun, rfl⟩
  have hfollows := follows_run net domains limits (.start domains)
  rw [hrun] at hfollows
  unfold search report
  generalize run net domains limits (.start domains) = ended at hfollows
  cases hfollows with
  | undisturbed hnone =>
      rw [hnone t (Nat.zero_le _) hlt] at hstop
      cases hstop
  | @stopped t' stop' final' _ hlt' hquiet' hstop' hnodes hbacktracks =>
      -- Both counts are the first at which a check stops the search.
      have heq : t' = t := by
        rcases Nat.lt_trichotomy t' t with hbefore | heq | hafter
        · rw [hquiet t' hbefore] at hstop'
          cases hstop'
        · exact heq
        · rw [hquiet' t (Nat.zero_le _) hafter] at hstop
          cases hstop
      rw [heq, hstop, Option.some.injEq] at hstop'
      refine ⟨final'.backtracks, ?_, hbacktracks⟩
      simp only [Except.map, hnodes, heq, hstop']

/-! ## The checks of the limits -/

/-- The states a search goes through. -/
def trail (net : Network) (domains : Array (List Date)) (limits : Limits) (s : State) :
    List State :=
  match _h : step net domains (limits.verdict s.nodes) s with
  | .next s' => s :: trail net domains limits s'
  | _ => [s]
termination_by pending domains s
decreasing_by exact step_decreases _h

/-- What every step preserves holds of all states a search goes through. -/
theorem forall_mem_trail {P : State → Prop}
    (hstep : ∀ verdict s s', step net domains verdict s = .next s' → P s → P s') (hs : P s) :
    ∀ t ∈ trail net domains limits s, P t := by
  fun_induction trail net domains limits s with
  | case1 s s' hnext ih =>
      rw [List.forall_mem_cons]
      exact ⟨hs, ih (hstep _ _ _ hnext hs)⟩
  | case2 s hlast =>
      rw [List.forall_mem_singleton]
      exact hs

/-- The counts of nodes at which a search checks its limits, in the order of the
checks. -/
def checks (net : Network) (domains : Array (List Date)) (limits : Limits) : List Nat :=
  ((trail net domains limits (.start domains)).filter (·.AtCheck domains)).map (·.nodes)

/-- Number of checks made by a search: one for each candidate tried, and one more
if it was stopped. -/
def Report.checkCount (r : Report) : Nat :=
  match r.outcome with
  | .stopped _ => r.nodes + 1
  | _ => r.nodes

/-- From every state on, the limits are checked at consecutive counts, once
each. -/
theorem checks_eq_range' {outcome : Outcome} {final : State}
    (hrun : run net domains limits s = (.ok outcome, final)) :
    s.nodes ≤ Report.checkCount ⟨outcome, final.nodes, final.backtracks⟩ ∧
    ((trail net domains limits s).filter (·.AtCheck domains)).map (·.nodes) =
      List.range' s.nodes
        (Report.checkCount ⟨outcome, final.nodes, final.backtracks⟩ - s.nodes) := by
  fun_induction trail net domains limits s with
  | case1 s s' hnext ih =>
      have hmoves := moves_step net domains (limits.verdict s.nodes) s
      rw [run_eq] at hrun
      rw [hnext] at hrun hmoves
      rcases ih hrun with ⟨hle, hchecks⟩
      cases hmoves with
      | retreated hcheck hnodes _ =>
          rw [hnodes] at hle hchecks
          refine ⟨hle, ?_⟩
          rw [List.filter_cons_of_neg (by simpa using hcheck)]
          exact hchecks
      | tried hcheck _ hnodes _ =>
          rw [hnodes] at hle hchecks
          refine ⟨by omega, ?_⟩
          rw [List.filter_cons_of_pos (by simpa using hcheck), List.map_cons, hchecks,
            ← List.range'_succ]
          congr 1
          omega
  | case2 s hlast =>
      have hmoves := moves_step net domains (limits.verdict s.nodes) s
      rw [run_eq] at hrun
      generalize step net domains (limits.verdict s.nodes) s = result at hmoves hlast hrun
      cases hmoves with
      | retreated _ _ _ => exact absurd rfl (hlast _)
      | tried _ _ _ _ => exact absurd rfl (hlast _)
      | faulted _ _ _ _ => cases hrun
      | decided hcheck houtcome hnodes _ =>
          cases hrun
          have hcount : Report.checkCount ⟨outcome, final.nodes, final.backtracks⟩ = s.nodes := by
            cases outcome with
            | found a => exact hnodes
            | exhausted => exact hnodes
            | stopped stop => exact absurd rfl (houtcome stop)
          simp [hcheck, hcount]
      | stopped hcheck _ hnodes _ =>
          cases hrun
          simp [hcheck, Report.checkCount, hnodes]

/-- The limits are checked at the counts 0, 1, 2, and so on, once each. -/
theorem checks_eq_range {r : Report} (h : (search net domains limits).result = .ok r) :
    checks net domains limits = List.range r.checkCount := by
  rcases exists_run_of_search h with ⟨outcome, final, hrun, rfl⟩
  have hchecks := (checks_eq_range' hrun).2
  unfold checks
  rw [hchecks, List.range_eq_range']
  rfl

end Search
end DateScheduling
