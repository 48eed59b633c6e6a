import DateScheduling.Proofs.Search.Interruption
import DateScheduling.Solver.Live

/-!
# Live runs and readings

Whatever the cancel signal and the clock say while a run goes on, the run is one with fixed
readings: those that were made at the checks.  As the limits are checked at most once at each
count of nodes, the readings at different checks do not get in the way of each other.  In turn
a run with fixed readings is a live one, whose signals follow the readings from check to check.

Main results:

- Theorem `Search.run_congr_limits`: a search looks at no check before its own count.
- Theorem `Search.exists_readings_runLive`: every live search is one with fixed readings.
- Theorem `Search.runLive_script`: every search with fixed readings is a live one.
- Theorems `Solver.exists_readings_runLive` and `Solver.runLive_script`: the same of runs.
-/

namespace DateScheduling

namespace Readings

/-- The readings that say something else at one check. -/
def amend (readings : Readings) (nodes : Nat) (cancelled late : Bool) : Readings :=
  ⟨fun t => if t = nodes then cancelled else readings.cancelled t,
    fun t => if t = nodes then late else readings.late t⟩

/-- Signals that follow fixed readings.  They keep the number of checks that were begun, and no
time goes by. -/
def script (readings : Readings) : Signals (StateM Nat) where
  cancelled := modifyGet fun t => (readings.cancelled t, t + 1)
  late := modifyGet fun t => (readings.late (t - 1), t)
  elapsedMs := pure 0

end Readings

namespace Limits

variable {limits : Limits} {readings readings' : Readings} {t : Nat}

/-- A check depends on the readings made at it, and on the clock only if it is looked at. -/
theorem verdict_congr (hcancelled : readings.cancelled t = readings'.cancelled t)
    (hlate : limits.hasDeadline = true → t % clockInterval = 0 →
      readings.late t = readings'.late t) :
    (limits.withReadings readings).verdict t = (limits.withReadings readings').verdict t := by
  have hclock : (limits.hasDeadline = true ∧ t % clockInterval = 0 ∧ readings.late t = true) ↔
      (limits.hasDeadline = true ∧ t % clockInterval = 0 ∧ readings'.late t = true) :=
    and_congr_right fun hdeadline => and_congr_right fun htime => by rw [hlate hdeadline htime]
  unfold verdict withReadings
  simp only [hcancelled, hclock]

end Limits

namespace Search

variable {net : Network} {domains : Array (List Date)} {limits limits' : Limits} {s s' : State}
  {verdict : Option Stop} {σ : Type} {signals : Signals (StateM σ)} {w w' : σ}

/-! ## Searches with other limits -/

/-- Each candidate that is tried counts one more node. -/
theorem nodes_of_next (h : step net domains verdict s = .next s') :
    s'.nodes = if s.AtCheck domains then s.nodes + 1 else s.nodes := by
  have hmoves := moves_step net domains verdict s
  rw [h] at hmoves
  cases hmoves with
  | retreated hcheck hnodes _ => rw [if_neg hcheck, hnodes]
  | tried hcheck _ hnodes _ => rw [if_pos hcheck, hnodes]

/-- A search looks at no check before its own count. -/
theorem run_congr_limits (h : ∀ t, s.nodes ≤ t → limits.verdict t = limits'.verdict t) :
    run net domains limits s = run net domains limits' s := by
  fun_induction run net domains limits s with
  | case1 s outcome final hended =>
      rw [run_eq, ← h s.nodes (Nat.le_refl _), hended]
  | case2 s fault final hfaulty =>
      rw [run_eq, ← h s.nodes (Nat.le_refl _), hfaulty]
  | case3 s s' hnext ih =>
      have hle : s.nodes ≤ s'.nodes := by
        rw [nodes_of_next hnext]
        split <;> omega
      rw [run_eq net domains limits', ← h s.nodes (Nat.le_refl _), hnext]
      exact ih fun t ht => h t (Nat.le_trans hle ht)

/-- Readings for the rest of a search do for all of it, with those at the next check put in. -/
theorem run_amend {readings : Readings} {cancelled late : Bool} (hcheck : s.AtCheck domains)
    (hstep : step net domains
      ((limits.withReadings (.constant cancelled late)).verdict s.nodes) s = .next s') :
    run net domains (limits.withReadings (readings.amend s.nodes cancelled late)) s =
      run net domains (limits.withReadings readings) s' := by
  have hnow : (limits.withReadings (readings.amend s.nodes cancelled late)).verdict s.nodes =
      (limits.withReadings (.constant cancelled late)).verdict s.nodes :=
    Limits.verdict_congr (if_pos rfl) fun _ _ => if_pos rfl
  have hnodes := nodes_of_next hstep
  rw [if_pos hcheck] at hnodes
  rw [run_eq, hnow, hstep]
  refine run_congr_limits fun t ht => ?_
  have hne : t ≠ s.nodes := by omega
  exact Limits.verdict_congr (if_neg hne) fun _ _ => if_neg hne

/-! ## One step of a live search -/

/-- A live check says what the limits say with the readings made at it. -/
theorem exists_liveVerdict (limits : Limits) (signals : Signals (StateM σ))
    (hcheck : s.AtCheck domains) (w : σ) :
    ∃ cancelled late w', (liveVerdict domains limits signals s).run w =
      ((limits.withReadings (.constant cancelled late)).verdict s.nodes, w') := by
  rw [liveVerdict, if_pos hcheck]
  by_cases hlook : limits.hasDeadline ∧ s.nodes % Limits.clockInterval = 0
  · simp only [if_pos hlook]
    exact ⟨_, _, _, rfl⟩
  · simp only [if_neg hlook]
    exact ⟨_, _, _, rfl⟩

/-- Where no candidate is to be tried, nothing is read. -/
theorem liveVerdict_of_not_atCheck (hcheck : ¬ s.AtCheck domains) :
    (liveVerdict domains limits signals s).run w = (none, w) := by
  rw [liveVerdict, if_neg hcheck]
  rfl

/-- Signals that follow fixed readings say at the next check what the readings say. -/
theorem liveVerdict_script (readings : Readings) (hcheck : s.AtCheck domains) :
    (liveVerdict domains limits readings.script s).run s.nodes =
      ((limits.withReadings readings).verdict s.nodes, s.nodes + 1) := by
  rw [liveVerdict, if_pos hcheck]
  by_cases hlook : limits.hasDeadline ∧ s.nodes % Limits.clockInterval = 0
  · simp only [if_pos hlook]
    exact congrArg (·, s.nodes + 1) (Limits.verdict_congr rfl fun _ _ => rfl)
  · simp only [if_neg hlook]
    refine congrArg (·, s.nodes + 1) (Limits.verdict_congr rfl fun hdeadline htime => ?_)
    exact absurd ⟨hdeadline, htime⟩ hlook

/-- A live search makes one step and goes on from there. -/
theorem runLive_eq {μ : Type → Type} [Monad μ] (signals : Signals μ) (s : State) :
    runLive net domains limits signals s = (do
      match step net domains (← liveVerdict domains limits signals s) s with
      | .ended outcome final => return (.ok outcome, final)
      | .faulty fault final => return (.error fault, final)
      | .next s' => runLive net domains limits signals s') := by
  rw [runLive]
  refine congrArg _ (funext fun verdict => ?_)
  split <;> rename_i hstep <;> rw [hstep]

/-- A live search after its next check. -/
theorem runLive_run (h : (liveVerdict domains limits signals s).run w = (verdict, w')) :
    (runLive net domains limits signals s).run w =
      match step net domains verdict s with
      | .ended outcome final => ((.ok outcome, final), w')
      | .faulty fault final => ((.error fault, final), w')
      | .next s' => (runLive net domains limits signals s').run w' := by
  rw [runLive_eq, StateT.run_bind, h]
  show StateT.run (match step net domains verdict s with
    | .ended outcome final => _
    | .faulty fault final => _
    | .next s' => _) w' = _
  cases step net domains verdict s <;> rfl

/-- A live search ends like one with given limits if they agree on its next step and on the
rest. -/
theorem fst_runLive (h : (liveVerdict domains limits signals s).run w = (verdict, w'))
    (hsame : step net domains verdict s = step net domains (limits'.verdict s.nodes) s)
    (hrest : ∀ s', step net domains verdict s = .next s' →
      ((runLive net domains limits signals s').run w').1 = run net domains limits' s') :
    ((runLive net domains limits signals s).run w).1 = run net domains limits' s := by
  rw [runLive_run h, run_eq, ← hsame]
  cases hstep : step net domains verdict s with
  | ended outcome final => rfl
  | faulty fault final => rfl
  | next s' => exact hrest s' hstep

/-! ## Whole searches -/

/-- Every live search is one with fixed readings. -/
theorem exists_readings_runLive (net : Network) (domains : Array (List Date)) (limits : Limits)
    (signals : Signals (StateM σ)) (s : State) (w : σ) :
    ∃ readings, ((runLive net domains limits signals s).run w).1 =
      run net domains (limits.withReadings readings) s := by
  by_cases hcheck : s.AtCheck domains
  · obtain ⟨cancelled, late, w', hverdict⟩ := exists_liveVerdict limits signals hcheck w
    cases hstep : step net domains
        ((limits.withReadings (.constant cancelled late)).verdict s.nodes) s with
    | ended outcome final =>
        exact ⟨.constant cancelled late, fst_runLive hverdict rfl (by simp [hstep])⟩
    | faulty fault final =>
        exact ⟨.constant cancelled late, fst_runLive hverdict rfl (by simp [hstep])⟩
    | next s' =>
        have hdecreases := step_decreases hstep
        obtain ⟨readings, hrest⟩ := exists_readings_runLive net domains limits signals s' w'
        refine ⟨readings.amend s.nodes cancelled late, ?_⟩
        rw [run_amend hcheck hstep, runLive_run hverdict, hstep]
        exact hrest
  · have hsame (readings : Readings) : step net domains none s =
        step net domains ((limits.withReadings readings).verdict s.nodes) s :=
      step_none_eq (.inl hcheck)
    cases hstep : step net domains none s with
    | ended outcome final =>
        exact ⟨.quiet, fst_runLive (liveVerdict_of_not_atCheck hcheck) (hsame _) (by simp [hstep])⟩
    | faulty fault final =>
        exact ⟨.quiet, fst_runLive (liveVerdict_of_not_atCheck hcheck) (hsame _) (by simp [hstep])⟩
    | next s' =>
        have hdecreases := step_decreases hstep
        obtain ⟨readings, hrest⟩ := exists_readings_runLive net domains limits signals s' w
        refine ⟨readings, fst_runLive (liveVerdict_of_not_atCheck hcheck) (hsame _) ?_⟩
        intro t ht
        rw [hstep] at ht
        cases ht
        exact hrest
termination_by pending domains s

/-- Every search with fixed readings is a live one: its signals have followed the readings
through as many checks as there were nodes. -/
theorem runLive_script (net : Network) (domains : Array (List Date)) (limits : Limits)
    (readings : Readings) (s : State) :
    ((runLive net domains limits readings.script s).run s.nodes).1 =
      run net domains (limits.withReadings readings) s := by
  by_cases hcheck : s.AtCheck domains
  · refine fst_runLive (liveVerdict_script readings hcheck) rfl fun s' hstep => ?_
    have hdecreases := step_decreases hstep
    have hnodes := nodes_of_next hstep
    rw [if_pos hcheck] at hnodes
    rw [← hnodes]
    exact runLive_script net domains limits readings s'
  · refine fst_runLive (liveVerdict_of_not_atCheck hcheck) (step_none_eq (.inl hcheck))
      fun s' hstep => ?_
    have hdecreases := step_decreases hstep
    have hnodes := nodes_of_next hstep
    rw [if_neg hcheck] at hnodes
    rw [← hnodes]
    exact runLive_script net domains limits readings s'
termination_by pending domains s

end Search

namespace Solver

variable {m : Model} {config : Config} {readings : Readings} {σ : Type}
  {signals : Signals (StateM σ)} {w : σ}

/-- The duration of a run stands beside its counters. -/
theorem map_timed_conclude (m : Model) (stats : Stats) (ms : Nat) (report : Search.Report) :
    (conclude m stats report).map (.timed ms) =
      conclude m { stats with solveTimeMs := ms } report :=
  rfl

/-- A live run is one with given readings, its duration apart, if its search is. -/
theorem fst_runLive (h : ∀ net domains stats,
      (prepare m config).result = .ok (.pending net domains stats) →
      ((Search.runLive net domains (config.limits .quiet) signals (.start domains)).run w).1 =
        Search.run net domains (config.limits readings) (.start domains)) :
    ∃ ms, ((runLive m config signals).run w).1 = (run m config readings).map (.timed ms) := by
  unfold runLive run
  generalize prepare m config = prepared at h
  rcases prepared with ⟨log, fault | result | ⟨net, domains, stats⟩⟩
  · exact ⟨0, rfl⟩
  · by_cases hinvalid : result.status = .modelInvalid
    · simp only [if_pos hinvalid]
      exact ⟨0, rfl⟩
    · simp only [if_neg hinvalid]
      exact ⟨_, rfl⟩
  · have hsearch := h net domains stats rfl
    simp only [StateT.run_bind]
    generalize (Search.runLive net domains (config.limits .quiet) signals
      (.start domains)).run w = ended at hsearch ⊢
    have hreport : search net domains (config.limits readings) = Search.report ended.1 :=
      (congrArg Search.report hsearch).symm
    have hrest (ms : Nat) : Search.report ended.1 >>= conclude m { stats with solveTimeMs := ms } =
        (search net domains (config.limits readings) >>= conclude m stats).map (.timed ms) := by
      simp only [hreport, Traced.map_bind, map_timed_conclude]
    refine ⟨(signals.elapsedMs.run ended.2).1, ?_⟩
    exact congrArg (fun rest => Traced.andThen ⟨log, .ok (Prepared.pending net domains stats)⟩
      fun _ => rest) (hrest _)

/-- Every live run is one with fixed readings, its duration apart: what the cancel signal and
the clock say while it goes on decides which. -/
theorem exists_readings_runLive (m : Model) (config : Config) (signals : Signals (StateM σ))
    (w : σ) : ∃ readings ms, ((runLive m config signals).run w).1 =
      (run m config readings).map (.timed ms) := by
  rcases hprepare : (prepare m config).result with fault | result | ⟨net, domains, stats⟩
  · exact ⟨.quiet, fst_runLive (by simp [hprepare])⟩
  · exact ⟨.quiet, fst_runLive (by simp [hprepare])⟩
  · obtain ⟨readings, hsearch⟩ := Search.exists_readings_runLive net domains
      (config.limits .quiet) signals (.start domains) w
    refine ⟨readings, fst_runLive fun net' domains' stats' hpending => ?_⟩
    rw [hprepare] at hpending
    cases hpending
    exact hsearch

/-- Every run with fixed readings is a live one, its duration apart. -/
theorem runLive_script (m : Model) (config : Config) (readings : Readings) :
    ∃ ms, ((runLive m config readings.script).run 0).1 =
      (run m config readings).map (.timed ms) :=
  fst_runLive fun net domains _ _ =>
    Search.runLive_script net domains (config.limits .quiet) readings (.start domains)

end Solver
end DateScheduling
