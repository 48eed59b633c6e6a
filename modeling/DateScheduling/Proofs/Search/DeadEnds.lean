import DateScheduling.Proofs.Search.Stack

/-!
# What a search reports

Whenever an event runs out of candidates, the search reports it with the number of the
event, and then returns to the event before or gives up.  Events are numbered from 0, so
the search returns from an event other than 0 and gives up at the event 0.  In the end it
reports whether it was decided or stopped.

Main results:

- Theorem `Search.State.Reports.proceeds`: each step that returns reports an event other
  than 0.
- Theorem `Search.closes_of_step`: what the last step reports.
- Theorem `Search.exists_searchLog`: the log of a whole search.
-/

namespace DateScheduling

namespace Search

variable {net : Network} {domains : Array (List Date)} {limits : Limits} {s s' : State}

/-- What a search reports in the end: whether it was decided or stopped. -/
def closing (outcome : Outcome) (nodes backtracks : Nat) : LogEntry :=
  match outcome with
  | .found _ => .finished nodes backtracks true
  | .exhausted => .finished nodes backtracks false
  | .stopped stop => .stopped nodes stop

/-- The events at which a search gives up: the event 0 after a search in vain. -/
def givenUp : Outcome → List Nat
  | .exhausted => [0]
  | _ => []

/-- The search has returned from the listed events, none of them the event 0, and has
reported nothing else. -/
structure State.Reports (s : State) (deadEnds : List Nat) : Prop where
  log_eq : s.log.toList = deadEnds.map .exhausted
  length_eq : deadEnds.length = s.backtracks
  pos : ∀ var ∈ deadEnds, 0 < var

theorem reports_start (domains : Array (List Date)) : (State.start domains).Reports [] where
  log_eq := rfl
  length_eq := rfl
  pos _ h := absurd h List.not_mem_nil

/-- A step that goes on reports the event from which it returns. -/
theorem State.Reports.proceeds {deadEnds : List Nat} (h : s.Reports deadEnds)
    (hstacked : s.Stacked domains) (hproceeds : Proceeds net domains s s') :
    ∃ deadEnds', s'.Reports deadEnds' := by
  cases hproceeds with
  | @retreated a untried earlier nodes backtracks log _ =>
      refine ⟨deadEnds ++ [a.size], ?_, ?_, ?_⟩
      · have hlog : log.toList = deadEnds.map .exhausted := h.log_eq
        simp [hlog]
      · have hlength : deadEnds.length = backtracks := h.length_eq
        simp [hlength]
      · have hstack : earlier.length + 1 = a.size := hstacked.length_earlier
        intro var hvar
        rcases List.mem_append.1 hvar with hold | hnew
        · exact h.pos var hold
        · rw [List.mem_singleton.1 hnew]
          omega
  | admitted _ _ _ => exact ⟨deadEnds, h.log_eq, h.length_eq, h.pos⟩
  | refused _ _ _ => exact ⟨deadEnds, h.log_eq, h.length_eq, h.pos⟩

/-- The last step reports at which event the search gives up, if it does, and how it
ends. -/
theorem closes_of_step {verdict : Option Stop} {outcome : Outcome} {final : State}
    (hstacked : s.Stacked domains) (h : step net domains verdict s = .ended outcome final) :
    final.log.toList = s.log.toList ++ ((givenUp outcome).map .exhausted ++
        [closing outcome final.nodes final.backtracks]) ∧
      final.backtracks = s.backtracks + (givenUp outcome).length := by
  rcases s with ⟨a, current, earlier, nodes, backtracks, log⟩
  simp only [step] at h
  split at h
  · cases h
    exact ⟨Array.toList_push, rfl⟩
  · split at h
    · simp only [retreat] at h
      split at h
      · -- Without an event to return to, the next event is the event 0.
        have hzero : a.size = 0 := hstacked.length_earlier.symm
        cases h
        simp [closing, givenUp, hzero]
      · cases h
    · split at h
      · cases h
        exact ⟨Array.toList_push, rfl⟩
      · simp only [tryDate] at h
        split at h
        · cases h
        · split at h <;> cases h

/-- From every state on, a search reports the events it returns from, and then how it
ends. -/
theorem exists_runLog {deadEnds : List Nat} (hstacked : s.Stacked domains)
    (hreports : s.Reports deadEnds) {outcome : Outcome} {final : State}
    (hrun : run net domains limits s = (.ok outcome, final)) :
    ∃ returned : List Nat, (∀ var ∈ returned, 0 < var) ∧
      final.log.toList = (returned ++ givenUp outcome).map .exhausted ++
        [closing outcome final.nodes final.backtracks] ∧
      final.backtracks = (returned ++ givenUp outcome).length := by
  fun_induction run net domains limits s generalizing deadEnds with
  | case1 s outcome' final' hended =>
      cases hrun
      rcases closes_of_step hstacked hended with ⟨hlog, hbacktracks⟩
      refine ⟨deadEnds, hreports.pos, ?_, ?_⟩
      · rw [hlog, hreports.log_eq, List.map_append, List.append_assoc]
      · rw [hbacktracks, ← hreports.length_eq, List.length_append]
  | case2 s fault final' hfaulty => cases hrun
  | case3 s s' hnext ih =>
      have hproceeds := proceeds_of_step hnext
      rcases hreports.proceeds hstacked hproceeds with ⟨deadEnds', hreports'⟩
      exact ih (hproceeds.stacked hstacked) hreports' hrun

/-- The log of a search: the events other than 0 from which it has returned, one entry for
each time, the event at which it has given up, and how it has ended. -/
theorem exists_searchLog {r : Report} (h : (search net domains limits).result = .ok r) :
    ∃ returned : List Nat, (∀ var ∈ returned, 0 < var) ∧
      (search net domains limits).log.toList =
        (returned ++ givenUp r.outcome).map .exhausted ++
          [closing r.outcome r.nodes r.backtracks] ∧
      r.backtracks = (returned ++ givenUp r.outcome).length := by
  rcases exists_run_of_search h with ⟨outcome, final, hrun, rfl⟩
  have hlog : (search net domains limits).log = final.log := by
    unfold search report
    rw [hrun]
  rw [hlog]
  exact exists_runLog (stacked_start domains) (reports_start domains) hrun

end Search
end DateScheduling
