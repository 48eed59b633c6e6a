import DateScheduling.Propagation.Pass
import DateScheduling.Search.Limits

/-!
# Depth-first search

The search gives dates to the events in order, trying the candidates of each
event in the order they are listed.  Once an event has a date, the constraints
of which it is the largest event are checked; all others were checked before or
mention an event without a date.  When an event has no candidates left, the
search returns to the event before it.

The state keeps, for the next event and for every event that has a date, the
candidates not yet tried.  One step tries one candidate or returns to the event
before.

Main results:

- Theorem `Search.step_decreases`: every step lowers the amount of work that
  is pending, so the search ends.
-/

namespace DateScheduling
namespace Search

/-- The state between two steps. -/
structure State where
  /-- The dates of the first events. -/
  assignment : Array Date
  /-- The untried candidates of the next event. -/
  current : List Date
  /-- The untried candidates of the events that have dates, the last one
  first. -/
  earlier : List (List Date)
  /-- Number of candidates tried so far. -/
  nodes : Nat
  /-- Number of times an event ran out of candidates. -/
  backtracks : Nat
  log : Array LogEntry

/-- There is a candidate to be tried, so the limits are checked. -/
def State.AtCheck (domains : Array (List Date)) (s : State) : Prop :=
  s.assignment.size ≠ domains.size ∧ s.current ≠ []

instance (domains : Array (List Date)) (s : State) : Decidable (s.AtCheck domains) :=
  inferInstanceAs (Decidable (s.assignment.size ≠ domains.size ∧ s.current ≠ []))

/-- How a search ends. -/
inductive Outcome where
  /-- Every event has a date and every constraint holds. -/
  | found (assignment : Array Date)
  /-- All candidates were tried in vain. -/
  | exhausted
  /-- The search was cut short. -/
  | stopped (stop : Stop)
deriving DecidableEq

/-- What the next step leads to. -/
inductive Step where
  /-- The search is over. -/
  | ended (outcome : Outcome) (final : State)
  /-- An event was missing. -/
  | faulty (fault : Fault) (final : State)
  /-- The search goes on. -/
  | next (state : State)

/-- The candidates of an event; an event beyond the last has none. -/
def candidatesOf (domains : Array (List Date)) (var : Nat) : List Date :=
  domains.getD var []

/-- Before the first step no event has a date. -/
def State.start (domains : Array (List Date)) : State :=
  ⟨#[], candidatesOf domains 0, [], 0, 0, #[]⟩

/-- A search that is decided reports its counters. -/
def finish (outcome : Outcome) (found : Bool) : State → Step
  | ⟨assignment, current, earlier, nodes, backtracks, log⟩ =>
      .ended outcome ⟨assignment, current, earlier, nodes, backtracks,
        log.push (.finished nodes backtracks found)⟩

/-- The next event has no candidates left: return to the event before it. -/
def retreat : State → Step
  | ⟨assignment, _, earlier, nodes, backtracks, log⟩ =>
      let log := log.push (.exhausted assignment.size)
      match earlier with
      | [] => finish .exhausted false ⟨assignment, [], [], nodes, backtracks + 1, log⟩
      | candidates :: rest =>
          .next ⟨assignment.pop, candidates, rest, nodes, backtracks + 1, log⟩

/-- Give the next event a date and check the constraints that are complete now.
If one fails, the date is withdrawn. -/
def tryDate (net : Network) (domains : Array (List Date)) (day : Date) (untried : List Date) :
    State → Step
  | ⟨assignment, _, earlier, nodes, backtracks, log⟩ =>
      let var := assignment.size
      match net.completedAt? var with
      | none =>
          .faulty (.noEvent var) ⟨assignment, untried, earlier, nodes + 1, backtracks, log⟩
      | some constraints =>
          let extended := assignment.push day
          if constraints.all (·.isSatisfiedBy extended) then
            .next ⟨extended, candidatesOf domains (var + 1), untried :: earlier, nodes + 1,
              backtracks, log⟩
          else .next ⟨extended.pop, untried, earlier, nodes + 1, backtracks, log⟩

/-- One step of the search.  The verdict is what a check of the limits says now;
it counts only when there is a candidate to be tried. -/
def step (net : Network) (domains : Array (List Date)) (verdict : Option Stop) (s : State) :
    Step :=
  if s.assignment.size = domains.size then finish (.found s.assignment) true s
  else
    match s.current with
    | [] => retreat s
    | day :: untried =>
        match verdict with
        | some stop =>
            .ended (.stopped stop) { s with log := s.log.push (.stopped s.nodes stop) }
        | none => tryDate net domains day untried s

/-! ## Every step makes progress -/

/-- Upper bound on the steps needed to go through the candidates of the given
events once. -/
def work : List (List Date) → Nat
  | [] => 1
  | candidates :: rest => candidates.length * (1 + work rest) + 1

/-- Upper bound on the steps needed to use up lists of untried candidates, of
which the first belongs to event `var` and the others to the events before. -/
def pendingFrom (domains : Array (List Date)) : Nat → List (List Date) → Nat
  | _, [] => 0
  | var, untried :: earlier =>
      untried.length * (1 + work (domains.toList.drop (var + 1))) + 1 +
        pendingFrom domains (var - 1) earlier

/-- Upper bound on the steps still to be made from a state. -/
def pending (domains : Array (List Date)) (s : State) : Nat :=
  pendingFrom domains s.assignment.size (s.current :: s.earlier)

/-- Entering an event takes the work of the events from it on. -/
theorem work_drop (domains : Array (List Date)) (var : Nat) :
    work (domains.toList.drop var) =
      (candidatesOf domains var).length * (1 + work (domains.toList.drop (var + 1))) + 1 := by
  by_cases h : var < domains.size
  · have hlist : var < domains.toList.length := by simpa using h
    rw [List.drop_eq_getElem_cons hlist]
    simp [work, candidatesOf, h]
  · have hsize : domains.size ≤ var := Nat.le_of_not_lt h
    rw [List.drop_eq_nil_of_le (by simpa using hsize)]
    simp [work, candidatesOf, hsize]

/-- Every step lowers the amount of work that is pending. -/
theorem step_decreases {net : Network} {domains : Array (List Date)} {verdict : Option Stop}
    {s s' : State} (h : step net domains verdict s = .next s') :
    pending domains s' < pending domains s := by
  obtain ⟨assignment, current, earlier, nodes, backtracks, log⟩ := s
  simp only [step] at h
  split at h
  · simp [finish] at h
  · split at h
    · simp only [retreat] at h
      split at h
      · simp [finish] at h
      · cases h
        simp [pending, pendingFrom]
    · rename_i day untried
      split at h
      · cases h
      · simp only [tryDate] at h
        split at h
        · cases h
        · split at h
          · cases h
            have hwork := work_drop domains (assignment.size + 1)
            simp only [pending, pendingFrom, Array.size_push, Nat.add_sub_cancel,
              List.length_cons, Nat.succ_mul]
            omega
          · cases h
            simp only [pending, pendingFrom, Array.pop_push, List.length_cons, Nat.succ_mul]
            omega

end Search
end DateScheduling
