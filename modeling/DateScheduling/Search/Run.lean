import DateScheduling.Search.State

/-!
# Running a search

A search makes steps until it is over.  Its report has the outcome and the
number of candidates tried and of dead ends met.
-/

namespace DateScheduling
namespace Search

/-- Make steps until the search is over; the limits are checked at each step
with the number of nodes visited by then. -/
def run (net : Network) (domains : Array (List Date)) (limits : Limits) (s : State) :
    Except Fault Outcome × State :=
  match _h : step net domains (limits.verdict s.nodes) s with
  | .ended outcome final => (.ok outcome, final)
  | .faulty fault final => (.error fault, final)
  | .next s' => run net domains limits s'
termination_by pending domains s
decreasing_by exact step_decreases _h

/-- A search makes one step and goes on from there. -/
theorem run_eq (net : Network) (domains : Array (List Date)) (limits : Limits) (s : State) :
    run net domains limits s =
      match step net domains (limits.verdict s.nodes) s with
      | .ended outcome final => (.ok outcome, final)
      | .faulty fault final => (.error fault, final)
      | .next s' => run net domains limits s' := by
  rw [run]
  split <;> rename_i hstep <;> rw [hstep]

/-- What a search found and what it took. -/
structure Report where
  outcome : Outcome
  nodes : Nat
  backtracks : Nat
deriving DecidableEq

/-- The report of a search that ended in a state. -/
def report (ended : Except Fault Outcome × State) : Traced Report :=
  ⟨ended.2.log, ended.1.map (⟨·, ended.2.nodes, ended.2.backtracks⟩)⟩

end Search

/-- Search for dates, one from each list of candidates, that satisfy the
constraints of a network. -/
def search (net : Network) (domains : Array (List Date)) (limits : Limits) :
    Traced Search.Report :=
  Search.report (Search.run net domains limits (.start domains))

end DateScheduling
