import DateScheduling.Calendar.Date
import DateScheduling.Status

/-!
# Results of a run

A result has a status, the dates of the solution if there is one, and counters
for each phase.  Phases that were not reached count 0.
-/

namespace DateScheduling

/-- What a run took, phase by phase. -/
structure Stats where
  /-- Dates taken out by constraints with a fixed date. -/
  nodePruned : Nat := 0
  /-- Dates taken out by constraints between events. -/
  arcPruned : Nat := 0
  /-- Number of arcs revised. -/
  arcRevisions : Nat := 0
  /-- Number of candidates the search tried. -/
  nodes : Nat := 0
  /-- Number of dead ends the search met. -/
  backtracks : Nat := 0
  /-- Duration in milliseconds, where it was measured. -/
  solveTimeMs : Nat := 0
deriving DecidableEq

/-- What a run says about its model. -/
structure Result where
  status : Status
  /-- One date per event, if a solution was found. -/
  assignment : Option (Array Date)
  stats : Stats
deriving DecidableEq

namespace Result

/-- A result without dates and with all counters at zero. -/
def empty (status : Status) : Result :=
  ⟨status, none, {}⟩

/-- The same result after a run that took so long. -/
def timed (solveTimeMs : Nat) (r : Result) : Result :=
  { r with stats := { r.stats with solveTimeMs } }

/-- A solution was found. -/
def isSolutionFound (r : Result) : Bool :=
  r.status = .feasible

/-- There is no solution. -/
def isInfeasible (r : Result) : Bool :=
  r.status = .infeasible

end Result
end DateScheduling
