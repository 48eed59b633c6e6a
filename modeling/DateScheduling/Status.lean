/-!
# How a run ends

The reasons for which a search is cut short, and the status a solver reports.
-/

namespace DateScheduling

/-- Why a search was stopped before it was decided. -/
inductive Stop where
  /-- It was cancelled from outside. -/
  | cancelled
  /-- It used up its budget of nodes. -/
  | nodeLimit
  /-- It ran past its deadline. -/
  | timeout
deriving DecidableEq

/-- A stop as it is written. -/
def Stop.name : Stop → String
  | cancelled => "Cancelled"
  | nodeLimit => "NodeLimit"
  | timeout => "Timeout"

/-- How a solver run ended. -/
inductive Status where
  /-- A solution was found. -/
  | feasible
  /-- There is no solution. -/
  | infeasible
  /-- The model failed its check. -/
  | modelInvalid
  /-- The search used up its budget of nodes. -/
  | nodeLimit
  /-- The search ran past its deadline. -/
  | timeout
  /-- The search was cancelled from outside. -/
  | cancelled
deriving DecidableEq

namespace Status

/-- All statuses. -/
def all : List Status :=
  [feasible, infeasible, modelInvalid, nodeLimit, timeout, cancelled]

/-- A status as it is written. -/
def name : Status → String
  | feasible => "Feasible"
  | infeasible => "Infeasible"
  | modelInvalid => "ModelInvalid"
  | nodeLimit => "NodeLimit"
  | timeout => "Timeout"
  | cancelled => "Cancelled"

/-- The status with a given name. -/
def ofName? (name : String) : Option Status :=
  all.find? fun s => s.name = name

/-- The status of a search that was cut short. -/
def ofStop : Stop → Status
  | .cancelled => cancelled
  | .nodeLimit => nodeLimit
  | .timeout => timeout

theorem ofName?_name (s : Status) : ofName? s.name = some s := by
  cases s <;> decide

end Status
end DateScheduling
