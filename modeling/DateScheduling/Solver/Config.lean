import DateScheduling.Search.Limits

/-!
# Configuration of a run

By default a run makes both pruning passes and searches without limits.  A
budget of 0 nodes or 0 milliseconds stands for no limit.
-/

namespace DateScheduling

/-- Which pruning passes to make and how long to search. -/
structure Config where
  /-- Prune by the constraints with a fixed date. -/
  nodeConsistency : Bool := true
  /-- Prune by the constraints between events. -/
  arcConsistency : Bool := true
  /-- Number of nodes the search may visit; 0 means any number. -/
  maxNodes : Nat := 0
  /-- Number of milliseconds the run may take; 0 means any number. -/
  timeLimitMs : Nat := 0
deriving DecidableEq

namespace Config

/-- Switch node consistency on or off. -/
def withNodeConsistency (c : Config) (enabled : Bool) : Config :=
  { c with nodeConsistency := enabled }

/-- Switch arc consistency on or off. -/
def withArcConsistency (c : Config) (enabled : Bool) : Config :=
  { c with arcConsistency := enabled }

/-- Set the budget of nodes. -/
def withMaxNodes (c : Config) (nodes : Nat) : Config :=
  { c with maxNodes := nodes }

/-- Set the time limit. -/
def withTimeLimitMs (c : Config) (ms : Nat) : Config :=
  { c with timeLimitMs := ms }

/-- Leave everything to the search. -/
def searchOnly (c : Config) : Config :=
  (c.withNodeConsistency false).withArcConsistency false

/-- The limits a configuration puts on the search. -/
def limits (c : Config) (readings : Readings) : Limits :=
  ⟨c.maxNodes, 0 < c.timeLimitMs, readings⟩

end Config
end DateScheduling
