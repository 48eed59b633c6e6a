import DateScheduling.Status

/-!
# Limits of a search

A search may be cancelled from outside, may have a budget of nodes and may have
a deadline.  Before each candidate is tried the limits are checked.  What the
cancel signal and the clock say at a check is given by readings, indexed by the
number of nodes visited so far: the search makes one check at each count.

Main results:

- Theorem `Limits.verdict_none`: without limits no check stops a search.
-/

namespace DateScheduling

/-- What the cancel signal and the clock say at each check. -/
structure Readings where
  /-- The search has been cancelled. -/
  cancelled : Nat → Bool
  /-- The deadline has passed. -/
  late : Nat → Bool

namespace Readings

/-- Nothing ever interferes. -/
def quiet : Readings :=
  ⟨fun _ => false, fun _ => false⟩

/-- The signal and the clock say the same at every check. -/
def constant (cancelled late : Bool) : Readings :=
  ⟨fun _ => cancelled, fun _ => late⟩

end Readings

/-- The limits of a search together with the readings they depend on. -/
structure Limits where
  /-- Number of nodes the search may visit; 0 means any number. -/
  maxNodes : Nat
  /-- The search has a deadline. -/
  hasDeadline : Bool
  readings : Readings

namespace Limits

/-- Number of nodes between two looks at the clock. -/
def clockInterval : Nat := 256

/-- No limits at all. -/
def none : Limits :=
  ⟨0, false, .quiet⟩

/-- The same limits with other readings. -/
def withReadings (limits : Limits) (readings : Readings) : Limits :=
  { limits with readings }

/-- The check made when `nodes` nodes have been visited: the cancel signal comes
first, then the budget of nodes, then the clock, which is looked at only now and
then. -/
def verdict (limits : Limits) (nodes : Nat) : Option Stop :=
  if limits.readings.cancelled nodes then some .cancelled
  else if 0 < limits.maxNodes ∧ limits.maxNodes ≤ nodes then some .nodeLimit
  else if limits.hasDeadline ∧ nodes % clockInterval = 0 ∧ limits.readings.late nodes then
    some .timeout
  else Option.none

/-- Without limits no check stops a search. -/
@[simp] theorem verdict_none (nodes : Nat) : none.verdict nodes = Option.none := by
  simp [verdict, none, Readings.quiet]

end Limits
end DateScheduling
