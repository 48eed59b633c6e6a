import DateScheduling.Constraint
import DateScheduling.Calendar.DateRange

/-!
# Models

A model asks for one date per event, all in one range, such that every
constraint holds.  Before a model is used it is checked: its range must not be
inverted, and its constraints must only mention events it has.

Main results:

- Theorem `Model.validate_eq_ok_iff`: a model passes the check exactly when its
  range is in order and every constraint stays within its events.
-/

namespace DateScheduling

/-- What can be wrong with a model. -/
inductive ModelError where
  /-- The first date of the range is after the last. -/
  | invalidRange (start stop : Date)
  /-- The constraint at a position mentions an event the model does not have. -/
  | eventOutOfRange (position index eventCount : Nat)
deriving DecidableEq

/-- What is reported about a model that fails the check. -/
def ModelError.message : ModelError → String
  | invalidRange start stop =>
      "invalid date range: start " ++ start.toText ++ " is after end " ++ stop.toText
  | eventOutOfRange position index eventCount =>
      "constraint " ++ position.repr ++ " references variable " ++ index.repr ++
        ", but the model has " ++ eventCount.repr ++ " variables"

/-- Events to be dated within a range under constraints. -/
structure Model where
  /-- Number of events. -/
  eventCount : Nat
  /-- The days every event may take at first. -/
  range : DateRange
  /-- The constraints, in the order they were added. -/
  constraints : List Constraint
deriving DecidableEq

namespace Model

/-- A model without constraints. -/
def unconstrained (eventCount : Nat) (range : DateRange) : Model :=
  ⟨eventCount, range, []⟩

/-- Replace all constraints. -/
def withConstraints (m : Model) (constraints : List Constraint) : Model :=
  { m with constraints }

/-- Add a constraint after the others. -/
def addConstraint (m : Model) (c : Constraint) : Model :=
  { m with constraints := m.constraints ++ [c] }

/-- Compare an event with a fixed date. -/
def addUnary (m : Model) (var : Nat) (op : Comparison) (bound : Date) : Model :=
  m.addConstraint (.unary var op bound)

/-- Compare two events. -/
def addBinary (m : Model) (left : Nat) (op : Comparison) (right : Nat) : Model :=
  m.addConstraint (.binary left op right)

/-- Number of constraints. -/
def constraintCount (m : Model) : Nat :=
  m.constraints.length

/-- Number of days in the range. -/
def rangeLength (m : Model) : Nat :=
  m.range.length

/-- The first constraint that mentions an event beyond the first `n`, with its
position. -/
def firstOutOfRange? (n : Nat) (constraints : List Constraint) : Option (Constraint × Nat) :=
  constraints.zipIdx.find? fun (c, _) => n ≤ c.maxIndex

/-- Check the range, then the constraints in order. -/
def validate (m : Model) : Except ModelError Unit :=
  if m.range.last < m.range.first then
    .error (.invalidRange m.range.first m.range.last)
  else
    match firstOutOfRange? m.eventCount m.constraints with
    | some (c, position) => .error (.eventOutOfRange position c.maxIndex m.eventCount)
    | none => .ok ()

/-- The dates solve the model: one per event, all in the range, and every
constraint holds. -/
def isSolution (m : Model) (assignment : Array Date) : Bool :=
  assignment.size == m.eventCount &&
    assignment.all (fun d => d ∈ m.range) &&
    m.constraints.all (·.isSatisfiedBy assignment)

/-! ## Basic facts -/

/-- No constraint is out of range exactly when each stays within the events. -/
theorem firstOutOfRange?_eq_none_iff {n : Nat} {constraints : List Constraint} :
    firstOutOfRange? n constraints = none ↔ ∀ c ∈ constraints, c.maxIndex < n := by
  simp only [firstOutOfRange?, List.find?_eq_none, decide_eq_true_eq, Nat.not_le, Prod.forall]
  constructor
  · intro h c hc
    obtain ⟨i, hi, rfl⟩ := List.getElem_of_mem hc
    exact h _ i (List.mem_zipIdx_iff_getElem?.2 (by simp [hi]))
  · intro h c i hc
    exact h c (List.fst_mem_of_mem_zipIdx hc)

/-- A model passes the check exactly when its range is in order and every
constraint stays within its events. -/
theorem validate_eq_ok_iff {m : Model} : m.validate = .ok () ↔
    m.range.first ≤ m.range.last ∧ ∀ c ∈ m.constraints, c.maxIndex < m.eventCount := by
  rw [← firstOutOfRange?_eq_none_iff]
  unfold validate
  by_cases hrange : m.range.last < m.range.first
  · simp [hrange, ← Date.not_lt]
  · cases hfind : firstOutOfRange? m.eventCount m.constraints with
    | none => simp [hrange, ← Date.not_lt]
    | some p => simp [hrange]

end Model
end DateScheduling
