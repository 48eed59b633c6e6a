import DateScheduling.Comparison

/-!
# Constraints between events

Events are numbered from 0 and each is to be given a date.  A constraint
compares the date of one event with a fixed date, or the dates of two events.
An assignment gives dates to the first events only; a constraint that mentions
an event without a date counts as satisfied.

Main results:

- Theorem `Constraint.le_maxIndex`: every event of a constraint is covered by
  its largest index.
-/

namespace DateScheduling

/-- A constraint on the dates of one or two events. -/
inductive Constraint where
  /-- The date of `var` compared with a fixed date. -/
  | unary (var : Nat) (op : Comparison) (bound : Date)
  /-- The date of `left` compared with the date of `right`. -/
  | binary (left : Nat) (op : Comparison) (right : Nat)
deriving DecidableEq

namespace Constraint

/-- Number of events the constraint mentions. -/
def arity : Constraint → Nat
  | unary .. => 1
  | binary .. => 2

/-- The comparison of the constraint. -/
def comparison : Constraint → Comparison
  | unary _ op _ => op
  | binary _ op _ => op

/-- The event on the left-hand side. -/
def left : Constraint → Nat
  | unary var _ _ => var
  | binary left _ _ => left

/-- The event on the right-hand side, if there is one. -/
def right? : Constraint → Option Nat
  | unary .. => none
  | binary _ _ right => some right

/-- The fixed date on the right-hand side, if there is one. -/
def bound? : Constraint → Option Date
  | unary _ _ bound => some bound
  | binary .. => none

/-- The largest event the constraint mentions. -/
def maxIndex : Constraint → Nat
  | unary var _ _ => var
  | binary left _ right => max left right

/-- The constraint mentions an event. -/
def Mentions (c : Constraint) (var : Nat) : Prop :=
  c.left = var ∨ c.right? = some var

/-- The comparison of the constraint, applied to two dates of which either may
be unset. -/
def isSatisfied (c : Constraint) (left right : Option Date) : Bool :=
  c.comparison.check left right

/-- The constraint allows a date for its left-hand event, judged by its fixed
date alone. -/
def allows (c : Constraint) (d : Date) : Bool :=
  c.isSatisfied (some d) c.bound?

/-- The constraint is satisfied by the dates of the first events. -/
def isSatisfiedBy (c : Constraint) (assignment : Array Date) : Bool :=
  match c with
  | unary var op bound => op.check assignment[var]? (some bound)
  | binary left op right => op.check assignment[left]? assignment[right]?

/-- An event as it is written. -/
def eventText (var : Nat) : String :=
  "x" ++ var.repr

/-- A constraint as it is written. -/
def toText : Constraint → String
  | unary var op bound => eventText var ++ " " ++ op.symbol ++ " " ++ bound.toText
  | binary left op right => eventText left ++ " " ++ op.symbol ++ " " ++ eventText right

/-! ## Basic facts -/

/-- Every event of a constraint is covered by its largest index. -/
theorem le_maxIndex {c : Constraint} {var : Nat} (h : c.Mentions var) : var ≤ c.maxIndex := by
  cases c with
  | unary v op bound =>
      rcases h with rfl | h
      · exact Nat.le_refl _
      · simp [right?] at h
  | binary l op r =>
      rcases h with rfl | h
      · exact Nat.le_max_left ..
      · simp only [right?, Option.some.injEq] at h
        subst h
        exact Nat.le_max_right ..

end Constraint
end DateScheduling
