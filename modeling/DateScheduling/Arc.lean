import DateScheduling.Constraint

/-!
# Arcs

A constraint between two events is used in two directions.  The arc from
`head` to `tail` stands for the direction in which the dates of `head` need a
partner among the dates of `tail`.
-/

namespace DateScheduling

/-- A direction in which two events constrain each other. -/
structure Arc where
  head : Nat
  tail : Nat
deriving DecidableEq, Hashable

namespace Arc

/-- The same arc in the other direction. -/
def reversed (a : Arc) : Arc :=
  ⟨a.tail, a.head⟩

/-- Arcs are ordered by their heads, then by their tails. -/
def precedes (a b : Arc) : Bool :=
  a.head < b.head || (a.head == b.head && a.tail ≤ b.tail)

/-- Arcs in order; repeated arcs stay. -/
def sort (arcs : List Arc) : List Arc :=
  arcs.mergeSort precedes

end Arc

/-- The arcs of a constraint: both directions between two events, starting from
the left-hand one. -/
def Constraint.arcs : Constraint → List Arc
  | unary .. => []
  | binary left _ right => [⟨left, right⟩, ⟨right, left⟩]

end DateScheduling
