import DateScheduling.Proofs.Solver.Pruning

/-!
# What a solution satisfies

A partial assignment is never blamed for a constraint that mentions an event without a
date.  The test for solutions asks for one date per event, so none of the events of the
model is left without a date, but it goes through the constraints with the same rule.  A
constraint of an unchecked model may mention an event that the model does not have, and
such a constraint is passed over.

Main results:

- Theorem `Constraint.isSatisfiedBy_iff`: a constraint counts as satisfied when it holds
  of the dates it compares, or lacks one of them.
- Theorem `Model.isSolution_exact`: what the test for solutions accepts.
- Theorem `Model.isSolution_of_missing_event`: it accepts dates for a constraint that
  compares none of them.
-/

namespace DateScheduling

namespace Constraint

variable {c : Constraint} {a : Array Date}

/-- Every event of the constraint has a date, and the comparison holds of these dates, or
of the date and the fixed one. -/
def HoldsOf (c : Constraint) (a : Array Date) : Prop :=
  match c with
  | unary var op bound => ∃ d, a[var]? = some d ∧ op.holds d bound = true
  | binary left op right =>
      ∃ d e, a[left]? = some d ∧ a[right]? = some e ∧ op.holds d e = true

/-- A constraint that holds of the dates has all its events among them. -/
theorem HoldsOf.maxIndex_lt (h : c.HoldsOf a) : c.maxIndex < a.size := by
  cases c with
  | unary var op bound =>
      rcases h with ⟨d, hd, -⟩
      exact (Array.getElem?_eq_some_iff.1 hd).1
  | binary left op right =>
      rcases h with ⟨d, e, hd, he, -⟩
      have hleft := (Array.getElem?_eq_some_iff.1 hd).1
      have hright := (Array.getElem?_eq_some_iff.1 he).1
      exact Nat.max_lt.2 ⟨hleft, hright⟩

/-- With a date for each of its events, a constraint counts as satisfied when it holds of
the dates. -/
theorem isSatisfiedBy_iff_holdsOf (h : c.maxIndex < a.size) :
    c.isSatisfiedBy a = true ↔ c.HoldsOf a := by
  cases c with
  | unary var op bound =>
      simp only [maxIndex] at h
      simp [isSatisfiedBy, HoldsOf, h]
  | binary left op right =>
      rcases Nat.max_lt.1 h with ⟨hleft, hright⟩
      simp [isSatisfiedBy, HoldsOf, hleft, hright]

/-- A constraint counts as satisfied when it holds of the dates it compares, or lacks one
of them. -/
theorem isSatisfiedBy_iff :
    c.isSatisfiedBy a = true ↔ (c.maxIndex < a.size → c.HoldsOf a) := by
  by_cases h : c.maxIndex < a.size
  · rw [isSatisfiedBy_iff_holdsOf h]
    exact (imp_iff_right h).symm
  · rw [isSatisfiedBy_of_size_le (Nat.le_of_not_lt h)]
    simp [h]

end Constraint

namespace Model

/-- The test for solutions, date by date and constraint by constraint. -/
theorem isSolution_iff_holdsOf {m : Model} {a : Array Date} :
    m.isSolution a = true ↔ a.size = m.eventCount ∧
      (∀ d ∈ a, m.range.first ≤ d ∧ d ≤ m.range.last) ∧
      ∀ c ∈ m.constraints, c.maxIndex < m.eventCount → c.HoldsOf a := by
  rw [isSolution_iff]
  apply and_congr_right
  intro hsize
  rw [← hsize]
  refine and_congr ?_ ?_
  · constructor
    · intro h d hd
      rcases Array.mem_iff_getElem?.1 hd with ⟨i, hi⟩
      exact h i d hi
    · intro h i d hi
      exact h d (Array.mem_of_getElem? hi)
  · unfold consistent
    rw [List.all_eq_true]
    simp only [Constraint.isSatisfiedBy_iff]

/-- For every model, checked or not, and all dates, the dates are accepted exactly when
there is one for each event, all lie in the range, and every constraint between events
of the model holds of its dates.  If no constraint mentions an event beyond these, this
means that every constraint holds of its dates; dates that are accepted satisfy every
constraint in this sense only then. -/
theorem isSolution_exact (m : Model) (a : Array Date) :
    (m.isSolution a = true ↔ a.size = m.eventCount ∧
      (∀ d ∈ a, m.range.first ≤ d ∧ d ≤ m.range.last) ∧
      ∀ c ∈ m.constraints, c.maxIndex < m.eventCount → c.HoldsOf a) ∧
    ((∀ c ∈ m.constraints, c.maxIndex < m.eventCount) →
      (m.isSolution a = true ↔ a.size = m.eventCount ∧
        (∀ d ∈ a, m.range.first ≤ d ∧ d ≤ m.range.last) ∧ ∀ c ∈ m.constraints, c.HoldsOf a)) ∧
    (m.isSolution a = true →
      ((∀ c ∈ m.constraints, c.HoldsOf a) ↔ ∀ c ∈ m.constraints, c.maxIndex < m.eventCount)) := by
  refine ⟨isSolution_iff_holdsOf, ?_, ?_⟩
  · intro hcs
    rw [isSolution_iff_holdsOf]
    refine and_congr_right fun _ => and_congr_right fun _ => ?_
    exact forall₂_congr fun c hc => imp_iff_right (hcs c hc)
  · intro haccepted
    rcases isSolution_iff_holdsOf.1 haccepted with ⟨hsize, -, hholds⟩
    constructor
    · intro hall c hc
      rw [← hsize]
      exact (hall c hc).maxIndex_lt
    · intro hcs c hc
      exact hholds c hc (hcs c hc)

/-- Two events over two days, the first before the second. -/
theorem isSolution_exact_of_two :
    let first : Date := ⟨2024, 2, 28, by decide⟩
    let last : Date := ⟨2024, 2, 29, by decide⟩
    let m : Model := ⟨2, ⟨first, last⟩, [.binary 0 .before 1, .unary 1 .equal last]⟩
    (∀ c ∈ m.constraints, c.maxIndex < m.eventCount) ∧ m.isSolution #[first, last] = true ∧
      ((∀ c ∈ m.constraints, c.HoldsOf #[first, last]) ↔
        ∀ c ∈ m.constraints, c.maxIndex < m.eventCount) ∧
      ∀ c ∈ m.constraints, c.HoldsOf #[first, last] := by
  intro first last m
  have hcs : ∀ c ∈ m.constraints, c.maxIndex < m.eventCount := by decide
  have hsolution : m.isSolution #[first, last] = true := by decide +kernel
  rcases isSolution_exact m #[first, last] with ⟨-, hwithin, haccepted⟩
  exact ⟨hcs, hsolution, haccepted hsolution, ((hwithin hcs).1 hsolution).2.2⟩

/-- One event over two days, with a constraint on an event 3: any date in the range is
accepted, although there is no date that the constraint could hold of. -/
theorem isSolution_of_missing_event :
    let first : Date := ⟨2024, 1, 1, by decide⟩
    let last : Date := ⟨2024, 1, 2, by decide⟩
    let m : Model := ⟨1, ⟨first, last⟩, [.unary 3 .equal last]⟩
    m.isSolution #[first] = true ∧
      ¬ ((#[first] : Array Date).size = m.eventCount ∧
        (∀ d ∈ (#[first] : Array Date), m.range.first ≤ d ∧ d ≤ m.range.last) ∧
        ∀ c ∈ m.constraints, c.HoldsOf #[first]) := by
  intro first last m
  refine ⟨by decide +kernel, ?_⟩
  intro h
  rcases h with ⟨-, -, hholds⟩
  have hlt := (hholds (.unary 3 .equal last) List.mem_cons_self).maxIndex_lt
  simp [Constraint.maxIndex] at hlt

end Model
end DateScheduling
