import DateScheduling.Propagation.Pass

/-!
# Node consistency

Every constraint with a fixed date takes the dates it forbids out of the domain
of its event.

Main results:

- Theorem `totalSize_applyUnary`: the dates left and the dates counted add up.
-/

namespace DateScheduling

/-- The constraints with a fixed date, event by event. -/
def Network.unaryPlan (net : Network) : List (Nat × Constraint) :=
  net.unary.toList.zipIdx.flatMap fun (constraints, var) => constraints.map (var, ·)

/-- Apply constraints to the domains of their events one after the other, and
count the dates that go, up to the first event without a domain. -/
def applyUnary : List (Nat × Constraint) → Store → Nat → Store × Except Fault Nat
  | [], s, removed => (s, .ok removed)
  | (var, c) :: rest, s, removed =>
      match s.filter? var c.allows with
      | none => (s, .error (.noDomain var))
      | some (s', k) => applyUnary rest s' (removed + k)

/-- Prune a store by the constraints with a fixed date. -/
def nodeConsistency (net : Network) (s : Store) : Pass Nat :=
  match applyUnary net.unaryPlan s 0 with
  | (s', .ok removed) => ⟨s', #[.nodeConsistent removed s'.totalSize], .ok removed⟩
  | (s', .error fault) => ⟨s', #[], .error fault⟩

/-- The dates left and the dates counted add up. -/
theorem totalSize_applyUnary {plan : List (Nat × Constraint)} {s s' : Store}
    {removed removed' : Nat} (h : applyUnary plan s removed = (s', .ok removed')) :
    s'.totalSize + removed' = s.totalSize + removed := by
  induction plan generalizing s removed with
  | nil =>
      simp only [applyUnary, Prod.mk.injEq, Except.ok.injEq] at h
      obtain ⟨rfl, rfl⟩ := h
      rfl
  | cons step rest ih =>
      obtain ⟨var, c⟩ := step
      simp only [applyUnary] at h
      split at h
      · simp at h
      · rename_i t k hfilter
        have hstep := Store.totalSize_filter? hfilter
        have hrest := ih h
        omega

end DateScheduling
