import DateScheduling.Proofs.Network.Filing

/-!
# Consistent assignments

An assignment of the first events is consistent when no constraint is violated;
constraints that mention an event without a date count as satisfied.  For the
dates given so far this comes down to the bounds of single events and to pairs
of events.

Main results:

- Theorem `consistent_iff`: consistency, event by event and pair by pair.
- Theorem `consistent_of_append`: the first dates of a consistent assignment are
  consistent.
- Theorem `consistent_append_singleton`: when one more date keeps an assignment
  consistent.
-/

namespace DateScheduling

/-- Every constraint of the list holds of the dates given so far. -/
def consistent (cs : List Constraint) (assignment : Array Date) : Bool :=
  cs.all (·.isSatisfiedBy assignment)

variable {cs : List Constraint}

/-- A constraint looks at the dates of the events it mentions only. -/
theorem Constraint.isSatisfiedBy_congr {c : Constraint} {a b : Array Date}
    (h : ∀ i, c.Mentions i → a[i]? = b[i]?) : c.isSatisfiedBy a = c.isSatisfiedBy b := by
  cases c with
  | unary var op bound =>
      have hvar := h var (Or.inl rfl)
      simp only [isSatisfiedBy, hvar]
  | binary left op right =>
      have hleft := h left (Or.inl rfl)
      have hright := h right (Or.inr rfl)
      simp only [isSatisfiedBy, hleft, hright]

/-- A constraint that mentions an event without a date counts as satisfied. -/
theorem Constraint.isSatisfiedBy_of_size_le {c : Constraint} {a : Array Date}
    (h : a.size ≤ c.maxIndex) : c.isSatisfiedBy a = true := by
  cases c with
  | unary var op bound =>
      simp only [maxIndex] at h
      simp [isSatisfiedBy, Array.getElem?_eq_none h]
  | binary left op right =>
      simp only [maxIndex] at h
      rcases Nat.le_total left right with hle | hle
      · rw [Nat.max_eq_right hle] at h
        simp [isSatisfiedBy, Array.getElem?_eq_none h]
      · rw [Nat.max_eq_left hle] at h
        simp [isSatisfiedBy, Array.getElem?_eq_none h]

/-- Dates given later do not matter to a constraint that is complete. -/
theorem Constraint.isSatisfiedBy_append {c : Constraint} {l t : List Date}
    (h : c.maxIndex < l.length) :
    c.isSatisfiedBy (l ++ t).toArray = c.isSatisfiedBy l.toArray := by
  apply isSatisfiedBy_congr
  intro i hi
  have hle := le_maxIndex hi
  rw [List.getElem?_toArray, List.getElem?_toArray, List.getElem?_append_left (by omega)]

/-- The first dates of a consistent assignment are consistent. -/
theorem consistent_of_append {l t : List Date} (h : consistent cs (l ++ t).toArray = true) :
    consistent cs l.toArray = true := by
  unfold consistent at *
  rw [List.all_eq_true] at *
  intro c hc
  by_cases hmax : c.maxIndex < l.length
  · rw [← Constraint.isSatisfiedBy_append hmax]
    exact h c hc
  · apply Constraint.isSatisfiedBy_of_size_le
    rw [List.size_toArray]
    omega

/-! ## Events and pairs of events -/

/-- Consistency, event by event and pair by pair. -/
theorem consistent_iff {a : Array Date} : consistent cs a = true ↔
    (∀ i v, a[i]? = some v → MeetsBounds cs i v) ∧
      ∀ i j v w, a[i]? = some v → a[j]? = some w → Compatible cs i v j w := by
  unfold consistent
  rw [List.all_eq_true]
  constructor
  · intro h
    constructor
    · intro i v hi op bound hmem
      have hc := h _ hmem
      simpa [Constraint.isSatisfiedBy, hi] using hc
    · intro i j v w hi hj op
      constructor
      · intro hmem
        have hc := h _ hmem
        simpa [Constraint.isSatisfiedBy, hi, hj] using hc
      · intro hmem
        have hc := h _ hmem
        simpa [Constraint.isSatisfiedBy, hi, hj] using hc
  · rintro ⟨hbounds, hpairs⟩ c hc
    cases c with
    | unary var op bound =>
        simp only [Constraint.isSatisfiedBy]
        cases hvar : a[var]? with
        | none => exact Comparison.check_none_left ..
        | some v => exact hbounds var v hvar op bound hc
    | binary left op right =>
        simp only [Constraint.isSatisfiedBy]
        cases hleft : a[left]? with
        | none => exact Comparison.check_none_left ..
        | some v =>
            cases hright : a[right]? with
            | none => exact Comparison.check_none_right ..
            | some w => exact (hpairs left right v w hleft hright op).1 hc

/-- No constraint is violated before the first date is given. -/
theorem consistent_empty (cs : List Constraint) : consistent cs #[] = true := by
  rw [consistent_iff]
  simp

/-- The dates of an assignment with one more date. -/
theorem getElem?_append_singleton_iff {l : List Date} {w v : Date} {i : Nat} :
    (l ++ [w])[i]? = some v ↔ l[i]? = some v ∨ i = l.length ∧ v = w := by
  rw [List.getElem?_append]
  by_cases hlt : i < l.length
  · rw [if_pos hlt]
    constructor
    · exact Or.inl
    · intro h
      rcases h with h | ⟨rfl, -⟩
      · exact h
      · exact absurd hlt (Nat.lt_irrefl _)
  · rw [if_neg hlt, List.getElem?_eq_none (Nat.le_of_not_lt hlt), List.getElem?_singleton]
    by_cases heq : i = l.length
    · simp [heq, eq_comm]
    · have hpos : i - l.length ≠ 0 := by omega
      simp [heq, hpos]

/-- One more date keeps an assignment consistent when it is within the bounds of
its event and compatible with all dates before it and with itself. -/
theorem consistent_append_singleton {l : List Date} {w : Date}
    (hl : consistent cs l.toArray = true) (hbounds : MeetsBounds cs l.length w)
    (hbefore : ∀ (i : Nat) v, l[i]? = some v → Compatible cs i v l.length w)
    (hself : Compatible cs l.length w l.length w) :
    consistent cs (l ++ [w]).toArray = true := by
  rcases consistent_iff.1 hl with ⟨holdBounds, holdPairs⟩
  simp only [List.getElem?_toArray] at holdBounds holdPairs
  rw [consistent_iff]
  simp only [List.getElem?_toArray, getElem?_append_singleton_iff]
  constructor
  · intro i v hi
    rcases hi with hold | ⟨rfl, rfl⟩
    · exact holdBounds i v hold
    · exact hbounds
  · intro i j v v' hi hj
    rcases hi with hi | ⟨rfl, rfl⟩ <;> rcases hj with hj | ⟨rfl, rfl⟩
    · exact holdPairs i j v v' hi hj
    · exact hbefore i v hi
    · exact (hbefore j v' hj).symm
    · exact hself

end DateScheduling
