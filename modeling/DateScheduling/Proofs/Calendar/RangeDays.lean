import DateScheduling.Calendar.DateRange

/-!
# The days of a range

Walking through a range one calendar step at a time visits every date between
its ends and no other.

Main results:

- Theorem `Date.le_of_next?_eq_none`: only the last date has no day after it.
- Theorem `DateRange.mem_days_iff`: the days of a range are the dates in it.
- Theorem `DateRange.length_days`: there are as many of them as the day numbers of
  the ends say.
-/

namespace DateScheduling

namespace Date

/-! ## Calendar order as an order -/

theorem le_refl (a : Date) : a ≤ a :=
  lt_irrefl a

theorem le_of_lt {a b : Date} (h : a < b) : a ≤ b := by
  rw [← ordinal_le_ordinal]
  rw [← ordinal_lt_ordinal] at h
  omega

theorem le_trans {a b c : Date} (hab : a ≤ b) (hbc : b ≤ c) : a ≤ c := by
  rw [← ordinal_le_ordinal] at hab hbc ⊢
  omega

theorem lt_of_le_of_lt {a b c : Date} (hab : a ≤ b) (hbc : b < c) : a < c := by
  rw [← ordinal_le_ordinal] at hab
  rw [← ordinal_lt_ordinal] at hbc ⊢
  omega

theorem le_antisymm {a b : Date} (hab : a ≤ b) (hba : b ≤ a) : a = b := by
  rw [← ordinal_le_ordinal] at hab hba
  rw [← ordinal_inj]
  omega

/-- A date that is not later than another is the same or earlier. -/
theorem le_iff_eq_or_lt {a b : Date} : a ≤ b ↔ a = b ∨ a < b := by
  rw [← ordinal_le_ordinal, ← ordinal_inj, ← ordinal_lt_ordinal]
  omega

instance : Std.Asymm (α := Date) (· < ·) where
  asymm a _ hab hba := lt_irrefl a (lt_trans hab hba)

/-! ## Steps of the calendar -/

/-- No date lies between a date and the day after it. -/
theorem next?_le_of_lt {d e f : Date} (hnext : d.next? = some e) (h : d < f) : e ≤ f := by
  have hord := ordinal_next? hnext
  rw [← ordinal_lt_ordinal] at h
  rw [← ordinal_le_ordinal]
  omega

/-- Only the last date has no day after it. -/
theorem le_of_next?_eq_none {d : Date} (h : d.next? = none) (e : Date) : e ≤ d := by
  unfold next? at h
  split at h
  · cases h
  · rename_i hday
    split at h
    · cases h
    · rename_i hmonth
      split at h
      · cases h
      · rename_i hyear
        intro hlt
        have hd := d.isDay
        have he := e.isDay
        unfold IsDay at hd he
        rcases hlt with hlt | ⟨hsame, hlt | ⟨hmonths, hlt⟩⟩
        · omega
        · omega
        · rw [hsame, hmonths] at hday
          omega

/-- The dates from the next day on are the later dates. -/
theorem exists_next?_le_iff {d e : Date} : (∃ f ∈ d.next?, f ≤ e) ↔ d < e := by
  constructor
  · intro h
    rcases h with ⟨f, hf, hfe⟩
    have hlt := lt_of_next? hf
    rw [← ordinal_lt_ordinal] at hlt ⊢
    rw [← ordinal_le_ordinal] at hfe
    omega
  · intro h
    cases hf : d.next? with
    | none => exact absurd h (le_of_next?_eq_none hf e)
    | some f => exact ⟨f, rfl, next?_le_of_lt hf h⟩

end Date

/-! ## Walks and ranges -/

/-- A walk visits every date from the next one to the last. -/
theorem DayWalk.mem_collect_iff (visited : List Date) (w : DayWalk) (d : Date) :
    d ∈ w.collect visited ↔ d ∈ visited ∨ ∃ u ∈ w.upcoming, u ≤ d ∧ d ≤ w.last := by
  fun_induction collect visited w with
  | case1 visited w hstop =>
      rw [List.mem_reverse]
      constructor
      · exact Or.inl
      · intro h
        rcases h with hvisited | ⟨u, hu, hud, hlast⟩
        · exact hvisited
        · -- The walk ended because its next date lies beyond the last.
          rw [next?, hu] at hstop
          have hle : u ≤ w.last := Date.le_trans hud hlast
          simp [hle] at hstop
  | case2 visited w e rest hnext ih =>
      rcases w with ⟨upcoming, last⟩
      cases upcoming with
      | none => simp [next?] at hnext
      | some u =>
          simp only [next?] at hnext
          split at hnext
          · rename_i hle
            simp only [Option.some.injEq, Prod.mk.injEq] at hnext
            rcases hnext with ⟨rfl, rfl⟩
            -- The date is this one or among those from the next day on.
            rw [ih, List.mem_cons, or_assoc, or_left_comm]
            apply or_congr_right
            have hrest : (∃ f ∈ u.next?, f ≤ d ∧ d ≤ last) ↔ u < d ∧ d ≤ last := by
              rw [← Date.exists_next?_le_iff]
              simp only [← and_assoc, exists_and_right]
            rw [hrest]
            constructor
            · intro h
              rcases h with heq | ⟨hlt, hlast⟩
              · rw [heq]
                exact ⟨u, rfl, Date.le_refl u, hle⟩
              · exact ⟨u, rfl, Date.le_of_lt hlt, hlast⟩
            · intro h
              rcases h with ⟨f, hf, hfd, hlast⟩
              cases hf
              rcases Date.le_iff_eq_or_lt.1 hfd with heq | hlt
              · exact Or.inl heq.symm
              · exact Or.inr ⟨hlt, hlast⟩
          · cases hnext

/-- The days of a range are the dates in it. -/
theorem DateRange.mem_days_iff {r : DateRange} {d : Date} : d ∈ r.days ↔ d ∈ r := by
  unfold days walk
  rw [DayWalk.mem_collect_iff]
  constructor
  · intro h
    rcases h with h | ⟨u, hu, hud, hlast⟩
    · cases h
    · cases hu
      exact ⟨hud, hlast⟩
  · intro h
    exact Or.inr ⟨r.first, rfl, h.1, h.2⟩

/-! ## Counting days -/

/-- A walk ends when no day remains to be visited. -/
theorem DayWalk.remaining_of_next?_eq_none {w : DayWalk} (h : w.next? = none) :
    w.remaining = 0 := by
  rcases w with ⟨upcoming, last⟩
  cases upcoming with
  | none => rfl
  | some d =>
      simp only [next?, ite_eq_right_iff, reduceCtorEq, imp_false] at h
      rw [← Date.ordinal_le_ordinal] at h
      simp only [remaining]
      omega

/-- Visiting a day leaves one day fewer to be visited. -/
theorem DayWalk.remaining_of_next? {w rest : DayWalk} {d : Date}
    (h : w.next? = some (d, rest)) : w.remaining = rest.remaining + 1 := by
  rcases w with ⟨upcoming, last⟩
  cases upcoming with
  | none => simp [next?] at h
  | some e =>
      simp only [next?] at h
      split at h
      · rename_i hle
        simp only [Option.some.injEq, Prod.mk.injEq] at h
        rcases h with ⟨rfl, rfl⟩
        have hlast := Date.ordinal_le_ordinal.2 hle
        cases hnext : e.next? with
        | none =>
            -- The calendar ends here, so this was the last day of the walk.
            have hend := Date.ordinal_le_ordinal.2 (Date.le_of_next?_eq_none hnext last)
            simp only [remaining]
            omega
        | some f =>
            have hord := Date.ordinal_next? hnext
            simp only [remaining]
            omega
      · cases h

/-- A walk visits as many days as remain. -/
theorem DayWalk.length_collect (visited : List Date) (w : DayWalk) :
    (w.collect visited).length = visited.length + w.remaining := by
  fun_induction collect visited w with
  | case1 visited w hstop =>
      rw [List.length_reverse, remaining_of_next?_eq_none hstop, Nat.add_zero]
  | case2 visited w d rest hnext ih =>
      rw [ih, List.length_cons, remaining_of_next? hnext]
      omega

/-- A range has as many days as the day numbers of its ends say. -/
theorem DateRange.length_days (r : DateRange) : r.days.length = r.length := by
  unfold days walk length
  rw [DayWalk.length_collect, List.length_nil, Nat.zero_add]
  simp only [DayWalk.remaining]
  congr 1
  omega

end DateScheduling
