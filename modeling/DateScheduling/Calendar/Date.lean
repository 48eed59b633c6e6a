import DateScheduling.Calendar.Gregorian

/-!
# Calendar dates

A date is a day of the Gregorian calendar between the first day of year
-262143 and the last day of year 262142.  Dates are compared as
(year, month, day); the day number `Date.ordinal` gives the same order.

Main results:

- Theorem `Date.ordinal_lt_ordinal`: dates and day numbers are ordered alike.
- Theorem `Date.ordinal_next?`: the day after a date has the next day number.
-/

namespace DateScheduling

open Calendar

/-- The earliest year that has dates. -/
def minYear : Int := -262143

/-- The latest year that has dates. -/
def maxYear : Int := 262142

/-- Year, month and day name a day that exists. -/
def IsDay (year : Int) (month day : Nat) : Prop :=
  minYear ≤ year ∧ year ≤ maxYear ∧ 1 ≤ month ∧ month ≤ 12 ∧
    1 ≤ day ∧ day ≤ monthLength year month

instance (year : Int) (month day : Nat) : Decidable (IsDay year month day) := by
  unfold IsDay
  infer_instance

/-- A calendar date. -/
structure Date where
  year : Int
  month : Nat
  day : Nat
  isDay : IsDay year month day
deriving DecidableEq

namespace Date

/-- The date with the given fields, if there is one. -/
def ofFields? (year : Int) (month day : Nat) : Option Date :=
  if h : IsDay year month day then some ⟨year, month, day, h⟩ else none

/-! ## Calendar order -/

/-- Dates compare by year, then month, then day. -/
instance : LT Date where
  lt a b := a.year < b.year ∨
    a.year = b.year ∧ (a.month < b.month ∨ a.month = b.month ∧ a.day < b.day)

instance : LE Date where
  le a b := ¬ b < a

/-- Calendar order, spelled out. -/
theorem lt_iff {a b : Date} : a < b ↔ a.year < b.year ∨
    a.year = b.year ∧ (a.month < b.month ∨ a.month = b.month ∧ a.day < b.day) :=
  Iff.rfl

instance (a b : Date) : Decidable (a < b) :=
  inferInstanceAs (Decidable (a.year < b.year ∨
    a.year = b.year ∧ (a.month < b.month ∨ a.month = b.month ∧ a.day < b.day)))

instance (a b : Date) : Decidable (a ≤ b) :=
  inferInstanceAs (Decidable (¬ b < a))

/-- Number of the day, counted from the last day before year 0. -/
def ordinal (d : Date) : Int :=
  daysBeforeYear d.year + daysBeforeMonth d.year d.month + d.day

/-- Every day belongs to its year. -/
theorem ordinal_le_year_end (d : Date) :
    d.ordinal ≤ daysBeforeYear d.year + yearLength d.year := by
  obtain ⟨_, _, _, hmonth, _, hday⟩ := d.isDay
  have hend := daysBeforeMonth_add_le d.year (Nat.lt_succ_of_le hmonth)
  rw [daysBeforeMonth_thirteen] at hend
  unfold ordinal
  omega

/-- Every day comes after the start of its year. -/
theorem year_start_lt_ordinal (d : Date) : daysBeforeYear d.year < d.ordinal := by
  obtain ⟨_, _, _, _, hday, _⟩ := d.isDay
  unfold ordinal
  omega

/-- An earlier date has a smaller day number. -/
theorem ordinal_lt_of_lt {a b : Date} (h : a < b) : a.ordinal < b.ordinal := by
  rcases h with hyear | ⟨hyear, hmonth | ⟨hmonth, hday⟩⟩
  · have h1 := ordinal_le_year_end a
    have h2 := year_start_lt_ordinal b
    have h3 := daysBeforeYear_add_le hyear
    omega
  · have h1 := daysBeforeMonth_add_le a.year hmonth
    obtain ⟨_, _, _, _, _, ha⟩ := a.isDay
    obtain ⟨_, _, _, _, hb, _⟩ := b.isDay
    unfold ordinal
    rw [← hyear]
    omega
  · unfold ordinal
    rw [hyear, hmonth]
    omega

/-- Two dates are ordered or equal. -/
theorem lt_or_eq_or_gt (a b : Date) : a < b ∨ a = b ∨ b < a := by
  obtain ⟨ya, ma, da, ha⟩ := a
  obtain ⟨yb, mb, db, hb⟩ := b
  simp only [lt_iff, mk.injEq]
  omega

/-- Dates and day numbers are ordered alike. -/
@[simp] theorem ordinal_lt_ordinal {a b : Date} : a.ordinal < b.ordinal ↔ a < b := by
  constructor
  · intro h
    rcases lt_or_eq_or_gt a b with hlt | heq | hgt
    · exact hlt
    · subst heq
      omega
    · have := ordinal_lt_of_lt hgt
      omega
  · exact ordinal_lt_of_lt

@[simp] theorem ordinal_le_ordinal {a b : Date} : a.ordinal ≤ b.ordinal ↔ a ≤ b := by
  change _ ↔ ¬ b < a
  rw [← ordinal_lt_ordinal]
  omega

/-- Day numbers tell dates apart. -/
@[simp] theorem ordinal_inj {a b : Date} : a.ordinal = b.ordinal ↔ a = b := by
  constructor
  · intro h
    rcases lt_or_eq_or_gt a b with hlt | heq | hgt
    · have := ordinal_lt_of_lt hlt
      omega
    · exact heq
    · have := ordinal_lt_of_lt hgt
      omega
  · intro h
    rw [h]

theorem lt_irrefl (a : Date) : ¬ a < a := by
  rw [← ordinal_lt_ordinal]
  omega

theorem lt_trans {a b c : Date} (hab : a < b) (hbc : b < c) : a < c := by
  rw [← ordinal_lt_ordinal] at hab hbc ⊢
  omega

theorem not_lt {a b : Date} : ¬ a < b ↔ b ≤ a :=
  Iff.rfl

/-! ## The day after -/

/-- A month goes on until its last day. -/
theorem isDay_nextDay (d : Date) (h : d.day < monthLength d.year d.month) :
    IsDay d.year d.month (d.day + 1) := by
  obtain ⟨hlow, hhigh, hfirst, hlast, _, _⟩ := d.isDay
  exact ⟨hlow, hhigh, hfirst, hlast, by omega, h⟩

/-- A year goes on until its last month. -/
theorem isDay_nextMonth (d : Date) (h : d.month < 12) : IsDay d.year (d.month + 1) 1 := by
  obtain ⟨hlow, hhigh, _, _, _, _⟩ := d.isDay
  refine ⟨hlow, hhigh, by omega, by omega, by omega, ?_⟩
  exact one_le_monthLength d.year (by omega) (by omega)

/-- Every year but the last is followed by another. -/
theorem isDay_nextYear (d : Date) (h : d.year < maxYear) : IsDay (d.year + 1) 1 1 := by
  obtain ⟨hlow, _, _, _, _, _⟩ := d.isDay
  refine ⟨by omega, by omega, by omega, by omega, by omega, ?_⟩
  exact one_le_monthLength (d.year + 1) (by omega) (by omega)

/-- The next day: later in the month, the first of the next month, or the
first day of the next year.  The last date has none. -/
def next? (d : Date) : Option Date :=
  if hday : d.day < monthLength d.year d.month then
    some ⟨d.year, d.month, d.day + 1, d.isDay_nextDay hday⟩
  else if hmonth : d.month < 12 then
    some ⟨d.year, d.month + 1, 1, d.isDay_nextMonth hmonth⟩
  else if hyear : d.year < maxYear then
    some ⟨d.year + 1, 1, 1, d.isDay_nextYear hyear⟩
  else none

/-- The day after a date has the next day number. -/
theorem ordinal_next? {d e : Date} (h : d.next? = some e) : e.ordinal = d.ordinal + 1 := by
  obtain ⟨_, _, _, hm, _, hd⟩ := d.isDay
  unfold next? at h
  split at h
  · cases h
    simp only [ordinal]
    omega
  · split at h
    · cases h
      simp only [ordinal, daysBeforeMonth]
      omega
    · split at h
      · cases h
        have hlast : d.month = 12 := by omega
        have hyear := daysBeforeYear_succ d.year
        have hsum := daysBeforeMonth_thirteen d.year
        rw [daysBeforeMonth, ← hlast] at hsum
        simp only [ordinal, daysBeforeMonth, monthLength]
        omega
      · cases h

/-- The day after a date is later. -/
theorem lt_of_next? {d e : Date} (h : d.next? = some e) : d < e := by
  rw [← ordinal_lt_ordinal, ordinal_next? h]
  omega

end Date
end DateScheduling
