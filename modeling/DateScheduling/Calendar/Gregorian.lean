/-!
# The proleptic Gregorian calendar

Leap years, the lengths of months, and the number of days that pass before a
year or a month.  Year 0 exists and is a leap year; negative years follow the
same rules as positive ones.

Main results:

- Theorem `daysBeforeYear_succ`: a year contributes 365 days, or 366 when it is
  a leap year.
- Theorem `daysBeforeMonth_thirteen`: the twelve months fill the year exactly.
-/

namespace DateScheduling
namespace Calendar

/-- Every fourth year is a leap year, except the centuries that 400 does not
divide. -/
def isLeap (year : Int) : Bool :=
  year % 4 == 0 && (year % 100 != 0 || year % 400 == 0)

/-- Number of days of a month, counted from 1.  A month that does not exist has
no days. -/
def monthLength (year : Int) : Nat → Nat
  | 1 => 31
  | 2 => if isLeap year then 29 else 28
  | 3 => 31
  | 4 => 30
  | 5 => 31
  | 6 => 30
  | 7 => 31
  | 8 => 31
  | 9 => 30
  | 10 => 31
  | 11 => 30
  | 12 => 31
  | _ => 0

/-- Number of days of a year. -/
def yearLength (year : Int) : Nat :=
  if isLeap year then 366 else 365

/-- Number of days of the year that lie before the first of a month. -/
def daysBeforeMonth (year : Int) : Nat → Nat
  | 0 => 0
  | month + 1 => daysBeforeMonth year month + monthLength year month

/-- Number of days from the first day of year 0 to the first day of a year,
negative for the years before year 0. -/
def daysBeforeYear (year : Int) : Int :=
  365 * year + (year + 3) / 4 - (year + 99) / 100 + (year + 399) / 400

/-- No month has more than 31 days. -/
theorem monthLength_le (year : Int) (month : Nat) : monthLength year month ≤ 31 := by
  unfold monthLength
  split <;> (try split) <;> omega

/-- Every month has a first day. -/
theorem one_le_monthLength (year : Int) {month : Nat} (hfirst : 1 ≤ month) (hlast : month ≤ 12) :
    1 ≤ monthLength year month := by
  unfold monthLength
  split <;> (try split) <;> try omega
  -- What is left is a month that is none of the twelve.
  simp only [imp_false] at *
  omega

/-! ## Lengths add up -/

/-- A year is as long as its length says. -/
theorem daysBeforeYear_succ (year : Int) :
    daysBeforeYear (year + 1) = daysBeforeYear year + yearLength year := by
  unfold daysBeforeYear yearLength isLeap
  by_cases h4 : year % 4 = 0 <;> by_cases h100 : year % 100 = 0 <;>
    by_cases h400 : year % 400 = 0 <;> simp [h4, h100, h400] <;> omega

/-- The months of a year fill it exactly. -/
theorem daysBeforeMonth_thirteen (year : Int) :
    daysBeforeMonth year 13 = yearLength year := by
  unfold yearLength
  cases h : isLeap year <;> simp [daysBeforeMonth, monthLength, h]

/-- A later month starts no earlier than the end of an earlier one. -/
theorem daysBeforeMonth_add_le (year : Int) {m m' : Nat} (h : m < m') :
    daysBeforeMonth year m + monthLength year m ≤ daysBeforeMonth year m' := by
  induction m' with
  | zero => omega
  | succ k ih =>
      rcases Nat.lt_succ_iff_lt_or_eq.1 h with hlt | rfl
      · exact Nat.le_trans (ih hlt) (Nat.le_add_right _ _)
      · exact Nat.le_refl _

/-- A later year starts no earlier than the end of an earlier one. -/
theorem daysBeforeYear_add_le {y y' : Int} (h : y < y') :
    daysBeforeYear y + yearLength y ≤ daysBeforeYear y' := by
  rw [← daysBeforeYear_succ]
  obtain ⟨n, rfl⟩ : ∃ n : Nat, y' = y + 1 + n := ⟨(y' - (y + 1)).toNat, by omega⟩
  clear h
  induction n with
  | zero => simp
  | succ n ih =>
      have hstep := daysBeforeYear_succ (y + 1 + n)
      have hcast : y + 1 + ((n + 1 : Nat) : Int) = y + 1 + n + 1 := by omega
      rw [hcast, hstep]
      omega

end Calendar
end DateScheduling
