import DateScheduling.Calendar.Date

/-!
# Inclusive ranges of dates

A range holds the days from its first date to its last, both included.  Its
days are enumerated one calendar step at a time, so that the first few days of
a long range cost no more than those of a short one; its length is computed
from the day numbers of its ends.  A range whose first date is after its last
has no days.

Main results:

- Theorem `DateRange.pairwise_days`: the days are listed in strictly ascending
  order.
-/

namespace DateScheduling

/-! ## Enumerating days -/

/-- A walk through the days up to a last date: the day to be visited next, if
the calendar has one. -/
structure DayWalk where
  upcoming : Option Date
  last : Date

namespace DayWalk

/-- The next day of the walk and the walk after it. -/
def next? (w : DayWalk) : Option (Date × DayWalk) :=
  match w.upcoming with
  | none => none
  | some d => if d ≤ w.last then some (d, ⟨d.next?, w.last⟩) else none

/-- Upper bound on the number of days still to be visited. -/
def remaining (w : DayWalk) : Nat :=
  match w.upcoming with
  | none => 0
  | some d => (w.last.ordinal + 1 - d.ordinal).toNat

/-- Visiting a day leaves fewer to be visited. -/
theorem remaining_lt {w w' : DayWalk} {d : Date} (h : w.next? = some (d, w')) :
    w'.remaining < w.remaining := by
  obtain ⟨upcoming, last⟩ := w
  cases upcoming with
  | none => simp [next?] at h
  | some e =>
      simp only [next?] at h
      split at h
      · rename_i hle
        rw [← Date.ordinal_le_ordinal] at hle
        simp only [Option.some.injEq, Prod.mk.injEq] at h
        obtain ⟨rfl, rfl⟩ := h
        cases hnext : e.next? with
        | none =>
            simp only [remaining]
            omega
        | some f =>
            have hord := Date.ordinal_next? hnext
            simp only [remaining]
            omega
      · simp at h

/-- The days of the walk, after those already visited (latest first). -/
def collect (visited : List Date) (w : DayWalk) : List Date :=
  match _h : w.next? with
  | none => visited.reverse
  | some (d, rest) => collect (d :: visited) rest
termination_by w.remaining
decreasing_by exact remaining_lt _h

/-- At most `k` more days of the walk, after those already visited (latest
first). -/
def collectFirst : Nat → List Date → DayWalk → List Date
  | 0, visited, _ => visited.reverse
  | k + 1, visited, w =>
      match w.next? with
      | none => visited.reverse
      | some (d, rest) => collectFirst k (d :: visited) rest

/-- Days visited in ascending order stay so when the walk goes on. -/
theorem pairwise_collect (visited : List Date) (w : DayWalk)
    (hvisited : visited.Pairwise (fun later earlier => earlier < later))
    (hupcoming : ∀ d ∈ w.upcoming, ∀ e ∈ visited, e < d) :
    (w.collect visited).Pairwise (· < ·) := by
  fun_induction collect visited w with
  | case1 visited w hstop =>
      exact List.pairwise_reverse.2 hvisited
  | case2 visited w d rest hnext ih =>
      obtain ⟨upcoming, last⟩ := w
      cases upcoming with
      | none => simp [next?] at hnext
      | some e =>
          simp only [next?] at hnext
          split at hnext
          · simp only [Option.some.injEq, Prod.mk.injEq] at hnext
            obtain ⟨rfl, rfl⟩ := hnext
            apply ih
            · exact List.pairwise_cons.2 ⟨hupcoming e rfl, hvisited⟩
            · intro f hf x hx
              have hlt : e < f := Date.lt_of_next? hf
              rcases List.mem_cons.1 hx with rfl | hx
              · exact hlt
              · exact Date.lt_trans (hupcoming e rfl x hx) hlt
          · simp at hnext

end DayWalk

/-! ## Ranges -/

/-- The days from `first` to `last`, both included. -/
structure DateRange where
  first : Date
  last : Date
deriving DecidableEq

namespace DateRange

/-- A date lies in a range when it is neither before its first date nor after
its last. -/
instance : Membership Date DateRange where
  mem r d := r.first ≤ d ∧ d ≤ r.last

instance (d : Date) (r : DateRange) : Decidable (d ∈ r) :=
  inferInstanceAs (Decidable (r.first ≤ d ∧ d ≤ r.last))

/-- The walk through a range from its first date. -/
def walk (r : DateRange) : DayWalk :=
  ⟨some r.first, r.last⟩

/-- All days of the range in calendar order. -/
def days (r : DateRange) : List Date :=
  r.walk.collect []

/-- The first `k` days of the range, or all of them if there are fewer. -/
def firstDays (r : DateRange) (k : Nat) : List Date :=
  r.walk.collectFirst k []

/-- Number of days of the range, from the day numbers of its ends. -/
def length (r : DateRange) : Nat :=
  (r.last.ordinal - r.first.ordinal + 1).toNat

/-- The days of a range are strictly ascending. -/
theorem pairwise_days (r : DateRange) : r.days.Pairwise (· < ·) :=
  DayWalk.pairwise_collect [] r.walk List.Pairwise.nil (by simp)

end DateRange
end DateScheduling
