import Mathlib.Data.List.Chain
import DateScheduling.Model
import DateScheduling.Proofs.Calendar.Shift

/-!
# Enumerating a range

The days of a range are found by stepping through the calendar, its length by
subtracting day numbers.  The two agree everywhere, whatever months, leap days and
years before year 0 lie in the range, up to and including the ends of the calendar.

Main results:

- Theorem `Date.next?_eq_some_iff`: the calendar steps to the first of all later
  dates.
- Theorem `DayWalk.collectFirst_eq_take`: a walk stops by itself; asking for more days
  than it has changes nothing.
- Theorem `DateRange.days_exact`: which days a range lists, in which order, and how
  many.
-/

namespace DateScheduling

/-- The calendar steps from a date to the first of all later dates. -/
theorem Date.next?_eq_some_iff {d e : Date} :
    d.next? = some e ↔ d < e ∧ ∀ f, d < f → e ≤ f := by
  constructor
  · intro h
    exact ⟨lt_of_next? h, fun f => next?_le_of_lt h⟩
  · intro h
    rcases h with ⟨hlt, hfirst⟩
    rcases exists_next?_le_iff.2 hlt with ⟨f, hf, hle⟩
    rw [Option.mem_def.1 hf, le_antisymm hle (hfirst f (lt_of_next? hf))]

namespace DayWalk

/-- Days visited before the others are listed before the others. -/
theorem collect_append (recent visited : List Date) (w : DayWalk) :
    w.collect (recent ++ visited) = visited.reverse ++ w.collect recent := by
  fun_induction collect recent w with
  | case1 recent w hstop =>
      rw [collect, hstop, List.reverse_append]
  | case2 recent w d rest hnext ih =>
      rw [collect, hnext]
      exact ih

/-- A walk that is asked for `k` days stops after these, or by itself. -/
theorem collectFirst_eq_take (k : Nat) (visited : List Date) (w : DayWalk) :
    w.collectFirst k visited = (w.collect visited).take (visited.length + k) := by
  induction k generalizing visited w with
  | zero =>
      have hvisited := collect_append [] visited w
      rw [List.nil_append] at hvisited
      rw [collectFirst, hvisited, Nat.add_zero, List.take_left' List.length_reverse]
  | succ k ih =>
      rw [collectFirst, collect]
      cases w.next? with
      | none =>
          simp only
          rw [List.take_of_length_le]
          rw [List.length_reverse]
          omega
      | some step =>
          rcases step with ⟨d, rest⟩
          simp only
          rw [ih, List.length_cons, Nat.add_assoc, Nat.add_comm 1 k]

end DayWalk

namespace DateRange

variable {r : DateRange}

/-- The first `k` days are the first of all days. -/
theorem firstDays_eq_take (r : DateRange) (k : Nat) : r.firstDays k = r.days.take k := by
  unfold firstDays days
  rw [DayWalk.collectFirst_eq_take, List.length_nil, Nat.zero_add]

/-- The day at position `i` has the `i`-th day number from that of the first date. -/
theorem ordinal_getElem_days {i : Nat} (h : i < r.days.length) :
    r.days[i].ordinal = r.first.ordinal + i := by
  have hnumber : (r.days.map Date.ordinal)[i]? =
      ((List.range r.length).map fun j : Nat => r.first.ordinal + j)[i]? := by
    rw [ordinal_days]
  rw [List.getElem?_map, List.getElem?_map, List.getElem?_eq_getElem h,
    List.getElem?_range (by rwa [← r.length_days]), Option.map_some, Option.map_some,
    Option.some.injEq] at hnumber
  exact hnumber

/-- The calendar steps from each day of a range to the one listed next. -/
theorem isChain_days (r : DateRange) : r.days.IsChain fun d e => d.next? = some e := by
  rw [List.isChain_iff_getElem]
  intro i hi
  have hstep : r.days[i].later? 1 = some r.days[i + 1] := by
    rw [Date.later?_eq_some_iff, ordinal_getElem_days, ordinal_getElem_days]
    omega
  simpa [Date.later?] using hstep

/-- The last day that is listed is the last date of the range. -/
theorem getLast?_days (h : r.days ≠ []) : r.days.getLast? = some r.last := by
  have hpos := List.length_pos_iff.2 h
  have hlength := r.length_days
  rw [List.getLast?_eq_getElem?, List.getElem?_eq_getElem (by omega), Option.some.injEq,
    ← Date.ordinal_inj, ordinal_getElem_days]
  unfold length at hlength
  omega

/-- For every two dates of the calendar, the days from the first to the last are found
by finitely many steps.  They are strictly ascending, the calendar steps from each of
them to the next and leaves out no date between the two, and they are the dates that are
neither before the first date nor after the last.  If there are any, the last date is the
last of them.  There are as many as the length of the range says that a model has, and
none if the last date is before the first. -/
theorem days_exact (r : DateRange) :
    (∀ k, r.firstDays k = r.days.take k) ∧
    r.days.Pairwise (· < ·) ∧
    r.days.IsChain (fun d e => d.next? = some e ∧ d < e ∧ ∀ f, d < f → e ≤ f) ∧
    (∀ d, d ∈ r.days ↔ r.first ≤ d ∧ d ≤ r.last) ∧
    (r.days ≠ [] → r.days.getLast? = some r.last) ∧
    (∀ eventCount constraints,
      (Model.mk eventCount r constraints).rangeLength = r.days.length) ∧
    (r.last < r.first → r.days.length = 0) := by
  refine ⟨r.firstDays_eq_take, r.pairwise_days, ?_, fun d => mem_days_iff, getLast?_days,
    fun _ _ => r.length_days.symm, ?_⟩
  · apply r.isChain_days.imp
    intro d e hnext
    exact ⟨hnext, Date.next?_eq_some_iff.1 hnext⟩
  · intro hinverted
    rw [List.length_eq_zero_iff, List.eq_nil_iff_forall_not_mem]
    intro d hd
    rcases mem_days_iff.1 hd with ⟨hfirst, hlast⟩
    exact Date.le_trans hfirst hlast hinverted

/-- The last two days of the calendar, and the same range inverted. -/
theorem days_exact_of_two :
    let first : Date := ⟨262142, 12, 30, by decide⟩
    let last : Date := ⟨262142, 12, 31, by decide⟩
    let r : DateRange := ⟨first, last⟩
    let inverted : DateRange := ⟨last, first⟩
    last ∈ r.days ∧ r.days ≠ [] ∧ r.days.getLast? = some last ∧ r.days.length = 2 ∧
      r.firstDays 3 = r.days.take 3 ∧ inverted.last < inverted.first ∧
      inverted.days.length = 0 := by
  intro first last r inverted
  rcases days_exact r with ⟨hfirstDays, -, -, hmem, hgetLast, hlength, -⟩
  rcases days_exact inverted with ⟨-, -, -, -, -, -, hnone⟩
  have hlast : last ∈ r.days := (hmem last).2 ⟨by decide, by decide⟩
  have hne : r.days ≠ [] := List.ne_nil_of_mem hlast
  have htwo : (Model.mk 0 r []).rangeLength = 2 := by decide
  have hinverted : inverted.last < inverted.first := by decide
  exact ⟨hlast, hne, hgetLast hne, (hlength 0 []).symm.trans htwo, hfirstDays 3, hinverted,
    hnone hinverted⟩

end DateRange
end DateScheduling
