import Mathlib.Data.List.Forall2
import DateScheduling.Proofs.Calendar.RangeDays

/-!
# Moving dates by a number of days

Moving a date by `k` days takes `k` steps of the calendar forwards, or `-k` steps
backwards.  In terms of day numbers this adds `k`, whatever months, leap days or
years lie in between; only the ends of the calendar stop it.  Moved by the same
number of days, dates keep their order, and a range keeps its length and lists
its days in step.

Main results:

- Theorem `Date.later?_eq_some_iff`: `n` steps of the calendar add `n` to the day
  number, and only the end of the calendar prevents them.
- Theorem `Date.moved_iff`: a date is moved by `k` days exactly when `k` is added to
  its day number.
- Theorem `DateRange.moved_days`: the days of a moved range are the moved days.
-/

namespace DateScheduling

namespace Date

/-- The `n`-th date after a date, if the calendar goes on that far. -/
def later? : Nat → Date → Option Date
  | 0, d => some d
  | n + 1, d => d.next?.bind (later? n)

/-- The second date lies `k` days after the first; if `k` is negative, `-k` days
before it. -/
def Moved (k : Int) (d e : Date) : Prop :=
  match k with
  | .ofNat n => d.later? n = some e
  | .negSucc n => e.later? (n + 1) = some d

instance (k : Int) (d e : Date) : Decidable (Moved k d e) := by
  unfold Moved
  split <;> infer_instance

/-- `n` steps of the calendar add `n` to the day number; they can be made when there
is a date with that number. -/
theorem later?_eq_some_iff {n : Nat} {d e : Date} :
    d.later? n = some e ↔ e.ordinal = d.ordinal + n := by
  induction n generalizing d with
  | zero =>
      rw [later?, Option.some.injEq, Int.natCast_zero, Int.add_zero, ordinal_inj, eq_comm]
  | succ n ih =>
      rw [later?, Option.bind_eq_some_iff]
      constructor
      · intro h
        rcases h with ⟨f, hf, hlater⟩
        have hnext := ordinal_next? hf
        have hrest := ih.1 hlater
        omega
      · intro h
        have hlt : d < e := by
          rw [← ordinal_lt_ordinal]
          omega
        rcases exists_next?_le_iff.2 hlt with ⟨f, hf, -⟩
        have hnext := ordinal_next? hf
        exact ⟨f, hf, ih.2 (by omega)⟩

/-- Moving a date by `k` days adds `k` to its day number. -/
theorem moved_iff {k : Int} {d e : Date} : Moved k d e ↔ e.ordinal = d.ordinal + k := by
  cases k with
  | ofNat n => exact later?_eq_some_iff
  | negSucc n =>
      unfold Moved
      simp only [later?_eq_some_iff]
      omega

/-- The year 0 is a leap year. -/
example : Moved (-2) ⟨0, 3, 1, by decide⟩ ⟨0, 2, 28, by decide⟩ := by decide

/-- Dates moved by the same number of days are ordered alike. -/
theorem Moved.lt_iff {k : Int} {d d' e e' : Date} (hd : Moved k d d') (he : Moved k e e') :
    d < e ↔ d' < e' := by
  rw [moved_iff] at hd he
  rw [← ordinal_lt_ordinal, ← ordinal_lt_ordinal]
  omega

end Date

/-! ## The days of a moved range -/

/-- A walk visits the day numbers from the one of its next date on. -/
theorem DayWalk.ordinal_collect (visited : List Date) (w : DayWalk) {n : Int}
    (h : ∀ d ∈ w.upcoming, d.ordinal = n) :
    (w.collect visited).map Date.ordinal =
      visited.reverse.map Date.ordinal ++ (List.range w.remaining).map fun i : Nat => n + i := by
  fun_induction collect visited w generalizing n with
  | case1 visited w hstop => simp [remaining_of_next?_eq_none hstop]
  | case2 visited w d rest hnext ih =>
      have hremaining := remaining_of_next? hnext
      have hd : d ∈ w.upcoming ∧ rest.upcoming = d.next? := by
        rcases w with ⟨upcoming, last⟩
        cases upcoming with
        | none => simp [next?] at hnext
        | some e =>
            simp only [next?] at hnext
            split at hnext
            · cases hnext
              exact ⟨rfl, rfl⟩
            · cases hnext
      have hstep : ∀ e ∈ rest.upcoming, e.ordinal = n + 1 := by
        intro e he
        rw [hd.2] at he
        rw [Date.ordinal_next? he, h d hd.1]
      rw [ih hstep, hremaining, List.range_succ_eq_map]
      simp [h d hd.1, Int.add_assoc, Int.add_comm 1]

/-- The days of a range have the day numbers from the one of its first date on. -/
theorem DateRange.ordinal_days (r : DateRange) :
    r.days.map Date.ordinal = (List.range r.length).map fun i : Nat => r.first.ordinal + i := by
  have hlength : r.days.length = [].length + r.walk.remaining := DayWalk.length_collect [] r.walk
  rw [← r.length_days, hlength, List.length_nil, Nat.zero_add]
  exact DayWalk.ordinal_collect [] r.walk (by simp [walk])

/-- The days of a moved range are the moved days of the range. -/
theorem DateRange.moved_days {k : Int} {r r' : DateRange} (hfirst : Date.Moved k r.first r'.first)
    (hlast : Date.Moved k r.last r'.last) : List.Forall₂ (Date.Moved k) r.days r'.days := by
  rw [Date.moved_iff] at hfirst hlast
  have hlength : r'.length = r.length := by
    unfold length
    congr 1
    omega
  have hnumbers : List.Forall₂ (fun a b : Int => b = a + k) (r.days.map Date.ordinal)
      (r'.days.map Date.ordinal) := by
    rw [ordinal_days, ordinal_days, hlength, List.forall₂_map_left_iff, List.forall₂_map_right_iff,
      List.forall₂_same]
    intro i _
    omega
  rw [List.forall₂_map_left_iff, List.forall₂_map_right_iff] at hnumbers
  exact hnumbers.imp fun _ _ => Date.moved_iff.2

end DateScheduling
