import DateScheduling.Calendar.DateRange

/-!
# Domains

The domain of an event is the set of dates it may still be given.  It is kept
as a strictly ascending list, which is also the order in which its dates are
visited and tried.

Main results:

- Theorem `Domain.size_removeAll_add`: removing a list of dates counts each
  date that was really there once.
-/

namespace DateScheduling

/-- The dates an event may still be given, in ascending order. -/
structure Domain where
  days : List Date
  ascending : days.Pairwise (· < ·)
deriving DecidableEq

namespace Domain

/-- All days of a range. -/
def ofRange (r : DateRange) : Domain :=
  ⟨r.days, r.pairwise_days⟩

/-- Number of dates in the domain. -/
def size (d : Domain) : Nat :=
  d.days.length

/-- The domain has no dates left. -/
def isEmpty (d : Domain) : Bool :=
  d.days.isEmpty

/-- The domain has a date. -/
def contains (d : Domain) (day : Date) : Bool :=
  d.days.contains day

instance : Membership Date Domain where
  mem d day := day ∈ d.days

/-- Keep the dates that pass a test. -/
def filter (p : Date → Bool) (d : Domain) : Domain :=
  ⟨d.days.filter p, d.ascending.sublist List.filter_sublist⟩

/-- Keep the dates that pass a test, which may depend on how many dates were
visited before. -/
def retain (keep : Nat → Date → Bool) (d : Domain) : Domain where
  days := (d.days.zipIdx.filter fun (day, visited) => keep visited day).map Prod.fst
  ascending := by
    refine d.ascending.sublist ?_
    have hsub := (List.filter_sublist
      (l := d.days.zipIdx) (p := fun (day, visited) => keep visited day)).map Prod.fst
    simpa using hsub

/-- Take one date out of the domain. -/
def erase (d : Domain) (day : Date) : Domain :=
  ⟨d.days.erase day, d.ascending.sublist List.erase_sublist⟩

/-- Take dates out one after the other, and count those that were there. -/
def removeAll (d : Domain) : List Date → Domain × Nat
  | [] => (d, 0)
  | day :: rest =>
      if d.contains day then
        let (left, removed) := (d.erase day).removeAll rest
        (left, removed + 1)
      else d.removeAll rest

/-! ## Membership and size -/

@[ext] theorem ext {d e : Domain} (h : d.days = e.days) : d = e := by
  cases d
  cases e
  simp_all

theorem mem_iff {d : Domain} {day : Date} : day ∈ d ↔ day ∈ d.days := Iff.rfl

@[simp] theorem contains_iff {d : Domain} {day : Date} : d.contains day = true ↔ day ∈ d := by
  simp [contains, mem_iff]

@[simp] theorem mem_filter {p : Date → Bool} {d : Domain} {day : Date} :
    day ∈ d.filter p ↔ day ∈ d ∧ p day = true := by
  simp [mem_iff, filter]

theorem size_filter_le (p : Date → Bool) (d : Domain) : (d.filter p).size ≤ d.size :=
  List.length_filter_le ..

theorem size_retain_le (keep : Nat → Date → Bool) (d : Domain) :
    (d.retain keep).size ≤ d.size := by
  have h := List.length_filter_le (fun (day, visited) => keep visited day) d.days.zipIdx
  simpa [size, retain] using h

/-- Taking out a date that is there leaves one date fewer. -/
theorem size_erase_add_one {d : Domain} {day : Date} (h : day ∈ d) :
    (d.erase day).size + 1 = d.size := by
  have hmem : day ∈ d.days := h
  have hlen := List.length_erase_of_mem hmem
  have hpos := List.length_pos_of_mem hmem
  simp only [size, erase, hlen]
  omega

/-- Removing a list of dates counts each date that was there once. -/
theorem size_removeAll_add (d : Domain) (values : List Date) :
    (d.removeAll values).1.size + (d.removeAll values).2 = d.size := by
  induction values generalizing d with
  | nil => rfl
  | cons day rest ih =>
      unfold removeAll
      split
      · rename_i h
        have hone := size_erase_add_one (contains_iff.1 h)
        have hrest := ih (d.erase day)
        simp only
        omega
      · exact ih d

end Domain
end DateScheduling
