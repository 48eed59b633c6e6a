import Mathlib.Data.List.Sort
import Mathlib.Data.Set.Basic
import DateScheduling.Proofs.Calendar.RangeDays
import DateScheduling.Store

/-!
# The dates left to an event

Pruning is described by the set of dates a store still leaves to each event.
Families of such sets, one for each event, are compared event by event.

Main results:

- Theorem `Store.ext_of_dates`: a store is known by the dates it leaves.
- Theorem `Store.mem_dates_replace_filter`: filtering one domain refines the
  dates of that event and of no other.
-/

namespace DateScheduling

/-- A domain is known by its dates. -/
theorem Domain.ext_of_mem {d e : Domain} (h : ∀ day, day ∈ d ↔ day ∈ e) : d = e :=
  Domain.ext (d.ascending.eq_of_mem_iff e.ascending h)

namespace Store

/-- The dates a store leaves to an event; none if it has no such event. -/
def dates (s : Store) (var : Nat) : Set Date :=
  {v | ∃ d, s.domain? var = some d ∧ v ∈ d}

theorem mem_dates_iff {s : Store} {var : Nat} {v : Date} :
    v ∈ s.dates var ↔ ∃ d, s.domain? var = some d ∧ v ∈ d :=
  Iff.rfl

theorem mem_dates_of_domain? {s : Store} {var : Nat} {d : Domain}
    (h : s.domain? var = some d) {v : Date} : v ∈ s.dates var ↔ v ∈ d := by
  rw [mem_dates_iff, h]
  constructor
  · intro hexists
    rcases hexists with ⟨e, he, hv⟩
    cases he
    exact hv
  · intro hv
    exact ⟨d, rfl, hv⟩

/-- An event of the store has a domain. -/
theorem exists_domain? {s : Store} {var : Nat} (h : var < s.size) :
    ∃ d, s.domain? var = some d := by
  exact Option.isSome_iff_exists.1 (domain?_isSome_iff.2 h)

theorem lt_size_of_domain? {s : Store} {var : Nat} {d : Domain}
    (h : s.domain? var = some d) : var < s.size := by
  rw [← domain?_isSome_iff, h]
  rfl

/-- In stores of as many events, an event with the same dates has the same domain. -/
theorem domain?_eq_of_dates {s t : Store} (hsize : s.size = t.size) {i : Nat}
    (h : s.dates i = t.dates i) : s.domain? i = t.domain? i := by
  by_cases hi : i < s.size
  · rcases exists_domain? hi with ⟨d, hd⟩
    rcases exists_domain? (s := t) (hsize ▸ hi) with ⟨e, he⟩
    rw [hd, he, Option.some.injEq]
    apply Domain.ext_of_mem
    intro day
    rw [← mem_dates_of_domain? hd, ← mem_dates_of_domain? he, h]
  · rw [domain?_eq_none_iff.2 (Nat.le_of_not_lt hi),
      domain?_eq_none_iff.2 (by omega)]

/-- Stores of as many events that leave the same dates are the same. -/
theorem ext_of_dates {s t : Store} (hsize : s.size = t.size)
    (h : ∀ i, s.dates i = t.dates i) : s = t := by
  have hdomain : ∀ i, s.domain? i = t.domain? i :=
    fun i => domain?_eq_of_dates hsize (h i)
  rcases s with ⟨domains⟩
  rcases t with ⟨domains'⟩
  rw [Store.mk.injEq]
  exact Array.ext_getElem? hdomain

/-- Filtering the domain of one event refines the dates of that event and of no
other. -/
theorem mem_dates_replace_filter {s : Store} {var : Nat} {d : Domain}
    (h : s.domain? var = some d) (p : Date → Bool) (other : Nat) (v : Date) :
    v ∈ (s.replace var (d.filter p)).dates other ↔
      v ∈ s.dates other ∧ (other = var → p v = true) := by
  by_cases hsame : other = var
  · have hnew : (s.replace var (d.filter p)).domain? var = some (d.filter p) := by
      rw [domain?_replace (lt_size_of_domain? h), if_pos rfl]
    rw [hsame, mem_dates_of_domain? hnew, mem_dates_of_domain? h, Domain.mem_filter]
    simp
  · have hold : (s.replace var (d.filter p)).domain? other = s.domain? other := by
      rw [domain?_replace (lt_size_of_domain? h), if_neg hsame]
    rw [mem_dates_iff, mem_dates_iff, hold]
    simp [hsame]

/-- A filter that loses nothing changes nothing. -/
theorem replace_filter_of_size_eq {s : Store} {var : Nat} {d : Domain}
    (h : s.domain? var = some d) {p : Date → Bool} (hsize : (d.filter p).size = d.size) :
    s.replace var (d.filter p) = s := by
  have hsame : d.filter p = d := by
    apply Domain.ext
    exact List.filter_sublist.eq_of_length hsize
  have hget : s.domains[var]? = some d := h
  unfold replace
  rw [hsame]
  rcases s with ⟨domains⟩
  simp only [Store.mk.injEq]
  apply Array.ext_getElem?
  intro i
  rw [Array.getElem?_setIfInBounds]
  split
  · rename_i hi
    rw [← hi, hget]
    split
    · rfl
    · rename_i hbound
      exact absurd (lt_size_of_domain? h) hbound
  · rfl

end Store
end DateScheduling
