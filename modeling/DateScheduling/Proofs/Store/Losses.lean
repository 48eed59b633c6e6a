import Mathlib.Algebra.BigOperators.Group.Finset.Basic
import Mathlib.Data.Set.Card
import DateScheduling.Proofs.Propagation.Dates

/-!
# The dates events lose

Two stores of the same events, the second of which leaves no dates that the first
does not leave, are compared event by event: an event has lost the dates that only
the first store has.  The dates of all events add up to the total of a store, and so
their losses add up to the difference of two totals.

Main results:

- Theorem `Store.sizeAt_add_lost`: the dates left to an event and the dates it lost.
- Theorem `Store.totalSize_eq_sum`: the total of a store, event by event.
- Theorem `Store.totalSize_add_sum_lost`: the losses add up to the difference of the
  totals.
-/

namespace DateScheduling
namespace Store

variable {before after : Store} {var : Nat}

/-- Number of dates in the domain of an event; none if there is no such event. -/
def sizeAt (s : Store) (var : Nat) : Nat :=
  (s.sizeOf? var).getD 0

/-- Number of dates that an event has in the first store and not in the second. -/
noncomputable def lost (before after : Store) (var : Nat) : Nat :=
  (before.dates var \ after.dates var).ncard

/-! ## Dates of an event -/

/-- The dates of an event are those listed in its domain. -/
theorem dates_eq (s : Store) (var : Nat) :
    s.dates var = ↑(((s.domain? var).map Domain.days).getD []).toFinset := by
  ext v
  rw [mem_dates_iff]
  cases hd : s.domain? var with
  | none => simp
  | some d => simp [Domain.mem_iff]

theorem finite_dates (s : Store) (var : Nat) : (s.dates var).Finite := by
  rw [dates_eq]
  exact Finset.finite_toSet _

/-- A domain lists every date once, so its size is the number of its dates. -/
theorem ncard_dates (s : Store) (var : Nat) : (s.dates var).ncard = s.sizeAt var := by
  rw [dates_eq, Set.ncard_coe_finset]
  unfold sizeAt sizeOf?
  cases hd : s.domain? var with
  | none => rfl
  | some d =>
      have hnodup : d.days.Nodup := by
        refine d.ascending.imp ?_
        rintro v w hlt rfl
        exact Date.lt_irrefl v hlt
      exact List.toFinset_card_of_nodup hnodup

/-- The dates left to an event and the dates it lost are the dates it had. -/
theorem sizeAt_add_lost (h : after.dates var ⊆ before.dates var) :
    after.sizeAt var + lost before after var = before.sizeAt var := by
  rw [← ncard_dates, ← ncard_dates, Nat.add_comm]
  exact Set.ncard_sdiff_add_ncard_of_subset h (finite_dates ..)

/-! ## All events -/

/-- The total of a store, event by event. -/
theorem totalSize_eq_sum (s : Store) : s.totalSize = ∑ v ∈ Finset.range s.size, s.sizeAt v := by
  have hlist : ∀ l : List Domain, l.foldr (fun d rest => d.size + rest) 0 =
      ∑ v ∈ Finset.range l.length, (l[v]?.map Domain.size).getD 0 := by
    intro l
    induction l with
    | nil => rfl
    | cons d l ih =>
        rw [List.foldr_cons, ih, List.length_cons, Finset.sum_range_succ', Nat.add_comm]
        rfl
  simpa [totalSize, size, sizeAt, sizeOf?, domain?] using hlist s.domains.toList

/-- The losses of all events add up to the difference of the totals. -/
theorem totalSize_add_sum_lost (hsize : after.size = before.size)
    (hsubset : ∀ v, after.dates v ⊆ before.dates v) :
    after.totalSize + ∑ v ∈ Finset.range before.size, lost before after v =
      before.totalSize := by
  rw [totalSize_eq_sum, totalSize_eq_sum, hsize, ← Finset.sum_add_distrib]
  apply Finset.sum_congr rfl
  intro v _
  exact sizeAt_add_lost (hsubset v)

/-- Nothing is lost from a store to itself. -/
@[simp] theorem lost_self (s : Store) (var : Nat) : lost s s var = 0 := by
  simp [lost]

end Store
end DateScheduling
