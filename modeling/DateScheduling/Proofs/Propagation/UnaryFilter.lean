import DateScheduling.Propagation.NodeConsistency
import DateScheduling.Proofs.Network.Filing
import DateScheduling.Proofs.Propagation.Dates

/-!
# The node consistency pass

The pass filters the same domains again and again, once for each constraint
with a fixed date.  In the end an event keeps the dates that all its fixed
bounds allow, as if they had been applied at once.

Main results:

- Theorem `exists_applyUnary`: what a list of filters leaves to each event.
- Theorem `exists_nodeConsistency`: the pass never meets a missing event, and
  leaves to each event the dates within its bounds.
-/

namespace DateScheduling

/-! ## One filter after the other -/

/-- Filtering an event the store has never fails. -/
theorem Store.exists_filter? {s : Store} {var : Nat} (p : Date → Bool) (h : var < s.size) :
    ∃ s' removed, s.filter? var p = some (s', removed) ∧ s'.size = s.size ∧
      ∀ i v, v ∈ s'.dates i ↔ v ∈ s.dates i ∧ (i = var → p v = true) := by
  rcases exists_domain? h with ⟨d, hd⟩
  refine ⟨s.replace var (d.filter p), d.size - (d.filter p).size, ?_, size_replace .., ?_⟩
  · simp only [filter?, hd]
  · intro i v
    exact mem_dates_replace_filter hd p i v

/-- Filters applied one after the other leave what each of them allows. -/
theorem exists_applyUnary {plan : List (Nat × Constraint)} {s : Store}
    (h : ∀ p ∈ plan, p.1 < s.size) (removed : Nat) :
    ∃ s' removed', applyUnary plan s removed = (s', .ok removed') ∧ s'.size = s.size ∧
      ∀ i v, v ∈ s'.dates i ↔ v ∈ s.dates i ∧ ∀ c, (i, c) ∈ plan → c.allows v = true := by
  induction plan generalizing s removed with
  | nil =>
      refine ⟨s, removed, rfl, rfl, ?_⟩
      intro i v
      simp
  | cons step rest ih =>
      rcases step with ⟨var, c⟩
      rcases Store.exists_filter? c.allows (h (var, c) List.mem_cons_self) with
          ⟨t, k, hfilter, htSize, htDates⟩
      have hrest : ∀ p ∈ rest, p.1 < t.size := by
        intro p hp
        rw [htSize]
        exact h p (List.mem_cons_of_mem _ hp)
      rcases ih hrest (removed + k) with ⟨s', removed', happly, hsize, hdates⟩
      refine ⟨s', removed', ?_, hsize.trans htSize, ?_⟩
      · simp only [applyUnary, hfilter]
        exact happly
      · intro i v
        rw [hdates, htDates, and_assoc]
        constructor
        · intro hexists
          rcases hexists with ⟨hv, hstep, hall⟩
          refine ⟨hv, ?_⟩
          intro d hd
          rcases List.mem_cons.1 hd with heq | hd
          · cases heq
            exact hstep rfl
          · exact hall d hd
        · intro hexists
          rcases hexists with ⟨hv, hall⟩
          refine ⟨hv, ?_, ?_⟩
          · intro hi
            apply hall
            rw [hi]
            exact List.mem_cons_self
          · intro d hd
            exact hall d (List.mem_cons_of_mem _ hd)

/-! ## The plan of a network -/

/-- The plan of a network lists the constraints with a fixed date under their
events. -/
theorem Network.Files.mem_unaryPlan_iff {net : Network} {n : Nat} {cs : List Constraint}
    (hnet : net.Files n cs) {var : Nat} {c : Constraint} :
    (var, c) ∈ net.unaryPlan ↔ var < n ∧ c ∈ cs ∧ ∃ op bound, c = .unary var op bound := by
  have hentry : ∀ l, net.unary.toList[var]? = some l ↔
      var < n ∧ l = cs.filter (·.isUnaryOn var) := by
    intro l
    rw [Array.getElem?_toList]
    by_cases hvar : var < n
    · have hunary := hnet.unaryOn?_eq var hvar
      unfold unaryOn? at hunary
      rw [hunary, Option.some.injEq, eq_comm]
      simp [hvar]
    · have hsize : net.unary.size = n := hnet.size_eq
      rw [Array.getElem?_eq_none (by omega)]
      simp [hvar]
  simp only [unaryPlan, List.mem_flatMap, List.mem_map, Prod.mk.injEq, Prod.exists,
    List.mem_zipIdx_iff_getElem?]
  constructor
  · intro h
    rcases h with ⟨l, i, hl, d, hd, rfl, rfl⟩
    rcases (hentry l).1 hl with ⟨hvar, rfl⟩
    rw [List.mem_filter, Constraint.isUnaryOn_iff] at hd
    exact ⟨hvar, hd⟩
  · intro h
    rcases h with ⟨hvar, hc⟩
    refine ⟨_, var, (hentry _).2 ⟨hvar, rfl⟩, c, ?_, rfl, rfl⟩
    rw [List.mem_filter, Constraint.isUnaryOn_iff]
    exact hc

/-- The pass never meets a missing event, and leaves to each event the dates
within its bounds. -/
theorem exists_nodeConsistency {net : Network} {n : Nat} {cs : List Constraint}
    (hnet : net.Files n cs) (hcs : ∀ c ∈ cs, c.maxIndex < n) {s : Store} (hsize : n ≤ s.size) :
    ∃ s' removed, (nodeConsistency net s).store = s' ∧
      (nodeConsistency net s).result = .ok removed ∧ s'.size = s.size ∧
      (∀ i v, v ∈ s'.dates i ↔ v ∈ s.dates i ∧ MeetsBounds cs i v) ∧
      s'.totalSize + removed = s.totalSize := by
  have hplan : ∀ p ∈ net.unaryPlan, p.1 < s.size := by
    rintro ⟨var, c⟩ hp
    have hvar := (hnet.mem_unaryPlan_iff.1 hp).1
    simp only
    omega
  rcases exists_applyUnary hplan 0 with ⟨s', removed, happly, hsize', hdates⟩
  refine ⟨s', removed, ?_, ?_, hsize', ?_, ?_⟩
  · simp only [nodeConsistency, happly]
  · simp only [nodeConsistency, happly]
  · intro i v
    rw [hdates]
    constructor
    · intro h
      rcases h with ⟨hv, hall⟩
      refine ⟨hv, ?_⟩
      intro op bound hmem
      exact hall _ (hnet.mem_unaryPlan_iff.2 ⟨hcs _ hmem, hmem, op, bound, rfl⟩)
    · intro h
      rcases h with ⟨hv, hbounds⟩
      refine ⟨hv, ?_⟩
      intro c hc
      rcases hnet.mem_unaryPlan_iff.1 hc with ⟨-, hmem, op, bound, rfl⟩
      exact hbounds op bound hmem
  · have htotal := totalSize_applyUnary happly
    omega

end DateScheduling
