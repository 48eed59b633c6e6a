import DateScheduling.Proofs.Calendar.RangeDays
import DateScheduling.Proofs.Network.Consistency
import DateScheduling.Proofs.Propagation.GreatestConsistency
import DateScheduling.Proofs.Propagation.UnaryFilter
import DateScheduling.Solver.Run

/-!
# Pruning a model

Before the search the domains of a model go through the passes that are
switched on.  Whatever passes these are, no date of a solution is taken out, and
no date outside the range gets in.

Main results:

- Theorem `Model.isSolution_iff`: solutions are the consistent assignments of
  all events within the range.
- Theorem `Solver.exists_prune`: pruning a checked model never meets a missing
  event, and which dates it leaves.
- Theorem `Solver.Pruned.mem_dates_of_isSolution`: every date of every solution
  is left.
- Theorem `Solver.Pruned.isSolution_iff`: the solutions are the consistent choices
  among the dates that are left.
-/

namespace DateScheduling

/-- Solutions are the consistent assignments of all events within the range. -/
theorem Model.isSolution_iff {m : Model} {a : Array Date} : m.isSolution a = true ↔
    a.size = m.eventCount ∧ (∀ (i : Nat) v, a[i]? = some v → v ∈ m.range) ∧
      consistent m.constraints a = true := by
  have hrange : (a.all fun d => d ∈ m.range) = true ↔
      ∀ (i : Nat) v, a[i]? = some v → v ∈ m.range := by
    rw [Array.all_eq_true]
    constructor
    · intro h i v hi
      rcases Array.getElem?_eq_some_iff.1 hi with ⟨hlt, rfl⟩
      simpa using h i hlt
    · intro h i hi
      simpa using h i a[i] (Array.getElem?_eq_getElem hi)
  unfold isSolution consistent
  rw [Bool.and_eq_true, Bool.and_eq_true, beq_iff_eq, hrange, and_assoc]

/-- The full store leaves every date of the range to every event. -/
theorem Store.mem_dates_full {n : Nat} {r : DateRange} {i : Nat} {v : Date} :
    v ∈ (full n r).dates i ↔ i < n ∧ v ∈ r := by
  rw [mem_dates_iff, domain?_full]
  by_cases hi : i < n
  · rw [if_pos hi]
    constructor
    · intro h
      rcases h with ⟨d, hd, hv⟩
      cases hd
      exact ⟨hi, DateRange.mem_days_iff.1 hv⟩
    · intro h
      rcases h with ⟨-, hv⟩
      exact ⟨_, rfl, DateRange.mem_days_iff.2 hv⟩
  · rw [if_neg hi]
    simp [hi]

theorem Store.size_full (n : Nat) (r : DateRange) : (full n r).size = n := by
  simp [full, size]

namespace Solver

/-! ## What pruning leaves -/

/-- What pruning a model leaves, by way of the store `bounded` between the two
passes. -/
structure Pruned (m : Model) (config : Config) (bounded s : Store) (stats : Stats) : Prop where
  size_bounded : bounded.size = m.eventCount
  mem_bounded_iff : ∀ i v, v ∈ bounded.dates i ↔ (i < m.eventCount ∧ v ∈ m.range) ∧
    (config.nodeConsistency = true → MeetsBounds m.constraints i v)
  eq_bounded : config.arcConsistency = false → s = bounded
  greatest : config.arcConsistency = true → GreatestConsistent m.constraints bounded s
  /-- The first pass counts the dates it takes out of the full store. -/
  nodePruned_eq :
    bounded.totalSize + stats.nodePruned = (Store.full m.eventCount m.range).totalSize
  /-- The second pass counts the dates it takes out of what the first has left. -/
  arcPruned_eq : s.totalSize + stats.arcPruned = bounded.totalSize

namespace Pruned

variable {m : Model} {config : Config} {bounded s : Store} {stats : Stats}

theorem size_eq (h : Pruned m config bounded s stats) : s.size = m.eventCount := by
  cases harc : config.arcConsistency with
  | false => rw [h.eq_bounded harc, h.size_bounded]
  | true => rw [(h.greatest harc).size_eq, h.size_bounded]

/-- Arc consistency only takes dates out. -/
theorem subset_bounded (h : Pruned m config bounded s stats) (i : Nat) :
    s.dates i ⊆ bounded.dates i := by
  cases harc : config.arcConsistency with
  | false => rw [h.eq_bounded harc]
  | true => exact (h.greatest harc).subset i

/-- No date outside the range gets in. -/
theorem mem_range (h : Pruned m config bounded s stats) {i : Nat} {v : Date} (hv : v ∈ s.dates i) :
    v ∈ m.range := by
  exact ((h.mem_bounded_iff i v).1 (h.subset_bounded i hv)).1.2

/-- With node consistency every date that is left is within the bounds of its
event. -/
theorem meetsBounds (h : Pruned m config bounded s stats) (hnode : config.nodeConsistency = true)
    {i : Nat} {v : Date} (hv : v ∈ s.dates i) : MeetsBounds m.constraints i v := by
  exact ((h.mem_bounded_iff i v).1 (h.subset_bounded i hv)).2 hnode

/-- Every date of every solution is left. -/
theorem mem_dates_of_isSolution (h : Pruned m config bounded s stats)
    (hcs : ∀ c ∈ m.constraints, c.maxIndex < m.eventCount) {a : Array Date}
    (ha : m.isSolution a = true) {i : Nat} {v : Date} (hi : a[i]? = some v) : v ∈ s.dates i := by
  rcases Model.isSolution_iff.1 ha with ⟨hsize, hrange, hconsistent⟩
  rcases consistent_iff.1 hconsistent with ⟨hbounds, hpairs⟩
  have hbounded : ∀ (j : Nat) w, a[j]? = some w → w ∈ bounded.dates j := by
    intro j w hj
    have hlt := (Array.getElem?_eq_some_iff.1 hj).1
    rw [h.mem_bounded_iff, ← hsize]
    exact ⟨⟨hlt, hrange j w hj⟩, fun _ => hbounds j w hj⟩
  cases harc : config.arcConsistency with
  | false =>
      rw [h.eq_bounded harc]
      exact hbounded i v hi
  | true =>
      -- The single dates of a solution are an arc-consistent family.
      have hfamily : ArcConsistent m.constraints fun j => {w | a[j]? = some w} := by
        rw [arcConsistent_iff]
        intro j k hjoined w hw
        have hk : k < a.size := by
          rw [hsize]
          exact (hjoined.lt hcs).2
        refine ⟨a[k], Array.getElem?_eq_getElem hk, ?_, ?_⟩
        · intro heq
          subst heq
          rw [Set.mem_ofPred_eq, Array.getElem?_eq_getElem hk, Option.some.injEq] at hw
          exact hw.symm
        · exact hpairs j k w a[k] hw (Array.getElem?_eq_getElem hk)
      exact (h.greatest harc).greatest _ hbounded hfamily i hi

/-- The solutions are the consistent choices among the dates that are left. -/
theorem isSolution_iff (h : Pruned m config bounded s stats)
    (hcs : ∀ c ∈ m.constraints, c.maxIndex < m.eventCount) {a : Array Date} :
    m.isSolution a = true ↔ a.size = m.eventCount ∧
      (∀ (i : Nat) v, a[i]? = some v → v ∈ s.dates i) ∧ consistent m.constraints a = true := by
  constructor
  · intro ha
    rcases Model.isSolution_iff.1 ha with ⟨hsize, -, hconsistent⟩
    exact ⟨hsize, fun i v hi => h.mem_dates_of_isSolution hcs ha hi, hconsistent⟩
  · intro hexists
    rcases hexists with ⟨hsize, hmem, hconsistent⟩
    exact Model.isSolution_iff.2 ⟨hsize, fun i v hi => h.mem_range (hmem i v hi), hconsistent⟩

end Pruned

/-! ## The two passes -/

/-- The first pass, if it is made, leaves the dates within the bounds of their
events. -/
theorem exists_bounded {net : Network} {m : Model} (hnet : net.Files m.eventCount m.constraints)
    (hcs : ∀ c ∈ m.constraints, c.maxIndex < m.eventCount) (enabled : Bool) :
    ∃ bounded removed,
      (if enabled then (nodeConsistency net (.full m.eventCount m.range)).toTraced
        else pure (.full m.eventCount m.range, 0)).result = .ok (bounded, removed) ∧
      bounded.size = m.eventCount ∧
      (∀ i v, v ∈ bounded.dates i ↔ (i < m.eventCount ∧ v ∈ m.range) ∧
        (enabled = true → MeetsBounds m.constraints i v)) ∧
      bounded.totalSize + removed = (Store.full m.eventCount m.range).totalSize := by
  cases enabled with
  | false =>
      refine ⟨_, _, rfl, Store.size_full .., ?_, rfl⟩
      intro i v
      rw [Store.mem_dates_full]
      simp
  | true =>
      have hsize := Store.size_full m.eventCount m.range
      rcases exists_nodeConsistency hnet hcs hsize.ge with
          ⟨s, removed, hstore, hresult, hsize', hdates, htotal⟩
      refine ⟨s, removed, ?_, hsize'.trans hsize, ?_, htotal⟩
      · exact Pass.result_toTraced_iff.2 ⟨hstore, hresult⟩
      · intro i v
        rw [hdates, Store.mem_dates_full]
        simp

/-- The second pass, if it is made, leaves the greatest arc-consistent store. -/
theorem exists_arcPruned {net : Network} {n : Nat} {cs : List Constraint}
    (hnet : net.Files n cs) (hcs : ∀ c ∈ cs, c.maxIndex < n) {bounded : Store}
    (hsize : n ≤ bounded.size) (enabled : Bool) :
    ∃ s counts,
      (if enabled then (arcConsistency net bounded).toTraced
        else pure (bounded, ⟨0, 0⟩)).result = .ok (s, counts) ∧
      (enabled = false → s = bounded) ∧
      (enabled = true → GreatestConsistent cs bounded s) ∧
      s.totalSize + counts.removed = bounded.totalSize := by
  cases enabled with
  | false =>
      refine ⟨_, _, rfl, fun _ => rfl, ?_, rfl⟩
      intro h
      cases h
  | true =>
      rcases exists_arcConsistency hnet hcs hsize with
          ⟨s, counts, hstore, hresult, hgreatest, htotal⟩
      refine ⟨s, counts, ?_, ?_, fun _ => hgreatest, htotal⟩
      · exact Pass.result_toTraced_iff.2 ⟨hstore, hresult⟩
      · intro h
        cases h

/-- Pruning is the first pass followed by the second. -/
theorem prune_eq (m : Model) (net : Network) (config : Config) :
    prune m net config =
      (if config.nodeConsistency then (nodeConsistency net (.full m.eventCount m.range)).toTraced
        else pure (.full m.eventCount m.range, 0)) >>= fun first =>
      (if config.arcConsistency then (arcConsistency net first.1).toTraced
        else pure (first.1, ⟨0, 0⟩)) >>= fun second =>
      pure (second.1,
        { nodePruned := first.2, arcPruned := second.2.removed,
          arcRevisions := second.2.revisions }) := by
  unfold prune
  cases config.nodeConsistency <;> cases config.arcConsistency <;> rfl

/-- Pruning a checked model never meets a missing event, and which dates it
leaves. -/
theorem exists_prune {net : Network} {m : Model} (hnet : net.Files m.eventCount m.constraints)
    (hcs : ∀ c ∈ m.constraints, c.maxIndex < m.eventCount) (config : Config) :
    ∃ bounded s stats, (prune m net config).result = .ok (s, stats) ∧
      Pruned m config bounded s stats ∧ stats.nodes = 0 ∧ stats.backtracks = 0 := by
  rcases exists_bounded hnet hcs config.nodeConsistency with
      ⟨bounded, nodePruned, hfirst, hsize, hdates, hnodeTotal⟩
  rcases exists_arcPruned hnet hcs hsize.ge config.arcConsistency with
      ⟨s, counts, hsecond, heq, hgreatest, harcTotal⟩
  refine ⟨bounded, s,
    { nodePruned, arcPruned := counts.removed, arcRevisions := counts.revisions }, ?_,
    ⟨hsize, hdates, heq, hgreatest, hnodeTotal, harcTotal⟩, rfl, rfl⟩
  rw [prune_eq, Traced.result_bind_ok hfirst, Traced.result_bind_ok hsecond]
  rfl

end Solver
end DateScheduling
