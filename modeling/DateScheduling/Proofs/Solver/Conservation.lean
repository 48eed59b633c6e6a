import DateScheduling.Proofs.Solver.Interruption
import DateScheduling.Proofs.Store.History

/-!
# Every date is accounted for

A full store has every day of the range once for each event.  From then on dates
are only taken out, and every operation counts what it has taken out.  At any
time the dates that are left and the dates that were counted therefore add up to
the number of events times the length of the range.  The same holds of the
counters in the result of a run.

Main results:

- Theorem `Store.totalSize_full`: how many dates there are at first.
- Theorem `Solver.Course.total_eq`: the account of pruning.
- Theorem `Solver.dates_conserved`: the account of any sequence of operations and
  of any run.
-/

namespace DateScheduling

/-- A full store has every day of the range once for each event. -/
theorem Store.totalSize_full (n : Nat) (r : DateRange) :
    (full n r).totalSize = n * r.days.length := by
  unfold totalSize full
  rw [Array.toList_replicate]
  induction n with
  | zero => simp
  | succ n ih =>
      rw [List.replicate_succ, List.foldr_cons, ih, Nat.succ_mul, Nat.add_comm]
      rfl

/-- A shrunken full store has days of the range only. -/
theorem Store.Shrinks.mem_range {n removed : Nat} {r : DateRange} {s : Store}
    (h : (full n r).Shrinks removed s) {i : Nat} {d : Domain} (hd : s.domain? i = some d)
    {day : Date} (hday : day ∈ d) : day ∈ r := by
  have hleft := h.subset i ((mem_dates_of_domain? hd).2 hday)
  exact (mem_dates_full.1 hleft).2

namespace Solver

variable {m : Model} {config : Config} {net : Network} {store : Store} {stats : Stats}

/-- The counters of pruning and the dates that are left add up to the full
store. -/
theorem Course.total_eq (h : Course m config net store stats) :
    stats.nodePruned + stats.arcPruned + store.totalSize = m.eventCount * m.rangeLength := by
  rcases h.pruned with ⟨bounded, hpruned⟩
  have hnode := hpruned.nodePruned_eq
  have harc := hpruned.arcPruned_eq
  have hfull := Store.totalSize_full m.eventCount m.range
  rw [DateRange.length_days] at hfull
  unfold Model.rangeLength
  omega

/-- Whatever is done to the full store of some events, the store keeps as many
domains as there are events, each an ascending list of days of the range, and
the dates left and the dates counted add up to the number of events times the
number of days.  One more operation only takes dates out, and from the named
event only if it names one.  In particular the counters of a run and the dates
that pruning leaves add up. -/
theorem dates_conserved :
    (∀ (n : Nat) (range : DateRange) (ops : List Store.Operation), (∀ op ∈ ops, op.Within n) →
      ∃ s removed, Store.performAll? ops (.full n range) = some (s, removed) ∧ s.size = n ∧
        (∀ i d, s.domain? i = some d →
          d.days.Pairwise (· < ·) ∧ d.days.Nodup ∧ ∀ day ∈ d.days, day ∈ range) ∧
        removed + s.totalSize = n * range.days.length ∧
        ∀ op : Store.Operation, op.Within n →
          ∃ s' more, op.perform? s = some (s', more) ∧
            Store.performAll? (ops ++ [op]) (.full n range) = some (s', removed + more) ∧
            s'.size = n ∧
            (∀ i d d', s.domain? i = some d → s'.domain? i = some d' →
              ∀ day ∈ d'.days, day ∈ d.days) ∧
            ∀ var, op.target? = some var → ∀ i, i ≠ var → s'.domain? i = s.domain? i) ∧
    ∀ (m : Model) (config : Config) (readings : Readings), m.validate = .ok () →
      ∃ r store, (run m config readings).result = .ok r ∧
        (propagate m config).result = .ok (.ok store) ∧
        r.stats.nodePruned + r.stats.arcPruned + store.totalSize =
          m.eventCount * m.rangeLength := by
  constructor
  · intro n range ops hops
    have hsize := Store.size_full n range
    have hwithin : ∀ op ∈ ops, op.Within (Store.full n range).size := by
      rw [hsize]
      exact hops
    rcases Store.exists_performAll? hwithin with ⟨s, removed, hall, hshrinks⟩
    have hsize' := hshrinks.size_eq.trans hsize
    refine ⟨s, removed, hall, hsize', ?_, ?_, ?_⟩
    · intro i d hd
      exact ⟨d.ascending, d.nodup, fun day => hshrinks.mem_range hd⟩
    · rw [hshrinks.total, Store.totalSize_full]
    · intro op hop
      rcases op.exists_perform? (hsize' ▸ hop) with ⟨s', more, hperform, hstep, hothers⟩
      refine ⟨s', more, hperform, Store.performAll?_concat hall hperform,
        hstep.size_eq.trans hsize', ?_, hothers⟩
      intro i d d' hd hd' day hday
      exact (Store.mem_dates_of_domain? hd).1
        (hstep.subset i ((Store.mem_dates_of_domain? hd').2 hday))
  · intro m config readings hvalid
    rcases exists_course hvalid config with ⟨net, store, stats, hcourse⟩
    rcases hcourse.exists_run_stats readings with ⟨r, hrun, hnode, harc, -⟩
    refine ⟨r, store, hrun, hcourse.propagate_eq, ?_⟩
    rw [hnode, harc]
    exact hcourse.total_eq

/-- Two events over three days: one date is taken out that occurs twice in the
list, every second date is retained, and both passes are made; and a run on a
model with the same constraints that is cancelled at once. -/
theorem dates_conserved_of_two :
    let first : Date := ⟨2024, 2, 28, by decide⟩
    let last : Date := ⟨2024, 3, 1, by decide⟩
    let cs : List Constraint := [.binary 0 .before 1, .unary 1 .notEqual first]
    let m : Model := ⟨2, ⟨first, last⟩, cs⟩
    let ops : List Store.Operation :=
      [.removeAll 0 [last, last], .nodeConsistency 2 cs, .retain 1 fun visited _ => visited % 2 = 0]
    let pass : Store.Operation := .arcConsistency 2 cs
    (∀ op ∈ ops, op.Within 2) ∧ pass.Within 2 ∧ m.validate = .ok () ∧
      (∃ s removed s' more, Store.performAll? ops (.full 2 ⟨first, last⟩) = some (s, removed) ∧
        pass.perform? s = some (s', more) ∧ removed + s.totalSize = 6 ∧
        Store.performAll? (ops ++ [pass]) (.full 2 ⟨first, last⟩) = some (s', removed + more)) ∧
      ∃ r store, (run m {} (.constant true false)).result = .ok r ∧
        (propagate m {}).result = .ok (.ok store) ∧
        r.stats.nodePruned + r.stats.arcPruned + store.totalSize = 6 := by
  intro first last cs m ops pass
  have hcs : ∀ c ∈ cs, c.maxIndex < 2 := by decide
  have hops : ∀ op ∈ ops, op.Within 2 := by
    simp only [ops, List.forall_mem_cons, List.not_mem_nil, false_imp_iff, implies_true, and_true]
    exact ⟨Nat.zero_lt_two, ⟨Nat.le_refl 2, hcs⟩, Nat.one_lt_two⟩
  have hpass : pass.Within 2 := ⟨Nat.le_refl 2, hcs⟩
  have hvalid : m.validate = .ok () := by decide
  have hlength : DateRange.length ⟨first, last⟩ = 3 := by decide
  have hcount : m.eventCount * m.rangeLength = 6 := congrArg (2 * ·) hlength
  rcases dates_conserved with ⟨hhistory, hrun⟩
  rcases hhistory 2 ⟨first, last⟩ ops hops with ⟨s, removed, hall, -, -, htotal, hmore⟩
  rcases hmore pass hpass with ⟨s', more, hperform, hconcat, -⟩
  rw [DateRange.length_days, hlength] at htotal
  rcases hrun m {} (.constant true false) hvalid with ⟨r, store, hresult, hpropagate, hstats⟩
  exact ⟨hops, hpass, hvalid, ⟨s, removed, s', more, hall, hperform, htotal, hconcat⟩,
    r, store, hresult, hpropagate, hstats.trans hcount⟩

end Solver
end DateScheduling
