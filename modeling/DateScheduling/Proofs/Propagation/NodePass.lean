import DateScheduling.Proofs.Network.Relations
import DateScheduling.Proofs.Propagation.GreatestConsistency
import DateScheduling.Proofs.Propagation.UnaryFilter

/-!
# Node consistency as one filter

The node consistency pass goes through the constraints with a fixed date one by one.
What it leaves does not show in which order: every event keeps the dates that all its
bounds allow.  Such a store stays as it is when the pass is made again, also after more
dates were taken out, by arc consistency or otherwise.

Main results:

- Theorem `nodeConsistency_congr`: constraints that set the same bounds make the same
  pass.
- Theorem `nodeConsistency_settled`: the pass changes nothing when all dates are within
  their bounds.
- Theorem `nodeConsistency_exact`: what the pass makes of a store.
-/

namespace DateScheduling

variable {cs cs' : List Constraint} {net net' : Network} {n : Nat} {s t : Store}

/-- A pass that ends without a fault reports what it has taken out and what remains. -/
theorem nodeConsistency_eq {removed : Nat} (h : (nodeConsistency net s).result = .ok removed) :
    nodeConsistency net s = ⟨(nodeConsistency net s).store,
      #[.nodeConsistent removed (nodeConsistency net s).store.totalSize], .ok removed⟩ := by
  unfold nodeConsistency at h ⊢
  split at h
  · cases h
    rfl
  · cases h

/-- Constraints that set the same bounds make the same pass. -/
theorem nodeConsistency_congr (hnet : net.Files n cs) (hcs : ∀ c ∈ cs, c.maxIndex < n)
    (hnet' : net'.Files n cs') (hcs' : ∀ c ∈ cs', c.maxIndex < n) (hsize : n ≤ s.size)
    (h : ∀ i v, MeetsBounds cs i v ↔ MeetsBounds cs' i v) :
    nodeConsistency net s = nodeConsistency net' s := by
  rcases exists_nodeConsistency hnet hcs hsize with
      ⟨left, removed, hstore, hresult, hleft, hdates, htotal⟩
  rcases exists_nodeConsistency hnet' hcs' hsize with
      ⟨left', removed', hstore', hresult', hleft', hdates', htotal'⟩
  have hsame : left = left' := by
    apply Store.ext_of_dates (hleft.trans hleft'.symm)
    intro i
    ext v
    rw [hdates, hdates', h]
  have hcount : removed = removed' := by
    rw [hsame] at htotal
    omega
  rw [nodeConsistency_eq hresult, nodeConsistency_eq hresult', hstore, hstore', hsame, hcount]

/-- The pass changes nothing when all dates are within their bounds. -/
theorem nodeConsistency_settled (hnet : net.Files n cs) (hcs : ∀ c ∈ cs, c.maxIndex < n)
    (hsize : n ≤ t.size) (h : ∀ i, ∀ v ∈ t.dates i, MeetsBounds cs i v) :
    (nodeConsistency net t).store = t ∧ (nodeConsistency net t).result = .ok 0 := by
  rcases exists_nodeConsistency hnet hcs hsize with
      ⟨left, removed, hstore, hresult, hleft, hdates, htotal⟩
  have hsame : left = t := by
    apply Store.ext_of_dates hleft
    intro i
    ext v
    rw [hdates]
    exact and_iff_left_of_imp (h i v)
  have hnone : removed = 0 := by
    rw [hsame] at htotal
    omega
  rw [hstore, hresult, hsame, hnone]
  exact ⟨rfl, rfl⟩

/-- No constraint within `n` events bounds a later event. -/
theorem meetsBounds_of_le (hcs : ∀ c ∈ cs, c.maxIndex < n) {i : Nat} (hi : n ≤ i) (v : Date) :
    MeetsBounds cs i v := by
  intro op bound hmem
  have hlt : i < n := hcs _ hmem
  omega

/-- For every list of constraints within `n` events and every store of at least `n`
events, each of the first `n` events keeps those of its dates of which all its
constraints with a fixed date hold, and every other event keeps its domain.  The pass
counts the dates by which the store has shrunk.  The same constraints in another order
make the same pass.  A second pass takes nothing out, and neither does a pass that
follows arc consistency, whatever else was taken out before. -/
theorem nodeConsistency_exact (n : Nat) (cs : List Constraint) (s : Store)
    (hcs : ∀ c ∈ cs, c.maxIndex < n) (hsize : n ≤ s.size) :
    ∃ net s' removed, Network.build? n cs = some net ∧
      (nodeConsistency net s).store = s' ∧ (nodeConsistency net s).result = .ok removed ∧
      s'.size = s.size ∧
      (∀ i, i < n → ∀ v, v ∈ s'.dates i ↔ v ∈ s.dates i ∧
        ∀ op bound, Constraint.unary i op bound ∈ cs → op.holds v bound = true) ∧
      (∀ i, n ≤ i → s'.domain? i = s.domain? i) ∧
      s'.totalSize + removed = s.totalSize ∧
      (∀ cs', cs'.Perm cs → ∃ net', Network.build? n cs' = some net' ∧
        nodeConsistency net' s = nodeConsistency net s) ∧
      (nodeConsistency net s').store = s' ∧ (nodeConsistency net s').result = .ok 0 ∧
      ∀ t : Store, t.size = s'.size → (∀ i, t.dates i ⊆ s'.dates i) →
        ∃ t' counts, (arcConsistency net t).store = t' ∧
          (arcConsistency net t).result = .ok counts ∧
          (nodeConsistency net t').store = t' ∧ (nodeConsistency net t').result = .ok 0 := by
  rcases Network.exists_build? hcs with ⟨net, hbuild, hnet⟩
  rcases exists_nodeConsistency hnet hcs hsize with
      ⟨s', removed, hstore, hresult, hsize', hdates, htotal⟩
  have hbounds : ∀ i, ∀ v ∈ s'.dates i, MeetsBounds cs i v :=
    fun i v hv => ((hdates i v).1 hv).2
  have hsecond := nodeConsistency_settled hnet hcs (by omega) hbounds
  refine ⟨net, s', removed, hbuild, hstore, hresult, hsize', fun i _ => hdates i, ?_, htotal, ?_,
    hsecond.1, hsecond.2, ?_⟩
  · intro i hi
    apply Store.domain?_eq_of_dates hsize'
    ext v
    rw [hdates]
    exact and_iff_left (meetsBounds_of_le hcs hi v)
  · intro cs' hperm
    have hcs' : ∀ c ∈ cs', c.maxIndex < n := fun c hc => hcs c (hperm.mem_iff.1 hc)
    rcases Network.exists_build? hcs' with ⟨net', hbuild', hnet'⟩
    refine ⟨net', hbuild', nodeConsistency_congr hnet' hcs' hnet hcs hsize ?_⟩
    intro i v
    unfold MeetsBounds
    simp only [hperm.mem_iff]
  · intro t ht hsubset
    rcases exists_arcConsistency hnet hcs (s := t) (by omega) with
        ⟨t', counts, harcStore, harcResult, hgreatest, -⟩
    have hleft : ∀ i, ∀ v ∈ t'.dates i, MeetsBounds cs i v :=
      fun i v hv => hbounds i v (hsubset i (hgreatest.subset i hv))
    have hnode := nodeConsistency_settled hnet hcs (by rw [hgreatest.size_eq]; omega) hleft
    exact ⟨t', counts, harcStore, harcResult, hnode.1, hnode.2⟩

/-- Three events over three days, of which the first two are constrained: the first has
two bounds that overlap, and lies before the second. -/
theorem nodeConsistency_exact_of_three :
    let first : Date := ⟨2024, 2, 28, by decide⟩
    let last : Date := ⟨2024, 3, 1, by decide⟩
    let cs : List Constraint :=
      [.unary 0 .before last, .binary 0 .before 1, .unary 0 .notEqual last]
    let s := Store.full 3 ⟨first, last⟩
    (∀ c ∈ cs, c.maxIndex < 2) ∧ 2 ≤ s.size ∧
      ∃ net s' removed, Network.build? 2 cs = some net ∧
        (nodeConsistency net s).store = s' ∧ (nodeConsistency net s).result = .ok removed ∧
        last ∉ s'.dates 0 ∧ s'.domain? 2 = s.domain? 2 ∧ s'.totalSize + removed = s.totalSize ∧
        (∃ net', Network.build? 2 cs.reverse = some net' ∧
          nodeConsistency net' s = nodeConsistency net s) ∧
        ∃ t' counts, (arcConsistency net s').store = t' ∧
          (arcConsistency net s').result = .ok counts ∧
          (nodeConsistency net t').result = .ok 0 := by
  intro first last cs s
  have hcs : ∀ c ∈ cs, c.maxIndex < 2 := by decide
  have hsize : 2 ≤ s.size := by simp [s, Store.full, Store.size]
  rcases nodeConsistency_exact 2 cs s hcs hsize with
      ⟨net, s', removed, hbuild, hstore, hresult, -, hdates, hothers, htotal, hperm, -, -, harc⟩
  rcases harc s' rfl (fun i => Set.Subset.rfl) with ⟨t', counts, harcStore, harcResult, -, hnode⟩
  refine ⟨hcs, hsize, net, s', removed, hbuild, hstore, hresult, ?_, hothers 2 (Nat.le_refl 2),
    htotal, hperm _ cs.reverse_perm, t', counts, harcStore, harcResult, hnode⟩
  intro hlast
  have hholds := ((hdates 0 Nat.zero_lt_two last).1 hlast).2 .notEqual last (by simp [cs])
  simp [Comparison.holds] at hholds

end DateScheduling
