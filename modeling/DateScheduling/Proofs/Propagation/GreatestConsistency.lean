import DateScheduling.Proofs.Propagation.ArcPass

/-!
# The greatest arc-consistent store

Whatever store the arc consistency pass is given, it ends, and what it leaves is
the greatest arc-consistent store below the given one: it is arc-consistent,
and every arc-consistent family of dates within the given store is within the
result.  Nothing depends on the order in which arcs happen to be revised.

Main results:

- Theorem `exists_last`: what every step keeps holds when the pass ends.
- Theorem `exists_arcConsistency`: what the pass makes of a store.
- Theorem `arcConsistency_greatest`: the same for the network built from a list
  of constraints.
-/

namespace DateScheduling

/-- The store `s'` is the greatest arc-consistent store below `s`. -/
structure GreatestConsistent (cs : List Constraint) (s s' : Store) : Prop where
  size_eq : s'.size = s.size
  subset : ∀ i, s'.dates i ⊆ s.dates i
  /-- An event that no constraint joins to any event keeps its domain. -/
  free : ∀ i, (∀ j, ¬ Joined cs i j) → s'.domain? i = s.domain? i
  consistent : ArcConsistent cs s'.dates
  greatest : ∀ T : Nat → Set Date, (∀ i, T i ⊆ s.dates i) → ArcConsistent cs T →
    ∀ i, T i ⊆ s'.dates i

/-- The smaller the store, the smaller the greatest arc-consistent store below it. -/
theorem GreatestConsistent.dates_mono {cs : List Constraint} {s s' t t' : Store}
    (hs : GreatestConsistent cs s s') (ht : GreatestConsistent cs t t')
    (hsubset : ∀ i, s.dates i ⊆ t.dates i) (i : Nat) : s'.dates i ⊆ t'.dates i := by
  apply ht.greatest s'.dates _ hs.consistent
  intro j
  exact (hs.subset j).trans (hsubset j)

/-- When nothing is waiting any more, the invariant of the pass says that the
store is the greatest arc-consistent one. -/
theorem ArcConsistency.Invariant.greatestConsistent {cs : List Constraint} {original : Store}
    {s : ArcConsistency.State} (hinv : ArcConsistency.Invariant cs original s)
    (hempty : s.agenda.toList = []) : GreatestConsistent cs original s.store := by
  constructor
  case size_eq => exact hinv.size_eq
  case subset => exact hinv.subset
  case free => exact hinv.free
  case consistent =>
    rw [arcConsistent_iff]
    intro a b hjoined
    apply hinv.supported a b hjoined
    rw [hempty]
    exact List.not_mem_nil
  case greatest => exact hinv.greatest

/-- The pass ends without a fault.  It leaves the store of a state with nothing
waiting, in which the invariant and whatever else every step keeps hold; it
reports the counters of this state and adds them to its log. -/
theorem exists_last {net : Network} {n : Nat} {cs : List Constraint}
    (hnet : net.Files n cs) (hcs : ∀ c ∈ cs, c.maxIndex < n) {s : Store} (hsize : n ≤ s.size)
    {P : ArcConsistency.State → Prop}
    (hstep : ∀ t t', ArcConsistency.Invariant cs s t → ArcConsistency.Advances cs t t' →
      P t → P t') (hstart : P (.start net s)) :
    ∃ last, (arcConsistency net s).store = last.store ∧
      (arcConsistency net s).result = .ok ⟨last.revisions, last.removed⟩ ∧
      (arcConsistency net s).log =
        last.log.push (.arcConsistent last.removed last.revisions last.store.totalSize) ∧
      last.agenda.toList = [] ∧ ArcConsistency.Invariant cs s last ∧ P last := by
  rcases ArcConsistency.run_preserves hnet hcs hsize hstep (ArcConsistency.invariant_start hnet s)
      hstart with ⟨last, hrun, hempty, hinv, hlast⟩
  refine ⟨last, ?_, ?_, ?_, hempty, hinv, hlast⟩
  · simp only [arcConsistency, hrun]
  · simp only [arcConsistency, hrun]
  · simp only [arcConsistency, hrun]

/-- The pass leaves the greatest arc-consistent store; it counts the dates by which
the store has shrunk. -/
theorem exists_arcConsistency {net : Network} {n : Nat} {cs : List Constraint}
    (hnet : net.Files n cs) (hcs : ∀ c ∈ cs, c.maxIndex < n) {s : Store} (hsize : n ≤ s.size) :
    ∃ s' counts, (arcConsistency net s).store = s' ∧
      (arcConsistency net s).result = .ok counts ∧ GreatestConsistent cs s s' ∧
      s'.totalSize + counts.removed = s.totalSize := by
  rcases exists_last hnet hcs hsize (P := fun _ => True) (fun _ _ _ _ _ => trivial) trivial with
      ⟨last, hstore, hresult, -, hempty, hinv, -⟩
  exact ⟨last.store, _, hstore, hresult, hinv.greatestConsistent hempty, hinv.total⟩

/-- For every list of constraints within `n` events and every store of at least
`n` events, the pass ends and computes the greatest arc-consistent store below
the given one; what it says to have taken out is what the store has lost. -/
theorem arcConsistency_greatest (n : Nat) (cs : List Constraint) (s : Store)
    (hcs : ∀ c ∈ cs, c.maxIndex < n) (hsize : n ≤ s.size) :
    ∃ net counts, Network.build? n cs = some net ∧
      (arcConsistency net s).result = .ok counts ∧
      (∀ i, (arcConsistency net s).store.dates i ⊆ s.dates i) ∧
      (∀ i, (∀ j, ¬ Joined cs i j) →
        (arcConsistency net s).store.domain? i = s.domain? i) ∧
      ArcConsistent cs (arcConsistency net s).store.dates ∧
      (∀ T : Nat → Set Date, (∀ i, T i ⊆ s.dates i) → ArcConsistent cs T →
        ∀ i, T i ⊆ (arcConsistency net s).store.dates i) ∧
      (arcConsistency net s).store.size = s.size ∧
      (arcConsistency net s).store.totalSize + counts.removed = s.totalSize := by
  rcases Network.exists_build? hcs with ⟨net, hbuild, hnet⟩
  rcases exists_arcConsistency hnet hcs hsize with ⟨s', counts, hstore, hresult, hgreatest, htotal⟩
  refine ⟨net, counts, hbuild, hresult, ?_⟩
  rw [hstore]
  exact ⟨hgreatest.subset, hgreatest.free, hgreatest.consistent, hgreatest.greatest,
    hgreatest.size_eq, htotal⟩

/-- Three events over three days: the first lies before the second, declared in
both directions, the second compares with itself, and the third is free. -/
theorem arcConsistency_greatest_of_three :
    let first : Date := ⟨2024, 2, 28, by decide⟩
    let last : Date := ⟨2024, 3, 1, by decide⟩
    let cs : List Constraint :=
      [.binary 0 .before 1, .binary 1 .after 0, .binary 1 .onOrBefore 1]
    let s := Store.full 3 ⟨first, last⟩
    (∀ c ∈ cs, c.maxIndex < 2) ∧ 2 ≤ s.size ∧
      ∃ net counts, Network.build? 2 cs = some net ∧
        (arcConsistency net s).result = .ok counts ∧
        (∀ i, (arcConsistency net s).store.dates i ⊆ s.dates i) ∧
        (arcConsistency net s).store.domain? 2 = s.domain? 2 ∧
        ArcConsistent cs (arcConsistency net s).store.dates ∧
        (arcConsistency net s).store.totalSize + counts.removed = s.totalSize := by
  intro first last cs s
  have hcs : ∀ c ∈ cs, c.maxIndex < 2 := by decide
  have hsize : 2 ≤ s.size := by simp [s, Store.full, Store.size]
  rcases arcConsistency_greatest 2 cs s hcs hsize with
      ⟨net, counts, hbuild, hresult, hsubset, hfree, hconsistent, -, -, htotal⟩
  refine ⟨hcs, hsize, net, counts, hbuild, hresult, hsubset, ?_, hconsistent, htotal⟩
  apply hfree
  intro j hjoined
  have hlt := (hjoined.lt hcs).1
  omega

end DateScheduling
