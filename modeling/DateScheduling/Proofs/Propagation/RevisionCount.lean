import DateScheduling.Proofs.Network.Index
import DateScheduling.Proofs.Propagation.GreatestConsistency
import DateScheduling.Proofs.Store.Losses

/-!
# The number of revisions

A pass revises every arc at least once.  It revises an arc again only when the tail of
the arc has lost dates since, and then not if the arc comes from the event that caused
the loss.  So every date gives credit for one revision from each neighbour of its event
but one.  When a revision takes dates out, their credit pays for all arcs that are put
on the agenda again, and what is left at the end bounds the number of revisions.

Main results:

- Theorem `Agenda.Sound.length_pushAll_le`: an agenda grows by no more than what is put
  on it.
- Theorem `ArcConsistency.Revises.credit_eq`: the dates taken out give up their credit.
- Theorem `ArcConsistency.Advances.paid`: every step pays for what it puts on the agenda.
- Theorem `arcConsistency_revisions`: how many revisions a pass makes.
-/

namespace DateScheduling

/-! ## Growth of an agenda -/

namespace Agenda

variable {α : Type} [BEq α] [Hashable α]

theorem length_le_push (q : Agenda α) (a : α) : q.length ≤ (q.push a).length := by
  rw [← length_toList, ← length_toList, toList_push]
  split
  · exact Nat.le_refl _
  · rw [List.length_append]
    exact Nat.le_add_right ..

/-- Nothing leaves an agenda when items are put on it. -/
theorem length_le_pushAll (q : Agenda α) (items : List α) :
    q.length ≤ (q.pushAll items).length := by
  unfold pushAll
  induction items generalizing q with
  | nil => exact Nat.le_refl _
  | cons a items ih => exact Nat.le_trans (q.length_le_push a) (ih (q.push a))

/-- An agenda grows by no more than what is put on it. -/
theorem Sound.length_pushAll_le [LawfulBEq α] {q : Agenda α} (hq : q.Sound)
    {items all : List α} (hsubset : items ⊆ all) :
    (q.pushAll items).length ≤ q.length + all.length := by
  rw [← length_toList, ← length_toList, ← List.length_append]
  apply (hq.pushAll items).nodup.length_le_of_subset
  intro a ha
  rw [List.mem_append]
  exact (hq.mem_pushAll_iff.1 ha).symm.imp_right fun h => hsubset h

end Agenda

namespace ArcConsistency

variable {cs : List Constraint} {net : Network} {n : Nat} {original : Store} {s s' : State}

/-! ## Arcs that are put on the agenda again -/

/-- Each neighbour but the tail of the revised arc makes one affected arc. -/
theorem exists_affected (hnet : net.Files n cs) (hcs : ∀ c ∈ cs, c.maxIndex < n) {arc : Arc}
    (harc : Joined cs arc.head arc.tail) {neighbors : List Nat}
    (hneighbors : ∀ w, w ∈ neighbors ↔ Joined cs arc.head w) :
    ∃ items, affected arc neighbors ⊆ items ∧ items.length + 1 = net.degree arc.head := by
  rcases hnet.neighbors?_eq arc.head (harc.lt hcs).1 with ⟨l, hl, hsorted, hmem⟩
  refine ⟨affected arc l, ?_, ?_⟩
  · intro a ha
    exact (mem_affected_iff hmem).2 ((mem_affected_iff hneighbors).1 ha)
  · have htail : arc.tail ∈ l := (hmem arc.tail).2 harc
    have hnodup : l.Nodup := hsorted.imp Nat.ne_of_lt
    have herase : l.filter (· ≠ arc.tail) = l.erase arc.tail := by
      rw [hnodup.erase_eq_filter]
      apply List.filter_congr
      intro w _
      rw [Bool.eq_iff_iff, decide_eq_true_iff, bne_iff_ne]
    have hlength := List.length_erase_add_one htail
    unfold affected Network.degree
    rw [List.length_map, herase, hl, Option.getD_some, hlength]

/-! ## Credit -/

/-- Revisions the dates of a store can still give rise to: every date one from each
neighbour of its event but one. -/
def credit (net : Network) (s : Store) : Nat :=
  ∑ h ∈ Finset.range s.size, s.sizeAt h * (net.degree h - 1)

/-- The dates a revision takes out give up their credit. -/
theorem Revises.credit_eq {arc : Arc} {store : Store} {r : Revision}
    (hrevises : Revises cs arc store r) (net : Network) :
    credit net r.store + r.removed * (net.degree arc.head - 1) = credit net store := by
  rcases hrevises.sizeOf?_eq with ⟨hbefore, hafter⟩
  have hhead : arc.head ∈ Finset.range store.size := by
    rcases Option.map_eq_some_iff.1 hbefore with ⟨d, hd, -⟩
    exact Finset.mem_range.2 (Store.lt_size_of_domain? hd)
  have hothers : ∀ h ∈ (Finset.range store.size).erase arc.head,
      r.store.sizeAt h * (net.degree h - 1) = store.sizeAt h * (net.degree h - 1) := by
    intro h hh
    unfold Store.sizeAt Store.sizeOf?
    rw [hrevises.domain?_eq h (Finset.ne_of_mem_erase hh)]
  unfold credit
  rw [hrevises.size_eq, ← Finset.add_sum_erase _ _ hhead, ← Finset.add_sum_erase _ _ hhead,
    Finset.sum_congr rfl hothers]
  simp only [Store.sizeAt, hbefore, hafter, Option.getD_some, Nat.add_mul]
  omega

/-- Every arc was or is to be revised, and what is to be revised once more is paid for
by dates that are gone. -/
structure Paid (net : Network) (original : Store) (s : State) : Prop where
  arcs_le : net.arcs.length ≤ s.revisions + s.agenda.length
  le_arcs : s.revisions + s.agenda.length + credit net s.store ≤
    net.arcs.length + credit net original

theorem paid_start (net : Network) (original : Store) :
    Paid net original (.start net original) := by
  constructor
  · simp [State.start, Network.arcs]
  · simp [State.start, Network.arcs]

/-- Every step pays for what it puts on the agenda. -/
theorem Advances.paid (hnet : net.Files n cs) (hcs : ∀ c ∈ cs, c.maxIndex < n)
    (hinv : Invariant cs original s) (hadvances : Advances cs s s')
    (hpaid : Paid net original s) : Paid net original s' := by
  have harcs := hpaid.arcs_le
  have hcredit := hpaid.le_arcs
  cases hadvances with
  | kept hpop _ =>
      have hlength := Agenda.length_pop? hpop
      constructor
      · simp only
        omega
      · simp only
        omega
  | @pruned arc rest r neighbors hpop hrevises hlost hneighbors =>
      have hlength := Agenda.length_pop? hpop
      have hgrows := rest.length_le_pushAll (affected arc neighbors)
      rcases exists_affected hnet hcs (hinv.joined_pop? hpop) hneighbors with
          ⟨items, hitems, hdegree⟩
      have hgrowth := (hinv.sound.pop? hpop).1.length_pushAll_le hitems
      have hspent := hrevises.credit_eq net
      -- One lost date is enough to pay for all arcs that are put on the agenda.
      have hone : items.length ≤ r.removed * (net.degree arc.head - 1) := by
        rw [← hdegree, Nat.add_sub_cancel]
        exact Nat.le_mul_of_pos_left _ (Nat.pos_of_ne_zero hlost)
      constructor
      · simp only
        omega
      · simp only
        omega

end ArcConsistency

/-! ## The counters of a pass -/

/-- What the credit of a store has lost is the credit of the dates lost. -/
theorem credit_add_sum_lost (net : Network) {before after : Store}
    (hsize : after.size = before.size) (hsubset : ∀ v, after.dates v ⊆ before.dates v) :
    ArcConsistency.credit net after +
        ∑ h ∈ Finset.range before.size, Store.lost before after h * (net.degree h - 1) =
      ArcConsistency.credit net before := by
  unfold ArcConsistency.credit
  rw [hsize, ← Finset.sum_add_distrib]
  apply Finset.sum_congr rfl
  intro h _
  rw [← Nat.add_mul, Store.sizeAt_add_lost (hsubset h)]

/-- The counters of a pass against the dates the events have lost. -/
theorem exists_counts {net : Network} {n : Nat} {cs : List Constraint} (hnet : net.Files n cs)
    (hcs : ∀ c ∈ cs, c.maxIndex < n) {s : Store} (hsize : n ≤ s.size) :
    ∃ s' counts, (arcConsistency net s).store = s' ∧
      (arcConsistency net s).result = .ok counts ∧ GreatestConsistent cs s s' ∧
      net.arcs.length ≤ counts.revisions ∧
      counts.revisions ≤ net.arcs.length +
        ∑ h ∈ Finset.range s.size, s.lost s' h * (net.degree h - 1) ∧
      counts.removed = ∑ h ∈ Finset.range s.size, s.lost s' h := by
  rcases exists_last hnet hcs hsize (fun _ _ hinv hadvances => hadvances.paid hnet hcs hinv)
      (ArcConsistency.paid_start net s) with ⟨last, hstore, hresult, -, hempty, hinv, hpaid⟩
  have hlength : last.agenda.length = 0 := by
    rw [← Agenda.length_toList, hempty]
    rfl
  have harcs := hpaid.arcs_le
  have hle := hpaid.le_arcs
  have hcredit := credit_add_sum_lost net hinv.size_eq hinv.subset
  have hlost := Store.totalSize_add_sum_lost hinv.size_eq hinv.subset
  have htotal := hinv.total
  refine ⟨last.store, _, hstore, hresult, hinv.greatestConsistent hempty, ?_, ?_, ?_⟩
  · simp only
    omega
  · simp only
    omega
  · simp only
    omega

/-- An arc-consistent store is its own greatest arc-consistent store. -/
theorem GreatestConsistent.eq_of_consistent {cs : List Constraint} {s s' : Store}
    (h : GreatestConsistent cs s s') (hs : ArcConsistent cs s.dates) : s' = s := by
  apply Store.ext_of_dates h.size_eq
  intro i
  exact Set.Subset.antisymm (h.subset i) (h.greatest s.dates (fun _ => Set.Subset.rfl) hs i)

/-- For every list of constraints within `n` events and every store of at least `n`
events, the pass revises every arc.  For every date that an event loses it makes at most
one further revision for each neighbour of the event but one; an event without
neighbours loses nothing.  It reports how many dates the events have lost.  A second pass
takes nothing out and revises every arc once. -/
theorem arcConsistency_revisions (n : Nat) (cs : List Constraint) (s : Store)
    (hcs : ∀ c ∈ cs, c.maxIndex < n) (hsize : n ≤ s.size) :
    ∃ net counts, Network.build? n cs = some net ∧
      (arcConsistency net s).result = .ok counts ∧
      net.arcs.length ≤ counts.revisions ∧
      counts.revisions ≤ net.arcs.length +
        ∑ h ∈ Finset.range s.size,
          s.lost (arcConsistency net s).store h * (net.degree h - 1) ∧
      counts.removed = ∑ h ∈ Finset.range s.size, s.lost (arcConsistency net s).store h ∧
      (arcConsistency net (arcConsistency net s).store).store = (arcConsistency net s).store ∧
      (arcConsistency net (arcConsistency net s).store).result = .ok ⟨net.arcs.length, 0⟩ := by
  rcases Network.exists_build? hcs with ⟨net, hbuild, hnet⟩
  rcases exists_counts hnet hcs hsize with
      ⟨s', counts, hstore, hresult, hgreatest, harcs, hrevisions, hremoved⟩
  have hsize' : n ≤ s'.size := by
    rw [hgreatest.size_eq]
    exact hsize
  rcases exists_counts hnet hcs hsize' with
      ⟨s'', counts', hstore', hresult', hgreatest', harcs', hrevisions', hremoved'⟩
  have hsame := hgreatest'.eq_of_consistent hgreatest.consistent
  subst hsame
  simp only [Store.lost_self, Nat.zero_mul, Finset.sum_const_zero] at hrevisions' hremoved'
  refine ⟨net, counts, hbuild, hresult, harcs, ?_, ?_, ?_, ?_⟩
  · rw [hstore]
    exact hrevisions
  · rw [hstore]
    exact hremoved
  · rw [hstore]
    exact hstore'
  · rw [hstore, hresult']
    have hexact : counts'.revisions = net.arcs.length := by omega
    rw [← hexact, ← hremoved']

/-- Three events over three days in a chain, and one constraint of the last event with
itself. -/
theorem arcConsistency_revisions_of_three :
    let first : Date := ⟨2024, 2, 28, by decide⟩
    let last : Date := ⟨2024, 3, 1, by decide⟩
    let cs : List Constraint :=
      [.binary 0 .before 1, .binary 1 .before 2, .binary 2 .onOrBefore 2]
    let s := Store.full 3 ⟨first, last⟩
    (∀ c ∈ cs, c.maxIndex < 3) ∧ 3 ≤ s.size ∧
      ∃ net counts, Network.build? 3 cs = some net ∧
        (arcConsistency net s).result = .ok counts ∧
        net.arcs.length ≤ counts.revisions ∧
        counts.revisions ≤ net.arcs.length +
          ∑ h ∈ Finset.range s.size,
            s.lost (arcConsistency net s).store h * (net.degree h - 1) ∧
        counts.removed = ∑ h ∈ Finset.range s.size, s.lost (arcConsistency net s).store h ∧
        (arcConsistency net (arcConsistency net s).store).store =
          (arcConsistency net s).store ∧
        (arcConsistency net (arcConsistency net s).store).result =
          .ok ⟨net.arcs.length, 0⟩ := by
  intro first last cs s
  have hcs : ∀ c ∈ cs, c.maxIndex < 3 := by decide
  have hsize : 3 ≤ s.size := by simp [s, Store.full, Store.size]
  exact ⟨hcs, hsize, arcConsistency_revisions 3 cs s hcs hsize⟩

end DateScheduling
