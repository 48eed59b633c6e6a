import DateScheduling.Proofs.Network.Index
import DateScheduling.Proofs.Propagation.ArcPass

/-!
# Arcs that wait and arcs that need not

Throughout a pass the arcs that are not waiting are consistent, so the agenda holds all the
work that is left.  A revision makes its own arc consistent.  It may upset other arcs that
lead to its head, and these are put on the agenda again, but it never upsets the arc in the
other direction: a date that is taken out of the head has no partner at the tail, so no date
of the tail relied on it.

Main results:

- Theorem `ArcConsistency.Revises.consistent_of`: which arcs a revision leaves consistent.
- Theorem `ArcConsistency.Invariant.settled`: an arc that is not waiting is consistent.
- Theorem `arcConsistency_waiting`: what holds of agenda and store throughout a pass.
-/

namespace DateScheduling

namespace ArcConsistency

variable {cs : List Constraint} {net : Network} {n : Nat} {arc other : Arc} {s original : Store}
  {r : Revision} {t : State}

/-! ## What a revision leaves consistent -/

/-- A revision leaves an arc consistent that was so before or is the revised one, unless
the arc leads to the head from an event other than the tail. -/
theorem Revises.consistent_of (hrevises : Revises cs arc s r)
    (hold : other ≠ arc → other.Consistent cs s.dates)
    (hback : other.tail = arc.head → other.head = arc.tail) :
    other.Consistent cs r.store.dates := by
  rw [Arc.consistent_iff]
  apply hrevises.supported
  · intro hne
    exact Arc.consistent_iff.1 (hold hne)
  · exact hback

/-- A revision makes its arc consistent. -/
theorem Revises.consistent (hrevises : Revises cs arc s r) : arc.Consistent cs r.store.dates := by
  apply hrevises.consistent_of
  · intro hne
    exact absurd rfl hne
  · intro hloop
    exact hloop.symm

/-- A revision leaves the arc in the other direction consistent. -/
theorem Revises.consistent_reversed (hrevises : Revises cs arc s r)
    (h : arc.reversed.Consistent cs s.dates) : arc.reversed.Consistent cs r.store.dates :=
  hrevises.consistent_of (fun _ => h) fun _ => rfl

/-! ## The agenda between two revisions -/

namespace Invariant

/-- What waits are arcs of the network, and so there are constraints between the two
events. -/
theorem mem_arcs (hinv : Invariant cs original t) (hnet : net.Files n cs)
    (h : arc ∈ t.agenda.toList) :
    arc ∈ net.arcs ∧ net.between arc.head arc.tail ≠ [] := by
  have hjoined := hinv.joined arc h
  exact ⟨hnet.mem_arcs_iff.2 hjoined, hnet.between_ne_nil_iff.2 hjoined⟩

/-- An arc of the network that is not waiting is consistent. -/
theorem settled (hinv : Invariant cs original t) (hnet : net.Files n cs) (harc : arc ∈ net.arcs)
    (hwaiting : arc ∉ t.agenda.toList) : arc.Consistent cs t.store.dates := by
  rw [Arc.consistent_iff]
  exact hinv.supported arc.head arc.tail (hnet.mem_arcs_iff.1 harc) hwaiting

end Invariant

end ArcConsistency

/-- For every list of constraints within `n` events and every store of at least `n` events,
the following holds before each revision of the pass and at its end.  No arc waits twice,
and the set kept beside the queue is the set of waiting arcs.  Every waiting arc is an arc of
the network, so a revision always finds constraints between its events.  Every arc of the
network that is not waiting is consistent.  Besides, to revise an arc of the network makes
it consistent and leaves the arc in the other direction consistent if it was so, whatever
the store. -/
theorem arcConsistency_waiting (n : Nat) (cs : List Constraint) (s : Store)
    (hcs : ∀ c ∈ cs, c.maxIndex < n) (hsize : n ≤ s.size) :
    ∃ net, Network.build? n cs = some net ∧
      (∀ t ∈ ArcConsistency.trail net (.start net s),
        t.agenda.toList.Nodup ∧
        (∀ a, t.agenda.waiting.contains a = true ↔ a ∈ t.agenda.toList) ∧
        (∀ a ∈ t.agenda.toList, a ∈ net.arcs ∧ net.between a.head a.tail ≠ []) ∧
        ∀ a ∈ net.arcs, a ∉ t.agenda.toList → a.Consistent cs t.store.dates) ∧
      ∀ s' : Store, n ≤ s'.size → ∀ a ∈ net.arcs,
        ∃ r, ArcConsistency.revise net a s' = .ok r ∧ a.Consistent cs r.store.dates ∧
          (a.reversed.Consistent cs s'.dates → a.reversed.Consistent cs r.store.dates) := by
  rcases Network.exists_build? hcs with ⟨net, hbuild, hnet⟩
  refine ⟨net, hbuild, ?_, ?_⟩
  · intro t ht
    have hinv := ArcConsistency.invariant_of_mem_trail hnet hcs hsize
      (ArcConsistency.invariant_start hnet s) t ht
    refine ⟨hinv.sound.nodup, hinv.sound.contains_iff, ?_, ?_⟩
    · intro a ha
      exact hinv.mem_arcs hnet ha
    · intro a harc hwaiting
      exact hinv.settled hnet harc hwaiting
  · intro s' hsize' a ha
    have hjoined := hnet.mem_arcs_iff.1 ha
    rcases hjoined.lt hcs with ⟨hhead, htail⟩
    rcases ArcConsistency.exists_revise hnet hjoined (s := s') (by omega) (by omega) with
        ⟨r, hrevise, hrevises⟩
    exact ⟨r, hrevise, hrevises.consistent, hrevises.consistent_reversed⟩

/-- Three events over three days: the first lies before the second, declared in both
directions, and the second compares with itself.  As long as the arc from the first to the
second is not waiting, every date of the first has a later one at the second. -/
theorem arcConsistency_waiting_of_three :
    let first : Date := ⟨2024, 2, 28, by decide⟩
    let last : Date := ⟨2024, 3, 1, by decide⟩
    let cs : List Constraint :=
      [.binary 0 .before 1, .binary 1 .after 0, .binary 1 .onOrBefore 1]
    let s := Store.full 3 ⟨first, last⟩
    (∀ c ∈ cs, c.maxIndex < 3) ∧ 3 ≤ s.size ∧
      ∃ net, Network.build? 3 cs = some net ∧
        (∀ t ∈ ArcConsistency.trail net (.start net s),
          t.agenda.toList.Nodup ∧
          (∀ a, t.agenda.waiting.contains a = true ↔ a ∈ t.agenda.toList) ∧
          (⟨0, 1⟩ ∉ t.agenda.toList →
            ∀ v ∈ t.store.dates 0, ∃ w ∈ t.store.dates 1, v < w)) ∧
        ∃ r, ArcConsistency.revise net ⟨0, 1⟩ s = .ok r ∧
          (Arc.Consistent cs s.dates ⟨1, 0⟩ → Arc.Consistent cs r.store.dates ⟨1, 0⟩) := by
  intro first last cs s
  have hcs : ∀ c ∈ cs, c.maxIndex < 3 := by decide
  have hsize : 3 ≤ s.size := by simp [s, Store.full, Store.size]
  rcases arcConsistency_waiting 3 cs s hcs hsize with ⟨net, hbuild, htrail, hrevise⟩
  have hbefore : Constraint.binary 0 .before 1 ∈ cs := List.mem_cons_self
  have harc : ⟨0, 1⟩ ∈ net.arcs :=
    (Network.files_of_build? hbuild).mem_arcs_iff.2 ⟨.before, Or.inl hbefore⟩
  refine ⟨hcs, hsize, net, hbuild, ?_, ?_⟩
  · intro t ht
    rcases htrail t ht with ⟨hnodup, hcontains, -, hsettled⟩
    refine ⟨hnodup, hcontains, ?_⟩
    intro hwaiting v hv
    rcases (hsettled _ harc hwaiting).supported Nat.zero_ne_one v hv with ⟨w, hw, hcompatible⟩
    have hholds := (hcompatible .before).1 hbefore
    exact ⟨w, hw, by simpa [Comparison.holds] using hholds⟩
  · rcases hrevise s hsize _ harc with ⟨r, hr, -, hreversed⟩
    exact ⟨r, hr, hreversed⟩

end DateScheduling
