import Mathlib.Algebra.BigOperators.Group.Finset.Basic
import Mathlib.Data.List.Induction
import DateScheduling.Proofs.Network.Arcs

/-!
# A network as an index of its constraints

The queries of a network look at one list of constraints from several sides: event
by event, pair by pair, and as arcs.  Each of them finds exactly the constraints of
the list that it asks for, in the order of the list and as often as they are there,
and the neighbours and the arcs agree with what is found between two events.

Main results:

- Theorem `Agenda.pairwise_idxOf_ofList`: an agenda keeps the order in which its items
  first appear.
- Theorem `Network.Files.idxOf_arcs_lt`: of the two arcs of a constraint the one from
  left to right comes first, unless an earlier constraint has them, too.
- Theorem `Network.Files.length_arcs`: every neighbour of an event makes one arc.
- Theorem `Network.build?_indexes`: the network of a list is an index of this list.
-/

namespace DateScheduling

/-! ## Order of first appearance -/

namespace Agenda

variable {α : Type} [BEq α] [Hashable α]

/-- One more item at the end of a list is put on the agenda last. -/
theorem ofList_concat (items : List α) (a : α) : ofList (items ++ [a]) = (ofList items).push a := by
  unfold ofList pushAll
  rw [List.foldl_append]
  rfl

variable [LawfulBEq α]

/-- An agenda keeps the order in which its items first appear. -/
theorem pairwise_idxOf_ofList (items : List α) :
    (ofList items).toList.Pairwise fun a b => items.idxOf a < items.idxOf b := by
  induction items using List.reverseRecOn with
  | nil => exact List.Pairwise.nil
  | append_singleton items a ih =>
      have hold : (ofList items).toList.Pairwise fun b c =>
          (items ++ [a]).idxOf b < (items ++ [a]).idxOf c := by
        refine ih.imp_of_mem ?_
        intro b c hb hc hlt
        rw [List.idxOf_append_of_mem (mem_ofList_iff.1 hb),
          List.idxOf_append_of_mem (mem_ofList_iff.1 hc)]
        exact hlt
      rw [ofList_concat, toList_push]
      split
      · exact hold
      · rename_i hwaiting
        have hsound : (ofList items).Sound := sound_empty.pushAll items
        have hnew : a ∉ items := by
          intro hmem
          exact hwaiting ((hsound.contains_iff a).2 (mem_ofList_iff.2 hmem))
        rw [List.pairwise_append]
        refine ⟨hold, List.pairwise_singleton _ _, ?_⟩
        intro b hb c hc
        have hmem := mem_ofList_iff.1 hb
        rw [List.mem_singleton.1 hc, List.idxOf_append_of_mem hmem,
          List.idxOf_append_of_notMem hnew]
        have hlt := List.idxOf_lt_length_of_mem hmem
        omega

end Agenda

/-- In a list without repetitions that follows an order, a member that comes first in
this order has the smaller position. -/
theorem idxOf_lt_of_pairwise {α : Type} [BEq α] [LawfulBEq α] {l : List α} {rank : α → Nat}
    (hl : l.Pairwise fun a b => rank a < rank b) {a b : α} (ha : a ∈ l) (hb : b ∈ l)
    (hlt : rank a < rank b) : l.idxOf a < l.idxOf b := by
  have hia := List.idxOf_lt_length_of_mem ha
  have hib := List.idxOf_lt_length_of_mem hb
  have hgetA : l[l.idxOf a] = a := List.getElem_idxOf hia
  have hgetB : l[l.idxOf b] = b := List.getElem_idxOf hib
  rcases Nat.lt_trichotomy (l.idxOf a) (l.idxOf b) with h | h | h
  · exact h
  · have hab : a = b := by
      rw [← hgetA, ← hgetB]
      simp only [h]
    rw [hab] at hlt
    exact absurd hlt (Nat.lt_irrefl _)
  · have hba := List.pairwise_iff_getElem.1 hl _ _ hib hia h
    rw [hgetA, hgetB] at hba
    omega

/-! ## Constraints between two events -/

/-- The constraint is between the two events, whichever it names first. -/
def Constraint.isBetween (a b : Nat) : Constraint → Bool
  | unary .. => false
  | binary left _ right => left = a && right = b || left = b && right = a

theorem Constraint.isBetween_eq_joins (a b : Nat) (c : Constraint) :
    c.isBetween a b = c.joins a b := by
  rw [Bool.eq_iff_iff, joins_iff]
  cases c with
  | unary var op bound => simp [isBetween]
  | binary left op right =>
      simp only [isBetween, Bool.or_eq_true, Bool.and_eq_true, decide_eq_true_eq, binary.injEq,
        exists_or]
      simp

namespace Network

variable {net : Network} {n : Nat} {cs : List Constraint}

/-- Number of neighbours of an event. -/
def degree (net : Network) (var : Nat) : Nat :=
  ((net.neighbors? var).getD []).length

/-- The arcs from an event to its neighbours. -/
def arcsFrom (net : Network) (var : Nat) : List Arc :=
  ((net.neighbors? var).getD []).map (⟨var, ·⟩)

/-- Two events share a constraint exactly when the network finds one between them. -/
theorem Files.between_ne_nil_iff (hnet : net.Files n cs) {a b : Nat} :
    net.between a b ≠ [] ↔ Joined cs a b := by
  rw [Ne, hnet.between_eq_nil_iff, not_not]

/-- The neighbours of an event are the tails of the arcs from it. -/
theorem Files.mem_arcs_iff_mem_neighbors (hnet : net.Files n cs)
    (hcs : ∀ c ∈ cs, c.maxIndex < n) {a : Arc} :
    a ∈ net.arcs ↔ ∃ l, net.neighbors? a.head = some l ∧ a.tail ∈ l := by
  rw [hnet.mem_arcs_iff]
  constructor
  · intro hjoined
    rcases hnet.neighbors?_eq a.head (hjoined.lt hcs).1 with ⟨l, hl, -, hmem⟩
    exact ⟨l, hl, (hmem a.tail).2 hjoined⟩
  · intro h
    rcases h with ⟨l, hl, htail⟩
    have hlt : a.head < n := by
      rw [← hnet.neighbors_size]
      exact (Array.getElem?_eq_some_iff.1 hl).1
    rcases hnet.neighbors?_eq a.head hlt with ⟨l', hl', -, hmem⟩
    rw [hl, Option.some.injEq] at hl'
    subst hl'
    exact (hmem a.tail).1 htail

/-- The arcs follow the order in which they first appear in the constraints. -/
theorem Files.pairwise_arcs (hnet : net.Files n cs) : net.arcs.Pairwise fun a b =>
    (cs.flatMap Constraint.arcs).idxOf a < (cs.flatMap Constraint.arcs).idxOf b := by
  rw [← hnet.constraints_eq]
  exact Agenda.pairwise_idxOf_ofList _

theorem Files.unaryOn?_eq_ite (hnet : net.Files n cs) (v : Nat) :
    net.unaryOn? v = if v < n then some (cs.filter (·.isUnaryOn v)) else none := by
  split
  · rename_i hv
    exact hnet.unaryOn?_eq v hv
  · rename_i hv
    have hsize : net.unary.size = n := hnet.size_eq
    exact Array.getElem?_eq_none (by omega)

theorem Files.completedAt?_eq_ite (hnet : net.Files n cs) (v : Nat) :
    net.completedAt? v = if v < n then some (cs.filter (·.maxIndex = v)) else none := by
  split
  · rename_i hv
    exact hnet.completedAt?_eq v hv
  · rename_i hv
    have hsize := hnet.completed_size
    exact Array.getElem?_eq_none (by omega)

/-- The event with which a constraint is complete is its largest. -/
theorem Files.mem_completedAt?_iff (hnet : net.Files n cs) (hcs : ∀ c ∈ cs, c.maxIndex < n)
    {c : Constraint} (hc : c ∈ cs) {v : Nat} :
    (∃ l, net.completedAt? v = some l ∧ c ∈ l) ↔ v = c.maxIndex := by
  rw [hnet.completedAt?_eq_ite]
  constructor
  · intro h
    rcases h with ⟨l, hl, hmem⟩
    split at hl
    · cases hl
      simpa [hc, eq_comm] using hmem
    · cases hl
  · rintro rfl
    rw [if_pos (hcs c hc)]
    exact ⟨_, rfl, by simp [hc]⟩

/-- Of the two arcs of a constraint the one from left to right comes first, unless an
earlier constraint has them, too. -/
theorem Files.idxOf_arcs_lt (hnet : net.Files n cs) {before after : List Constraint}
    {left right : Nat} {op : Comparison} (hcs : cs = before ++ .binary left op right :: after)
    (hfirst : ¬ Joined before left right) (hne : left ≠ right) :
    net.arcs.idxOf ⟨left, right⟩ < net.arcs.idxOf ⟨right, left⟩ := by
  have hjoined : Joined cs left right := by
    refine ⟨op, Or.inl ?_⟩
    rw [hcs]
    simp
  have hlist : cs.flatMap Constraint.arcs = before.flatMap Constraint.arcs ++
      ⟨left, right⟩ :: ⟨right, left⟩ :: after.flatMap Constraint.arcs := by
    rw [hcs, List.flatMap_append, List.flatMap_cons]
    rfl
  have hforward : (⟨left, right⟩ : Arc) ∉ before.flatMap Constraint.arcs := by
    rw [mem_flatMap_arcs_iff]
    exact hfirst
  have hbackward : (⟨right, left⟩ : Arc) ∉ before.flatMap Constraint.arcs := by
    rw [mem_flatMap_arcs_iff, joined_comm]
    exact hfirst
  have hdiffer : (⟨left, right⟩ : Arc) ≠ ⟨right, left⟩ := by
    rw [Ne, Arc.mk.injEq]
    exact fun h => hne h.1
  apply idxOf_lt_of_pairwise hnet.pairwise_arcs (hnet.mem_arcs_iff.2 hjoined)
    (hnet.mem_arcs_iff.2 (joined_comm.1 hjoined))
  rw [hlist, List.idxOf_append_of_notMem hforward, List.idxOf_append_of_notMem hbackward,
    List.idxOf_cons_self, List.idxOf_cons_ne _ hdiffer]
  omega

/-- The arcs from an event lead to the events it is joined to. -/
theorem Files.mem_arcsFrom_iff (hnet : net.Files n cs) {v : Nat} (hv : v < n) {a : Arc} :
    a ∈ net.arcsFrom v ↔ a.head = v ∧ Joined cs v a.tail := by
  rcases hnet.neighbors?_eq v hv with ⟨l, hl, -, hmem⟩
  rcases a with ⟨head, tail⟩
  simp only [arcsFrom, hl, Option.getD_some, List.mem_map, hmem, Arc.mk.injEq]
  constructor
  · intro h
    rcases h with ⟨w, hw, rfl, rfl⟩
    exact ⟨rfl, hw⟩
  · intro h
    rcases h with ⟨rfl, htail⟩
    exact ⟨tail, htail, rfl, rfl⟩

theorem Files.nodup_arcsFrom (hnet : net.Files n cs) {v : Nat} (hv : v < n) :
    (net.arcsFrom v).Nodup := by
  rcases hnet.neighbors?_eq v hv with ⟨l, hl, hsorted, -⟩
  unfold arcsFrom
  rw [hl, Option.getD_some]
  exact List.Nodup.map (fun w w' h => congrArg Arc.tail h) (hsorted.imp Nat.ne_of_lt)

/-- The arcs from different events are different. -/
theorem Files.nodup_flatMap_arcsFrom (hnet : net.Files n cs) :
    ((List.range n).flatMap net.arcsFrom).Nodup := by
  rw [List.nodup_flatMap]
  constructor
  · intro v hv
    exact hnet.nodup_arcsFrom (List.mem_range.1 hv)
  · refine List.nodup_range.imp_of_mem ?_
    intro v w hv hw hne a hav haw
    have hheadV := ((hnet.mem_arcsFrom_iff (List.mem_range.1 hv)).1 hav).1
    have hheadW := ((hnet.mem_arcsFrom_iff (List.mem_range.1 hw)).1 haw).1
    exact hne (hheadV.symm.trans hheadW)

/-- All arcs are the arcs from the events, one event after the other. -/
theorem Files.arcs_perm (hnet : net.Files n cs) (hcs : ∀ c ∈ cs, c.maxIndex < n) :
    net.arcs.Perm ((List.range n).flatMap net.arcsFrom) := by
  refine (List.perm_ext_iff_of_nodup net.sound_agenda.nodup hnet.nodup_flatMap_arcsFrom).2 ?_
  intro a
  rw [← arcs, hnet.mem_arcs_iff, List.mem_flatMap]
  constructor
  · intro hjoined
    have hhead := (hjoined.lt hcs).1
    exact ⟨a.head, List.mem_range.2 hhead, (hnet.mem_arcsFrom_iff hhead).2 ⟨rfl, hjoined⟩⟩
  · intro h
    rcases h with ⟨v, hv, ha⟩
    rcases (hnet.mem_arcsFrom_iff (List.mem_range.1 hv)).1 ha with ⟨rfl, hjoined⟩
    exact hjoined

/-- Every neighbour of an event makes one arc. -/
theorem Files.length_arcs (hnet : net.Files n cs) (hcs : ∀ c ∈ cs, c.maxIndex < n) :
    net.arcs.length = ∑ v ∈ Finset.range n, net.degree v := by
  have hrange : (List.range n).toFinset = Finset.range n := by
    ext v
    simp
  rw [(hnet.arcs_perm hcs).length_eq, List.length_flatMap, ← hrange,
    List.sum_toFinset _ List.nodup_range]
  simp only [degree, arcsFrom, List.length_map]

/-- What a network of `n` events says about a list of constraints. -/
structure Indexes (net : Network) (n : Nat) (cs : List Constraint) : Prop where
  /-- The constraints of an event with a fixed date are those of the list. -/
  unaryOn?_eq : ∀ v, net.unaryOn? v = if v < n then some (cs.filter (·.isUnaryOn v)) else none
  /-- The constraints that are complete with an event are those of which it is the
  largest event. -/
  completedAt?_eq : ∀ v, net.completedAt? v =
    if v < n then some (cs.filter (·.maxIndex = v)) else none
  /-- Every constraint is complete with exactly one event. -/
  completed_once : ∀ c ∈ cs, ∃! v, ∃ l, net.completedAt? v = some l ∧ c ∈ l
  /-- The constraints between two events are those of the list that compare them, in
  either direction. -/
  between_eq : ∀ a b, net.between a b = cs.filter (·.isBetween a b)
  between_comm : ∀ a b, net.between a b = net.between b a
  /-- The neighbours of an event are strictly ascending, and they are the events with
  which it shares a constraint. -/
  neighbors?_eq : ∀ v, v < n → ∃ l, net.neighbors? v = some l ∧ l.Pairwise (· < ·) ∧
    ∀ w, w ∈ l ↔ net.between v w ≠ []
  nodup_arcs : net.arcs.Nodup
  /-- The arcs from an event lead to its neighbours. -/
  mem_arcs_iff : ∀ a, a ∈ net.arcs ↔ ∃ l, net.neighbors? a.head = some l ∧ a.tail ∈ l
  reversed_mem_arcs : ∀ a ∈ net.arcs, a.reversed ∈ net.arcs
  /-- The arcs are listed in the order in which they first appear when the constraints
  are gone through. -/
  arcs_ordered : net.arcs.Pairwise fun a b =>
    (cs.flatMap Constraint.arcs).idxOf a < (cs.flatMap Constraint.arcs).idxOf b
  /-- The first constraint between two events lists its arc from left to right before
  the reverse. -/
  left_first : ∀ before left op right after, cs = before ++ .binary left op right :: after →
    ¬ Joined before left right → left ≠ right →
    net.arcs.idxOf ⟨left, right⟩ < net.arcs.idxOf ⟨right, left⟩
  length_arcs : net.arcs.length = ∑ v ∈ Finset.range n, net.degree v

/-- For every list of constraints within `n` events, the network that is built from it
is an index of this list. -/
theorem build?_indexes (n : Nat) (cs : List Constraint) (hcs : ∀ c ∈ cs, c.maxIndex < n) :
    ∃ net, build? n cs = some net ∧ net.Indexes n cs := by
  rcases exists_build? hcs with ⟨net, hbuild, hnet⟩
  refine ⟨net, hbuild, ?_⟩
  constructor
  case unaryOn?_eq => exact hnet.unaryOn?_eq_ite
  case completedAt?_eq => exact hnet.completedAt?_eq_ite
  case completed_once =>
    intro c hc
    refine ⟨c.maxIndex, (hnet.mem_completedAt?_iff hcs hc).2 rfl, ?_⟩
    intro v h
    exact (hnet.mem_completedAt?_iff hcs hc).1 h
  case between_eq =>
    intro a b
    rw [hnet.between_eq]
    simp only [Constraint.isBetween_eq_joins]
  case between_comm =>
    intro a b
    unfold between
    rw [Edge.between_comm]
  case neighbors?_eq =>
    intro v hv
    rcases hnet.neighbors?_eq v hv with ⟨l, hl, hsorted, hmem⟩
    refine ⟨l, hl, hsorted, ?_⟩
    intro w
    rw [hmem, hnet.between_ne_nil_iff]
  case nodup_arcs => exact net.sound_agenda.nodup
  case mem_arcs_iff =>
    intro a
    exact hnet.mem_arcs_iff_mem_neighbors hcs
  case reversed_mem_arcs =>
    intro a ha
    exact hnet.mem_arcs_iff.2 (joined_comm.1 (hnet.mem_arcs_iff.1 ha))
  case arcs_ordered => exact hnet.pairwise_arcs
  case left_first =>
    intro before left op right after heq hfirst hne
    exact hnet.idxOf_arcs_lt heq hfirst hne
  case length_arcs => exact hnet.length_arcs hcs

/-- Three events with a self-loop, two constraints between the same events written from
either side, and a fixed bound. -/
theorem build?_indexes_of_three :
    let bound : Date := ⟨2024, 2, 29, by decide⟩
    let cs : List Constraint := [.binary 2 .after 0, .binary 1 .onOrBefore 1,
      .unary 2 .equal bound, .binary 0 .before 2]
    (∀ c ∈ cs, c.maxIndex < 3) ∧ ∃ net, build? 3 cs = some net ∧ net.Indexes 3 cs ∧
      net.between 0 2 = [.binary 2 .after 0, .binary 0 .before 2] ∧
      net.completedAt? 2 =
        some [.binary 2 .after 0, .unary 2 .equal bound, .binary 0 .before 2] ∧
      net.arcs.idxOf ⟨2, 0⟩ < net.arcs.idxOf ⟨0, 2⟩ := by
  intro bound cs
  have hcs : ∀ c ∈ cs, c.maxIndex < 3 := by decide
  rcases build?_indexes 3 cs hcs with ⟨net, hbuild, hindexes⟩
  refine ⟨hcs, net, hbuild, hindexes, ?_, ?_, ?_⟩
  · rw [hindexes.between_eq]
    decide
  · rw [hindexes.completedAt?_eq]
    decide
  · apply hindexes.left_first [] 2 .after 0 _ rfl
    · simp [Joined]
    · decide

end Network
end DateScheduling
