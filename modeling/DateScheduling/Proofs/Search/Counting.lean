import Mathlib.Algebra.BigOperators.Group.Finset.Basic
import DateScheduling.Proofs.Search.Positions

/-!
# What the counters of a search count

The tuples of positions whose dates violate no constraint form a tree.  An
unlimited search walks through this tree in lexicographic order, up to the first
choice it finds.  Its counters say how far it came: the nodes are the candidates
with which it tried to extend a consistent tuple, and the dead ends are the
consistent tuples from which it returned.

Main results:

- Theorems `Search.mem_openings_iff` and `Search.attempts_perm`: the tree in terms of
  positions.
- Theorem `Search.counts_sweep`: the counters of a sweep are those of its candidates,
  taken together.
- Theorem `Search.counts_explore`: the counters of an exploration.
- Theorem `Search.search_counts`: the counters of an unlimited search.
-/

namespace DateScheduling
namespace Search

variable {cs : List Constraint} {candidates : List Date} {levels rest : List (List Date)}
  {l : List Date}

/-! ## The tree of consistent tuples -/

/-- The tuples below a candidate and its position: none if it is refused. -/
def beneath (cs : List Constraint) (l : List Date) (below : List Date → List (List Nat))
    (x : Date × Nat) : List (List Nat) :=
  if consistent cs (l ++ [x.1]).toArray then (below (l ++ [x.1])).map (x.2 :: ·) else []

/-- The positions of the consistent tuples below the dates `l` that leave some event
without a date.  A tuple comes before those below it. -/
def openings (cs : List Constraint) : List (List Date) → List Date → List (List Nat)
  | [], _ => []
  | candidates :: rest, l => [] :: candidates.zipIdx.flatMap (beneath cs l (openings cs rest))

/-- The positions of all tuples by which consistent tuples below the dates `l` can
be extended, in the order in which they are tried. -/
def attempts (cs : List Constraint) : List (List Date) → List Date → List (List Nat)
  | [], _ => []
  | candidates :: rest, l =>
      candidates.zipIdx.flatMap fun x => [x.2] :: beneath cs l (attempts cs rest) x

/-- The positions of the first consistent choice below the dates `l`. -/
def firstPositions? (cs : List Constraint) : List (List Date) → List Date → Option (List Nat)
  | [], _ => some []
  | candidates :: rest, l =>
      candidates.zipIdx.findSome? fun x =>
        if consistent cs (l ++ [x.1]).toArray then
          (firstPositions? cs rest (l ++ [x.1])).map (x.2 :: ·)
        else none

/-- The tuples that have one position more. -/
def extensions (levels : List (List Date)) (p : List Nat) : List (List Nat) :=
  (List.range (levels.getD p.length []).length).map fun j => p ++ [j]

theorem mem_beneath_iff {below : List Date → List (List Nat)} {x : Date × Nat} {e : List Nat} :
    e ∈ beneath cs l below x ↔ consistent cs (l ++ [x.1]).toArray = true ∧
      ∃ p ∈ below (l ++ [x.1]), e = x.2 :: p := by
  unfold beneath
  split
  · rename_i hadmitted
    simp [hadmitted, eq_comm]
  · rename_i hrefused
    simp [hrefused]

/-- A tuple belongs to the tree when it is short enough and its dates are
consistent. -/
theorem mem_openings_iff (hl : consistent cs l.toArray = true) {p : List Nat} :
    p ∈ openings cs levels l ↔ p.length < levels.length ∧
      ∃ t, pick? levels p = some t ∧ consistent cs (l ++ t).toArray = true := by
  induction levels generalizing l p with
  | nil => simp [openings]
  | cons candidates rest ih =>
      cases p with
      | nil => simp [openings, hl]
      | cons j p =>
          simp only [openings, List.mem_cons, reduceCtorEq, false_or, List.mem_flatMap,
            Prod.exists, List.mk_mem_zipIdx_iff_getElem?, mem_beneath_iff,
            pick?_cons_eq_some_iff, List.length_cons, Nat.add_lt_add_iff_right]
          constructor
          · intro h
            rcases h with ⟨day, k, hday, hadmitted, q, hq, heq⟩
            cases heq
            rcases (ih hadmitted).1 hq with ⟨hshort, t, hpick, hconsistent⟩
            refine ⟨hshort, day :: t, ⟨day, t, hday, hpick, rfl⟩, ?_⟩
            rw [List.append_cons]
            exact hconsistent
          · intro h
            rcases h with ⟨hshort, t, ⟨day, u, hday, hpick, rfl⟩, hconsistent⟩
            rw [List.append_cons] at hconsistent
            have hadmitted := consistent_of_append hconsistent
            exact ⟨day, j, hday, hadmitted, p, (ih hadmitted).2 ⟨hshort, u, hpick, hconsistent⟩,
              rfl⟩

/-- No tuple occurs twice in the tree. -/
theorem nodup_openings (cs : List Constraint) (levels : List (List Date)) (l : List Date) :
    (openings cs levels l).Nodup := by
  induction levels generalizing l with
  | nil => exact List.nodup_nil
  | cons candidates rest ih =>
      rw [openings, List.nodup_cons, List.nodup_flatMap]
      refine ⟨?_, ?_, ?_⟩
      · intro hmem
        rcases List.mem_flatMap.1 hmem with ⟨x, -, hx⟩
        rcases (mem_beneath_iff.1 hx).2 with ⟨p, -, hp⟩
        cases hp
      · intro x _
        unfold beneath
        split
        · exact (ih _).map (List.cons_injective)
        · exact List.nodup_nil
      · refine (pairwise_zipIdx candidates).imp ?_
        intro x y hxy p hx hy
        rcases (mem_beneath_iff.1 hx).2 with ⟨q, -, rfl⟩
        rcases (mem_beneath_iff.1 hy).2 with ⟨q', -, heq⟩
        rw [List.cons.injEq] at heq
        omega

/-- The tuples of one position are numbered like the candidates of the first event. -/
theorem extensions_nil (candidates : List Date) (rest : List (List Date)) :
    extensions (candidates :: rest) [] = candidates.zipIdx.flatMap fun x => [[x.2]] := by
  have hrange : List.range candidates.length = candidates.zipIdx.map Prod.snd := by
    rw [List.zipIdx_map_snd, List.range_eq_range']
  simp only [extensions, List.length_nil, List.getD_cons_zero, hrange, List.map_map,
    List.nil_append, Function.comp_def]
  rw [List.map_eq_flatMap]

theorem extensions_cons (candidates : List Date) (rest : List (List Date)) (j : Nat)
    (p : List Nat) :
    extensions (candidates :: rest) (j :: p) = (extensions rest p).map (j :: ·) := by
  simp [extensions]

/-- What is tried are the extensions of the consistent tuples. -/
theorem attempts_perm (cs : List Constraint) (levels : List (List Date)) (l : List Date) :
    (attempts cs levels l).Perm ((openings cs levels l).flatMap (extensions levels)) := by
  induction levels generalizing l with
  | nil => exact .nil
  | cons candidates rest ih =>
      simp only [attempts, openings, List.flatMap_cons, extensions_nil, List.flatMap_assoc]
      -- Each candidate is tried before what lies beneath it; the extensions of the empty
      -- tuple come all together.
      refine .trans ?_ (List.flatMap_append_perm ..).symm
      apply List.Perm.flatMap_left
      intro x _
      rw [List.singleton_append]
      refine .cons _ ?_
      unfold beneath
      split
      · rw [List.flatMap_map]
        simp only [extensions_cons]
        rw [← List.map_flatMap]
        exact (ih _).map _
      · exact .nil

theorem nodup_attempts (cs : List Constraint) (levels : List (List Date)) (l : List Date) :
    (attempts cs levels l).Nodup := by
  rw [(attempts_perm cs levels l).nodup_iff, List.nodup_flatMap]
  constructor
  · intro p _
    exact List.nodup_range.map fun i j h => by simpa using h
  · refine (nodup_openings cs levels l).imp ?_
    intro p q hne e hp hq
    rcases List.mem_map.1 hp with ⟨i, -, rfl⟩
    rcases List.mem_map.1 hq with ⟨j, -, heq⟩
    exact hne (List.append_inj_left' heq rfl).symm

/-- The first consistent choice is the one that comes first when all are
enumerated. -/
theorem firstPositions?_eq (hl : consistent cs l.toArray = true) :
    firstPositions? cs levels l =
      ((choices levels).find? fun c => consistent cs (l ++ c.2).toArray).map Prod.fst := by
  induction levels generalizing l with
  | nil => simp [firstPositions?, choices, hl]
  | cons candidates rest ih =>
      rw [firstPositions?, choices, List.find?_flatMap, List.map_findSome?]
      congr 1
      funext x
      have hcons : ∀ c : List Nat × List Date,
          consistent cs (l ++ x.1 :: c.2).toArray = consistent cs (l ++ [x.1] ++ c.2).toArray := by
        intro c
        rw [List.append_cons]
      simp only [Function.comp_apply, List.find?_map, Option.map_map, hcons, Function.comp_def]
      split
      · rename_i hadmitted
        rw [ih hadmitted, Option.map_map]
        rfl
      · rename_i hrefused
        symm
        rw [Option.map_eq_none_iff, List.find?_eq_none]
        intro c _ hconsistent
        exact hrefused (consistent_of_append hconsistent)

/-! ## How far a search comes -/

/-- The tuple lies on the way to the choice that is found, or before it.  When
nothing is found, the search comes to every tuple. -/
def Reached (found : Option (List Nat)) (e : List Nat) : Prop :=
  ∀ s ∈ found, e <+: s ∨ e < s

/-- The search comes to the tuple and returns from it. -/
def Abandoned (found : Option (List Nat)) (p : List Nat) : Prop :=
  ∀ s ∈ found, p < s ∧ ¬ p <+: s

instance (found : Option (List Nat)) (e : List Nat) : Decidable (Reached found e) :=
  inferInstanceAs (Decidable (∀ s ∈ found, e <+: s ∨ e < s))

instance (found : Option (List Nat)) (p : List Nat) : Decidable (Abandoned found p) :=
  inferInstanceAs (Decidable (∀ s ∈ found, p < s ∧ ¬ p <+: s))

theorem reached_none (e : List Nat) : Reached none e := by
  intro s hs
  cases hs

theorem abandoned_none (p : List Nat) : Abandoned none p := by
  intro s hs
  cases hs

theorem reached_cons_iff {found : Option (List Nat)} {j : Nat} {e : List Nat} :
    Reached (found.map (j :: ·)) (j :: e) ↔ Reached found e := by
  simp [Reached, List.cons_prefix_cons]

theorem abandoned_cons_iff {found : Option (List Nat)} {j : Nat} {p : List Nat} :
    Abandoned (found.map (j :: ·)) (j :: p) ↔ Abandoned found p := by
  simp [Abandoned, List.cons_prefix_cons]

/-- The tuples differ in their first position, and that of `p` is the smaller. -/
def Precedes (p q : List Nat) : Prop :=
  ∃ i j p' q', p = i :: p' ∧ q = j :: q' ∧ i < j

namespace Precedes

variable {p q : List Nat}

theorem lt (h : Precedes p q) : p < q := by
  rcases h with ⟨i, j, p', q', rfl, rfl, hij⟩
  exact List.cons_lt_cons_iff.2 (Or.inl hij)

/-- The search comes to the tuples before the choice it finds. -/
theorem reached {found : Option (List Nat)} (h : ∀ s ∈ found, Precedes p s) :
    Reached found p :=
  fun s hs => Or.inr (h s hs).lt

/-- It returns from them, too. -/
theorem abandoned {found : Option (List Nat)} (h : ∀ s ∈ found, Precedes p s) :
    Abandoned found p := by
  intro s hs
  refine ⟨(h s hs).lt, ?_⟩
  rcases h s hs with ⟨i, j, p', q', rfl, rfl, hij⟩
  rw [List.cons_prefix_cons]
  omega

/-- The search does not come to the tuples after the choice it finds. -/
theorem not_reached (h : Precedes p q) : ¬ Reached (some p) q := by
  intro hreached
  rcases hreached p rfl with hprefix | hlt
  · rcases h with ⟨i, j, p', q', rfl, rfl, hij⟩
    rw [List.cons_prefix_cons] at hprefix
    omega
  · exact List.lt_asymm hlt h.lt

theorem not_abandoned (h : Precedes p q) : ¬ Abandoned (some p) q :=
  fun habandoned => List.lt_asymm (habandoned p rfl).1 h.lt

end Precedes

section Counted

variable {found : Option (List Nat)} {s : List Nat} {items : List (List Nat)}

/-- Tuples before the choice that is found count as if nothing were found. -/
theorem countP_reached_before (h : ∀ e ∈ items, ∀ s ∈ found, Precedes e s) :
    items.countP (fun e => Reached found e) = items.countP fun e => Reached none e := by
  apply List.countP_congr
  intro e he
  simp [Precedes.reached (h e he), reached_none e]

theorem countP_abandoned_before (h : ∀ p ∈ items, ∀ s ∈ found, Precedes p s) :
    items.countP (fun p => Abandoned found p) = items.countP fun p => Abandoned none p := by
  apply List.countP_congr
  intro p hp
  simp [Precedes.abandoned (h p hp), abandoned_none p]

/-- Tuples after the choice that is found do not count. -/
theorem countP_reached_after (h : ∀ e ∈ items, Precedes s e) :
    items.countP (fun e => Reached (some s) e) = 0 := by
  rw [List.countP_eq_zero]
  intro e he
  simpa using (h e he).not_reached

theorem countP_abandoned_after (h : ∀ p ∈ items, Precedes s p) :
    items.countP (fun p => Abandoned (some s) p) = 0 := by
  rw [List.countP_eq_zero]
  intro p hp
  simpa using (h p hp).not_abandoned

end Counted

namespace Tally

/-- The counters are those of a search that comes to the tuples `tried` and goes on
from the tuples `opened`, up to the choice it finds. -/
structure Counts (t : Tally) (found : Option (List Nat)) (tried opened : List (List Nat)) :
    Prop where
  isSome_found : t.found.isSome = found.isSome
  nodes_eq : t.nodes = tried.countP fun e => Reached found e
  backtracks_eq : t.backtracks = opened.countP fun p => Abandoned found p

namespace Counts

variable {t later : Tally} {found found' : Option (List Nat)}
  {tried tried' opened opened' : List (List Nat)}

theorem empty : Counts ⟨none, 0, 0⟩ none [] [] :=
  ⟨rfl, rfl, rfl⟩

/-- A refused candidate is tried. -/
theorem refused (j : Nat) : Counts .refused none [[j]] [] :=
  ⟨rfl, rfl, rfl⟩

/-- An admitted candidate is tried before those below it. -/
theorem withNode (h : t.Counts found tried opened) (j : Nat) :
    t.withNode.Counts (found.map (j :: ·)) ([j] :: tried.map (j :: ·)) (opened.map (j :: ·)) := by
  constructor
  · rw [Option.isSome_map]
    exact h.isSome_found
  · have hroot : Reached (found.map (j :: ·)) [j] := by
      intro s hs
      rcases Option.mem_map.1 hs with ⟨p, -, rfl⟩
      exact Or.inl (List.cons_prefix_cons.2 ⟨rfl, List.nil_prefix⟩)
    rw [List.countP_cons_of_pos (by simpa using hroot), List.countP_map]
    simp only [Function.comp_def, reached_cons_iff]
    exact congrArg (· + 1) h.nodes_eq
  · rw [List.countP_map]
    simp only [Function.comp_def, abandoned_cons_iff]
    exact h.backtracks_eq

/-- Of two parts the second is searched when nothing is found in the first. -/
theorem orElse (h : t.Counts found tried opened) (hlater : later.Counts found' tried' opened')
    (hprecedes : ∀ p ∈ found.toList ++ tried ++ opened, ∀ q ∈ found'.toList ++ tried' ++ opened',
      Precedes p q) :
    (t.orElse later).Counts (found.or found') (tried ++ tried') (opened ++ opened') := by
  simp only [List.mem_append, Option.mem_toList] at hprecedes
  unfold Tally.orElse
  cases found with
  | some s =>
      rcases Option.isSome_iff_exists.1 h.isSome_found with ⟨a, ha⟩
      have htried := countP_reached_after fun e (he : e ∈ tried') =>
        hprecedes s (by simp) e (by simp [he])
      have hopened := countP_abandoned_after fun p (hp : p ∈ opened') =>
        hprecedes s (by simp) p (by simp [hp])
      rw [ha, Option.some_or]
      refine ⟨rfl, ?_, ?_⟩
      · rw [List.countP_append, htried]
        exact h.nodes_eq
      · rw [List.countP_append, hopened]
        exact h.backtracks_eq
  | none =>
      have hnone : t.found = none := by simpa using h.isSome_found
      have htried := countP_reached_before fun e (he : e ∈ tried) s hs =>
        hprecedes e (by simp [he]) s (Or.inl (Or.inl hs))
      have hopened := countP_abandoned_before fun p (hp : p ∈ opened) s hs =>
        hprecedes p (by simp [hp]) s (Or.inl (Or.inl hs))
      rw [hnone, Option.none_or]
      refine ⟨hlater.isSome_found, ?_, ?_⟩
      · rw [List.countP_append, htried, ← h.nodes_eq, ← hlater.nodes_eq]
      · rw [List.countP_append, hopened, ← h.backtracks_eq, ← hlater.backtracks_eq]

/-- When all candidates were tried in vain, the search returns. -/
theorem close (h : t.Counts found tried opened) : t.close.Counts found tried ([] :: opened) := by
  have hisSome := h.isSome_found
  unfold Tally.close
  cases ht : t.found with
  | some a =>
      rw [ht] at hisSome
      rcases Option.isSome_iff_exists.1 hisSome.symm with ⟨s, rfl⟩
      have hroot : ¬ Abandoned (some s) [] := by
        intro habandoned
        exact (habandoned s rfl).2 List.nil_prefix
      refine ⟨rfl, h.nodes_eq, ?_⟩
      rw [List.countP_cons_of_neg (by simpa using hroot)]
      exact h.backtracks_eq
  | none =>
      rw [ht] at hisSome
      cases found with
      | some s => cases hisSome
      | none =>
          refine ⟨rfl, h.nodes_eq, ?_⟩
          rw [List.countP_cons_of_pos (by simpa using abandoned_none [])]
          exact congrArg (· + 1) h.backtracks_eq

end Counts
end Tally

/-- The counters of a sweep are those of its candidates, taken together.  The tuples
that belong to a candidate begin with its position. -/
theorem counts_sweep {admits : Date → Bool} {below : Date → Tally}
    {found : Date × Nat → Option (List Nat)} {tried opened : Date × Nat → List (List Nat)}
    {k : Nat}
    (hcounts : ∀ x ∈ candidates.zipIdx k,
      (if admits x.1 then (below x.1).withNode else .refused).Counts (found x) (tried x) (opened x))
    (hhead : ∀ x ∈ candidates.zipIdx k, ∀ e ∈ (found x).toList ++ tried x ++ opened x,
      ∃ p, e = x.2 :: p) :
    (sweep admits below candidates).Counts ((candidates.zipIdx k).findSome? found)
      ((candidates.zipIdx k).flatMap tried) ((candidates.zipIdx k).flatMap opened) := by
  induction candidates generalizing k with
  | nil => exact .empty
  | cons day rest ih =>
      rw [List.zipIdx_cons] at hcounts hhead ⊢
      rw [List.forall_mem_cons] at hcounts hhead
      rcases hcounts with ⟨hday, hrest⟩
      rcases hhead with ⟨hheadDay, hheadRest⟩
      have hor : List.findSome? found ((day, k) :: rest.zipIdx (k + 1)) =
          (found (day, k)).or ((rest.zipIdx (k + 1)).findSome? found) := by
        rw [List.findSome?_cons]
        cases found (day, k) with
        | none => rfl
        | some s => rfl
      rw [hor, List.flatMap_cons, List.flatMap_cons]
      unfold sweep
      refine hday.orElse (ih hrest hheadRest) ?_
      intro p hp q hq
      rcases hheadDay p hp with ⟨p', rfl⟩
      -- Whatever belongs to a later candidate begins with a larger position.
      have hlater : ∃ x ∈ rest.zipIdx (k + 1), q ∈ (found x).toList ++ tried x ++ opened x := by
        simp only [List.mem_append, Option.mem_toList, List.mem_flatMap] at hq ⊢
        rcases hq with (hq | ⟨x, hx, hq⟩) | ⟨x, hx, hq⟩
        · rcases List.exists_of_findSome?_eq_some hq with ⟨x, hx, hq⟩
          exact ⟨x, hx, Or.inl (Or.inl hq)⟩
        · exact ⟨x, hx, Or.inl (Or.inr hq)⟩
        · exact ⟨x, hx, Or.inr hq⟩
      rcases hlater with ⟨x, hx, hq⟩
      rcases hheadRest x hx q hq with ⟨q', rfl⟩
      exact ⟨k, x.2, p', q', rfl, rfl, List.le_snd_of_mem_zipIdx hx⟩

/-- The counters of an exploration below consistent dates. -/
theorem counts_explore {net : Network} {n : Nat} (hnet : net.Files n cs)
    (levels : List (List Date)) (l : List Date) (hsize : l.length + levels.length ≤ n)
    (hl : consistent cs l.toArray = true) :
    (explore net.admits levels l.toArray).Counts (firstPositions? cs levels l)
      (attempts cs levels l) (openings cs levels l) := by
  induction levels generalizing l with
  | nil => exact ⟨rfl, rfl, rfl⟩
  | cons candidates rest ih =>
      rw [List.length_cons] at hsize
      have hpush := consistent_push_iff hnet (l := l) (by omega)
      unfold explore
      simp only [List.push_toArray]
      apply Tally.Counts.close
      apply counts_sweep
      · intro x _
        have hadmits : net.admits (l ++ [x.1]).toArray = true ↔
            consistent cs (l ++ [x.1]).toArray = true := by
          rw [hpush, and_iff_right hl]
        unfold beneath
        by_cases hadmitted : consistent cs (l ++ [x.1]).toArray = true
        · rw [if_pos hadmitted, if_pos hadmitted, if_pos hadmitted, if_pos (hadmits.2 hadmitted)]
          refine (ih _ ?_ hadmitted).withNode x.2
          rw [List.length_append, List.length_singleton]
          omega
        · rw [if_neg hadmitted, if_neg hadmitted, if_neg hadmitted,
            if_neg fun h => hadmitted (hadmits.1 h)]
          exact .refused x.2
      · intro x _ e he
        simp only [List.mem_append, Option.mem_toList, List.mem_cons, mem_beneath_iff] at he
        rcases he with (he | rfl | ⟨-, p, -, rfl⟩) | ⟨-, p, -, rfl⟩
        · split at he
          · rcases Option.map_eq_some_iff.1 he with ⟨p, -, rfl⟩
            exact ⟨p, rfl⟩
          · cases he
        · exact ⟨[], rfl⟩
        · exact ⟨p, rfl⟩
        · exact ⟨p, rfl⟩

/-! ## The counters of a search -/

/-- The dates at the positions `p` satisfy every constraint on these events alone. -/
def ConsistentAt (cs : List Constraint) (levels : List (List Date)) (p : List Nat) : Prop :=
  ∃ t, pick? levels p = some t ∧
    ∀ c ∈ cs, (∀ i, c.Mentions i → i < p.length) → c.isSatisfiedBy t.toArray = true

/-- Constraints on events without a date need not be looked at. -/
theorem consistentAt_iff {p : List Nat} : ConsistentAt cs levels p ↔
    ∃ t, pick? levels p = some t ∧ consistent cs t.toArray = true := by
  unfold ConsistentAt consistent
  simp only [List.all_eq_true]
  constructor
  · intro h
    rcases h with ⟨t, hpick, hsatisfied⟩
    refine ⟨t, hpick, ?_⟩
    intro c hc
    by_cases hmax : c.maxIndex < p.length
    · apply hsatisfied c hc
      intro i hi
      exact Nat.lt_of_le_of_lt (Constraint.le_maxIndex hi) hmax
    · apply Constraint.isSatisfiedBy_of_size_le
      have hlength := (pick?_eq_some_iff.1 hpick).1
      rw [List.size_toArray]
      omega
  · intro h
    rcases h with ⟨t, hpick, hconsistent⟩
    exact ⟨t, hpick, fun c hc _ => hconsistent c hc⟩

theorem mem_openings_root_iff {p : List Nat} : p ∈ openings cs levels [] ↔
    p.length < levels.length ∧ ConsistentAt cs levels p := by
  rw [mem_openings_iff (consistent_empty cs), consistentAt_iff]
  rfl

theorem mem_attempts_root_iff {e : List Nat} : e ∈ attempts cs levels [] ↔
    ∃ p j, e = p ++ [j] ∧ p.length < levels.length ∧ ConsistentAt cs levels p ∧
      j < (levels.getD p.length []).length := by
  rw [(attempts_perm cs levels []).mem_iff, List.mem_flatMap]
  simp only [mem_openings_root_iff, extensions, List.mem_map, List.mem_range]
  constructor
  · intro h
    rcases h with ⟨p, ⟨hshort, hconsistent⟩, j, hj, rfl⟩
    exact ⟨p, j, rfl, hshort, hconsistent, hj⟩
  · intro h
    rcases h with ⟨p, j, rfl, hshort, hconsistent, hj⟩
    exact ⟨p, ⟨hshort, hconsistent⟩, j, hj, rfl⟩

/-- The tuples that are tried until the choice `s` is found. -/
theorem mem_tried_iff {domains : Array (List Date)} {s e : List Nat} :
    e ∈ ((attempts cs domains.toList []).filter fun e => Reached (some s) e).toFinset ↔
      (∃ p j, e = p ++ [j] ∧ p.length < domains.size ∧ ConsistentAt cs domains.toList p ∧
        j < (candidatesOf domains p.length).length) ∧ (e <+: s ∨ e < s) := by
  simp only [List.mem_toFinset, List.mem_filter, mem_attempts_root_iff, Array.length_toList,
    getD_toList, decide_eq_true_eq, Reached, Option.mem_some_iff, forall_eq']

/-- The tuples from which the search returns before it finds the choice `s`. -/
theorem mem_abandoned_iff {domains : Array (List Date)} {s p : List Nat} :
    p ∈ ((openings cs domains.toList []).filter fun p => Abandoned (some s) p).toFinset ↔
      p.length < domains.size ∧ ConsistentAt cs domains.toList p ∧ p < s ∧ ¬ p <+: s := by
  simp only [List.mem_toFinset, List.mem_filter, mem_openings_root_iff, Array.length_toList,
    decide_eq_true_eq, Abandoned, Option.mem_some_iff, forall_eq', and_assoc]

/-- The members of a list without repetitions that pass a test, as a set. -/
theorem card_toFinset_filter {l : List (List Nat)} (hl : l.Nodup) (p : List Nat → Prop)
    [DecidablePred p] : (l.filter fun e => p e).toFinset.card = l.countP fun e => p e := by
  rw [List.toFinset_card_of_nodup (hl.filter _), List.countP_eq_length_filter]

/-- A search in vain tries all extensions of all consistent tuples. -/
theorem Tally.Counts.eq_of_none {t : Tally}
    (h : t.Counts none (attempts cs levels l) (openings cs levels l)) :
    t.backtracks = (openings cs levels l).toFinset.card ∧
      t.nodes = ∑ p ∈ (openings cs levels l).toFinset, (levels.getD p.length []).length := by
  have hnodup := nodup_openings cs levels l
  constructor
  · rw [h.backtracks_eq, List.toFinset_card_of_nodup hnodup, List.countP_eq_length]
    intro p _
    exact decide_eq_true (abandoned_none p)
  · have hall : (attempts cs levels l).countP (fun e => Reached none e) =
        (attempts cs levels l).length := by
      rw [List.countP_eq_length]
      intro e _
      exact decide_eq_true (reached_none e)
    rw [h.nodes_eq, hall, (attempts_perm cs levels l).length_eq, List.length_flatMap,
      List.sum_toFinset _ hnodup]
    simp only [extensions, List.length_map, List.length_range]

/-- For all lists of candidates of the first events and every list of constraints on
at least these events, the counters of the search without limits are as follows.
When all candidates were tried in vain, the dead ends are the consistent tuples
that leave some event without a date, and the nodes are the candidates of the next
event for each of them.  When dates were found at the positions `s`, the nodes are
the extensions of consistent tuples that are prefixes of `s` or come before it, and
the dead ends are the consistent tuples that come before `s` without being prefixes
of it. -/
theorem search_counts (n : Nat) (cs : List Constraint) (domains : Array (List Date))
    (hcs : ∀ c ∈ cs, c.maxIndex < n) (hsize : domains.size ≤ n) :
    ∃ net report, Network.build? n cs = some net ∧
      (search net domains .none).result = .ok report ∧
      ((report.outcome = .exhausted ∧ ∃ opened : Finset (List Nat),
          (∀ p, p ∈ opened ↔ p.length < domains.size ∧ ConsistentAt cs domains.toList p) ∧
          report.backtracks = opened.card ∧
          report.nodes = ∑ p ∈ opened, (candidatesOf domains p.length).length) ∨
        ∃ s t, IsFirstChoice cs domains.toList s t ∧ report.outcome = .found t.toArray ∧
          ∃ tried abandoned : Finset (List Nat),
            (∀ e, e ∈ tried ↔ (∃ p j, e = p ++ [j] ∧ p.length < domains.size ∧
              ConsistentAt cs domains.toList p ∧ j < (candidatesOf domains p.length).length) ∧
              (e <+: s ∨ e < s)) ∧
            (∀ p, p ∈ abandoned ↔ p.length < domains.size ∧ ConsistentAt cs domains.toList p ∧
              p < s ∧ ¬ p <+: s) ∧
            report.nodes = tried.card ∧ report.backtracks = abandoned.card) := by
  rcases Network.exists_build? hcs with ⟨net, hbuild, hnet⟩
  have hlength : domains.toList.length = domains.size := Array.length_toList
  have hfound := found_explore_choices hnet domains.toList (by omega)
  have hcounts := counts_explore hnet domains.toList [] (by simpa using hsize) (consistent_empty cs)
  rw [firstPositions?_eq (consistent_empty cs)] at hcounts
  simp only [List.nil_append] at hcounts
  refine ⟨net, _, hbuild, result_search hnet hsize, ?_⟩
  rw [Tally.nodes_report, Tally.backtracks_report]
  unfold Tally.report
  rw [hfound]
  cases hfind : (choices domains.toList).find? fun c => consistent cs c.2.toArray with
  | none =>
      rw [hfind, Option.map_none] at hcounts
      rcases hcounts.eq_of_none with ⟨hbacktracks, hnodes⟩
      refine Or.inl ⟨rfl, (openings cs domains.toList []).toFinset, ?_, hbacktracks, ?_⟩
      · intro p
        rw [List.mem_toFinset, mem_openings_root_iff, hlength]
      · rw [hnodes]
        apply Finset.sum_congr rfl
        intro p _
        simp [candidatesOf]
  | some c =>
      rcases c with ⟨s, t⟩
      rw [hfind, Option.map_some] at hcounts
      refine Or.inr ⟨s, t, isFirstChoice_of_find? hfind, rfl, _, _, fun _ => mem_tried_iff,
        fun _ => mem_abandoned_iff, ?_, ?_⟩
      · rw [card_toFinset_filter (nodup_attempts ..)]
        exact hcounts.nodes_eq
      · rw [card_toFinset_filter (nodup_openings ..)]
        exact hcounts.backtracks_eq

/-- Two events of three candidates each, the first before the second, with dates out of
order and repeated: the choice at the positions 1 and 2 is the eighth tuple that is tried, and
there was one dead end before. -/
theorem search_counts_of_two :
    let early : Date := ⟨2024, 2, 28, by decide⟩
    let late : Date := ⟨2024, 3, 1, by decide⟩
    let cs : List Constraint := [.binary 0 .before 1, .unary 0 .onOrBefore late]
    let domains : Array (List Date) := #[[late, early, early], [early, early, late]]
    (∀ c ∈ cs, c.maxIndex < 2) ∧ domains.size ≤ 2 ∧
      ∃ net report, Network.build? 2 cs = some net ∧
        (search net domains .none).result = .ok report ∧
        report.outcome = .found #[early, late] ∧ report.nodes = 8 ∧ report.backtracks = 1 := by
  intro early late cs domains
  have hcs : ∀ c ∈ cs, c.maxIndex < 2 := by decide
  have hsize : domains.size ≤ 2 := by decide
  have hfirst : IsFirstChoice cs domains.toList [1, 2] [early, late] := by
    apply isFirstChoice_of_find?
    decide +kernel
  rcases search_counts 2 cs domains hcs hsize with
      ⟨net, report, hbuild, hresult, ⟨hexhausted, -⟩ |
        ⟨s, t, hfirst', houtcome, tried, abandoned, htried, habandoned, hnodes, hbacktracks⟩⟩
  · have hnet := Network.files_of_build? hbuild
    rw [result_search hnet hsize, Except.ok.injEq] at hresult
    rcases outcome_explore hnet domains.toList (Nat.le_refl 2) with
        ⟨p, t, -, houtcome⟩ | ⟨hnone, -⟩
    · rw [← hresult, houtcome] at hexhausted
      cases hexhausted
    · exact absurd hfirst.isChoice (hnone _ _)
  · rcases hfirst'.unique hfirst with ⟨rfl, rfl⟩
    rw [Finset.ext fun e => (htried e).trans mem_tried_iff.symm] at hnodes
    rw [Finset.ext fun p => (habandoned p).trans mem_abandoned_iff.symm] at hbacktracks
    refine ⟨hcs, hsize, net, report, hbuild, hresult, houtcome, ?_, ?_⟩
    · rw [hnodes]
      decide +kernel
    · rw [hbacktracks]
      decide +kernel

end Search
end DateScheduling
