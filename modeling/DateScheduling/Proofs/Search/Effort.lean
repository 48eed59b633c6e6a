import Mathlib.Data.List.Forall2
import DateScheduling.Proofs.Search.FirstTuple

/-!
# The effort of a search

An exploration counts the candidates it tries and the dead ends it meets.  Two
things can be said about these numbers without knowing the tree.  A search that
can go on from every assignment it reaches never returns to an event.  And a
search with fewer candidates, as long as it still has every consistent tuple,
finds the same dates with no more effort: it goes the way of the larger search
and only leaves out parts in which nothing is found.

Main results:

- Theorem `Search.one_le_nodes_explore`: a search in vain has tried a candidate
  unless an event had none.
- Theorem `Search.direct_explore`: a search that can always go on meets no dead
  end.
- Theorem `Search.explore_le`: fewer candidates take no more effort.
-/

namespace DateScheduling
namespace Search

/-! ## Searches in vain -/

theorem Tally.nodes_close (t : Tally) : t.close.nodes = t.nodes := by
  unfold close
  cases t.found with
  | none => rfl
  | some a => rfl

theorem Tally.nodes_le_orElse (t later : Tally) : t.nodes ≤ (t.orElse later).nodes := by
  unfold orElse
  cases t.found with
  | none => exact Nat.le_add_right ..
  | some a => exact Nat.le_refl _

/-- A search in vain has tried a candidate when every event has some. -/
theorem one_le_nodes_explore {admits : Array Date → Bool} {levels : List (List Date)}
    (hlevels : ∀ candidates ∈ levels, candidates ≠ []) {a : Array Date}
    (hnone : (explore admits levels a).found = none) : 1 ≤ (explore admits levels a).nodes := by
  cases levels with
  | nil => cases hnone
  | cons candidates rest =>
      rcases List.exists_cons_of_ne_nil (hlevels candidates List.mem_cons_self) with
          ⟨day, later, rfl⟩
      unfold explore sweep
      rw [Tally.nodes_close]
      refine Nat.le_trans ?_ (Tally.nodes_le_orElse ..)
      split
      · exact Nat.le_add_left ..
      · exact Nat.le_refl 1

/-! ## Searches without dead ends -/

/-- Something was found, and no event ran out of candidates before. -/
structure Tally.Direct (t : Tally) : Prop where
  isSome_found : t.found.isSome = true
  backtracks_eq : t.backtracks = 0

namespace Tally.Direct

variable {t : Tally}

theorem withNode (h : t.Direct) : t.withNode.Direct :=
  ⟨h.isSome_found, h.backtracks_eq⟩

/-- What would have come later does not matter. -/
theorem orElse (h : t.Direct) (later : Tally) : (t.orElse later).Direct := by
  rcases Option.isSome_iff_exists.1 h.isSome_found with ⟨a, ha⟩
  unfold Tally.orElse
  rw [ha]
  exact ⟨rfl, h.backtracks_eq⟩

/-- A candidate that is refused makes no dead end. -/
theorem refused_orElse (h : t.Direct) : (refused.orElse t).Direct := by
  refine ⟨h.isSome_found, ?_⟩
  simp only [Tally.orElse, refused, h.backtracks_eq]

theorem close (h : t.Direct) : t.close.Direct := by
  rcases Option.isSome_iff_exists.1 h.isSome_found with ⟨a, ha⟩
  unfold Tally.close
  rw [ha]
  exact ⟨rfl, h.backtracks_eq⟩

end Tally.Direct

/-- If some candidate is admitted, and below every admitted one the search finds
something directly, so does the sweep. -/
theorem direct_sweep {admits : Date → Bool} {below : Date → Tally} {candidates : List Date}
    (hadmitted : ∃ day ∈ candidates, admits day = true)
    (hbelow : ∀ day ∈ candidates, admits day = true → (below day).Direct) :
    (sweep admits below candidates).Direct := by
  induction candidates with
  | nil =>
      rcases hadmitted with ⟨day, hday, -⟩
      cases hday
  | cons day rest ih =>
      unfold sweep
      by_cases hday : admits day = true
      · rw [if_pos hday]
        exact (hbelow day List.mem_cons_self hday).withNode.orElse _
      · rw [if_neg hday]
        apply Tally.Direct.refused_orElse
        apply ih
        · rcases hadmitted with ⟨other, hmem, hother⟩
          rcases List.mem_cons.1 hmem with rfl | hmem
          · exact absurd hother hday
          · exact ⟨other, hmem, hother⟩
        · intro other hmem
          exact hbelow other (List.mem_cons_of_mem day hmem)

/-- A search that can go on from every assignment it reaches meets no dead end.
What it reaches is described by a property of assignments that admitted
candidates keep. -/
theorem direct_explore {admits : Array Date → Bool} (all : List (List Date))
    (Reached : List Date → Prop)
    (hextends : ∀ l candidates, Reached l → all[l.length]? = some candidates →
      ∃ day ∈ candidates, admits (l ++ [day]).toArray = true)
    (hkeeps : ∀ l candidates, Reached l → all[l.length]? = some candidates →
      ∀ day ∈ candidates, admits (l ++ [day]).toArray = true → Reached (l ++ [day]))
    {levels : List (List Date)} {l : List Date} (hlevels : all.drop l.length = levels)
    (hl : Reached l) : (explore admits levels l.toArray).Direct := by
  induction levels generalizing l with
  | nil => exact ⟨rfl, rfl⟩
  | cons candidates rest ih =>
      have hhead : all[l.length]? = some candidates := by
        rw [← List.head?_drop, hlevels]
        rfl
      have hrest : ∀ day, all.drop (l ++ [day]).length = rest := by
        intro day
        rw [List.length_append, List.length_singleton, ← List.tail_drop, hlevels]
        rfl
      unfold explore
      simp only [List.push_toArray]
      apply Tally.Direct.close
      apply direct_sweep (hextends l candidates hl hhead)
      intro day hday hadmits
      exact ih (hrest day) (hkeeps l candidates hl hhead day hday hadmits)

/-! ## Searches of fewer candidates -/

/-- The first tally finds what the second finds, for no more effort. -/
structure Tally.Le (s t : Tally) : Prop where
  found_eq : s.found = t.found
  nodes_le : s.nodes ≤ t.nodes
  backtracks_le : s.backtracks ≤ t.backtracks

namespace Tally.Le

variable {s t s' t' : Tally}

theorem refl (t : Tally) : t.Le t :=
  ⟨rfl, Nat.le_refl _, Nat.le_refl _⟩

theorem withNode (h : s.Le t) : s.withNode.Le t.withNode :=
  ⟨h.found_eq, Nat.succ_le_succ h.nodes_le, h.backtracks_le⟩

theorem orElse (h : s.Le t) (hlater : s'.Le t') : (s.orElse s').Le (t.orElse t') := by
  unfold Tally.orElse
  rw [h.found_eq]
  cases t.found with
  | none =>
      exact ⟨hlater.found_eq, Nat.add_le_add h.nodes_le hlater.nodes_le,
        Nat.add_le_add h.backtracks_le hlater.backtracks_le⟩
  | some a => exact ⟨rfl, h.nodes_le, h.backtracks_le⟩

theorem close (h : s.Le t) : s.close.Le t.close := by
  unfold Tally.close
  rw [h.found_eq]
  cases t.found with
  | none => exact ⟨rfl, h.nodes_le, Nat.succ_le_succ h.backtracks_le⟩
  | some a => exact ⟨rfl, h.nodes_le, h.backtracks_le⟩

/-- A part in which nothing is found may be left out. -/
theorem skip (h : s.Le t') (hnone : t.found = none) : s.Le (t.orElse t') := by
  unfold Tally.orElse
  rw [hnone]
  exact ⟨h.found_eq, Nat.le_trans h.nodes_le (Nat.le_add_left ..),
    Nat.le_trans h.backtracks_le (Nat.le_add_left ..)⟩

end Tally.Le

/-- A sweep through some of the candidates against the sweep through all of
them, when nothing is found below the others. -/
theorem sweep_filter_le {admits : Date → Bool} {below below' : Date → Tally}
    {keep : Date → Bool} {candidates : List Date}
    (hkept : ∀ day ∈ candidates, keep day = true → admits day = true →
      (below day).Le (below' day))
    (hleft : ∀ day ∈ candidates, keep day = false → admits day = true →
      (below' day).found = none) :
    (sweep admits below (candidates.filter keep)).Le (sweep admits below' candidates) := by
  induction candidates with
  | nil => exact .refl _
  | cons day rest ih =>
      have hrest := ih (fun d hd => hkept d (List.mem_cons_of_mem day hd))
        (fun d hd => hleft d (List.mem_cons_of_mem day hd))
      cases hkeep : keep day with
      | true =>
          rw [List.filter_cons_of_pos hkeep]
          unfold sweep
          by_cases hday : admits day = true
          · rw [if_pos hday, if_pos hday]
            exact (hkept day List.mem_cons_self hkeep hday).withNode.orElse hrest
          · rw [if_neg hday, if_neg hday]
            exact (Tally.Le.refl _).orElse hrest
      | false =>
          rw [List.filter_cons_of_neg (by simp [hkeep])]
          rw [sweep]
          apply hrest.skip
          by_cases hday : admits day = true
          · rw [if_pos hday]
            exact hleft day List.mem_cons_self hkeep hday
          · rw [if_neg hday]
            rfl

/-- The first list has some of the candidates of the second, in their order. -/
def Thins (few many : List Date) : Prop :=
  ∃ keep : Date → Bool, few = many.filter keep

/-- A tuple begins with a candidate of the first event. -/
theorem cons_mem_tuples_iff {candidates : List Date} {rest : List (List Date)} {day : Date}
    {t : List Date} :
    day :: t ∈ tuples (candidates :: rest) ↔ day ∈ candidates ∧ t ∈ tuples rest := by
  simp [tuples]

/-- A search of fewer candidates that still has every consistent tuple finds the
same dates for no more effort. -/
theorem explore_le {cs : List Constraint} {n : Nat} {net : Network} (hnet : net.Files n cs)
    {few many : List (List Date)} (hthins : List.Forall₂ Thins few many) {l : List Date}
    (hsize : l.length + many.length ≤ n) (hl : consistent cs l.toArray = true)
    (htuples : ∀ t ∈ tuples many, consistent cs (l ++ t).toArray = true → t ∈ tuples few) :
    (explore net.admits few l.toArray).Le (explore net.admits many l.toArray) := by
  induction hthins generalizing l with
  | nil => exact .refl _
  | @cons _ candidates fewRest manyRest hhead hrest ih =>
      rcases hhead with ⟨keep, rfl⟩
      rw [List.length_cons] at hsize
      unfold explore
      simp only [List.push_toArray]
      apply Tally.Le.close
      have hpush := consistent_push_iff hnet (l := l) (by omega)
      have hlong : ∀ day : Date, (l ++ [day]).length + manyRest.length ≤ n := by
        intro day
        rw [List.length_append, List.length_singleton]
        omega
      have hmem : ∀ (day : Date) (t : List Date), day ∈ candidates → t ∈ tuples manyRest →
          consistent cs (l ++ [day] ++ t).toArray = true →
          keep day = true ∧ t ∈ tuples fewRest := by
        intro day t hday ht hconsistent
        rw [List.append_assoc] at hconsistent
        have hfew := htuples (day :: t) (cons_mem_tuples_iff.2 ⟨hday, ht⟩) hconsistent
        rcases cons_mem_tuples_iff.1 hfew with ⟨hkept, hmem⟩
        exact ⟨(List.mem_filter.1 hkept).2, hmem⟩
      apply sweep_filter_le
      · intro day hday _ hadmits
        apply ih (hlong day) ((hpush day).2 ⟨hl, hadmits⟩)
        intro t ht hconsistent
        exact (hmem day t hday ht hconsistent).2
      · intro day hday hkeep hadmits
        -- A consistent tuple with this candidate would be one of the fewer tuples.
        rw [found_explore hnet manyRest (l ++ [day]) (hlong day) ((hpush day).2 ⟨hl, hadmits⟩),
          Option.map_eq_none_iff, List.find?_eq_none]
        intro t ht hconsistent
        have hkept := (hmem day t hday ht hconsistent).1
        rw [hkeep] at hkept
        cases hkept

end Search
end DateScheduling
