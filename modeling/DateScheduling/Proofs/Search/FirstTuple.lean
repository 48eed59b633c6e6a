import DateScheduling.Proofs.Network.Consistency
import DateScheduling.Proofs.Search.Exploration

/-!
# The first consistent choice

An exploration checks a constraint once, when its largest event gets a date.
This is as good as checking all constraints each time, and so the exploration
finds the first consistent tuple in the order in which tuples of candidates are
enumerated.  With ascending candidates this is lexicographic order.

Main results:

- Theorem `consistent_push_iff`: checking the constraints completed by the last
  date is enough.
- Theorem `Search.found_explore`: an exploration finds the first consistent
  tuple.
- Theorem `Search.pairwise_tuples`: ascending candidates give tuples in
  lexicographic order.
-/

namespace DateScheduling

variable {cs : List Constraint} {n : Nat} {net : Network}

/-- Checking the constraints completed by the last date is enough. -/
theorem consistent_push_iff (hnet : net.Files n cs) {l : List Date} (hl : l.length < n)
    (day : Date) : consistent cs (l ++ [day]).toArray = true ↔
      consistent cs l.toArray = true ∧ net.admits (l ++ [day]).toArray = true := by
  have hcompleted := hnet.completedAt?_eq l.length hl
  have hadmits : net.admits (l ++ [day]).toArray = true ↔
      ∀ c ∈ cs, c.maxIndex = l.length → c.isSatisfiedBy (l ++ [day]).toArray = true := by
    simp [Network.admits, hcompleted, Decidable.imp_iff_not_or]
  rw [hadmits]
  constructor
  · intro h
    refine ⟨consistent_of_append h, ?_⟩
    intro c hc _
    exact List.all_eq_true.1 h c hc
  · intro hexists
    rcases hexists with ⟨hold, hnew⟩
    unfold consistent
    rw [List.all_eq_true]
    intro c hc
    rcases Nat.lt_trichotomy c.maxIndex l.length with hlt | heq | hgt
    · rw [Constraint.isSatisfiedBy_append hlt]
      exact List.all_eq_true.1 hold c hc
    · exact hnew c hc heq
    · apply Constraint.isSatisfiedBy_of_size_le
      simp only [List.size_toArray, List.length_append, List.length_singleton]
      omega

namespace Search

/-! ## Tuples of candidates -/

/-- The tuples with one candidate of each event, in the order of the candidates
of the first event, then of the second, and so on. -/
def tuples : List (List Date) → List (List Date)
  | [] => [[]]
  | candidates :: rest => candidates.flatMap fun day => (tuples rest).map (day :: ·)

/-- A tuple has a candidate of its event at each position. -/
theorem mem_tuples_iff {levels : List (List Date)} {t : List Date} :
    t ∈ tuples levels ↔ t.length = levels.length ∧
      ∀ (i : Nat) v, t[i]? = some v → ∃ candidates, levels[i]? = some candidates ∧
        v ∈ candidates := by
  induction levels generalizing t with
  | nil => simp +contextual [tuples]
  | cons candidates rest ih =>
      simp only [tuples, List.mem_flatMap, List.mem_map, List.length_cons]
      constructor
      · intro h
        rcases h with ⟨day, hday, u, hu, rfl⟩
        rcases ih.1 hu with ⟨hlength, hmem⟩
        refine ⟨by rw [List.length_cons, hlength], ?_⟩
        intro i v hi
        cases i with
        | zero =>
            cases hi
            exact ⟨candidates, rfl, hday⟩
        | succ i => exact hmem i v hi
      · intro h
        rcases h with ⟨hlength, hmem⟩
        cases t with
        | nil => cases hlength
        | cons day u =>
            rcases hmem 0 day rfl with ⟨first, hfirst, hday⟩
            cases hfirst
            refine ⟨day, hday, u, ih.2 ⟨Nat.succ.inj hlength, ?_⟩, rfl⟩
            intro i v hi
            exact hmem (i + 1) v hi

/-- Ascending candidates give tuples in lexicographic order. -/
theorem pairwise_tuples {levels : List (List Date)}
    (h : ∀ candidates ∈ levels, candidates.Pairwise (· < ·)) :
    (tuples levels).Pairwise (· < ·) := by
  induction levels with
  | nil => exact List.pairwise_singleton _ _
  | cons candidates rest ih =>
      have hrest := ih fun c hc => h c (List.mem_cons_of_mem _ hc)
      rw [tuples, List.pairwise_flatMap]
      constructor
      · intro day _
        refine hrest.map _ ?_
        intro t u htu
        exact List.cons_lt_cons_iff.2 (Or.inr ⟨rfl, htu⟩)
      · refine (h candidates List.mem_cons_self).imp ?_
        intro day later hlt t ht u hu
        rcases List.mem_map.1 ht with ⟨t', -, rfl⟩
        rcases List.mem_map.1 hu with ⟨u', -, rfl⟩
        exact List.cons_lt_cons_iff.2 (Or.inl hlt)

/-! ## What an exploration finds -/

/-- The first member of an ordered list that passes a test comes before all others
that pass it. -/
theorem rel_of_find?_eq_some {α : Type} {r : α → α → Prop} {l : List α} (hl : l.Pairwise r)
    {p : α → Bool} {a b : α} (hfind : l.find? p = some a) (hb : b ∈ l) (hpass : p b = true)
    (hne : b ≠ a) : r a b := by
  rcases List.find?_eq_some_iff_append.1 hfind with ⟨-, before, after, rfl, hbefore⟩
  rw [List.mem_append, List.mem_cons] at hb
  rcases hb with hb | heq | hb
  · have hfails := hbefore b hb
    rw [hpass] at hfails
    cases hfails
  · exact absurd heq hne
  · exact List.rel_of_pairwise_cons (List.pairwise_append.1 hl).2.1 hb

theorem Tally.found_orElse (t later : Tally) :
    (t.orElse later).found = t.found.or later.found := by
  unfold orElse
  cases ht : t.found with
  | none => rfl
  | some a => rfl

theorem Tally.found_close (t : Tally) : t.close.found = t.found := by
  unfold close
  cases ht : t.found with
  | none => rfl
  | some a => rfl

/-- An exploration finds the first consistent tuple of candidates. -/
theorem found_explore (hnet : net.Files n cs) (levels : List (List Date)) (l : List Date)
    (hsize : l.length + levels.length ≤ n) (hl : consistent cs l.toArray = true) :
    (explore net.admits levels l.toArray).found =
      ((tuples levels).find? fun t => consistent cs (l ++ t).toArray).map
        fun t => (l ++ t).toArray := by
  induction levels generalizing l with
  | nil => simp [explore, tuples, hl]
  | cons candidates rest ih =>
      rw [List.length_cons] at hsize
      unfold explore
      rw [Tally.found_close]
      induction candidates with
      | nil => rfl
      | cons day later ihLater =>
          have htuples : tuples ((day :: later) :: rest) =
              (tuples rest).map (day :: ·) ++ tuples (later :: rest) := by
            simp only [tuples, List.flatMap_cons]
          unfold sweep
          rw [Tally.found_orElse, ihLater, htuples, List.find?_append, Option.map_or]
          congr 1
          rw [List.find?_map, Option.map_map]
          have hpush := consistent_push_iff hnet (l := l) (by omega) day
          rw [List.push_toArray]
          by_cases hadmits : net.admits (l ++ [day]).toArray = true
          · have hbelow := ih (l ++ [day]) (by simp; omega) (hpush.2 ⟨hl, hadmits⟩)
            rw [if_pos hadmits]
            simp only [Tally.withNode, hbelow]
            simp [Function.comp_def]
          · rw [if_neg hadmits]
            -- No tuple that begins with a refused candidate is consistent.
            have hnone : ((tuples rest).find?
                ((fun t => consistent cs (l ++ t).toArray) ∘ (day :: ·))) = none := by
              rw [List.find?_eq_none]
              intro t _ hconsistent
              have happend : l ++ day :: t = (l ++ [day]) ++ t := by simp
              simp only [Function.comp_apply] at hconsistent
              rw [happend] at hconsistent
              exact hadmits (hpush.1 (consistent_of_append hconsistent)).2
            rw [hnone]
            rfl

end Search
end DateScheduling
