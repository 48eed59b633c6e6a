import Mathlib.Data.List.Pairwise
import DateScheduling.Proofs.Search.FirstTuple

/-!
# Candidates by position

A search tries the candidates of an event in the order in which they are listed,
whether or not this order is ascending and however often a date is repeated.
What it finds is therefore told by positions in these lists: a choice names one
position for each event, and choices are compared lexicographically, the
position of event 0 being the most significant.

Main results:

- Theorem `Search.pick?_eq_some_iff`: what dates stand at given positions.
- Theorem `Search.mem_choices_iff` and `Search.pairwise_choices`: all choices are
  enumerated in lexicographic order.
- Theorem `Search.isFirstChoice_of_find?`: the first consistent one in the
  enumeration is the least of all.
- Theorem `Search.outcome_explore`: this is the one an exploration finds.
- Theorem `Search.search_first_choice`: an unlimited search finds the least
  consistent choice, if there is one.
-/

namespace DateScheduling
namespace Search

variable {cs : List Constraint} {candidates : List Date} {levels rest : List (List Date)}
  {p : List Nat} {t : List Date}

/-! ## The dates at given positions -/

/-- The dates at given positions in the lists of the first events, if these lists
reach that far. -/
def pick? : List (List Date) → List Nat → Option (List Date)
  | _, [] => some []
  | [], _ :: _ => none
  | candidates :: rest, j :: p =>
      match candidates[j]?, pick? rest p with
      | some day, some t => some (day :: t)
      | _, _ => none

@[simp] theorem pick?_nil (levels : List (List Date)) : pick? levels [] = some [] := by
  cases levels with
  | nil => rfl
  | cons candidates rest => rfl

theorem pick?_cons_eq_some_iff {j : Nat} : pick? (candidates :: rest) (j :: p) = some t ↔
    ∃ day u, candidates[j]? = some day ∧ pick? rest p = some u ∧ t = day :: u := by
  simp only [pick?]
  cases candidates[j]? with
  | none => simp
  | some day =>
      cases pick? rest p with
      | none => simp
      | some u => simp [eq_comm]

/-- There is a date for each position, and it is the candidate of its event at
that position. -/
theorem pick?_eq_some_iff : pick? levels p = some t ↔
    t.length = p.length ∧ p.length ≤ levels.length ∧
      ∀ (i j : Nat), p[i]? = some j → ∃ candidates day, levels[i]? = some candidates ∧
        candidates[j]? = some day ∧ t[i]? = some day := by
  induction levels generalizing p t with
  | nil =>
      cases p with
      | nil => simp [eq_comm]
      | cons j p => simp [pick?]
  | cons candidates rest ih =>
      cases p with
      | nil => simp [eq_comm]
      | cons j p =>
          rw [pick?_cons_eq_some_iff]
          constructor
          · intro h
            rcases h with ⟨day, u, hday, hu, rfl⟩
            rcases ih.1 hu with ⟨hlength, hle, hentries⟩
            refine ⟨by simp [hlength], by simpa using hle, ?_⟩
            intro i k hi
            cases i with
            | zero =>
                cases hi
                exact ⟨candidates, day, rfl, hday, rfl⟩
            | succ i => exact hentries i k hi
          · intro h
            rcases h with ⟨hlength, hle, hentries⟩
            cases t with
            | nil => cases hlength
            | cons day u =>
                rcases hentries 0 j rfl with ⟨first, chosen, hfirst, hchosen, hday⟩
                cases hfirst
                cases hday
                refine ⟨day, u, hchosen, ih.2 ⟨?_, ?_, ?_⟩, rfl⟩
                · simpa using hlength
                · simpa using hle
                · intro i k hi
                  exact hentries (i + 1) k hi

/-- The dates at the first of some positions are the first of their dates. -/
theorem pick?_of_append {q : List Nat} (h : pick? levels (p ++ q) = some t) :
    pick? levels p = some (t.take p.length) := by
  induction p generalizing levels t with
  | nil => rw [pick?_nil, List.length_nil, List.take_zero]
  | cons j p ih =>
      cases levels with
      | nil => cases h
      | cons candidates rest =>
          rw [List.cons_append, pick?_cons_eq_some_iff] at h
          rcases h with ⟨day, u, hday, hu, rfl⟩
          rw [pick?_cons_eq_some_iff]
          exact ⟨day, u.take p.length, hday, ih hu, rfl⟩

/-- The dates at positions of which the last names a candidate of one more event. -/
theorem pick?_append_singleton_iff {j : Nat} : pick? levels (p ++ [j]) = some t ↔
    ∃ u day, pick? levels p = some u ∧ (levels.getD p.length [])[j]? = some day ∧
      t = u ++ [day] := by
  induction p generalizing levels t with
  | nil =>
      cases levels with
      | nil => simp [pick?]
      | cons candidates rest => simp [pick?_cons_eq_some_iff]
  | cons i p ih =>
      cases levels with
      | nil => simp [pick?]
      | cons candidates rest =>
          rw [List.cons_append, pick?_cons_eq_some_iff]
          simp only [ih, pick?_cons_eq_some_iff, List.length_cons, List.getD_cons_succ]
          constructor
          · intro h
            rcases h with ⟨first, -, hfirst, ⟨u, day, hu, hday, rfl⟩, rfl⟩
            exact ⟨first :: u, day, ⟨first, u, hfirst, hu, rfl⟩, hday, rfl⟩
          · intro h
            rcases h with ⟨-, day, ⟨first, u, hfirst, hu, rfl⟩, hday, rfl⟩
            exact ⟨first, u ++ [day], hfirst, ⟨u, day, hu, hday, rfl⟩, rfl⟩

/-- The lists of the events are those of their candidates. -/
theorem getD_toList (domains : Array (List Date)) (i : Nat) :
    domains.toList.getD i [] = candidatesOf domains i := by
  simp [candidatesOf]

/-! ## All choices in order -/

/-- The choices of one position for each event, with the dates there, in
lexicographic order of the positions. -/
def choices : List (List Date) → List (List Nat × List Date)
  | [] => [([], [])]
  | candidates :: rest =>
      candidates.zipIdx.flatMap fun (day, j) =>
        (choices rest).map fun (p, t) => (j :: p, day :: t)

/-- Every choice of a position for each event is enumerated. -/
theorem mem_choices_iff :
    (p, t) ∈ choices levels ↔ p.length = levels.length ∧ pick? levels p = some t := by
  induction levels generalizing p t with
  | nil =>
      cases p with
      | nil => simp [choices, eq_comm]
      | cons j p => simp [choices]
  | cons candidates rest ih =>
      simp only [choices, List.mem_flatMap, List.mem_map, Prod.exists, Prod.mk.injEq,
        List.mk_mem_zipIdx_iff_getElem?]
      cases p with
      | nil => simp
      | cons j p =>
          rw [pick?_cons_eq_some_iff, List.length_cons, List.length_cons, Nat.add_right_cancel_iff]
          constructor
          · intro h
            rcases h with ⟨day, k, hday, q, u, hmem, heq, rfl⟩
            cases heq
            rcases ih.1 hmem with ⟨hlength, hpick⟩
            exact ⟨hlength, day, u, hday, hpick, rfl⟩
          · intro h
            rcases h with ⟨hlength, day, u, hday, hpick, rfl⟩
            exact ⟨day, j, hday, p, u, ih.2 ⟨hlength, hpick⟩, rfl, rfl⟩

/-- Candidates are numbered in the order in which they are listed. -/
theorem pairwise_zipIdx (candidates : List Date) :
    candidates.zipIdx.Pairwise (fun x y => x.2 < y.2) := by
  rw [← List.pairwise_map (f := Prod.snd), List.zipIdx_map_snd]
  exact List.pairwise_lt_range' 1

/-- Choices are enumerated in lexicographic order. -/
theorem pairwise_choices (levels : List (List Date)) :
    (choices levels).Pairwise (fun c d => c.1 < d.1) := by
  induction levels with
  | nil => exact List.pairwise_singleton _ _
  | cons candidates rest ih =>
      rw [choices, List.pairwise_flatMap]
      constructor
      · intro x _
        refine ih.map _ ?_
        intro c d hcd
        exact List.cons_lt_cons_iff.2 (Or.inr ⟨rfl, hcd⟩)
      · refine (pairwise_zipIdx candidates).imp ?_
        intro x y hxy c hc d hd
        rcases List.mem_map.1 hc with ⟨c', -, rfl⟩
        rcases List.mem_map.1 hd with ⟨d', -, rfl⟩
        exact List.cons_lt_cons_iff.2 (Or.inl hxy)

/-- Without their positions the choices are the tuples of candidates. -/
theorem map_snd_choices (levels : List (List Date)) :
    (choices levels).map Prod.snd = tuples levels := by
  induction levels with
  | nil => rfl
  | cons candidates rest ih =>
      have hcandidates : candidates = candidates.zipIdx.map Prod.fst :=
        (List.zipIdx_map_fst 0 candidates).symm
      calc
        (choices (candidates :: rest)).map Prod.snd =
            candidates.zipIdx.flatMap fun x => (tuples rest).map (x.1 :: ·) := by
          simp only [choices, List.map_flatMap, ← ih, List.map_map, Function.comp_def]
        _ = (candidates.zipIdx.map Prod.fst).flatMap fun day => (tuples rest).map (day :: ·) := by
          rw [List.flatMap_map]
        _ = tuples (candidates :: rest) := by
          rw [← hcandidates, tuples]

/-! ## The first consistent choice -/

/-- The dates `t` at the positions `p`, one for each event, satisfy all
constraints; a constraint on an event beyond the last counts as satisfied. -/
structure IsChoice (cs : List Constraint) (levels : List (List Date)) (p : List Nat)
    (t : List Date) : Prop where
  length_eq : p.length = levels.length
  pick?_eq : pick? levels p = some t
  isSatisfiedBy : ∀ c ∈ cs, c.isSatisfiedBy t.toArray = true

/-- The positions `p` come before those of every other consistent choice. -/
structure IsFirstChoice (cs : List Constraint) (levels : List (List Date)) (p : List Nat)
    (t : List Date) : Prop where
  isChoice : IsChoice cs levels p t
  first : ∀ q u, IsChoice cs levels q u → q ≠ p → p < q

/-- There is at most one least consistent choice. -/
theorem IsFirstChoice.unique {q : List Nat} {u : List Date} (hp : IsFirstChoice cs levels p t)
    (hq : IsFirstChoice cs levels q u) : p = q ∧ t = u := by
  have hpositions : p = q := by
    by_cases heq : p = q
    · exact heq
    · have hpq := hp.first q u hq.isChoice (Ne.symm heq)
      have hqp := hq.first p t hp.isChoice heq
      exact absurd hqp (List.lt_asymm hpq)
  refine ⟨hpositions, ?_⟩
  have hpick := hp.isChoice.pick?_eq
  rw [hpositions, hq.isChoice.pick?_eq, Option.some.injEq] at hpick
  exact hpick.symm

theorem isChoice_iff : IsChoice cs levels p t ↔
    (p, t) ∈ choices levels ∧ consistent cs t.toArray = true := by
  unfold consistent
  rw [mem_choices_iff, List.all_eq_true]
  constructor
  · intro h
    exact ⟨⟨h.length_eq, h.pick?_eq⟩, h.isSatisfiedBy⟩
  · intro h
    rcases h with ⟨⟨hlength, hpick⟩, hconsistent⟩
    exact ⟨hlength, hpick, hconsistent⟩

/-- The first consistent choice of the enumeration comes before all others. -/
theorem isFirstChoice_of_find?
    (h : ((choices levels).find? fun c => consistent cs c.2.toArray) = some (p, t)) :
    IsFirstChoice cs levels p t := by
  constructor
  · rw [isChoice_iff]
    have hconsistent := List.find?_some h
    exact ⟨List.mem_of_find?_eq_some h, hconsistent⟩
  · intro q u hchoice hne
    rcases isChoice_iff.1 hchoice with ⟨hmem, hconsistent⟩
    apply rel_of_find?_eq_some (pairwise_choices levels) h hmem hconsistent
    intro heq
    exact hne (congrArg Prod.fst heq)

/-- Without a consistent choice in the enumeration there is none. -/
theorem not_isChoice_of_find?
    (h : ((choices levels).find? fun c => consistent cs c.2.toArray) = none) (p : List Nat)
    (t : List Date) : ¬ IsChoice cs levels p t := by
  intro hchoice
  rcases isChoice_iff.1 hchoice with ⟨hmem, hconsistent⟩
  exact List.find?_eq_none.1 h (p, t) hmem hconsistent

/-- An exploration finds the dates of the first consistent choice. -/
theorem found_explore_choices {net : Network} {n : Nat} (hnet : net.Files n cs)
    (levels : List (List Date)) (hsize : levels.length ≤ n) :
    (explore net.admits levels #[]).found =
      ((choices levels).find? fun c => consistent cs c.2.toArray).map fun c => c.2.toArray := by
  have hfound := found_explore hnet levels [] (by simpa using hsize) (consistent_empty cs)
  rw [← map_snd_choices, List.find?_map, Option.map_map] at hfound
  exact hfound

/-- An exploration finds the first consistent choice, or there is none. -/
theorem outcome_explore {net : Network} {n : Nat} (hnet : net.Files n cs)
    (levels : List (List Date)) (hsize : levels.length ≤ n) :
    (∃ p t, IsFirstChoice cs levels p t ∧
      (explore net.admits levels #[]).report.outcome = .found t.toArray) ∨
    ((∀ p t, ¬ IsChoice cs levels p t) ∧
      (explore net.admits levels #[]).report.outcome = .exhausted) := by
  unfold Tally.report
  rw [found_explore_choices hnet levels hsize]
  cases hfind : (choices levels).find? fun c => consistent cs c.2.toArray with
  | none => exact Or.inr ⟨not_isChoice_of_find? hfind, rfl⟩
  | some c => exact Or.inl ⟨c.1, c.2, isFirstChoice_of_find? hfind, rfl⟩

/-- For all lists of candidates of the first events, in any order and with
repetitions, and every list of constraints on at least these events, the search
without limits ends.  It finds the dates at the least positions with which no
constraint is violated, or it reports that all candidates were tried in vain if
there are no such positions. -/
theorem search_first_choice (n : Nat) (cs : List Constraint) (domains : Array (List Date))
    (hcs : ∀ c ∈ cs, c.maxIndex < n) (hsize : domains.size ≤ n) :
    ∃ net report, Network.build? n cs = some net ∧
      (search net domains .none).result = .ok report ∧
      ((∃ p t, IsChoice cs domains.toList p t) →
        ∃ p t, IsFirstChoice cs domains.toList p t ∧ report.outcome = .found t.toArray) ∧
      ((∀ p t, ¬ IsChoice cs domains.toList p t) → report.outcome = .exhausted) := by
  rcases Network.exists_build? hcs with ⟨net, hbuild, hnet⟩
  refine ⟨net, _, hbuild, result_search hnet hsize, ?_⟩
  rcases outcome_explore hnet domains.toList (by simpa using hsize) with
      ⟨p, t, hfirst, houtcome⟩ | ⟨hnone, houtcome⟩
  · refine ⟨fun _ => ⟨p, t, hfirst, houtcome⟩, ?_⟩
    intro hnone
    exact absurd hfirst.isChoice (hnone p t)
  · refine ⟨?_, fun _ => houtcome⟩
    intro h
    rcases h with ⟨p, t, hchoice⟩
    exact absurd hchoice (hnone p t)

/-- Two events of a network of four, the first before the second.  The dates of the
first event are listed out of order and one of them twice; a constraint on the last
event is never violated. -/
theorem search_first_choice_of_two :
    let early : Date := ⟨2024, 2, 28, by decide⟩
    let late : Date := ⟨2024, 3, 1, by decide⟩
    let cs : List Constraint := [.binary 0 .before 1, .binary 3 .after 0]
    let domains : Array (List Date) := #[[late, early, early], [early, late]]
    (∀ c ∈ cs, c.maxIndex < 4) ∧ domains.size ≤ 4 ∧
      ∃ net report, Network.build? 4 cs = some net ∧
        (search net domains .none).result = .ok report ∧
        IsFirstChoice cs domains.toList [1, 1] [early, late] ∧
        report.outcome = .found #[early, late] := by
  intro early late cs domains
  have hcs : ∀ c ∈ cs, c.maxIndex < 4 := by decide
  have hsize : domains.size ≤ 4 := by decide
  have hfirst : IsFirstChoice cs domains.toList [1, 1] [early, late] := by
    apply isFirstChoice_of_find?
    decide +kernel
  rcases search_first_choice 4 cs domains hcs hsize with
      ⟨net, report, hbuild, hresult, hfound, -⟩
  rcases hfound ⟨_, _, hfirst.isChoice⟩ with ⟨p, t, hfirst', houtcome⟩
  rcases hfirst'.unique hfirst with ⟨rfl, rfl⟩
  exact ⟨hcs, hsize, net, report, hbuild, hresult, hfirst, houtcome⟩

end Search
end DateScheduling
