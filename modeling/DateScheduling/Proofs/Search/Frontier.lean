import DateScheduling.Proofs.Search.Cursors
import DateScheduling.Proofs.Search.Positions

/-!
# The frontier of a search

Between two rounds the cursors of a search name a tuple of positions, its frontier: for each
event with a date the position of this date, and for the next event the position of its next
candidate.  The dates given so far are those at the frontier, they violate no constraint, and
every choice before the frontier violates one.  A round moves the frontier past candidates
that are refused only, so it never passes a consistent choice.

Main results:

- Theorem `Search.exists_eq_append_of_between`: what lies between two tuples with a common
  beginning begins in the same way.
- Theorem `Search.CursorState.Invariant.exists_admitted`: a consistent choice that begins with
  the chosen positions goes on with a candidate that is admitted.
- Theorem `Search.Turns.invariant`: every round keeps the invariant.
- Theorem `Search.search_frontier`: what holds between two rounds of a search, and that every
  search ends.
-/

namespace DateScheduling
namespace Search

variable {net : Network} {domains : Array (List Date)} {limits : Limits} {cs : List Constraint}
  {n : Nat} {s s' : CursorState}

/-! ## The order of tuples -/

/-- What lies between two tuples with a common beginning begins in the same way. -/
theorem exists_eq_append_of_between {p q r r' : List Nat} (hlow : ¬ p < q ++ r)
    (hhigh : p < q ++ r') : ∃ u, p = q ++ u ∧ ¬ u < r ∧ u < r' := by
  induction q generalizing p with
  | nil => exact ⟨p, rfl, hlow, hhigh⟩
  | cons j q ih =>
      cases p with
      | nil => exact absurd (List.nil_lt_cons _ _) hlow
      | cons i p =>
          rw [List.cons_append, List.cons_lt_cons_iff] at hlow hhigh
          rw [not_or, not_and] at hlow
          rcases hhigh with hlt | ⟨rfl, hhigh⟩
          · exact absurd hlt hlow.1
          · rcases ih (hlow.2 rfl) hhigh with ⟨u, rfl, hu⟩
            exact ⟨u, rfl, hu⟩

/-- A tuple of positions before one single position begins with a smaller one. -/
theorem lt_singleton_iff {p : List Nat} {j : Nat} :
    p < [j] ↔ p = [] ∨ ∃ i u, p = i :: u ∧ i < j := by
  cases p with
  | nil => simp
  | cons i u => simp [List.cons_lt_cons_iff]

theorem not_lt_singleton_iff {p : List Nat} {j : Nat} :
    ¬ p < [j] ↔ ∃ i u, p = i :: u ∧ j ≤ i := by
  cases p with
  | nil => simp
  | cons i u => simp [List.cons_lt_cons_iff]

/-- A tuple lies before a shorter one when its beginning does. -/
theorem lt_of_take_lt {p q : List Nat} {m : Nat} (hm : q.length ≤ m) (h : p.take m < q) :
    p < q := by
  induction q generalizing p m with
  | nil => exact absurd h (List.not_lt_nil _)
  | cons j q ih =>
      rw [List.length_cons] at hm
      cases p with
      | nil => exact List.nil_lt_cons _ _
      | cons i p =>
          cases m with
          | zero => omega
          | succ m =>
              rw [List.take_succ_cons, List.cons_lt_cons_iff] at h
              rw [List.cons_lt_cons_iff]
              rcases h with hlt | ⟨rfl, h⟩
              · exact Or.inl hlt
              · exact Or.inr ⟨rfl, ih (by omega) h⟩

/-! ## The invariant -/

namespace CursorState

/-- The positions of the dates given so far. -/
def chosen (s : CursorState) : List Nat :=
  (List.range s.assignment.size).map fun var => s.position var - 1

/-- The positions of the dates given so far, and that of the next candidate if some event has no
date yet. -/
def frontier (s : CursorState) : List Nat :=
  s.chosen ++ s.cursor[s.assignment.size]?.toList

@[simp] theorem length_chosen (s : CursorState) : s.chosen.length = s.assignment.size := by
  simp [chosen]

theorem length_frontier_le (s : CursorState) : s.frontier.length ≤ s.assignment.size + 1 := by
  unfold frontier
  rw [List.length_append, length_chosen]
  cases s.cursor[s.assignment.size]? with
  | none => exact Nat.le_succ _
  | some j => exact Nat.le_refl _

/-- As long as some event has no date the frontier ends with the position of a candidate. -/
theorem Placed.frontier_eq (h : s.Placed domains) (hlt : s.assignment.size < domains.size) :
    s.frontier = s.chosen ++ [s.position s.assignment.size] := by
  rw [← h.size_cursor] at hlt
  simp [frontier, position, hlt]

/-- What holds between two rounds. -/
structure Invariant (cs : List Constraint) (domains : Array (List Date)) (s : CursorState) :
    Prop where
  placed : s.Placed domains
  position_pos : ∀ i, i < s.assignment.size → 1 ≤ s.position i
  pick?_eq : pick? domains.toList s.chosen = some s.assignment.toList
  consistent : consistent cs s.assignment = true
  /-- Every choice before the frontier violates a constraint. -/
  not_before : ∀ p t, IsChoice cs domains.toList p t → ¬ p < s.frontier

/-- A tuple that is not before the chosen positions is not before the frontier either as long as
the next event has not lost a candidate. -/
theorem not_lt_frontier (hplaced : s.Placed domains)
    (hzero : s.position s.assignment.size = 0) {p : List Nat} (hlength : p.length = domains.size)
    (h : ¬ p < s.chosen) : ¬ p < s.frontier := by
  intro hlt
  unfold frontier at hlt
  rw [← List.append_nil s.chosen] at h
  rcases exists_eq_append_of_between h hlt with ⟨u, rfl, -, hu⟩
  cases hnext : s.cursor[s.assignment.size]? with
  | none =>
      rw [hnext] at hu
      exact List.not_lt_nil _ hu
  | some j =>
      have hj : s.position s.assignment.size = j := by
        simp [position, hnext]
      rw [hnext, Option.toList_some, ← hj, hzero, lt_singleton_iff] at hu
      rcases hu with rfl | ⟨i, v, -, hi⟩
      · have hsize := (Array.getElem?_eq_some_iff.1 hnext).1
        rw [hplaced.size_cursor, ← hlength] at hsize
        simp at hsize
      · exact absurd hi (Nat.not_lt_zero i)

theorem invariant_start (cs : List Constraint) (domains : Array (List Date)) :
    (start domains).Invariant cs domains := by
  have hplaced := placed_start domains
  constructor
  case placed => exact hplaced
  case position_pos =>
    intro i hi
    exact absurd hi (Nat.not_lt_zero i)
  case pick?_eq => exact pick?_nil _
  case consistent => exact consistent_empty cs
  case not_before =>
    intro p t hchoice
    refine not_lt_frontier hplaced (position_start domains _) ?_ (List.not_lt_nil p)
    rw [hchoice.length_eq, Array.length_toList]

namespace Invariant

/-- A consistent choice that begins with the chosen positions goes on with a candidate that is
admitted. -/
theorem exists_admitted (hnet : net.Files n cs) (hn : domains.size ≤ n)
    (h : s.Invariant cs domains) (hlt : s.assignment.size < domains.size) {p u : List Nat}
    {t : List Date} {j : Nat} (hchoice : IsChoice cs domains.toList p t)
    (hp : p = s.chosen ++ j :: u) :
    ∃ day, (candidatesOf domains s.assignment.size)[j]? = some day ∧
      net.admits (s.assignment.push day) = true := by
  have hpick := hchoice.pick?_eq
  rw [hp, List.append_cons] at hpick
  rcases pick?_append_singleton_iff.1 (pick?_of_append hpick) with ⟨v, day, hv, hday, htake⟩
  rw [h.pick?_eq, Option.some.injEq] at hv
  subst hv
  rw [length_chosen, getD_toList] at hday
  refine ⟨day, hday, ?_⟩
  -- The first dates of a consistent choice are consistent, those up to the candidate among them.
  have hconsistent := (isChoice_iff.1 hchoice).2
  rw [← List.take_append_drop (s.chosen ++ [j]).length t, htake] at hconsistent
  have hpush := consistent_push_iff hnet (l := s.assignment.toList)
    (by rw [Array.length_toList]; omega) day
  have hadmits := (hpush.1 (consistent_of_append hconsistent)).2
  rw [← List.push_toArray, Array.toArray_toList] at hadmits
  exact hadmits

end Invariant

end CursorState

/-! ## Rounds keep the invariant -/

section Rounds

variable {day : Date} {j nodes backtracks : Nat} {log : Array LogEntry}

/-- A round forward chooses the position of the candidate that is admitted. -/
theorem CursorState.Placed.chosen_forward (h : s.Placed domains)
    (hlt : s.assignment.size < domains.size) :
    CursorState.chosen ⟨s.assignment.push day, s.cursor.setIfInBounds s.assignment.size (j + 1),
      nodes, backtracks, log⟩ = s.chosen ++ [j] := by
  have hposition := getD_setIfInBounds (h.size_cursor ▸ hlt) (j + 1)
  simp only [chosen, position, Array.size_push, List.range_succ, List.map_append, List.map_cons,
    List.map_nil, hposition, if_true, Nat.add_sub_cancel]
  congr 1
  apply List.map_congr_left
  intro i hi
  rw [if_neg (Nat.ne_of_lt (List.mem_range.1 hi))]

/-- A round back gives up the last of the chosen positions. -/
theorem CursorState.Placed.chosen_back (h : s.Placed domains)
    (hlt : s.assignment.size < domains.size) (hpos : 0 < s.assignment.size)
    (nodes backtracks : Nat) (log : Array LogEntry) :
    s.chosen = CursorState.chosen ⟨s.assignment.pop,
      s.cursor.setIfInBounds s.assignment.size 0, nodes, backtracks, log⟩ ++
        [s.position (s.assignment.size - 1) - 1] := by
  have hposition := getD_setIfInBounds (h.size_cursor ▸ hlt) 0
  obtain ⟨m, hm⟩ : ∃ m, s.assignment.size = m + 1 := ⟨_, (Nat.sub_add_cancel hpos).symm⟩
  simp only [chosen, position, Array.size_pop, hposition]
  simp only [hm, Nat.add_sub_cancel, List.range_succ, List.map_append, List.map_cons, List.map_nil]
  congr 1
  apply List.map_congr_left
  intro i hi
  have hlast := List.mem_range.1 hi
  rw [if_neg (by omega)]

namespace CursorState.Invariant

/-- No consistent choice lies before the first candidate that is admitted. -/
theorem not_lt_of_refused (hnet : net.Files n cs) (hn : domains.size ≤ n)
    (h : s.Invariant cs domains) (hlt : s.assignment.size < domains.size)
    (hrefused : ∀ i d, s.position s.assignment.size ≤ i → i < j →
      (candidatesOf domains s.assignment.size)[i]? = some d →
        net.admits (s.assignment.push d) = false)
    {p : List Nat} {t : List Date} (hchoice : IsChoice cs domains.toList p t) :
    ¬ p < s.chosen ++ [j] := by
  intro hbefore
  have hold := h.not_before p t hchoice
  rw [h.placed.frontier_eq hlt] at hold
  -- It would name one of the candidates that were refused.
  rcases exists_eq_append_of_between hold hbefore with ⟨u, hp, hlow, hhigh⟩
  rcases not_lt_singleton_iff.1 hlow with ⟨i, v, rfl, hfrom⟩
  have hi : i < j := by
    simpa [List.cons_lt_cons_iff] using hhigh
  rcases h.exists_admitted hnet hn hlt hchoice hp with ⟨d, hd, hadmitted⟩
  rw [hrefused i d hfrom hi hd] at hadmitted
  cases hadmitted

/-- When all candidates were refused, no consistent choice lies before the place that follows
the last of the chosen positions. -/
theorem not_lt_of_all_refused (hnet : net.Files n cs) (hn : domains.size ≤ n)
    (h : s.Invariant cs domains) (hlt : s.assignment.size < domains.size)
    (hrefused : ∀ i d, s.position s.assignment.size ≤ i →
      (candidatesOf domains s.assignment.size)[i]? = some d →
        net.admits (s.assignment.push d) = false)
    {q p : List Nat} {last : Nat} {t : List Date} (hchosen : s.chosen = q ++ [last])
    (hchoice : IsChoice cs domains.toList p t) : ¬ p < q ++ [last + 1] := by
  intro hbefore
  have hold := h.not_before p t hchoice
  rw [h.placed.frontier_eq hlt, hchosen, List.append_assoc] at hold
  -- It would begin with the chosen positions, and go on with one of the refused candidates.
  rcases exists_eq_append_of_between hold hbefore with ⟨v, hp, hlow, hhigh⟩
  cases v with
  | nil => exact hlow (List.nil_lt_cons _ _)
  | cons i v =>
      rw [List.singleton_append, List.cons_lt_cons_iff, not_or, not_and] at hlow
      have hle : i < last + 1 := by
        simpa [List.cons_lt_cons_iff] using hhigh
      have hi : i = last := by omega
      rcases not_lt_singleton_iff.1 (hlow.2 hi) with ⟨j, w, rfl, hfrom⟩
      have hbegins : p = s.chosen ++ j :: w := by
        rw [hp, hchosen, hi, List.append_assoc]
        rfl
      rcases h.exists_admitted hnet hn hlt hchoice hbegins with ⟨d, hd, hadmitted⟩
      rw [hrefused j d hfrom hd] at hadmitted
      cases hadmitted

/-- A round forward keeps the invariant. -/
theorem forward (hnet : net.Files n cs) (hn : domains.size ≤ n) (h : s.Invariant cs domains)
    (hlt : s.assignment.size < domains.size)
    (hday : (candidatesOf domains s.assignment.size)[j]? = some day)
    (hadmits : net.admits (s.assignment.push day) = true)
    (hrefused : ∀ i d, s.position s.assignment.size ≤ i → i < j →
      (candidatesOf domains s.assignment.size)[i]? = some d →
        net.admits (s.assignment.push d) = false)
    (hplaced : CursorState.Placed domains ⟨s.assignment.push day,
      s.cursor.setIfInBounds s.assignment.size (j + 1), nodes, backtracks, log⟩) :
    CursorState.Invariant cs domains ⟨s.assignment.push day,
      s.cursor.setIfInBounds s.assignment.size (j + 1), nodes, backtracks, log⟩ := by
  have hposition := getD_setIfInBounds (h.placed.size_cursor ▸ hlt) (j + 1)
  constructor
  case placed => exact hplaced
  case position_pos =>
    intro i hi
    simp only [Array.size_push] at hi
    simp only [CursorState.position, hposition]
    split
    · exact Nat.le_add_left 1 j
    · exact h.position_pos i (by omega)
  case pick?_eq =>
    rw [h.placed.chosen_forward hlt]
    refine pick?_append_singleton_iff.2 ⟨_, day, h.pick?_eq, ?_, Array.toList_push⟩
    rw [CursorState.length_chosen, getD_toList]
    exact hday
  case consistent =>
    have hpush := consistent_push_iff hnet (l := s.assignment.toList)
      (by rw [Array.length_toList]; omega) day
    rw [← List.push_toArray, Array.toArray_toList] at hpush
    exact hpush.2 ⟨h.consistent, hadmits⟩
  case not_before =>
    intro p t hchoice
    have hlength := hchoice.length_eq
    rw [Array.length_toList] at hlength
    refine CursorState.not_lt_frontier hplaced ?_ hlength ?_
    · simp only [CursorState.position, hposition, Array.size_push]
      rw [if_neg (Nat.succ_ne_self _)]
      exact h.placed.position_eq_zero _ (Nat.lt_succ_self _)
    · rw [h.placed.chosen_forward hlt]
      exact h.not_lt_of_refused hnet hn hlt hrefused hchoice

/-- A round back keeps the invariant. -/
theorem back (hnet : net.Files n cs) (hn : domains.size ≤ n) (h : s.Invariant cs domains)
    (hlt : s.assignment.size < domains.size) (hpos : 0 < s.assignment.size)
    (hrefused : ∀ i d, s.position s.assignment.size ≤ i →
      (candidatesOf domains s.assignment.size)[i]? = some d →
        net.admits (s.assignment.push d) = false)
    (hplaced : CursorState.Placed domains ⟨s.assignment.pop,
      s.cursor.setIfInBounds s.assignment.size 0, nodes, backtracks, log⟩) :
    CursorState.Invariant cs domains ⟨s.assignment.pop,
      s.cursor.setIfInBounds s.assignment.size 0, nodes, backtracks, log⟩ := by
  have hposition := getD_setIfInBounds (h.placed.size_cursor ▸ hlt) 0
  have hchosen := h.placed.chosen_back hlt hpos nodes backtracks log
  have hpick := h.pick?_eq
  rw [hchosen, pick?_append_singleton_iff] at hpick
  rcases hpick with ⟨u, last, hu, -, hdates⟩
  have hpop : s.assignment.pop.toList = u := by
    rw [Array.toList_pop, hdates, List.dropLast_concat]
  constructor
  case placed => exact hplaced
  case position_pos =>
    intro i hi
    simp only [Array.size_pop] at hi
    simp only [CursorState.position, hposition]
    rw [if_neg (by omega)]
    exact h.position_pos i (by omega)
  case pick?_eq =>
    rw [hpop]
    exact hu
  case consistent =>
    -- The assignment is the shorter one with a last date.
    have hassignment : s.assignment = (u ++ [last]).toArray := by
      rw [← hdates]
    have hconsistent := h.consistent
    rw [hassignment] at hconsistent ⊢
    simpa using consistent_of_append hconsistent
  case not_before =>
    intro p t hchoice
    have hlast : CursorState.position ⟨s.assignment.pop,
        s.cursor.setIfInBounds s.assignment.size 0, nodes, backtracks, log⟩
          s.assignment.pop.size = s.position (s.assignment.size - 1) - 1 + 1 := by
      simp only [CursorState.position, hposition, Array.size_pop]
      rw [if_neg (by omega)]
      exact (Nat.sub_add_cancel (h.position_pos _ (by omega))).symm
    rw [hplaced.frontier_eq (by simp only [Array.size_pop]; omega), hlast]
    exact h.not_lt_of_all_refused hnet hn hlt hrefused hchosen hchoice

end CursorState.Invariant

end Rounds

/-- Every round keeps the invariant. -/
theorem Turns.invariant (hnet : net.Files n cs) (hn : domains.size ≤ n)
    (hturns : Turns net domains s s') (h : s.Invariant cs domains) : s'.Invariant cs domains := by
  have hplaced := hturns.placed h.placed
  cases hturns with
  | forward hlt _ hday hadmits hrefused =>
      exact h.forward hnet hn hlt hday hadmits hrefused hplaced
  | back hlt hpos hrefused => exact h.back hnet hn hlt hpos hrefused hplaced

/-! ## Whole searches -/

/-- The invariant holds of every state to which rounds lead from the start. -/
theorem Reaches.invariant (hreaches : Reaches net domains limits (.start domains) s)
    (hnet : net.Files n cs) (hn : domains.size ≤ n) : s.Invariant cs domains :=
  (hreaches.preserves (fun _ _ _ hturns h => hturns.invariant hnet hn h) (placed_start domains)
    (CursorState.invariant_start cs domains)).2

/-- A date is the candidate before the cursor of its event. -/
theorem CursorState.Invariant.getElem?_assignment (h : s.Invariant cs domains) {i : Nat}
    (hi : i < s.assignment.size) : ∃ day, s.assignment[i]? = some day ∧
      (candidatesOf domains i)[s.position i - 1]? = some day := by
  have hchosen : s.chosen[i]? = some (s.position i - 1) := by
    simp [chosen, hi]
  rcases (pick?_eq_some_iff.1 h.pick?_eq).2.2 i _ hchosen with
      ⟨candidates, day, hcandidates, hday, hassignment⟩
  have hsame : candidatesOf domains i = candidates := by
    rw [← getD_toList, List.getD_eq_getElem?_getD, hcandidates, Option.getD_some]
  rw [Array.getElem?_toList] at hassignment
  rw [hsame]
  exact ⟨day, hassignment, hday⟩

/-- For all lists of candidates, every list of constraints on at least their events and all
limits, the following holds between two rounds of the search.  The state for which the cursors
stand is one of those the search goes through.  There are no more dates than events, and there
is one cursor for each event.  The cursor of an event with a date stands after this date, within
the list of the event or at its end.  The cursor of the next event stands within its list or at
the end, and the cursors after it at the beginning.  Every constraint on events with dates alone
holds of these dates.  No consistent choice of a position for each event lies before the
frontier.  A round that does not end the search leaves less ahead, in a well-founded order.  So
the rounds come to an end, and what they report then is what the search reports. -/
theorem search_frontier (n : Nat) (cs : List Constraint) (domains : Array (List Date))
    (limits : Limits) (hcs : ∀ c ∈ cs, c.maxIndex < n) (hsize : domains.size ≤ n) :
    ∃ net, Network.build? n cs = some net ∧
      (∀ s, Reaches net domains limits (.start domains) s →
        s.toState domains ∈ trail net domains limits (.start domains) ∧
        s.assignment.size ≤ domains.size ∧ s.cursor.size = domains.size ∧
        (∀ i, i < s.assignment.size →
          1 ≤ s.position i ∧ s.position i ≤ (candidatesOf domains i).length ∧
            ∃ day, s.assignment[i]? = some day ∧
              (candidatesOf domains i)[s.position i - 1]? = some day) ∧
        (s.assignment.size < domains.size →
          s.position s.assignment.size ≤ (candidatesOf domains s.assignment.size).length) ∧
        (∀ j, s.assignment.size < j → s.position j = 0) ∧
        (∀ c ∈ cs, c.maxIndex < s.assignment.size → c.isSatisfiedBy s.assignment = true) ∧
        (∀ p t, IsChoice cs domains.toList p t →
          ¬ p.take (s.assignment.size + 1) < s.frontier) ∧
        ∀ s', round net domains limits s = .next s' →
          ahead domains s'.cursor s'.assignment.size <
            ahead domains s.cursor s.assignment.size) ∧
      ∃ last outcome final, Reaches net domains limits (.start domains) last ∧
        round net domains limits last = .ended outcome final ∧
        search net domains limits =
          ⟨final.log, .ok ⟨outcome, final.nodes, final.backtracks⟩⟩ := by
  rcases Network.exists_build? hcs with ⟨net, hbuild, hnet⟩
  refine ⟨net, hbuild, ?_, ?_⟩
  · intro s hreaches
    have hinv := hreaches.invariant hnet hsize
    have hplaced := hinv.placed
    have htrail := (hreaches.steps hnet hsize (placed_start domains)).mem_trail
    rw [toState_start] at htrail
    refine ⟨htrail, hplaced.size_le, hplaced.size_cursor, ?_, fun _ => hplaced.position_le _,
      hplaced.position_eq_zero, ?_, ?_, ?_⟩
    · intro i hi
      exact ⟨hinv.position_pos i hi, hplaced.position_le i, hinv.getElem?_assignment hi⟩
    · intro c hc _
      exact List.all_eq_true.1 hinv.consistent c hc
    · intro p t hchoice hbefore
      exact hinv.not_before p t hchoice (lt_of_take_lt s.length_frontier_le hbefore)
    · intro s' hround
      exact (turns_of_round hplaced.size_le hround).ahead_lt hplaced
  · rcases exists_last_round net limits (placed_start domains) with
        ⟨last, outcome, final, hreaches, hended⟩
    exact ⟨last, outcome, final, hreaches, hended,
      search_eq_of_reaches hnet hsize hreaches hended⟩

/-- Two events with dates out of order and repeated, the first before the second, and a budget
of five nodes: no round passes the choice of the positions 1 and 2. -/
theorem search_frontier_of_two :
    let early : Date := ⟨2024, 2, 28, by decide⟩
    let late : Date := ⟨2024, 3, 1, by decide⟩
    let cs : List Constraint := [.binary 0 .before 1, .unary 0 .onOrBefore late]
    let domains : Array (List Date) := #[[late, early, early], [early, early, late]]
    let limits : Limits := ⟨5, false, .quiet⟩
    (∀ c ∈ cs, c.maxIndex < 2) ∧ domains.size ≤ 2 ∧
      ∃ net, Network.build? 2 cs = some net ∧
        (∀ s, Reaches net domains limits (.start domains) s →
          s.assignment.size ≤ 2 ∧ s.cursor.size = 2 ∧
          (∀ j, s.assignment.size < j → s.position j = 0) ∧
          ¬ [1, 2].take (s.assignment.size + 1) < s.frontier) ∧
        ∃ last outcome final, Reaches net domains limits (.start domains) last ∧
          round net domains limits last = .ended outcome final ∧
          search net domains limits =
            ⟨final.log, .ok ⟨outcome, final.nodes, final.backtracks⟩⟩ := by
  intro early late cs domains limits
  have hcs : ∀ c ∈ cs, c.maxIndex < 2 := by decide
  have hsize : domains.size ≤ 2 := by decide
  have hchoice : IsChoice cs domains.toList [1, 2] [early, late] :=
    ⟨rfl, rfl, by decide⟩
  rcases search_frontier 2 cs domains limits hcs hsize with ⟨net, hbuild, hrounds, hend⟩
  refine ⟨hcs, hsize, net, hbuild, ?_, hend⟩
  intro s hreaches
  rcases hrounds s hreaches with ⟨-, hle, hcursor, -, -, hzero, -, hbefore, -⟩
  exact ⟨hle, hcursor, hzero, hbefore _ _ hchoice⟩

end Search
end DateScheduling
