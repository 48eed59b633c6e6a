import DateScheduling.Proofs.Search.Interruption

/-!
# The stack of a search

A search goes forward when a candidate is admitted and back when an event has no
candidates left, so the number of dates given goes up and down.  Beside the dates
it keeps a stack of untried candidates.  At every moment the stack has one list
for each date: what follows this date among the candidates of its event.  There
are never more dates than events, and the untried candidates of the next event
are the last ones of its list.

Main results:

- Theorem `Search.proceeds_of_step`: what a step that goes on does to a state.
- Theorem `Search.Proceeds.stacked`: such a step keeps the stack in order.
- Theorem `Search.stacked_of_mem_trail`: the stack is in order all the way.
-/

namespace DateScheduling
namespace Search

variable {net : Network} {domains : Array (List Date)} {limits : Limits} {s s' : State}

/-- What a step that goes on does to a state. -/
inductive Proceeds (net : Network) (domains : Array (List Date)) : State → State → Prop where
  /-- The next event had no candidates left. -/
  | retreated {a : Array Date} {untried : List Date} {earlier : List (List Date)}
      {nodes backtracks : Nat} {log : Array LogEntry} (hsize : a.size ≠ domains.size) :
      Proceeds net domains ⟨a, [], untried :: earlier, nodes, backtracks, log⟩
        ⟨a.pop, untried, earlier, nodes, backtracks + 1, log.push (.exhausted a.size)⟩
  /-- The next candidate was admitted. -/
  | admitted {a : Array Date} {day : Date} {untried : List Date} {earlier : List (List Date)}
      {nodes backtracks : Nat} {log : Array LogEntry} {constraints : List Constraint}
      (hsize : a.size ≠ domains.size) (hcompleted : net.completedAt? a.size = some constraints)
      (hall : constraints.all (·.isSatisfiedBy (a.push day)) = true) :
      Proceeds net domains ⟨a, day :: untried, earlier, nodes, backtracks, log⟩
        ⟨a.push day, candidatesOf domains (a.size + 1), untried :: earlier, nodes + 1, backtracks,
          log⟩
  /-- The next candidate was refused. -/
  | refused {a : Array Date} {day : Date} {untried : List Date} {earlier : List (List Date)}
      {nodes backtracks : Nat} {log : Array LogEntry} {constraints : List Constraint}
      (hsize : a.size ≠ domains.size) (hcompleted : net.completedAt? a.size = some constraints)
      (hall : constraints.all (·.isSatisfiedBy (a.push day)) = false) :
      Proceeds net domains ⟨a, day :: untried, earlier, nodes, backtracks, log⟩
        ⟨a, untried, earlier, nodes + 1, backtracks, log⟩

/-- A step that goes on does one of these. -/
theorem proceeds_of_step {verdict : Option Stop} (h : step net domains verdict s = .next s') :
    Proceeds net domains s s' := by
  rcases s with ⟨a, current, earlier, nodes, backtracks, log⟩
  simp only [step] at h
  split at h
  · simp [finish] at h
  · rename_i hsize
    split at h
    · simp only [retreat] at h
      split at h
      · simp [finish] at h
      · cases h
        exact .retreated hsize
    · split at h
      · cases h
      · simp only [tryDate] at h
        split at h
        · cases h
        · rename_i hcompleted
          split at h
          · rename_i hall
            cases h
            exact .admitted hsize hcompleted hall
          · rename_i hall
            cases h
            rw [Array.pop_push]
            exact .refused hsize hcompleted (by simpa using hall)

/-- There are no more dates than events, and the untried candidates of an event are
those that follow the ones tried so far. -/
structure State.Stacked (domains : Array (List Date)) (s : State) : Prop where
  size_le : s.assignment.size ≤ domains.size
  length_earlier : s.earlier.length = s.assignment.size
  current_suffix : s.current <:+ candidatesOf domains s.assignment.size
  /-- In the list of its event a date is followed by the untried candidates. -/
  dated_suffix : ∀ (i : Nat) day, s.assignment[i]? = some day →
    ∃ untried, s.earlier.reverse[i]? = some untried ∧ (day :: untried) <:+ candidatesOf domains i

theorem stacked_start (domains : Array (List Date)) : (State.start domains).Stacked domains where
  size_le := Nat.zero_le _
  length_earlier := rfl
  current_suffix := List.suffix_rfl
  dated_suffix i day h := by
    cases h

namespace State.Stacked

variable {a : Array Date} {day : Date} {current untried : List Date} {earlier : List (List Date)}
  {nodes backtracks nodes' backtracks' : Nat} {log log' : Array LogEntry}

/-- Going back to an event takes up its untried candidates. -/
theorem pop (h : Stacked domains ⟨a, current, untried :: earlier, nodes, backtracks, log⟩) :
    Stacked domains ⟨a.pop, untried, earlier, nodes', backtracks', log'⟩ := by
  have hlength : earlier.length + 1 = a.size := h.length_earlier
  have hsize : a.size ≤ domains.size := h.size_le
  have hpop : a.pop.size = earlier.length := by
    rw [Array.size_pop]
    omega
  constructor
  case size_le =>
    simp only [hpop]
    omega
  case length_earlier => exact hpop.symm
  case current_suffix =>
    have hlast : a[earlier.length]? = some a[earlier.length] :=
      Array.getElem?_eq_getElem (by omega)
    rcases h.dated_suffix _ _ hlast with ⟨top, htop, hsuffix⟩
    rw [List.reverse_cons, List.getElem?_append_right (by simp), List.length_reverse,
      Nat.sub_self] at htop
    cases htop
    simp only [hpop]
    exact (List.suffix_cons _ _).trans hsuffix
  case dated_suffix =>
    intro i d hd
    rw [Array.getElem?_pop] at hd
    split at hd
    · rcases h.dated_suffix i d hd with ⟨other, hother, hsuffix⟩
      rw [List.reverse_cons, List.getElem?_append_left (by rw [List.length_reverse]; omega)]
        at hother
      exact ⟨other, hother, hsuffix⟩
    · cases hd

/-- Giving the next event a date puts the rest of its candidates on the stack. -/
theorem push (h : Stacked domains ⟨a, day :: untried, earlier, nodes, backtracks, log⟩)
    (hsize : a.size ≠ domains.size) :
    Stacked domains ⟨a.push day, candidatesOf domains (a.size + 1), untried :: earlier, nodes',
      backtracks', log'⟩ := by
  have hlength : earlier.length = a.size := h.length_earlier
  have hle : a.size ≤ domains.size := h.size_le
  constructor
  case size_le =>
    simp only [Array.size_push]
    omega
  case length_earlier => simp [hlength]
  case current_suffix =>
    simp only [Array.size_push]
    exact List.suffix_rfl
  case dated_suffix =>
    intro i d hd
    rw [List.reverse_cons]
    rw [Array.getElem?_push] at hd
    split at hd
    · rename_i hi
      cases hd
      refine ⟨untried, ?_, ?_⟩
      · rw [hi, List.getElem?_append_right (by simp [hlength])]
        simp [hlength]
      · rw [hi]
        exact h.current_suffix
    · rcases h.dated_suffix i d hd with ⟨other, hother, hsuffix⟩
      have hi := (Array.getElem?_eq_some_iff.1 hd).1
      refine ⟨other, ?_, hsuffix⟩
      rw [List.getElem?_append_left (by rw [List.length_reverse]; omega)]
      exact hother

/-- A refused candidate is left behind. -/
theorem refuse (h : Stacked domains ⟨a, day :: untried, earlier, nodes, backtracks, log⟩) :
    Stacked domains ⟨a, untried, earlier, nodes', backtracks', log'⟩ :=
  ⟨h.size_le, h.length_earlier, (List.suffix_cons _ _).trans h.current_suffix, h.dated_suffix⟩

/-- What is left of the candidates of the next event are its candidates from a
position on. -/
theorem exists_drop (h : s.Stacked domains) : ∃ tried,
    tried ≤ (candidatesOf domains s.assignment.size).length ∧
      s.current = (candidatesOf domains s.assignment.size).drop tried :=
  ⟨_, Nat.sub_le .., List.suffix_iff_eq_drop.1 h.current_suffix⟩

end State.Stacked

/-- A step that goes on keeps the stack in order. -/
theorem Proceeds.stacked (hproceeds : Proceeds net domains s s') (h : s.Stacked domains) :
    s'.Stacked domains := by
  cases hproceeds with
  | retreated _ => exact h.pop
  | admitted hsize _ _ => exact h.push hsize
  | refused _ _ _ => exact h.refuse

/-- The stack is in order all the way through a search. -/
theorem stacked_of_mem_trail :
    ∀ t ∈ trail net domains limits (.start domains), t.Stacked domains := by
  apply forall_mem_trail _ (stacked_start domains)
  intro verdict s s' hstep hs
  exact (proceeds_of_step hstep).stacked hs

end Search
end DateScheduling
