import DateScheduling.Proofs.Network.DayOrder
import DateScheduling.Search.Run

/-!
# Search sees the order of days only

Two searches through paired candidates try the candidates of the same pairs, admit
or refuse both dates of a pair, and run out of candidates together.  Under the same
limits they are stopped at the same check, and they find paired assignments.

Main results:

- Theorem `Search.State.Paired.step`: paired states make paired steps.
- Theorem `Search.State.Paired.run`: searches from paired states end alike.
-/

namespace DateScheduling

variable {R : Date → Date → Prop}

namespace Search

/-- The searches have come equally far, with paired dates and paired candidates. -/
structure State.Paired (R : Date → Date → Prop) (t t' : State) : Prop where
  assignment : List.Forall₂ R t.assignment.toList t'.assignment.toList
  current : List.Forall₂ R t.current t'.current
  earlier : List.Forall₂ (List.Forall₂ R) t.earlier t'.earlier
  nodes_eq : t.nodes = t'.nodes
  backtracks_eq : t.backtracks = t'.backtracks
  log_eq : t.log = t'.log

/-- The searches end in the same way; if they found dates, these are paired. -/
inductive Outcome.Paired (R : Date → Date → Prop) : Outcome → Outcome → Prop where
  | found {a a' : Array Date} (h : List.Forall₂ R a.toList a'.toList) :
      Paired R (.found a) (.found a')
  | exhausted : Paired R .exhausted .exhausted
  | stopped (stop : Stop) : Paired R (.stopped stop) (.stopped stop)

/-- The steps lead to paired states. -/
inductive Step.Paired (R : Date → Date → Prop) : Step → Step → Prop where
  | ended {outcome outcome' : Outcome} {t t' : State} (houtcome : outcome.Paired R outcome')
      (h : t.Paired R t') : Paired R (.ended outcome t) (.ended outcome' t')
  | faulty {t t' : State} (fault : Fault) (h : t.Paired R t') :
      Paired R (.faulty fault t) (.faulty fault t')
  | next {t t' : State} (h : t.Paired R t') : Paired R (.next t) (.next t')

variable {domains domains' : Array (List Date)}

/-- Every event has paired candidates. -/
theorem candidatesOf_paired (h : List.Forall₂ (List.Forall₂ R) domains.toList domains'.toList)
    (var : Nat) : List.Forall₂ R (candidatesOf domains var) (candidatesOf domains' var) := by
  have hvar := forall₂_iff_getElem?.1 h var
  rw [Array.getElem?_toList, Array.getElem?_toList] at hvar
  unfold candidatesOf
  rw [Array.getD_eq_getD_getElem?, Array.getD_eq_getD_getElem?]
  rcases rel_cases hvar with ⟨hnone, hnone'⟩ | ⟨l, l', hsome, hsome', hl⟩
  · rw [hnone, hnone']
    exact .nil
  · rw [hsome, hsome']
    exact hl

/-- Searches through paired candidates start from paired states. -/
theorem paired_start (h : List.Forall₂ (List.Forall₂ R) domains.toList domains'.toList) :
    (State.start domains).Paired R (.start domains') :=
  ⟨.nil, candidatesOf_paired h 0, .nil, rfl, rfl, rfl⟩

namespace State.Paired

variable {t t' : State} (h : t.Paired R t')
include h

theorem size_eq : t.assignment.size = t'.assignment.size := by
  have hlength := h.assignment.length_eq
  rwa [Array.length_toList, Array.length_toList] at hlength

theorem finish {outcome outcome' : Outcome} (houtcome : outcome.Paired R outcome') (found : Bool) :
    (Search.finish outcome found t).Paired R (Search.finish outcome' found t') := by
  rcases h with ⟨hassignment, hcurrent, hearlier, hnodes, hbacktracks, hlog⟩
  exact .ended houtcome ⟨hassignment, hcurrent, hearlier, hnodes, hbacktracks,
    by simp only [hnodes, hbacktracks, hlog]⟩

theorem retreat : (Search.retreat t).Paired R (Search.retreat t') := by
  have hsize := h.size_eq
  rcases t with ⟨assignment, current, earlier, nodes, backtracks, log⟩
  rcases t' with ⟨assignment', current', earlier', nodes', backtracks', log'⟩
  rcases h with ⟨hassignment, -, hearlier, ⟨⟩, ⟨⟩, ⟨⟩⟩
  unfold Search.retreat
  cases hearlier with
  | nil =>
      have hstate : State.Paired R
          ⟨assignment, [], [], nodes, backtracks + 1, log.push (.exhausted assignment.size)⟩
          ⟨assignment', [], [], nodes, backtracks + 1, log.push (.exhausted assignment'.size)⟩ :=
        ⟨hassignment, .nil, .nil, rfl, rfl, by rw [hsize]⟩
      exact hstate.finish .exhausted false
  | cons hcandidates hrest =>
      refine .next ⟨?_, hcandidates, hrest, rfl, rfl, by simp only [hsize]⟩
      rw [Array.toList_pop, Array.toList_pop, List.dropLast_eq_take, List.dropLast_eq_take,
        hassignment.length_eq]
      exact List.forall₂_take _ hassignment

variable {net net' : Network} (hR : Date.KeepsOrder R) (hnet : net.Paired R net')
  (hdomains : List.Forall₂ (List.Forall₂ R) domains.toList domains'.toList)
include hR hnet hdomains

/-- Both dates of a pair are admitted, or both are refused. -/
theorem tryDate {day day' : Date} (hday : R day day') {untried untried' : List Date}
    (huntried : List.Forall₂ R untried untried') :
    (Search.tryDate net domains day untried t).Paired R
      (Search.tryDate net' domains' day' untried' t') := by
  have hsize := h.size_eq
  rcases t with ⟨assignment, current, earlier, nodes, backtracks, log⟩
  rcases t' with ⟨assignment', current', earlier', nodes', backtracks', log'⟩
  rcases h with ⟨hassignment, -, hearlier, ⟨⟩, ⟨⟩, ⟨⟩⟩
  have hextended : List.Forall₂ R (assignment.push day).toList (assignment'.push day').toList := by
    rw [Array.toList_push, Array.toList_push]
    exact List.rel_append hassignment (.cons hday .nil)
  have hcompleted := hnet.completedAt? assignment.size
  simp only at hsize
  simp only [Search.tryDate, ← hsize]
  rcases rel_cases hcompleted with ⟨hnone, hnone'⟩ | ⟨cs, cs', hsome, hsome', hcs⟩
  · simp only [hnone, hnone']
    exact .faulty _ ⟨hassignment, huntried, hearlier, rfl, rfl, rfl⟩
  · have hchecks : cs.all (·.isSatisfiedBy (assignment.push day)) =
        cs'.all (·.isSatisfiedBy (assignment'.push day')) :=
      all_eq_of_forall₂ hcs fun c c' hc => hc.isSatisfiedBy_eq hR hextended
    simp only [hsome, hsome', hchecks, Array.pop_push]
    split
    · exact .next ⟨hextended, candidatesOf_paired hdomains _, .cons huntried hearlier, rfl, rfl,
        rfl⟩
    · exact .next ⟨hassignment, huntried, hearlier, rfl, rfl, rfl⟩

/-- Paired states make paired steps. -/
theorem step (verdict : Option Stop) :
    (Search.step net domains verdict t).Paired R (Search.step net' domains' verdict t') := by
  have hsize := h.size_eq
  have hevents : domains.size = domains'.size := by
    have hlength := hdomains.length_eq
    rwa [Array.length_toList, Array.length_toList] at hlength
  unfold Search.step
  rw [hsize, hevents]
  split
  · exact h.finish (.found h.assignment) true
  · have hcurrent := h.current
    generalize t.current = current, t'.current = current' at hcurrent
    cases hcurrent with
    | nil => exact h.retreat
    | cons hday huntried =>
        cases verdict with
        | none => exact h.tryDate hR hnet hdomains hday huntried
        | some stop =>
            rcases h with ⟨hassignment, -, hearlier, hnodes, hbacktracks, hlog⟩
            exact .ended (.stopped stop) ⟨hassignment, .cons hday huntried, hearlier, hnodes,
              hbacktracks, by simp only [hnodes, hlog]⟩

/-- Searches from paired states under the same limits meet the same missing event, or
end alike. -/
theorem run (limits : Limits) :
    (Search.run net domains limits t).2.Paired R (Search.run net' domains' limits t').2 ∧
      ((∃ fault, (Search.run net domains limits t).1 = .error fault ∧
          (Search.run net' domains' limits t').1 = .error fault) ∨
        ∃ outcome outcome', (Search.run net domains limits t).1 = .ok outcome ∧
          (Search.run net' domains' limits t').1 = .ok outcome' ∧
          outcome.Paired R outcome') := by
  -- The second search makes the paired step; as it has counted as many nodes, the
  -- limits say the same to it.
  have hstep' := h.step hR hnet hdomains (limits.verdict t.nodes)
  rw [run_eq net' domains', ← h.nodes_eq]
  fun_induction Search.run net domains limits t generalizing t' with
  | case1 t outcome final hstep =>
      rw [hstep] at hstep'
      generalize Search.step net' domains' (limits.verdict t.nodes) t' = next' at hstep'
      cases hstep' with
      | ended houtcome hfinal => exact ⟨hfinal, Or.inr ⟨_, _, rfl, rfl, houtcome⟩⟩
  | case2 t fault final hstep =>
      rw [hstep] at hstep'
      generalize Search.step net' domains' (limits.verdict t.nodes) t' = next' at hstep'
      cases hstep' with
      | faulty _ hfinal => exact ⟨hfinal, Or.inl ⟨_, rfl, rfl⟩⟩
  | case3 t u hstep ih =>
      rw [hstep] at hstep'
      generalize Search.step net' domains' (limits.verdict t.nodes) t' = next' at hstep'
      cases hstep' with
      | next hu =>
          simp only
          rw [run_eq net' domains', ← hu.nodes_eq]
          exact ih hu (hu.step hR hnet hdomains _)

end State.Paired

end Search
end DateScheduling
