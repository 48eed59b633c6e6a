import DateScheduling.Proofs.Network.Filing
import DateScheduling.Search.Run

/-!
# The search as a recursion over its tree

The search keeps its place in an explicit stack of untried candidates.  Seen
from outside it explores a tree: below a partial assignment lie the assignments
with one more date.  `explore` walks that tree by recursion over the candidates
of the remaining events, and counts what it visits.

Main results:

- Theorem `Search.yields_sweep`: making steps until the next event has no
  candidates left amounts to sweeping through them.
- Theorem `Search.yields_explore`: making steps below a partial assignment amounts
  to exploring the tree there.
- Theorem `Search.result_search`: an unlimited search reports what the
  exploration of the whole tree finds and counts.
-/

namespace DateScheduling

/-- The constraints that are complete once the last of some dates was given hold
of these dates. -/
def Network.admits (net : Network) (assignment : Array Date) : Bool :=
  ((net.completedAt? (assignment.size - 1)).getD []).all (·.isSatisfiedBy assignment)

namespace Search

/-! ## Exploring a tree -/

/-- What lies below a partial assignment: the first complete assignment, if
there is one, and the numbers of candidates tried and of dead ends met until it
is found, or in all. -/
structure Tally where
  found : Option (Array Date)
  nodes : Nat
  backtracks : Nat
deriving DecidableEq

namespace Tally

/-- A candidate that was refused at once. -/
def refused : Tally :=
  ⟨none, 1, 0⟩

/-- The candidate itself is counted, too. -/
def withNode (t : Tally) : Tally :=
  { t with nodes := t.nodes + 1 }

/-- Go on elsewhere unless something was found. -/
def orElse (t later : Tally) : Tally :=
  match t.found with
  | some a => ⟨some a, t.nodes, t.backtracks⟩
  | none => ⟨later.found, t.nodes + later.nodes, t.backtracks + later.backtracks⟩

/-- All candidates of an event were tried; if in vain, this is a dead end. -/
def close (t : Tally) : Tally :=
  match t.found with
  | some a => ⟨some a, t.nodes, t.backtracks⟩
  | none => ⟨none, t.nodes, t.backtracks + 1⟩

/-- The report of an unlimited search. -/
def report (t : Tally) : Report :=
  match t.found with
  | some a => ⟨.found a, t.nodes, t.backtracks⟩
  | none => ⟨.exhausted, t.nodes, t.backtracks⟩

@[simp] theorem nodes_report (t : Tally) : t.report.nodes = t.nodes := by
  unfold report
  cases t.found with
  | none => rfl
  | some a => rfl

@[simp] theorem backtracks_report (t : Tally) : t.report.backtracks = t.backtracks := by
  unfold report
  cases t.found with
  | none => rfl
  | some a => rfl

end Tally

/-- Try the candidates of one event in order, where `below` says what lies
below a candidate that is admitted. -/
def sweep (admits : Date → Bool) (below : Date → Tally) : List Date → Tally
  | [] => ⟨none, 0, 0⟩
  | day :: rest =>
      (if admits day then (below day).withNode else .refused).orElse (sweep admits below rest)

/-- Explore the tree below an assignment, given the candidates of the events
without a date. -/
def explore (admits : Array Date → Bool) : List (List Date) → Array Date → Tally
  | [], a => ⟨some a, 0, 0⟩
  | candidates :: rest, a =>
      (sweep (fun day => admits (a.push day)) (fun day => explore admits rest (a.push day))
        candidates).close

/-! ## Single steps of a search -/

section SingleSteps

variable {net : Network} {domains : Array (List Date)} {limits : Limits} {verdict : Option Stop}
  {a : Array Date} {day : Date} {current : List Date} {earlier : List (List Date)}
  {nodes backtracks : Nat} {log : Array LogEntry} {s s' : State}

/-- An assignment of all events ends the search. -/
theorem step_complete (ha : a.size = domains.size) :
    step net domains verdict ⟨a, current, earlier, nodes, backtracks, log⟩ =
      .ended (.found a) ⟨a, current, earlier, nodes, backtracks,
        log.push (.finished nodes backtracks true)⟩ := by
  simp only [step, ha, if_true, finish]

/-- A check that stops the search ends it before a candidate is tried. -/
theorem step_stopped {stop : Stop} (ha : a.size < domains.size) (hverdict : verdict = some stop) :
    step net domains verdict ⟨a, day :: current, earlier, nodes, backtracks, log⟩ =
      .ended (.stopped stop) ⟨a, day :: current, earlier, nodes, backtracks,
        log.push (.stopped nodes stop)⟩ := by
  simp only [step, Nat.ne_of_lt ha, if_false, hverdict]

/-- An admitted candidate is followed by the candidates of the next event. -/
theorem step_admitted {cs : List Constraint} {n : Nat} (hnet : net.Files n cs)
    (hn : domains.size ≤ n) (ha : a.size < domains.size) (hverdict : verdict = none)
    (hadmits : net.admits (a.push day) = true) :
    step net domains verdict ⟨a, day :: current, earlier, nodes, backtracks, log⟩ =
      .next ⟨a.push day, candidatesOf domains (a.size + 1), current :: earlier, nodes + 1,
        backtracks, log⟩ := by
  have hcompleted := hnet.completedAt?_eq a.size (by omega)
  simp only [Network.admits, Array.size_push, Nat.add_sub_cancel, hcompleted,
    Option.getD_some] at hadmits
  simp only [step, Nat.ne_of_lt ha, if_false, hverdict, tryDate, hcompleted, hadmits, if_true]

/-- A refused candidate is followed by the next one. -/
theorem step_refused {cs : List Constraint} {n : Nat} (hnet : net.Files n cs)
    (hn : domains.size ≤ n) (ha : a.size < domains.size) (hverdict : verdict = none)
    (hadmits : net.admits (a.push day) = false) :
    step net domains verdict ⟨a, day :: current, earlier, nodes, backtracks, log⟩ =
      .next ⟨a, current, earlier, nodes + 1, backtracks, log⟩ := by
  have hcompleted := hnet.completedAt?_eq a.size (by omega)
  simp only [Network.admits, Array.size_push, Nat.add_sub_cancel, hcompleted,
    Option.getD_some] at hadmits
  simp only [step, Nat.ne_of_lt ha, if_false, hverdict, tryDate, hcompleted, hadmits,
    Bool.false_eq_true, Array.pop_push]

/-- Without candidates the search returns to the event before. -/
theorem step_retreat (ha : a.size < domains.size) :
    step net domains verdict ⟨a, [], current :: earlier, nodes, backtracks, log⟩ =
      .next ⟨a.pop, current, earlier, nodes, backtracks + 1, log.push (.exhausted a.size)⟩ := by
  simp only [step, Nat.ne_of_lt ha, if_false, retreat]

/-- Without candidates and without an event before, the search is over. -/
theorem step_exhausted (ha : a.size < domains.size) :
    step net domains verdict ⟨a, [], [], nodes, backtracks, log⟩ =
      .ended .exhausted ⟨a, [], [], nodes, backtracks + 1,
        (log.push (.exhausted a.size)).push (.finished nodes (backtracks + 1) false)⟩ := by
  simp only [step, Nat.ne_of_lt ha, if_false, retreat, finish]

/-- A step that goes on may be made first. -/
theorem run_of_next (h : step net domains (limits.verdict s.nodes) s = .next s') :
    run net domains limits s = run net domains limits s' := by
  rw [run_eq, h]

/-- A step that ends the search is its last. -/
theorem run_of_ended {outcome : Outcome}
    (h : step net domains (limits.verdict s.nodes) s = .ended outcome s') :
    run net domains limits s = (.ok outcome, s') := by
  rw [run_eq, h]

end SingleSteps

/-! ## From steps to tallies -/

variable {net : Network} {domains : Array (List Date)} {a : Array Date} {day : Date}
  {current : List Date} {earlier : List (List Date)}

/-- Where a search stands in its tree: a state without counters and log. -/
structure Place where
  assignment : Array Date
  current : List Date
  earlier : List (List Date)

/-- The state of a search that stands at a place. -/
def Place.state (p : Place) (nodes backtracks : Nat) (log : Array LogEntry) : State :=
  ⟨p.assignment, p.current, p.earlier, nodes, backtracks, log⟩

/-- From the place `p` the search finds what the tally says, or it arrives at
the place `q`; in both cases it has added the numbers of the tally to its
counters. -/
def Yields (net : Network) (domains : Array (List Date)) (t : Tally) (p q : Place) : Prop :=
  ∀ nodes backtracks log,
    (∀ x, t.found = some x → ∃ final,
      run net domains .none (p.state nodes backtracks log) = (.ok (.found x), final) ∧
        final.nodes = nodes + t.nodes ∧ final.backtracks = backtracks + t.backtracks) ∧
    (t.found = none → ∃ log',
      run net domains .none (p.state nodes backtracks log) =
        run net domains .none (q.state (nodes + t.nodes) (backtracks + t.backtracks) log'))

namespace Yields

variable {t later : Tally} {p q r : Place}

theorem stay (p : Place) : Yields net domains ⟨none, 0, 0⟩ p p := by
  intro nodes backtracks log
  constructor
  · intro x hx
    cases hx
  · intro _
    exact ⟨log, rfl⟩

/-- A complete assignment is found at once. -/
theorem complete (ha : a.size = domains.size) (q : Place) :
    Yields net domains ⟨some a, 0, 0⟩ ⟨a, current, earlier⟩ q := by
  intro nodes backtracks log
  constructor
  · intro x hx
    cases hx
    exact ⟨_, run_of_ended (step_complete ha), rfl, rfl⟩
  · intro hnone
    cases hnone

/-- Two parts of the tree are explored one after the other. -/
theorem orElse (hfirst : Yields net domains t p q) (hlater : Yields net domains later q r) :
    Yields net domains (t.orElse later) p r := by
  intro nodes backtracks log
  rcases hfirst nodes backtracks log with ⟨hfound, hnone⟩
  unfold Tally.orElse
  cases ht : t.found with
  | some y =>
      constructor
      · intro x hx
        cases hx
        exact hfound y ht
      · intro hx
        cases hx
  | none =>
      rcases hnone ht with ⟨log', hrun⟩
      rcases hlater (nodes + t.nodes) (backtracks + t.backtracks) log' with
          ⟨hfoundLater, hnoneLater⟩
      rw [hrun]
      simp only [← Nat.add_assoc]
      exact ⟨hfoundLater, hnoneLater⟩

/-- A refused candidate is passed over. -/
theorem refused {cs : List Constraint} {n : Nat} (hnet : net.Files n cs)
    (hn : domains.size ≤ n) (ha : a.size < domains.size)
    (hadmits : net.admits (a.push day) = false) :
    Yields net domains .refused ⟨a, day :: current, earlier⟩ ⟨a, current, earlier⟩ := by
  intro nodes backtracks log
  constructor
  · intro x hx
    cases hx
  · intro _
    exact ⟨log, run_of_next (step_refused hnet hn ha (Limits.verdict_none _) hadmits)⟩

/-- An admitted candidate leads to what lies below it. -/
theorem withNode {cs : List Constraint} {n : Nat} (hnet : net.Files n cs)
    (hn : domains.size ≤ n) (ha : a.size < domains.size)
    (hadmits : net.admits (a.push day) = true)
    (hbelow : Yields net domains t
      ⟨a.push day, candidatesOf domains (a.size + 1), current :: earlier⟩ q) :
    Yields net domains t.withNode ⟨a, day :: current, earlier⟩ q := by
  intro nodes backtracks log
  have hrest := hbelow (nodes + 1) backtracks log
  have hcount : nodes + (t.nodes + 1) = nodes + 1 + t.nodes := by omega
  simp only [Place.state, Tally.withNode] at hrest ⊢
  rw [run_of_next (step_admitted hnet hn ha (Limits.verdict_none _) hadmits), hcount]
  exact hrest

/-- Candidates used up in vain make a dead end, and the search returns to the
event before. -/
theorem close (hsize : a.size < domains.size)
    (h : Yields net domains t p ⟨a, [], current :: earlier⟩) :
    Yields net domains t.close p ⟨a.pop, current, earlier⟩ := by
  intro nodes backtracks log
  rcases h nodes backtracks log with ⟨hfound, hnone⟩
  unfold Tally.close
  cases ht : t.found with
  | some y =>
      constructor
      · intro x hx
        cases hx
        exact hfound y ht
      · intro hx
        cases hx
  | none =>
      constructor
      · intro x hx
        cases hx
      · intro _
        rcases hnone ht with ⟨log', hrun⟩
        refine ⟨log'.push (.exhausted a.size), ?_⟩
        rw [hrun]
        exact run_of_next (step_retreat hsize)

end Yields

/-- Sweeping through the candidates of an event, when what lies below each of
them is known. -/
theorem yields_sweep {cs : List Constraint} {n : Nat} (hnet : net.Files n cs)
    (hn : domains.size ≤ n) (ha : a.size < domains.size) {below : Date → Tally}
    (hbelow : ∀ day current, Yields net domains (below day)
      ⟨a.push day, candidatesOf domains (a.size + 1), current :: earlier⟩
      ⟨a, current, earlier⟩) (current : List Date) :
    Yields net domains (sweep (fun day => net.admits (a.push day)) below current)
      ⟨a, current, earlier⟩ ⟨a, [], earlier⟩ := by
  induction current with
  | nil => exact Yields.stay _
  | cons day rest ih =>
      unfold sweep
      by_cases hadmits : net.admits (a.push day) = true
      · rw [if_pos hadmits]
        exact (Yields.withNode hnet hn ha hadmits (hbelow day rest)).orElse ih
      · rw [if_neg hadmits]
        rw [Bool.not_eq_true] at hadmits
        exact (Yields.refused hnet hn ha hadmits).orElse ih

/-- Exploring the tree below an assignment that is not empty. -/
theorem yields_explore {cs : List Constraint} {n : Nat} (hnet : net.Files n cs)
    (hn : domains.size ≤ n) {levels : List (List Date)}
    (hlevels : levels = domains.toList.drop a.size) (hsize : a.size ≤ domains.size) :
    Yields net domains (explore net.admits levels a)
      ⟨a, candidatesOf domains a.size, current :: earlier⟩ ⟨a.pop, current, earlier⟩ := by
  induction levels generalizing a current earlier with
  | nil =>
      have hempty := List.drop_eq_nil_iff.1 hlevels.symm
      rw [Array.length_toList] at hempty
      exact Yields.complete (by omega) _
  | cons candidates rest ih =>
      have hlt : a.size < domains.toList.length := by
        by_cases hlt : a.size < domains.toList.length
        · exact hlt
        · rw [List.drop_eq_nil_of_le (by omega)] at hlevels
          cases hlevels
      rw [List.drop_eq_getElem_cons hlt, List.cons.injEq] at hlevels
      rcases hlevels with ⟨hcandidates, hrest⟩
      rw [Array.length_toList] at hlt
      have hcurrent : candidatesOf domains a.size = candidates := by
        simp [candidatesOf, hlt, hcandidates]
      rw [hcurrent]
      unfold explore
      refine (yields_sweep hnet hn hlt ?_ candidates).close hlt
      intro day current'
      have hbelow : Yields net domains (explore net.admits rest (a.push day))
          ⟨a.push day, candidatesOf domains (a.push day).size, current' :: current :: earlier⟩
          ⟨(a.push day).pop, current', current :: earlier⟩ := by
        apply ih
        · rw [hrest, Array.size_push]
        · rw [Array.size_push]
          omega
      rw [Array.size_push, Array.pop_push] at hbelow
      exact hbelow

/-- An unlimited search reports what the exploration of the whole tree finds and
counts. -/
theorem result_search {cs : List Constraint} {n : Nat} (hnet : net.Files n cs)
    (hn : domains.size ≤ n) :
    (search net domains .none).result =
      .ok (explore net.admits domains.toList #[]).report := by
  unfold search State.start report
  rcases domains with ⟨levels⟩
  cases levels with
  | nil =>
      rw [run_of_ended (step_complete rfl)]
      rfl
  | cons candidates rest =>
      have hpos : (#[] : Array Date).size < (Array.mk (candidates :: rest)).size := by simp
      have hcurrent : candidatesOf ⟨candidates :: rest⟩ 0 = candidates := by
        simp [candidatesOf]
      have hbelow : ∀ day current, Yields net ⟨candidates :: rest⟩
          (explore net.admits rest ((#[] : Array Date).push day))
          ⟨(#[] : Array Date).push day, candidatesOf ⟨candidates :: rest⟩ 1, [current]⟩
          ⟨#[], current, []⟩ := by
        intro day current
        exact yields_explore hnet hn rfl hpos
      have hsweep := yields_sweep hnet hn hpos hbelow candidates
      rcases hsweep 0 0 #[] with ⟨hfound, hnone⟩
      rw [hcurrent]
      unfold explore Tally.close Tally.report
      cases ht : (sweep (fun day => net.admits ((#[] : Array Date).push day))
          (fun day => explore net.admits rest ((#[] : Array Date).push day)) candidates).found with
      | some x =>
          rcases hfound x ht with ⟨final, hrun, hnodes, hbacktracks⟩
          simp only [Place.state] at hrun
          rw [hrun]
          simp only [Except.map, hnodes, hbacktracks, Nat.zero_add]
      | none =>
          rcases hnone ht with ⟨log', hrun⟩
          simp only [Place.state] at hrun
          rw [hrun, run_of_ended (step_exhausted hpos)]
          simp only [Except.map, Nat.zero_add]

end Search
end DateScheduling
