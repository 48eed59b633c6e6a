import Mathlib.Data.DFinsupp.WellFounded
import Mathlib.Data.Fintype.EquivFin
import Mathlib.Logic.Relation
import DateScheduling.Proofs.Search.Exploration
import DateScheduling.Proofs.Search.Interruption

/-!
# The search with cursors

Instead of the untried candidates of its events a search may keep one cursor for each event:
the position of its next candidate.  It then goes on in rounds.  A round goes through the
candidates of the next event from its cursor on; at the first that is admitted the event gets
this date, and if there is none the cursor is set back to the first candidate and the date of
the event before is withdrawn.

The cursors stand for what the search keeps: the untried candidates of an event are those from
its cursor on.  So the rounds make the same search.  Neither the number of dates nor a single
cursor only grows, but in the order in which the first difference decides, every round gets
ahead.

Main results:

- Theorem `Search.turns_of_round`: what a round that goes on does.
- Theorem `Search.Turns.placed`: no cursor leaves its list, and those of later events stand at
  the beginning.
- Theorem `Search.Turns.ahead_lt`: every round gets ahead.
- Theorem `Search.exists_last_round`: rounds come to an end.
- Theorem `Search.Reaches.steps`: rounds stand for steps of the search.
- Theorem `Search.search_eq_of_reaches`: they report what the search does.
-/

namespace DateScheduling
namespace Search

/-! ## Rounds -/

/-- The state of a search with cursors between two rounds. -/
structure CursorState where
  /-- The dates of the first events. -/
  assignment : Array Date
  /-- For each event, the position of its next candidate. -/
  cursor : Array Nat
  /-- Number of candidates tried so far. -/
  nodes : Nat
  /-- Number of times an event ran out of candidates. -/
  backtracks : Nat
  log : Array LogEntry

/-- The position of the next candidate of an event. -/
def CursorState.position (s : CursorState) (var : Nat) : Nat :=
  s.cursor.getD var 0

/-- Before the first round no event has a date and all cursors stand at the beginning. -/
def CursorState.start (domains : Array (List Date)) : CursorState :=
  ⟨#[], Array.replicate domains.size 0, 0, 0, #[]⟩

/-- How the candidates of an event fare, and the number of nodes by then. -/
inductive Scan where
  /-- A check of the limits stopped the scan before the candidate at the position. -/
  | stopped (stop : Stop) (position nodes : Nat)
  /-- A candidate was admitted, and the next one is at the position. -/
  | admitted (day : Date) (position nodes : Nat)
  /-- All candidates were refused. -/
  | refused (nodes : Nat)

/-- Try the candidates from a position on, up to the first that is admitted. -/
def scan (admits : Date → Bool) (limits : Limits) (candidates : List Date)
    (position nodes : Nat) : Scan :=
  if h : position < candidates.length then
    match limits.verdict nodes with
    | some stop => .stopped stop position nodes
    | none =>
        if admits candidates[position] then
          .admitted candidates[position] (position + 1) (nodes + 1)
        else scan admits limits candidates (position + 1) (nodes + 1)
  else .refused nodes
termination_by candidates.length - position

/-- What the next round leads to. -/
inductive Round where
  /-- The search is over. -/
  | ended (outcome : Outcome) (final : CursorState)
  /-- The search goes on. -/
  | next (state : CursorState)

/-- Go through the candidates of the next event and give it a date, or return to the event
before it. -/
def round (net : Network) (domains : Array (List Date)) (limits : Limits) : CursorState → Round
  | ⟨assignment, cursor, nodes, backtracks, log⟩ =>
      let var := assignment.size
      if var = domains.size then
        .ended (.found assignment)
          ⟨assignment, cursor, nodes, backtracks, log.push (.finished nodes backtracks true)⟩
      else
        match scan (fun day => net.admits (assignment.push day)) limits
            (candidatesOf domains var) (cursor.getD var 0) nodes with
        | .stopped stop position nodes =>
            .ended (.stopped stop) ⟨assignment, cursor.setIfInBounds var position, nodes,
              backtracks, log.push (.stopped nodes stop)⟩
        | .admitted day position nodes =>
            .next ⟨assignment.push day, cursor.setIfInBounds var position, nodes, backtracks, log⟩
        | .refused nodes =>
            let cursor := cursor.setIfInBounds var 0
            let log := log.push (.exhausted var)
            if var = 0 then
              .ended .exhausted ⟨assignment, cursor, nodes, backtracks + 1,
                log.push (.finished nodes (backtracks + 1) false)⟩
            else .next ⟨assignment.pop, cursor, nodes, backtracks + 1, log⟩

/-- Rounds lead from one state to another. -/
def Reaches (net : Network) (domains : Array (List Date)) (limits : Limits) :
    CursorState → CursorState → Prop :=
  Relation.ReflTransGen fun s s' => round net domains limits s = .next s'

variable {net : Network} {domains : Array (List Date)} {limits : Limits} {cs : List Constraint}
  {n : Nat} {s s' : CursorState}

/-! ## What a round does -/

/-- What a scan says about the candidates from a position on. -/
inductive Scanned (admits : Date → Bool) (candidates : List Date) (position : Nat) :
    Scan → Prop where
  | stopped {stop : Stop} {reached nodes : Nat} :
      Scanned admits candidates position (.stopped stop reached nodes)
  /-- The first candidate that is admitted was found. -/
  | admitted {day : Date} {j nodes : Nat} (hle : position ≤ j) (hday : candidates[j]? = some day)
      (hadmits : admits day = true)
      (hrefused : ∀ i d, position ≤ i → i < j → candidates[i]? = some d → admits d = false) :
      Scanned admits candidates position (.admitted day (j + 1) nodes)
  | refused {nodes : Nat}
      (hrefused : ∀ i d, position ≤ i → candidates[i]? = some d → admits d = false) :
      Scanned admits candidates position (.refused nodes)

/-- A refused candidate may be put in front. -/
theorem Scanned.of_succ {admits : Date → Bool} {candidates : List Date} {position : Nat}
    {result : Scan} (h : Scanned admits candidates (position + 1) result)
    (hrefused : ∀ d, candidates[position]? = some d → admits d = false) :
    Scanned admits candidates position result := by
  cases h with
  | stopped => exact .stopped
  | admitted hle hday hadmits hlater =>
      refine .admitted (by omega) hday hadmits ?_
      intro i d hfrom hlt hd
      rcases Nat.eq_or_lt_of_le hfrom with rfl | hgt
      · exact hrefused d hd
      · exact hlater i d hgt hlt hd
  | refused hlater =>
      refine .refused ?_
      intro i d hfrom hd
      rcases Nat.eq_or_lt_of_le hfrom with rfl | hgt
      · exact hrefused d hd
      · exact hlater i d hgt hd

/-- A scan finds the first candidate that is admitted, if it is not stopped before. -/
theorem scanned_scan (admits : Date → Bool) (limits : Limits) (candidates : List Date)
    (position nodes : Nat) :
    Scanned admits candidates position (scan admits limits candidates position nodes) := by
  fun_induction scan admits limits candidates position nodes with
  | case1 position nodes hlt stop hverdict => exact .stopped
  | case2 position nodes hlt hverdict hadmits =>
      refine .admitted (Nat.le_refl _) (List.getElem?_eq_getElem hlt) hadmits ?_
      intro i d hfrom hbefore
      omega
  | case3 position nodes hlt hverdict hadmits ih =>
      apply ih.of_succ
      intro d hd
      rw [List.getElem?_eq_getElem hlt, Option.some.injEq] at hd
      rw [← hd]
      simpa using hadmits
  | case4 position nodes hge =>
      refine .refused ?_
      intro i d hfrom hd
      rw [List.getElem?_eq_none (by omega)] at hd
      cases hd

/-- What a round that goes on does. -/
inductive Turns (net : Network) (domains : Array (List Date)) (s : CursorState) :
    CursorState → Prop where
  /-- The candidate at the position `j` was the first to be admitted. -/
  | forward {day : Date} {j nodes : Nat} (hlt : s.assignment.size < domains.size)
      (hle : s.position s.assignment.size ≤ j)
      (hday : (candidatesOf domains s.assignment.size)[j]? = some day)
      (hadmits : net.admits (s.assignment.push day) = true)
      (hrefused : ∀ i d, s.position s.assignment.size ≤ i → i < j →
        (candidatesOf domains s.assignment.size)[i]? = some d →
          net.admits (s.assignment.push d) = false) :
      Turns net domains s ⟨s.assignment.push day, s.cursor.setIfInBounds s.assignment.size (j + 1),
        nodes, s.backtracks, s.log⟩
  /-- All candidates were refused. -/
  | back {nodes : Nat} (hlt : s.assignment.size < domains.size) (hpos : 0 < s.assignment.size)
      (hrefused : ∀ i d, s.position s.assignment.size ≤ i →
        (candidatesOf domains s.assignment.size)[i]? = some d →
          net.admits (s.assignment.push d) = false) :
      Turns net domains s ⟨s.assignment.pop, s.cursor.setIfInBounds s.assignment.size 0, nodes,
        s.backtracks + 1, s.log.push (.exhausted s.assignment.size)⟩

/-- A round that goes on does one of these. -/
theorem turns_of_round (hle : s.assignment.size ≤ domains.size)
    (h : round net domains limits s = .next s') : Turns net domains s s' := by
  rcases s with ⟨assignment, cursor, nodes, backtracks, log⟩
  have hscanned := scanned_scan (fun day => net.admits (assignment.push day)) limits
    (candidatesOf domains assignment.size) (cursor.getD assignment.size 0) nodes
  simp only [round] at h
  split at h
  · cases h
  · rename_i hsize
    have hlt : assignment.size < domains.size := Nat.lt_of_le_of_ne hle hsize
    split at h
    · cases h
    · rename_i hresult
      rw [hresult] at hscanned
      cases h
      cases hscanned with
      | admitted hfrom hday hadmits hrefused => exact .forward hlt hfrom hday hadmits hrefused
    · rename_i hresult
      rw [hresult] at hscanned
      split at h
      · cases h
      · rename_i hne
        cases h
        cases hscanned with
        | refused hrefused => exact .back hlt (Nat.pos_of_ne_zero hne) hrefused

/-! ## Where the cursors stand -/

/-- The position at which a cursor stands after one was moved. -/
theorem getD_setIfInBounds {cursor : Array Nat} {var : Nat} (hvar : var < cursor.size)
    (position i : Nat) :
    (cursor.setIfInBounds var position).getD i 0 =
      if i = var then position else cursor.getD i 0 := by
  simp only [Array.getD_eq_getD_getElem?, Array.getElem?_setIfInBounds]
  by_cases hi : var = i
  · subst hi
    simp [hvar]
  · simp [hi, Ne.symm hi]

/-- There is a cursor for each event.  It stands within or at the end of the list of its
event, and at the beginning for the events after the next one. -/
structure CursorState.Placed (domains : Array (List Date)) (s : CursorState) : Prop where
  size_le : s.assignment.size ≤ domains.size
  size_cursor : s.cursor.size = domains.size
  position_le : ∀ i, s.position i ≤ (candidatesOf domains i).length
  position_eq_zero : ∀ i, s.assignment.size < i → s.position i = 0

theorem CursorState.position_start (domains : Array (List Date)) (i : Nat) :
    (start domains).position i = 0 := by
  simp only [start, position, Array.getD_eq_getD_getElem?, Array.getElem?_replicate]
  split <;> rfl

theorem placed_start (domains : Array (List Date)) :
    (CursorState.start domains).Placed domains := by
  have hzero := CursorState.position_start domains
  constructor
  case size_le => exact Nat.zero_le _
  case size_cursor => exact Array.size_replicate
  case position_le =>
    intro i
    rw [hzero]
    exact Nat.zero_le _
  case position_eq_zero =>
    intro i _
    exact hzero i

/-- A cursor that is moved within the list of its event leaves no cursor beyond its list. -/
theorem CursorState.Placed.position_le_of_move (h : s.Placed domains) {var position : Nat}
    (hvar : var < domains.size) (hposition : position ≤ (candidatesOf domains var).length)
    (i : Nat) :
    (s.cursor.setIfInBounds var position).getD i 0 ≤ (candidatesOf domains i).length := by
  rw [getD_setIfInBounds (h.size_cursor ▸ hvar)]
  split
  · rename_i hi
    rw [hi]
    exact hposition
  · exact h.position_le i

/-- Rounds keep the cursors in their places. -/
theorem Turns.placed (hturns : Turns net domains s s') (h : s.Placed domains) :
    s'.Placed domains := by
  have hsize := h.size_cursor
  cases hturns with
  | @forward day j nodes hlt hle hday hadmits hrefused =>
      have hposition := getD_setIfInBounds (hsize ▸ hlt) (j + 1)
      have hj := (List.getElem?_eq_some_iff.1 hday).1
      constructor
      case size_le =>
        rw [Array.size_push]
        exact hlt
      case size_cursor =>
        rw [Array.size_setIfInBounds]
        exact hsize
      case position_le => exact h.position_le_of_move hlt hj
      case position_eq_zero =>
        intro i hi
        simp only [Array.size_push] at hi
        simp only [CursorState.position, hposition]
        rw [if_neg (by omega)]
        exact h.position_eq_zero i (by omega)
  | @back nodes hlt hpos hrefused =>
      have hposition := getD_setIfInBounds (hsize ▸ hlt) 0
      constructor
      case size_le =>
        simp only [Array.size_pop]
        omega
      case size_cursor =>
        rw [Array.size_setIfInBounds]
        exact hsize
      case position_le => exact h.position_le_of_move hlt (Nat.zero_le _)
      case position_eq_zero =>
        intro i hi
        simp only [Array.size_pop] at hi
        simp only [CursorState.position, hposition]
        split
        · rfl
        · exact h.position_eq_zero i (by omega)

/-! ## Progress -/

/-- What lies ahead of each event: twice the number of its candidates from the cursor on, and
one more if it has a date that can be withdrawn. -/
def ahead (domains : Array (List Date)) (cursor : Array Nat) (dated : Nat) :
    Lex (Fin domains.size → Nat) :=
  toLex fun var => 2 * ((candidatesOf domains var).length - cursor.getD var 0) +
    if var < dated then 1 else 0

/-- Every round leaves less ahead, in the lexicographic order. -/
theorem Turns.ahead_lt (hturns : Turns net domains s s') (h : s.Placed domains) :
    ahead domains s'.cursor s'.assignment.size < ahead domains s.cursor s.assignment.size := by
  have hsize := h.size_cursor
  cases hturns with
  | @forward day j nodes hlt hle hday hadmits hrefused =>
      have hposition := getD_setIfInBounds (hsize ▸ hlt) (j + 1)
      have hj := (List.getElem?_eq_some_iff.1 hday).1
      -- The first difference is at the event that gets a date.
      refine ⟨⟨s.assignment.size, hlt⟩, ?_, ?_⟩
      · intro i hi
        have hbefore : i.val < s.assignment.size := hi
        simp only [ahead, Pi.toLex_apply, hposition, Array.size_push]
        rw [if_neg (by omega), if_pos (by omega), if_pos hbefore]
      · simp only [CursorState.position] at hle
        simp only [ahead, Pi.toLex_apply, hposition, Array.size_push, if_true]
        rw [if_pos (by omega), if_neg (by omega)]
        omega
  | @back nodes hlt hpos hrefused =>
      have hposition := getD_setIfInBounds (hsize ▸ hlt) 0
      -- The first difference is at the event whose date is withdrawn.
      refine ⟨⟨s.assignment.size - 1, by omega⟩, ?_, ?_⟩
      · intro i hi
        have hbefore : i.val < s.assignment.size - 1 := hi
        simp only [ahead, Pi.toLex_apply, hposition, Array.size_pop]
        rw [if_neg (by omega), if_pos hbefore, if_pos (by omega)]
      · simp only [ahead, Pi.toLex_apply, hposition, Array.size_pop]
        rw [if_neg (by omega), if_neg (by omega), if_pos (by omega)]
        omega

/-- What rounds keep holds of all states they lead to. -/
theorem Reaches.preserves {P : CursorState → Prop} (hreaches : Reaches net domains limits s s')
    (hturns : ∀ t t', t.Placed domains → Turns net domains t t' → P t → P t')
    (hplaced : s.Placed domains) (hs : P s) : s'.Placed domains ∧ P s' := by
  induction hreaches with
  | refl => exact ⟨hplaced, hs⟩
  | @tail t t' _ hround ih =>
      rcases ih with ⟨hplaced', ht⟩
      have hturn := turns_of_round hplaced'.size_le hround
      exact ⟨hturn.placed hplaced', hturns t t' hplaced' hturn ht⟩

theorem Reaches.placed (hreaches : Reaches net domains limits s s') (h : s.Placed domains) :
    s'.Placed domains :=
  (hreaches.preserves (P := fun _ => True) (fun _ _ _ _ _ => trivial) h trivial).1

/-- Rounds come to an end. -/
theorem exists_last_round (net : Network) (limits : Limits) (h : s.Placed domains) :
    ∃ last outcome final, Reaches net domains limits s last ∧
      round net domains limits last = .ended outcome final := by
  -- Induction on what lies ahead, which is well-founded as there are finitely many events.
  generalize hm : ahead domains s.cursor s.assignment.size = m
  induction m using WellFoundedLT.induction generalizing s with
  | ind m ih =>
      subst hm
      cases hround : round net domains limits s with
      | ended outcome final => exact ⟨s, outcome, final, .refl, hround⟩
      | next s' =>
          have hturns := turns_of_round h.size_le hround
          rcases ih _ (hturns.ahead_lt h) (hturns.placed h) rfl with
              ⟨last, outcome, final, hreaches, hended⟩
          exact ⟨last, outcome, final, .head hround hreaches, hended⟩

/-! ## The same search -/

/-- The candidates of an event from its cursor on. -/
def untried (domains : Array (List Date)) (cursor : Array Nat) (var : Nat) : List Date :=
  (candidatesOf domains var).drop (cursor.getD var 0)

/-- The untried candidates of the events before one, the last of these events first. -/
def stack (domains : Array (List Date)) (cursor : Array Nat) : Nat → List (List Date)
  | 0 => []
  | var + 1 => untried domains cursor var :: stack domains cursor var

/-- What a search keeps instead of cursors. -/
def CursorState.toState (domains : Array (List Date)) (s : CursorState) : State :=
  ⟨s.assignment, untried domains s.cursor s.assignment.size,
    stack domains s.cursor s.assignment.size, s.nodes, s.backtracks, s.log⟩

/-- A stack depends on the cursors of its events alone. -/
theorem stack_congr {cursor cursor' : Array Nat} {var : Nat}
    (h : ∀ i, i < var → cursor.getD i 0 = cursor'.getD i 0) :
    stack domains cursor var = stack domains cursor' var := by
  induction var with
  | zero => rfl
  | succ var ih =>
      unfold stack untried
      rw [h var (Nat.lt_succ_self var), ih fun i hi => h i (Nat.lt_succ_of_lt hi)]

theorem toState_start (domains : Array (List Date)) :
    (CursorState.start domains).toState domains = .start domains := by
  have hzero : (CursorState.start domains).cursor.getD
      (CursorState.start domains).assignment.size 0 = 0 :=
    CursorState.position_start domains _
  simp only [CursorState.toState, untried, hzero, List.drop_zero]
  rfl

/-- Steps lead a search from one state to another. -/
def Steps (net : Network) (domains : Array (List Date)) (limits : Limits) : State → State → Prop :=
  Relation.ReflTransGen fun t t' => step net domains (limits.verdict t.nodes) t = .next t'

theorem Steps.run_eq {t t' : State} (h : Steps net domains limits t t') :
    run net domains limits t = run net domains limits t' := by
  induction h with
  | refl => rfl
  | tail _ hstep ih => exact ih.trans (run_of_next hstep)

/-- A search goes through every state to which its steps lead. -/
theorem Steps.mem_trail {t t' : State} (h : Steps net domains limits t t') :
    t' ∈ trail net domains limits t := by
  induction h using Relation.ReflTransGen.head_induction_on with
  | refl =>
      rw [trail]
      split
      · exact List.mem_cons_self
      · exact List.mem_singleton_self t'
  | head hstep _ ih =>
      rw [trail]
      split
      · rename_i hnext
        rw [hstep] at hnext
        cases hnext
        exact List.mem_cons_of_mem _ ih
      · rename_i hlast
        exact absurd hstep (hlast _)

/-- What steps make of the state `t` when a scan of the candidates of the next event ends with
the given result. -/
def AfterScan (net : Network) (domains : Array (List Date)) (limits : Limits) (t : State) :
    Scan → Prop
  | .stopped stop position nodes =>
      limits.verdict nodes = some stop ∧
        ∃ day rest, (candidatesOf domains t.assignment.size).drop position = day :: rest ∧
          Steps net domains limits t { t with current := day :: rest, nodes }
  | .admitted day position nodes =>
      Steps net domains limits t { t with
        assignment := t.assignment.push day
        current := candidatesOf domains (t.assignment.size + 1)
        earlier := (candidatesOf domains t.assignment.size).drop position :: t.earlier, nodes }
  | .refused nodes => Steps net domains limits t { t with current := [], nodes }

section Scans

variable {a : Array Date} {current current' : List Date} {earlier : List (List Date)}
  {nodes nodes' backtracks : Nat} {log : Array LogEntry}

/-- A step through a refused candidate may be put in front. -/
theorem AfterScan.of_next {result : Scan}
    (h : AfterScan net domains limits ⟨a, current', earlier, nodes', backtracks, log⟩ result)
    (hstep : step net domains (limits.verdict nodes)
      ⟨a, current, earlier, nodes, backtracks, log⟩ =
        .next ⟨a, current', earlier, nodes', backtracks, log⟩) :
    AfterScan net domains limits ⟨a, current, earlier, nodes, backtracks, log⟩ result := by
  cases result with
  | stopped stop position nodes =>
      rcases h with ⟨hverdict, day, rest, hdrop, hsteps⟩
      exact ⟨hverdict, day, rest, hdrop, .head hstep hsteps⟩
  | admitted day position nodes => exact .head hstep h
  | refused nodes => exact .head hstep h

/-- A scan stands for the steps through the same candidates. -/
theorem afterScan_scan (hnet : net.Files n cs) (hn : domains.size ≤ n)
    (ha : a.size < domains.size) (limits : Limits) (earlier : List (List Date))
    (position nodes backtracks : Nat) (log : Array LogEntry) :
    AfterScan net domains limits
      ⟨a, (candidatesOf domains a.size).drop position, earlier, nodes, backtracks, log⟩
      (scan (fun day => net.admits (a.push day)) limits (candidatesOf domains a.size) position
        nodes) := by
  fun_induction scan (fun day => net.admits (a.push day)) limits (candidatesOf domains a.size)
    position nodes with
  | case1 position nodes hlt stop hverdict =>
      have hdrop := List.drop_eq_getElem_cons hlt
      rw [hdrop]
      exact ⟨hverdict, _, _, hdrop, .refl⟩
  | case2 position nodes hlt hverdict hadmits =>
      rw [List.drop_eq_getElem_cons hlt]
      exact .single (step_admitted hnet hn ha hverdict hadmits)
  | case3 position nodes hlt hverdict hadmits ih =>
      rw [Bool.not_eq_true] at hadmits
      rw [List.drop_eq_getElem_cons hlt]
      exact ih.of_next (step_refused hnet hn ha hverdict hadmits)
  | case4 position nodes hge =>
      rw [List.drop_eq_nil_of_le (by omega)]
      exact .refl

end Scans

/-- After a round forward the next event has all its candidates. -/
theorem CursorState.Placed.toState_push (h : s.Placed domains)
    (hlt : s.assignment.size < domains.size) (day : Date) (position nodes : Nat) :
    CursorState.toState domains ⟨s.assignment.push day,
        s.cursor.setIfInBounds s.assignment.size position, nodes, s.backtracks, s.log⟩ =
      ⟨s.assignment.push day, candidatesOf domains (s.assignment.size + 1),
        (candidatesOf domains s.assignment.size).drop position ::
          stack domains s.cursor s.assignment.size, nodes, s.backtracks, s.log⟩ := by
  have hposition := getD_setIfInBounds (h.size_cursor ▸ hlt) position
  have hzero : s.cursor.getD (s.assignment.size + 1) 0 = 0 :=
    h.position_eq_zero _ (Nat.lt_succ_self _)
  have hstack : stack domains (s.cursor.setIfInBounds s.assignment.size position)
      s.assignment.size = stack domains s.cursor s.assignment.size := by
    apply stack_congr
    intro i hi
    rw [hposition, if_neg (Nat.ne_of_lt hi)]
  simp only [CursorState.toState, Array.size_push, stack, hstack, untried, hposition, if_true]
  rw [if_neg (Nat.succ_ne_self _), hzero, List.drop_zero]

/-- After a round back the event before has its untried candidates. -/
theorem CursorState.Placed.toState_pop (h : s.Placed domains)
    (hlt : s.assignment.size < domains.size) (hpos : 0 < s.assignment.size)
    (nodes backtracks : Nat) (log : Array LogEntry) :
    CursorState.toState domains ⟨s.assignment.pop,
        s.cursor.setIfInBounds s.assignment.size 0, nodes, backtracks, log⟩ =
      ⟨s.assignment.pop, untried domains s.cursor (s.assignment.size - 1),
        stack domains s.cursor (s.assignment.size - 1), nodes, backtracks, log⟩ := by
  have hposition := getD_setIfInBounds (h.size_cursor ▸ hlt) 0
  have hstack : stack domains (s.cursor.setIfInBounds s.assignment.size 0)
      (s.assignment.size - 1) = stack domains s.cursor (s.assignment.size - 1) := by
    apply stack_congr
    intro i hi
    rw [hposition, if_neg (by omega)]
  simp only [CursorState.toState, Array.size_pop, hstack, untried, hposition]
  rw [if_neg (by omega)]

/-- What steps make of the state `t` when a round from there ends with the given result. -/
def AfterRound (net : Network) (domains : Array (List Date)) (limits : Limits) (t : State) :
    Round → Prop
  | .ended outcome final =>
      report (run net domains limits t) =
        ⟨final.log, .ok ⟨outcome, final.nodes, final.backtracks⟩⟩
  | .next s' => Steps net domains limits t (s'.toState domains)

/-- A round stands for steps of the search. -/
theorem afterRound_round (hnet : net.Files n cs) (hn : domains.size ≤ n) (h : s.Placed domains)
    (limits : Limits) :
    AfterRound net domains limits (s.toState domains) (round net domains limits s) := by
  have hpush := fun hlt => h.toState_push hlt
  have hpop := fun hlt => h.toState_pop hlt
  have hle := h.size_le
  rcases s with ⟨a, cursor, nodes, backtracks, log⟩
  simp only at hpush hpop hle
  simp only [round]
  split
  · rename_i hsize
    simp only [AfterRound, CursorState.toState, run_of_ended (step_complete hsize), report,
      Except.map]
  · rename_i hsize
    have hlt : a.size < domains.size := Nat.lt_of_le_of_ne hle hsize
    have hafter := afterScan_scan hnet hn hlt limits (stack domains cursor a.size)
      (cursor.getD a.size 0) nodes backtracks log
    generalize scan (fun day => net.admits (a.push day)) limits (candidatesOf domains a.size)
      (cursor.getD a.size 0) nodes = result at hafter
    cases result with
    | stopped stop position nodes' =>
        rcases hafter with ⟨hverdict, day, rest, -, hsteps⟩
        simp only [AfterRound, CursorState.toState, untried, hsteps.run_eq,
          run_of_ended (step_stopped hlt hverdict), report, Except.map]
    | admitted day position nodes' =>
        simp only [AfterRound, hpush hlt]
        exact hafter
    | refused nodes' =>
        simp only [AfterScan] at hafter
        simp only
        split
        · rename_i hzero
          have hstack : stack domains cursor a.size = [] := by
            rw [hzero]
            rfl
          rw [hstack] at hafter
          simp only [AfterRound, CursorState.toState, untried, hstack, hafter.run_eq,
            run_of_ended (step_exhausted hlt), report, Except.map]
        · rename_i hne
          have hpos : 0 < a.size := Nat.pos_of_ne_zero hne
          have hstack : stack domains cursor a.size =
              untried domains cursor (a.size - 1) :: stack domains cursor (a.size - 1) := by
            rw [← Nat.sub_add_cancel hpos]
            rfl
          simp only [AfterRound, hpop hlt hpos]
          refine hafter.tail ?_
          rw [hstack]
          exact step_retreat hlt

/-- Rounds from one state to another stand for steps of the search. -/
theorem Reaches.steps (hreaches : Reaches net domains limits s s') (hnet : net.Files n cs)
    (hn : domains.size ≤ n) (h : s.Placed domains) :
    Steps net domains limits (s.toState domains) (s'.toState domains) := by
  induction hreaches with
  | refl => exact .refl
  | @tail t t' hearlier hround ih =>
      have hafter := afterRound_round hnet hn (Reaches.placed hearlier h) limits
      rw [hround] at hafter
      exact ih.trans hafter

/-- A search reports what its last round does. -/
theorem search_eq_of_reaches (hnet : net.Files n cs) (hn : domains.size ≤ n)
    {last final : CursorState} {outcome : Outcome}
    (hreaches : Reaches net domains limits (.start domains) last)
    (hended : round net domains limits last = .ended outcome final) :
    search net domains limits = ⟨final.log, .ok ⟨outcome, final.nodes, final.backtracks⟩⟩ := by
  have hstart := placed_start domains
  have hafter := afterRound_round hnet hn (hreaches.placed hstart) limits
  rw [hended] at hafter
  unfold search
  rw [← toState_start, (hreaches.steps hnet hn hstart).run_eq]
  exact hafter

end Search
end DateScheduling
