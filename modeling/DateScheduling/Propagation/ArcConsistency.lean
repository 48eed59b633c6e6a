import DateScheduling.Propagation.Pass

/-!
# Arc consistency

A date of one event needs, at every neighbour, a partner with which all
constraints between the two hold.  Dates without a partner are taken out.
Whenever an event loses dates, the arcs that lead to it are put on the agenda
again, except the one back from the event that caused the loss: that event
cannot have relied on the dates that are gone.

Main results:

- Theorem `ArcConsistency.totalSize_revise`: what a revision leaves and what it
  takes out add up.
- Theorem `ArcConsistency.step_decreases`: each revision takes out dates or
  shortens the agenda, so the pass ends.
-/

namespace DateScheduling

/-- The constraint holds when the event `head` has the date `v` and its other
event has the date `w`. -/
def Constraint.supports (c : Constraint) (head : Nat) (v w : Date) : Bool :=
  match c with
  | binary left op _ => if left = head then op.holds v w else op.holds w v
  | unary .. => true

namespace ArcConsistency

/-! ## Revising an arc -/

/-- The dates that may stand at the tail of an arc when its head has a date.  An
event paired with itself has one date only. -/
def partners (arc : Arc) (tail : Domain) (v : Date) : List Date :=
  if arc.head = arc.tail then [v] else tail.days

/-- A date of the head has a partner at the tail for all constraints at once. -/
def hasPartner (constraints : List Constraint) (arc : Arc) (tail : Domain) (v : Date) : Bool :=
  (partners arc tail v).any fun w => constraints.all (·.supports arc.head v w)

/-- The effect of revising an arc. -/
structure Revision where
  store : Store
  /-- Number of dates taken out of the head. -/
  removed : Nat
  /-- Number of dates left at the head. -/
  left : Nat

/-- Take the dates without a partner out of the head of an arc.  Without
constraints between its events there is nothing to do. -/
def revise (net : Network) (arc : Arc) (s : Store) : Except Fault Revision :=
  match net.between arc.head arc.tail, s.domain? arc.head, s.domain? arc.tail with
  | [], _, _ => .ok ⟨s, 0, 0⟩
  | _ :: _, none, _ => .error (.noDomain arc.head)
  | _ :: _, some _, none => .error (.noDomain arc.tail)
  | c :: cs, some head, some tail =>
      let left := head.filter (hasPartner (c :: cs) arc tail)
      .ok ⟨s.replace arc.head left, head.size - left.size, left.size⟩

/-- What a revision leaves and what it takes out add up. -/
theorem totalSize_revise {net : Network} {arc : Arc} {s : Store} {r : Revision}
    (h : revise net arc s = .ok r) : r.store.totalSize + r.removed = s.totalSize := by
  unfold revise at h
  split at h
  · cases h
    rfl
  · cases h
  · cases h
  · rename_i c cs head tail _ hhead _
    cases h
    have hsum := Store.totalSize_replace hhead (head.filter (hasPartner (c :: cs) arc tail))
    have hle := Domain.size_filter_le (hasPartner (c :: cs) arc tail) head
    simp only
    omega

/-! ## The pass -/

/-- The state between two revisions. -/
structure State where
  store : Store
  /-- The arcs still to be revised. -/
  agenda : Agenda Arc
  /-- Number of revisions so far. -/
  revisions : Nat
  /-- Number of dates taken out so far. -/
  removed : Nat
  log : Array LogEntry

/-- Before the first revision all arcs are on the agenda. -/
def State.start (net : Network) (s : Store) : State :=
  ⟨s, net.agenda, 0, 0, #[]⟩

/-- What the next revision leads to. -/
inductive Step where
  /-- The agenda was empty. -/
  | done (final : State)
  /-- An event was missing. -/
  | faulty (fault : Fault) (final : State)
  /-- The pass goes on. -/
  | next (state : State)

/-- The arcs to be revised again after an arc took dates out of its head. -/
def affected (arc : Arc) (neighbors : List Nat) : List Arc :=
  (neighbors.filter (· ≠ arc.tail)).map (⟨·, arc.head⟩)

/-- Revise the arc that has waited longest. -/
def step (net : Network) : State → Step
  | ⟨store, agenda, revisions, removed, log⟩ =>
      match agenda.pop? with
      | none => .done ⟨store, .empty, revisions, removed, log⟩
      | some (arc, rest) =>
          match revise net arc store with
          | .error fault => .faulty fault ⟨store, rest, revisions, removed, log⟩
          | .ok ⟨store', lost, left⟩ =>
              if lost = 0 then .next ⟨store', rest, revisions + 1, removed, log⟩
              else
                let log := log.push (.revised arc lost left)
                match net.neighbors? arc.head with
                | none =>
                    .faulty (.noEvent arc.head) ⟨store', rest, revisions + 1, removed + lost, log⟩
                | some neighbors =>
                    .next ⟨store', rest.pushAll (affected arc neighbors), revisions + 1,
                      removed + lost, log⟩

/-- Each revision takes out dates or shortens the agenda. -/
theorem step_decreases {net : Network} {s s' : State} (h : step net s = .next s') :
    s'.store.totalSize < s.store.totalSize ∨
      s'.store.totalSize = s.store.totalSize ∧ s'.agenda.length < s.agenda.length := by
  obtain ⟨store, agenda, revisions, removed, log⟩ := s
  simp only [step] at h
  split at h
  · cases h
  · rename_i arc rest hpop
    have hlength := Agenda.length_pop? hpop
    split at h
    · cases h
    · rename_i store' lost left hrevise
      have hsize := totalSize_revise hrevise
      simp only at hsize
      split at h
      · rename_i hlost
        subst hlost
        cases h
        right
        simp only
        omega
      · rename_i hlost
        split at h
        · cases h
        · cases h
          left
          simp only
          omega

/-- Revise arcs until none is waiting.  The answer is the last state, and the
fault that ended the pass early, if any. -/
def run (net : Network) (s : State) : State × Option Fault :=
  match _h : step net s with
  | .done final => (final, none)
  | .faulty fault final => (final, some fault)
  | .next s' => run net s'
termination_by (s.store.totalSize, s.agenda.length)
decreasing_by
  rcases step_decreases _h with hlt | ⟨heq, hlt⟩
  · exact Prod.Lex.left _ _ hlt
  · rw [heq]
    exact Prod.Lex.right _ hlt

/-- A pass makes one step and goes on from there. -/
theorem run_eq (net : Network) (s : State) : run net s =
    match step net s with
    | .done final => (final, none)
    | .faulty fault final => (final, some fault)
    | .next s' => run net s' := by
  rw [run]
  split <;> rename_i hstep <;> rw [hstep]

end ArcConsistency

/-- The counters of an arc consistency pass. -/
structure ArcCounts where
  revisions : Nat
  removed : Nat
deriving DecidableEq

/-- Prune a store until every date has a partner at every neighbour. -/
def arcConsistency (net : Network) (s : Store) : Pass ArcCounts :=
  match ArcConsistency.run net (.start net s) with
  | (⟨store, _, revisions, removed, log⟩, none) =>
      ⟨store, log.push (.arcConsistent removed revisions store.totalSize),
        .ok ⟨revisions, removed⟩⟩
  | (⟨store, _, _, _, log⟩, some fault) => ⟨store, log, .error fault⟩

end DateScheduling
