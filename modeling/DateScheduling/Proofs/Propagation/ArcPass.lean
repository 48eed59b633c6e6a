import DateScheduling.Proofs.Propagation.Revision

/-!
# The arc consistency pass

The pass revises arcs until none is waiting.  Between two revisions every arc
that is not waiting is consistent, and no arc-consistent family of dates has
lost anything.  When the agenda is empty both facts together say that the store
is the greatest arc-consistent one below the store the pass began with.

Main results:

- Theorem `ArcConsistency.step_cases`: on the arcs of its network the pass never
  meets a missing event, and what each step does.
- Theorem `ArcConsistency.Advances.invariant`: every step keeps the invariant.
- Theorem `ArcConsistency.run_preserves`: a pass ends with nothing waiting, and the
  invariant and whatever else every step keeps hold then.
- Theorem `ArcConsistency.invariant_of_mem_trail`: the invariant holds of every state
  on the way.
-/

namespace DateScheduling
namespace ArcConsistency

variable {cs : List Constraint} {net : Network} {n : Nat} {original : Store} {s s' : State}

/-! ## What a step does -/

/-- What one step does to a state when the arc it takes joins two events. -/
inductive Advances (cs : List Constraint) (s : State) : State → Prop where
  /-- The arc was consistent already. -/
  | kept {arc : Arc} {rest : Agenda Arc} (hpop : s.agenda.pop? = some (arc, rest))
      (hconsistent : ∀ v ∈ s.store.dates arc.head,
        Supported cs s.store.dates arc.head arc.tail v) :
      Advances cs s ⟨s.store, rest, s.revisions + 1, s.removed, s.log⟩
  /-- The head of the arc lost dates, and its other neighbours are to be revised. -/
  | pruned {arc : Arc} {rest : Agenda Arc} {r : Revision} {neighbors : List Nat}
      (hpop : s.agenda.pop? = some (arc, rest)) (hrevises : Revises cs arc s.store r)
      (hlost : r.removed ≠ 0) (hneighbors : ∀ w, w ∈ neighbors ↔ Joined cs arc.head w) :
      Advances cs s ⟨r.store, rest.pushAll (affected arc neighbors), s.revisions + 1,
        s.removed + r.removed, s.log.push (.revised arc r.removed r.left)⟩

/-- A step either finds nothing waiting or advances; it never meets a missing
event. -/
theorem step_cases (hnet : net.Files n cs) (hcs : ∀ c ∈ cs, c.maxIndex < n)
    (hsize : n ≤ s.store.size) (hjoined : ∀ a ∈ s.agenda.toList, Joined cs a.head a.tail) :
    (s.agenda.toList = [] ∧
      step net s = .done ⟨s.store, .empty, s.revisions, s.removed, s.log⟩) ∨
    ∃ s', step net s = .next s' ∧ Advances cs s s' := by
  rcases s with ⟨store, agenda, revisions, removed, log⟩
  simp only at hsize hjoined
  cases hpop : agenda.pop? with
  | none =>
      left
      refine ⟨Agenda.pop?_eq_none_iff.1 hpop, ?_⟩
      simp only [step, hpop]
  | some taken =>
      right
      rcases taken with ⟨arc, rest⟩
      have harc : Joined cs arc.head arc.tail := by
        apply hjoined
        rw [Agenda.toList_pop? hpop]
        exact List.mem_cons_self
      rcases harc.lt hcs with ⟨hhead, htail⟩
      rcases exists_revise hnet harc (s := store) (by omega) (by omega) with ⟨r, hrevise, hrevises⟩
      rcases hnet.neighbors?_eq arc.head hhead with ⟨neighbors, hneighbors, -, hmem⟩
      by_cases hlost : r.removed = 0
      · have hsame := hrevises.store_eq hlost
        refine ⟨⟨store, rest, revisions + 1, removed, log⟩, ?_, ?_⟩
        · simp only [step, hpop, hrevise, hlost, if_true, hsame]
        · refine .kept hpop ?_
          intro v hv
          rw [← hsame] at hv
          exact ((hrevises.mem_dates_iff arc.head v).1 hv).2 rfl
      · refine ⟨_, ?_, .pruned hpop hrevises hlost hmem⟩
        simp only [step, hpop, hrevise, hlost, if_false, hneighbors]

/-! ## The invariant -/

/-- What holds between two revisions of a pass that began with the store
`original`. -/
structure Invariant (cs : List Constraint) (original : Store) (s : State) : Prop where
  size_eq : s.store.size = original.size
  sound : s.agenda.Sound
  joined : ∀ a ∈ s.agenda.toList, Joined cs a.head a.tail
  /-- Arcs that are not waiting are consistent. -/
  supported : ∀ a b, Joined cs a b → ⟨a, b⟩ ∉ s.agenda.toList →
    ∀ v ∈ s.store.dates a, Supported cs s.store.dates a b v
  subset : ∀ i, s.store.dates i ⊆ original.dates i
  /-- Events without constraints to others or to themselves keep their domains. -/
  free : ∀ i, (∀ j, ¬ Joined cs i j) → s.store.domain? i = original.domain? i
  /-- No arc-consistent family has lost a date. -/
  greatest : ∀ T : Nat → Set Date, (∀ i, T i ⊆ original.dates i) → ArcConsistent cs T →
    ∀ i, T i ⊆ s.store.dates i
  total : s.store.totalSize + s.removed = original.totalSize

/-- The invariant holds when every arc is waiting. -/
theorem invariant_start (hnet : net.Files n cs) (original : Store) :
    Invariant cs original (.start net original) := by
  constructor
  case size_eq => rfl
  case sound => exact net.sound_agenda
  case joined =>
    intro a ha
    exact hnet.mem_arcs_iff.1 ha
  case supported =>
    intro a b hjoined hwaiting
    exact absurd (hnet.mem_arcs_iff.2 hjoined) hwaiting
  case subset =>
    intro i
    exact Set.Subset.rfl
  case free =>
    intro i _
    rfl
  case greatest =>
    intro T hT _
    exact hT
  case total => rfl

/-- After a revision an arc is consistent if it was so before or is the revised
one, unless it leads to the head from an event other than the tail. -/
theorem Revises.supported {arc : Arc} {store : Store} {r : Revision}
    (hrevises : Revises cs arc store r) {a b : Nat}
    (hold : ⟨a, b⟩ ≠ arc → ∀ v ∈ store.dates a, Supported cs store.dates a b v)
    (hback : b = arc.head → a = arc.tail) :
    ∀ v ∈ r.store.dates a, Supported cs r.store.dates a b v := by
  intro v hv
  rcases (hrevises.mem_dates_iff a v).1 hv with ⟨hvOld, hvKept⟩
  rcases arc with ⟨head, tail⟩
  simp only [ne_eq, Arc.mk.injEq] at hold hback hvKept
  have hpartner : Supported cs store.dates a b v := by
    by_cases hsame : a = head ∧ b = tail
    · rcases hsame with ⟨rfl, rfl⟩
      exact hvKept rfl
    · exact hold hsame v hvOld
  rcases hpartner with ⟨w, hw, hloop, hcompatible⟩
  refine ⟨w, (hrevises.mem_dates_iff b w).2 ⟨hw, ?_⟩, hloop, hcompatible⟩
  intro hb
  simp only at hb ⊢
  -- The partner stays at the head because it has the date itself as its partner.
  have ha := hback hb
  subst ha hb
  exact ⟨v, hvOld, fun heq => (hloop heq.symm).symm, hcompatible.symm⟩

/-- A revision takes nothing from an arc-consistent family. -/
theorem Revises.subset_dates {arc : Arc} {store : Store} {r : Revision}
    (hrevises : Revises cs arc store r) (harc : Joined cs arc.head arc.tail)
    {T : Nat → Set Date} (hT : ∀ i, T i ⊆ store.dates i) (hconsistent : ArcConsistent cs T)
    (i : Nat) : T i ⊆ r.store.dates i := by
  intro v hv
  rw [hrevises.mem_dates_iff]
  refine ⟨hT i hv, ?_⟩
  intro hi
  rw [hi] at hv
  exact (arcConsistent_iff.1 hconsistent _ _ harc v hv).mono (hT arc.tail)

/-- What is put on the agenda again are the arcs to the head from its neighbours
other than the tail. -/
theorem mem_affected_iff {arc a : Arc} {neighbors : List Nat}
    (hneighbors : ∀ w, w ∈ neighbors ↔ Joined cs arc.head w) :
    a ∈ affected arc neighbors ↔
      a.tail = arc.head ∧ a.head ≠ arc.tail ∧ Joined cs arc.head a.head := by
  rcases a with ⟨head, tail⟩
  simp only [affected, List.mem_map, List.mem_filter, hneighbors, decide_eq_true_eq,
    Arc.mk.injEq]
  constructor
  · intro h
    rcases h with ⟨x, ⟨hjoined, hne⟩, rfl, rfl⟩
    exact ⟨rfl, hne, hjoined⟩
  · intro h
    rcases h with ⟨rfl, hne, hjoined⟩
    exact ⟨head, ⟨hjoined, hne⟩, rfl, rfl⟩

namespace Invariant

variable {arc : Arc} {rest : Agenda Arc}

/-- An arc that is taken from the agenda joins two events. -/
theorem joined_pop? (hinv : Invariant cs original s) (hpop : s.agenda.pop? = some (arc, rest)) :
    Joined cs arc.head arc.tail := by
  apply hinv.joined
  rw [Agenda.toList_pop? hpop]
  exact List.mem_cons_self

/-- The arcs that still wait join two events. -/
theorem joined_rest (hinv : Invariant cs original s) (hpop : s.agenda.pop? = some (arc, rest)) :
    ∀ a ∈ rest.toList, Joined cs a.head a.tail := by
  intro a ha
  apply hinv.joined
  rw [Agenda.toList_pop? hpop]
  exact List.mem_cons_of_mem arc ha

/-- Besides the arc that is taken, every arc that does not wait is consistent. -/
theorem supported_rest (hinv : Invariant cs original s)
    (hpop : s.agenda.pop? = some (arc, rest)) {a b : Nat} (hjoined : Joined cs a b)
    (hwaiting : ⟨a, b⟩ ∉ rest.toList) (hne : (⟨a, b⟩ : Arc) ≠ arc) :
    ∀ v ∈ s.store.dates a, Supported cs s.store.dates a b v := by
  apply hinv.supported a b hjoined
  rw [Agenda.toList_pop? hpop, List.mem_cons]
  intro h
  rcases h with heq | hmem
  · exact hne heq
  · exact hwaiting hmem

/-- A revision that takes nothing out keeps the invariant. -/
theorem kept (hinv : Invariant cs original s) (hpop : s.agenda.pop? = some (arc, rest))
    (hconsistent : ∀ v ∈ s.store.dates arc.head,
      Supported cs s.store.dates arc.head arc.tail v) :
    Invariant cs original ⟨s.store, rest, s.revisions + 1, s.removed, s.log⟩ := by
  constructor
  case size_eq => exact hinv.size_eq
  case sound => exact (hinv.sound.pop? hpop).1
  case joined => exact hinv.joined_rest hpop
  case supported =>
    intro a b hjoined hwaiting
    by_cases hsame : (⟨a, b⟩ : Arc) = arc
    · subst hsame
      exact hconsistent
    · exact hinv.supported_rest hpop hjoined hwaiting hsame
  case subset => exact hinv.subset
  case free => exact hinv.free
  case greatest => exact hinv.greatest
  case total => exact hinv.total

/-- A revision that takes dates out keeps the invariant once the affected arcs are
put on the agenda. -/
theorem pruned (hinv : Invariant cs original s) (hpop : s.agenda.pop? = some (arc, rest))
    {r : Revision} {neighbors : List Nat} (hrevises : Revises cs arc s.store r)
    (hneighbors : ∀ w, w ∈ neighbors ↔ Joined cs arc.head w) :
    Invariant cs original ⟨r.store, rest.pushAll (affected arc neighbors), s.revisions + 1,
      s.removed + r.removed, s.log.push (.revised arc r.removed r.left)⟩ := by
  have hsound := (hinv.sound.pop? hpop).1
  have harc := hinv.joined_pop? hpop
  constructor
  case size_eq => exact hrevises.size_eq.trans hinv.size_eq
  case sound => exact hsound.pushAll _
  case joined =>
    intro a ha
    rcases hsound.mem_pushAll_iff.1 ha with hnew | hold
    · rcases (mem_affected_iff hneighbors).1 hnew with ⟨htail, -, hjoined⟩
      rw [htail]
      exact joined_comm.1 hjoined
    · exact hinv.joined_rest hpop a hold
  case supported =>
    intro a b hjoined hwaiting
    rw [hsound.mem_pushAll_iff, not_or, mem_affected_iff hneighbors] at hwaiting
    apply hrevises.supported
    · exact hinv.supported_rest hpop hjoined hwaiting.2
    · intro hb
      by_cases ha : a = arc.tail
      · exact ha
      · subst hb
        exact absurd ⟨rfl, ha, joined_comm.1 hjoined⟩ hwaiting.1
  case subset =>
    intro i v hv
    exact hinv.subset i ((hrevises.mem_dates_iff i v).1 hv).1
  case free =>
    intro i hi
    have hother : i ≠ arc.head := by
      rintro rfl
      exact hi arc.tail harc
    rw [← hinv.free i hi]
    exact hrevises.domain?_eq i hother
  case greatest =>
    intro T hT hconsistent i
    exact hrevises.subset_dates harc (hinv.greatest T hT hconsistent) hconsistent i
  case total =>
    have hstep := hrevises.totalSize_eq
    have htotal := hinv.total
    simp only
    omega

end Invariant

/-- Every step keeps the invariant. -/
theorem Advances.invariant (hadvances : Advances cs s s') (hinv : Invariant cs original s) :
    Invariant cs original s' := by
  cases hadvances with
  | kept hpop hconsistent => exact hinv.kept hpop hconsistent
  | pruned hpop hrevises _ hneighbors => exact hinv.pruned hpop hrevises hneighbors

/-! ## The whole pass -/

/-- A pass ends with nothing waiting, without a fault, and what its steps keep holds
at its end. -/
theorem run_preserves (hnet : net.Files n cs) (hcs : ∀ c ∈ cs, c.maxIndex < n)
    (hsize : n ≤ original.size) {P : State → Prop}
    (hstep : ∀ t t', Invariant cs original t → Advances cs t t' → P t → P t')
    (hinv : Invariant cs original s) (hs : P s) :
    ∃ last, run net s = (⟨last.store, .empty, last.revisions, last.removed, last.log⟩, none) ∧
      last.agenda.toList = [] ∧ Invariant cs original last ∧ P last := by
  have hcases := step_cases hnet hcs (by rw [hinv.size_eq]; exact hsize) hinv.joined
  fun_induction run net s with
  | case1 s final hdone =>
      rcases hcases with ⟨hempty, hlast⟩ | ⟨s', hnext, -⟩
      · rw [hdone] at hlast
        cases hlast
        exact ⟨s, rfl, hempty, hinv, hs⟩
      · rw [hdone] at hnext
        cases hnext
  | case2 s fault final hfaulty =>
      rcases hcases with ⟨-, hlast⟩ | ⟨s', hnext, -⟩
      · rw [hfaulty] at hlast
        cases hlast
      · rw [hfaulty] at hnext
        cases hnext
  | case3 s s' hgoes ih =>
      rcases hcases with ⟨-, hlast⟩ | ⟨s'', hnext, hadvances⟩
      · rw [hgoes] at hlast
        cases hlast
      · rw [hgoes] at hnext
        cases hnext
        have hinv' := hadvances.invariant hinv
        exact ih hinv' (hstep s s' hinv hadvances hs)
          (step_cases hnet hcs (by rw [hinv'.size_eq]; exact hsize) hinv'.joined)

/-! ## The states of a pass -/

/-- The states a pass goes through: the first one and the state after each
revision. -/
def trail (net : Network) (s : State) : List State :=
  match _h : step net s with
  | .next s' => s :: trail net s'
  | _ => [s]
termination_by (s.store.totalSize, s.agenda.length)
decreasing_by
  rcases step_decreases _h with hlt | ⟨heq, hlt⟩
  · exact Prod.Lex.left _ _ hlt
  · rw [heq]
    exact Prod.Lex.right _ hlt

/-- The invariant holds of every state a pass goes through. -/
theorem invariant_of_mem_trail (hnet : net.Files n cs) (hcs : ∀ c ∈ cs, c.maxIndex < n)
    (hsize : n ≤ original.size) (hinv : Invariant cs original s) :
    ∀ t ∈ trail net s, Invariant cs original t := by
  fun_induction trail net s with
  | case1 s s' hnext ih =>
      rcases step_cases hnet hcs (by rw [hinv.size_eq]; exact hsize) hinv.joined with
          ⟨-, hstep⟩ | ⟨s'', hstep, hadvances⟩
      · rw [hnext] at hstep
        cases hstep
      · rw [hnext] at hstep
        cases hstep
        rw [List.forall_mem_cons]
        exact ⟨hinv, ih (hadvances.invariant hinv)⟩
  | case2 s hlast =>
      rw [List.forall_mem_singleton]
      exact hinv

end ArcConsistency
end DateScheduling
