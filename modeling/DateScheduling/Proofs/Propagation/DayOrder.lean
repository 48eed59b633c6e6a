import DateScheduling.Propagation.ArcConsistency
import DateScheduling.Propagation.NodeConsistency
import DateScheduling.Proofs.Network.DayOrder

/-!
# Pruning sees the order of days only

Two stores whose domains hold paired dates are pruned in step: each filter takes
out the dates of the same pairs, each revision counts the same, the same arcs go
on the agenda, and the same is reported.

Main results:

- Theorem `Store.Paired.filter?`: filters keep stores paired and count alike.
- Theorem `Store.Paired.nodeConsistency`: so does node consistency.
- Theorem `ArcConsistency.State.Paired.step`: paired states make paired steps.
- Theorem `Store.Paired.arcConsistency`: arc consistency keeps stores paired,
  with the same revisions.
-/

namespace DateScheduling

variable {R : Date → Date → Prop}

/-! ## Domains and stores -/

/-- The domains hold paired dates. -/
def Domain.Paired (R : Date → Date → Prop) (d d' : Domain) : Prop :=
  List.Forall₂ R d.days d'.days

namespace Domain.Paired

variable {d d' : Domain} (h : d.Paired R d')
include h

theorem size_eq : d.size = d'.size :=
  List.Forall₂.length_eq h

theorem isEmpty_eq : d.isEmpty = d'.isEmpty := by
  rw [Bool.eq_iff_iff]
  unfold Domain.isEmpty
  rw [List.isEmpty_iff_length_eq_zero, List.isEmpty_iff_length_eq_zero, List.Forall₂.length_eq h]

/-- A test that passes both dates of every pair leaves paired domains. -/
theorem filter {p q : Date → Bool} (hpq : ∀ v v', R v v' → p v = q v') :
    (d.filter p).Paired R (d'.filter q) :=
  List.rel_filter (fun v v' hv => by simp only [hpq v v' hv]) h

end Domain.Paired

/-- The stores have as many events, with paired dates in their domains. -/
def Store.Paired (R : Date → Date → Prop) (s s' : Store) : Prop :=
  List.Forall₂ (Domain.Paired R) s.domains.toList s'.domains.toList

namespace Store.Paired

variable {s s' : Store} (h : s.Paired R s')
include h

theorem size_eq : s.size = s'.size := by
  have hlength := List.Forall₂.length_eq h
  rwa [Array.length_toList, Array.length_toList] at hlength

theorem domain? (var : Nat) : Option.Rel (Domain.Paired R) (s.domain? var) (s'.domain? var) := by
  unfold Store.domain?
  rw [← Array.getElem?_toList, ← Array.getElem?_toList]
  exact forall₂_iff_getElem?.1 h var

theorem totalSize_eq : s.totalSize = s'.totalSize := by
  unfold Store.Paired at h
  unfold Store.totalSize
  generalize s.domains.toList = l, s'.domains.toList = l' at h
  induction h with
  | nil => rfl
  | cons hd _ ih => rw [List.foldr_cons, List.foldr_cons, hd.size_eq, ih]

theorem hasEmptyDomain_eq : s.hasEmptyDomain = s'.hasEmptyDomain := by
  unfold Store.hasEmptyDomain
  rw [← Array.any_toList, ← Array.any_toList]
  exact any_eq_of_forall₂ h fun _ _ hd => hd.isEmpty_eq

theorem candidates :
    List.Forall₂ (List.Forall₂ R) s.candidates.toList s'.candidates.toList := by
  unfold Store.candidates
  rw [Array.toList_map, Array.toList_map, List.forall₂_map_left_iff, List.forall₂_map_right_iff]
  exact h

theorem replace (var : Nat) {d d' : Domain} (hd : d.Paired R d') :
    (s.replace var d).Paired R (s'.replace var d') := by
  unfold Store.Paired Store.replace
  rw [Array.toList_setIfInBounds, Array.toList_setIfInBounds]
  exact forall₂_set h var hd

/-- Filters keep stores paired and count alike. -/
theorem filter? (var : Nat) {p q : Date → Bool} (hpq : ∀ v v', R v v' → p v = q v') :
    Option.Rel (fun x x' => x.1.Paired R x'.1 ∧ x.2 = x'.2) (s.filter? var p)
      (s'.filter? var q) := by
  unfold Store.filter?
  rcases rel_cases (h.domain? var) with ⟨hd, hd'⟩ | ⟨d, d', hd, hd', hpaired⟩
  · rw [hd, hd']
    exact .none
  · rw [hd, hd']
    have hleft := hpaired.filter hpq
    exact .some ⟨h.replace var hleft, congrArg₂ (· - ·) hpaired.size_eq hleft.size_eq⟩

end Store.Paired

/-- Every event of two full stores may take the paired days of their ranges. -/
theorem Store.paired_full (n : Nat) {r r' : DateRange} (h : List.Forall₂ R r.days r'.days) :
    (full n r).Paired R (full n r') := by
  unfold Paired full
  rw [Array.toList_replicate, Array.toList_replicate]
  induction n with
  | zero => exact .nil
  | succ n ih => exact .cons h ih

/-- The passes leave paired stores, report the same and count alike. -/
structure Pass.Paired {α : Type} (R : Date → Date → Prop) (pass pass' : Pass α) : Prop where
  store : pass.store.Paired R pass'.store
  log_eq : pass.log = pass'.log
  result_eq : pass.result = pass'.result

/-! ## Node consistency -/

variable {net net' : Network}

/-- Paired networks apply paired constraints to the same events in the same order. -/
theorem Network.Paired.unaryPlan (h : net.Paired R net') :
    List.Forall₂ (fun x x' => x.1 = x'.1 ∧ x.2.Paired R x'.2) net.unaryPlan net'.unaryPlan := by
  have hzip : ∀ {l l' : List (List Constraint)} (k : Nat),
      List.Forall₂ (List.Forall₂ (Constraint.Paired R)) l l' →
      List.Forall₂ (fun x x' => List.Forall₂ (Constraint.Paired R) x.1 x'.1 ∧ x.2 = x'.2)
        (l.zipIdx k) (l'.zipIdx k) := by
    intro l l' k hl
    induction hl generalizing k with
    | nil => exact .nil
    | cons hcs _ ih => exact .cons ⟨hcs, rfl⟩ (ih (k + 1))
  refine List.rel_flatMap (hzip 0 h.unary) ?_
  rintro ⟨cs, var⟩ ⟨cs', var'⟩ ⟨hcs, rfl⟩
  rw [List.forall₂_map_left_iff, List.forall₂_map_right_iff]
  exact hcs.imp fun _ _ hc => ⟨rfl, hc⟩

section Passes

variable (hR : Date.KeepsOrder R)
include hR

/-- Paired constraints applied in the same order leave paired stores and count
alike. -/
theorem Store.Paired.applyUnary {plan plan' : List (Nat × Constraint)}
    (hplan : List.Forall₂ (fun x x' => x.1 = x'.1 ∧ x.2.Paired R x'.2) plan plan')
    {s s' : Store} (h : s.Paired R s') (removed : Nat) :
    (DateScheduling.applyUnary plan s removed).1.Paired R
        (DateScheduling.applyUnary plan' s' removed).1 ∧
      (DateScheduling.applyUnary plan s removed).2 =
        (DateScheduling.applyUnary plan' s' removed).2 := by
  induction hplan generalizing s s' removed with
  | nil => exact ⟨h, rfl⟩
  | @cons x x' _ _ hx _ ih =>
      rcases x with ⟨var, c⟩
      rcases x' with ⟨var', c'⟩
      rcases hx with ⟨rfl, hc⟩
      have hfilter := h.filter? var fun v v' hv => hc.allows_eq hR hv
      rcases rel_cases hfilter with ⟨hnone, hnone'⟩ | ⟨⟨t, k⟩, ⟨t', k'⟩, hsome, hsome', ht, rfl⟩
      · rw [DateScheduling.applyUnary, DateScheduling.applyUnary, hnone, hnone']
        exact ⟨h, rfl⟩
      · rw [DateScheduling.applyUnary, DateScheduling.applyUnary, hsome, hsome']
        exact ih ht _

/-- Node consistency keeps stores paired. -/
theorem Store.Paired.nodeConsistency (hnet : net.Paired R net') {s s' : Store}
    (h : s.Paired R s') :
    (DateScheduling.nodeConsistency net s).Paired R (DateScheduling.nodeConsistency net' s') := by
  have happly := h.applyUnary hR hnet.unaryPlan 0
  unfold DateScheduling.nodeConsistency
  rcases hleft : DateScheduling.applyUnary net.unaryPlan s 0 with ⟨t, result⟩
  rcases hright : DateScheduling.applyUnary net'.unaryPlan s' 0 with ⟨t', result'⟩
  rw [hleft, hright] at happly
  rcases happly with ⟨ht, ⟨⟩⟩
  cases result with
  | ok removed => exact ⟨ht, by simp only [ht.totalSize_eq], rfl⟩
  | error fault => exact ⟨ht, rfl, rfl⟩

/-! ## Arc consistency -/

namespace ArcConsistency

/-- The revisions leave paired stores and count alike. -/
structure Revision.Paired (R : Date → Date → Prop) (r r' : Revision) : Prop where
  store : r.store.Paired R r'.store
  removed_eq : r.removed = r'.removed
  left_eq : r.left = r'.left

/-- Dates of a pair have partners together. -/
theorem hasPartner_eq {cs cs' : List Constraint}
    (hcs : List.Forall₂ (Constraint.Paired R) cs cs') (arc : Arc) {tail tail' : Domain}
    (htail : tail.Paired R tail') {v v' : Date} (hv : R v v') :
    hasPartner cs arc tail v = hasPartner cs' arc tail' v' := by
  have hpartners : List.Forall₂ R (partners arc tail v) (partners arc tail' v') := by
    unfold partners
    split
    · exact .cons hv .nil
    · exact htail
  exact any_eq_of_forall₂ hpartners fun w w' hw =>
    all_eq_of_forall₂ hcs fun c c' hc => hc.supports_eq hR arc.head hv hw

/-- Revising an arc in paired stores meets the same missing event, or makes paired
revisions. -/
theorem revise_paired (hnet : net.Paired R net') (arc : Arc) {s s' : Store}
    (h : s.Paired R s') :
    (∃ fault, revise net arc s = .error fault ∧ revise net' arc s' = .error fault) ∨
      ∃ r r', revise net arc s = .ok r ∧ revise net' arc s' = .ok r' ∧ r.Paired R r' := by
  have hbetween := hnet.between arc.head arc.tail
  unfold revise
  generalize net.between arc.head arc.tail = cs, net'.between arc.head arc.tail = cs' at hbetween
  cases hbetween with
  | nil => exact Or.inr ⟨_, _, rfl, rfl, h, rfl, rfl⟩
  | cons hc hcs =>
      rcases rel_cases (h.domain? arc.head) with
          ⟨hhead, hhead'⟩ | ⟨head, head', hhead, hhead', hheads⟩
      · rw [hhead, hhead']
        exact Or.inl ⟨_, rfl, rfl⟩
      · rw [hhead, hhead']
        rcases rel_cases (h.domain? arc.tail) with
            ⟨htail, htail'⟩ | ⟨tail, tail', htail, htail', htails⟩
        · rw [htail, htail']
          exact Or.inl ⟨_, rfl, rfl⟩
        · rw [htail, htail']
          have hleft := hheads.filter fun v v' => hasPartner_eq hR (.cons hc hcs) arc htails
          exact Or.inr ⟨_, _, rfl, rfl, h.replace arc.head hleft,
            congrArg₂ (· - ·) hheads.size_eq hleft.size_eq, hleft.size_eq⟩

/-- The passes have come equally far, with paired stores. -/
structure State.Paired (R : Date → Date → Prop) (t t' : State) : Prop where
  store : t.store.Paired R t'.store
  agenda_eq : t.agenda = t'.agenda
  revisions_eq : t.revisions = t'.revisions
  removed_eq : t.removed = t'.removed
  log_eq : t.log = t'.log

/-- The steps lead to paired states. -/
inductive Step.Paired (R : Date → Date → Prop) : Step → Step → Prop where
  | done {t t' : State} (h : t.Paired R t') : Paired R (.done t) (.done t')
  | faulty {t t' : State} (fault : Fault) (h : t.Paired R t') :
      Paired R (.faulty fault t) (.faulty fault t')
  | next {t t' : State} (h : t.Paired R t') : Paired R (.next t) (.next t')

/-- Paired states make paired steps. -/
theorem State.Paired.step (hnet : net.Paired R net') {t t' : State} (h : t.Paired R t') :
    (ArcConsistency.step net t).Paired R (ArcConsistency.step net' t') := by
  rcases t with ⟨store, agenda, revisions, removed, log⟩
  rcases t' with ⟨store', agenda', revisions', removed', log'⟩
  rcases h with ⟨hstore, ⟨⟩, ⟨⟩, ⟨⟩, ⟨⟩⟩
  cases hpop : agenda.pop? with
  | none =>
      simp only [ArcConsistency.step, hpop]
      exact .done ⟨hstore, rfl, rfl, rfl, rfl⟩
  | some popped =>
      rcases popped with ⟨arc, rest⟩
      rcases revise_paired hR hnet arc hstore with
          ⟨fault, hfault, hfault'⟩ | ⟨r, r', hr, hr', hrevision⟩
      · simp only [ArcConsistency.step, hpop, hfault, hfault']
        exact .faulty fault ⟨hstore, rfl, rfl, rfl, rfl⟩
      · rcases r with ⟨left, lost, size⟩
        rcases r' with ⟨left', lost', size'⟩
        rcases hrevision with ⟨hleft, ⟨⟩, ⟨⟩⟩
        simp only [ArcConsistency.step, hpop, hr, hr', ← hnet.neighbors?_eq]
        split
        · exact .next ⟨hleft, rfl, rfl, rfl, rfl⟩
        · cases net.neighbors? arc.head with
          | none => exact .faulty _ ⟨hleft, rfl, rfl, rfl, rfl⟩
          | some neighbors => exact .next ⟨hleft, rfl, rfl, rfl, rfl⟩

/-- Passes from paired states end in paired states, and in the same way. -/
theorem State.Paired.run (hnet : net.Paired R net') {t t' : State} (h : t.Paired R t') :
    (ArcConsistency.run net t).1.Paired R (ArcConsistency.run net' t').1 ∧
      (ArcConsistency.run net t).2 = (ArcConsistency.run net' t').2 := by
  -- The second pass makes the step that is paired with the one of the first.
  have hstep' := h.step hR hnet
  rw [run_eq net']
  fun_induction ArcConsistency.run net t generalizing t' with
  | case1 t final hstep =>
      rw [hstep] at hstep'
      generalize ArcConsistency.step net' t' = next' at hstep'
      cases hstep' with
      | done hfinal => exact ⟨hfinal, rfl⟩
  | case2 t fault final hstep =>
      rw [hstep] at hstep'
      generalize ArcConsistency.step net' t' = next' at hstep'
      cases hstep' with
      | faulty _ hfinal => exact ⟨hfinal, rfl⟩
  | case3 t u hstep ih =>
      rw [hstep] at hstep'
      generalize ArcConsistency.step net' t' = next' at hstep'
      cases hstep' with
      | next hu =>
          simp only
          rw [run_eq net']
          exact ih hu (hu.step hR hnet)

end ArcConsistency

/-- Arc consistency keeps stores paired and makes the same revisions. -/
theorem Store.Paired.arcConsistency (hnet : net.Paired R net') {s s' : Store}
    (h : s.Paired R s') :
    (DateScheduling.arcConsistency net s).Paired R (DateScheduling.arcConsistency net' s') := by
  have hstart : (ArcConsistency.State.start net s).Paired R (.start net' s') :=
    ⟨h, hnet.agenda_eq, rfl, rfl, rfl⟩
  have hrun := hstart.run hR hnet
  unfold DateScheduling.arcConsistency
  rcases hleft : ArcConsistency.run net (.start net s) with
      ⟨⟨store, agenda, revisions, removed, log⟩, fault?⟩
  rcases hright : ArcConsistency.run net' (.start net' s') with
      ⟨⟨store', agenda', revisions', removed', log'⟩, fault?'⟩
  rw [hleft, hright] at hrun
  rcases hrun with ⟨⟨hstore, -, ⟨⟩, ⟨⟩, ⟨⟩⟩, ⟨⟩⟩
  cases fault? with
  | none => exact ⟨hstore, by simp only [hstore.totalSize_eq], rfl⟩
  | some fault => exact ⟨hstore, rfl, rfl⟩

end Passes

end DateScheduling
