import DateScheduling.Proofs.Network.Arcs
import DateScheduling.Proofs.Propagation.Dates

/-!
# Revising an arc

A family of dates, one set for each event, is arc-consistent when every date
has a partner at every event it is joined to.  This file says so in terms of
the constraint list alone, and shows that one revision leaves at the head of
its arc exactly the dates that have a partner at the tail.

Main results:

- Theorem `Arc.consistent_iff`: what makes one arc consistent.
- Theorem `arcConsistent_iff`: arc consistency, arc by arc.
- Theorem `ArcConsistency.exists_revise`: revising an arc of the network never
  fails and keeps exactly the supported dates of its head.
-/

namespace DateScheduling

variable {cs : List Constraint} {D D' : Nat → Set Date} {a b : Nat} {v : Date}

/-! ## Partners -/

/-- A date of the event `a` has a partner among the dates of `b`; an event
paired with itself has one date only. -/
def Supported (cs : List Constraint) (D : Nat → Set Date) (a b : Nat) (v : Date) : Prop :=
  ∃ w ∈ D b, (a = b → v = w) ∧ Compatible cs a v b w

/-- Every date has, at each other event it is joined to, a partner with which
all constraints between the two hold; and every date satisfies the constraints
of its event with itself. -/
structure ArcConsistent (cs : List Constraint) (D : Nat → Set Date) : Prop where
  supported : ∀ a b, a ≠ b → Joined cs a b → ∀ v ∈ D a, ∃ w ∈ D b, Compatible cs a v b w
  loops : ∀ a op, Constraint.binary a op a ∈ cs → ∀ v ∈ D a, op.holds v v = true

/-- A partner stays one when the tail gets more dates. -/
theorem Supported.mono (hsub : D b ⊆ D' b) (h : Supported cs D a b v) :
    Supported cs D' a b v := by
  rcases h with ⟨w, hw, hloop, hcompatible⟩
  exact ⟨w, hsub hw, hloop, hcompatible⟩

/-- A date of an event supports itself there when the constraints of the event
with itself hold of it. -/
theorem supported_self_iff (hv : v ∈ D a) :
    Supported cs D a a v ↔ ∀ op, Constraint.binary a op a ∈ cs → op.holds v v = true := by
  constructor
  · rintro ⟨w, -, hloop, hcompatible⟩ op hop
    have hvw := hloop rfl
    subst hvw
    exact (hcompatible op).1 hop
  · intro h
    exact ⟨v, hv, fun _ => rfl, fun op => ⟨h op, h op⟩⟩

/-- One arc is consistent: every date of its head has a partner at its tail with which
all constraints between the two hold, and if head and tail are the same event, every
date satisfies the constraints of the event with itself. -/
structure Arc.Consistent (cs : List Constraint) (D : Nat → Set Date) (arc : Arc) : Prop where
  supported : arc.head ≠ arc.tail →
    ∀ v ∈ D arc.head, ∃ w ∈ D arc.tail, Compatible cs arc.head v arc.tail w
  loops : arc.head = arc.tail → ∀ op, Constraint.binary arc.head op arc.head ∈ cs →
    ∀ v ∈ D arc.head, op.holds v v = true

/-- An arc is consistent when every date of its head is supported at its tail. -/
theorem Arc.consistent_iff {arc : Arc} :
    arc.Consistent cs D ↔ ∀ v ∈ D arc.head, Supported cs D arc.head arc.tail v := by
  constructor
  · intro h v hv
    by_cases hloop : arc.head = arc.tail
    · rw [← hloop, supported_self_iff hv]
      intro op hop
      exact h.loops hloop op hop v hv
    · rcases h.supported hloop v hv with ⟨w, hw, hcompatible⟩
      exact ⟨w, hw, fun heq => absurd heq hloop, hcompatible⟩
  · intro h
    constructor
    · intro _ v hv
      rcases h v hv with ⟨w, hw, -, hcompatible⟩
      exact ⟨w, hw, hcompatible⟩
    · intro hloop op hop v hv
      have hself := h v hv
      rw [← hloop] at hself
      exact (supported_self_iff hv).1 hself op hop

/-- Arc consistency, arc by arc. -/
theorem arcConsistent_iff :
    ArcConsistent cs D ↔ ∀ a b, Joined cs a b → ∀ v ∈ D a, Supported cs D a b v := by
  have harc : ∀ a b, Arc.Consistent cs D ⟨a, b⟩ ↔ ∀ v ∈ D a, Supported cs D a b v :=
    fun a b => Arc.consistent_iff
  simp only [← harc]
  constructor
  · intro h a b hjoined
    exact ⟨fun hne => h.supported a b hne hjoined, fun _ op hop => h.loops a op hop⟩
  · intro h
    constructor
    · intro a b hne hjoined
      exact (h a b hjoined).supported hne
    · intro a op hop
      exact (h a a ⟨op, Or.inl hop⟩).loops rfl op hop

/-- A date of an arc-consistent family is compatible with itself. -/
theorem ArcConsistent.compatible_self (h : ArcConsistent cs D) (hv : v ∈ D a) :
    Compatible cs a v a v :=
  fun op => ⟨fun hmem => h.loops a op hmem v hv, fun hmem => h.loops a op hmem v hv⟩

namespace ArcConsistency

/-! ## One revision -/

/-- The test a revision makes is whether a date has a partner. -/
theorem hasPartner_iff {net : Network} {n : Nat} (hnet : net.Files n cs) {arc : Arc} {s : Store}
    {tail : Domain} (htail : s.domain? arc.tail = some tail) (hv : v ∈ s.dates arc.head) :
    hasPartner (net.between arc.head arc.tail) arc tail v = true ↔
      Supported cs s.dates arc.head arc.tail v := by
  rcases arc with ⟨head, foot⟩
  simp only at htail hv ⊢
  unfold hasPartner partners Supported
  rw [List.any_eq_true]
  by_cases hloop : head = foot
  · subst hloop
    simp only [if_true, List.mem_singleton, exists_eq_left]
    rw [hnet.all_supports_iff fun _ => rfl]
    constructor
    · intro h
      exact ⟨v, hv, fun _ => rfl, h⟩
    · intro hexists
      rcases hexists with ⟨w, -, hvw, h⟩
      rw [← hvw trivial] at h
      exact h
  · simp only [hloop, if_false]
    constructor
    · intro hexists
      rcases hexists with ⟨w, hw, hall⟩
      refine ⟨w, (Store.mem_dates_of_domain? htail).2 hw, fun heq => heq.elim, ?_⟩
      rw [hnet.all_supports_iff (fun heq => absurd heq hloop)] at hall
      exact hall
    · intro hexists
      rcases hexists with ⟨w, hw, -, h⟩
      refine ⟨w, (Store.mem_dates_of_domain? htail).1 hw, ?_⟩
      rw [hnet.all_supports_iff (fun heq => absurd heq hloop)]
      exact h

/-- What revising an arc does to a store. -/
structure Revises (cs : List Constraint) (arc : Arc) (s : Store) (r : Revision) : Prop where
  size_eq : r.store.size = s.size
  /-- The head keeps its supported dates; no other event loses any. -/
  mem_dates_iff : ∀ i v, v ∈ r.store.dates i ↔ v ∈ s.dates i ∧
    (i = arc.head → Supported cs s.dates arc.head arc.tail v)
  domain?_eq : ∀ i, i ≠ arc.head → r.store.domain? i = s.domain? i
  store_eq : r.removed = 0 → r.store = s
  sizeOf?_eq : s.sizeOf? arc.head = some (r.left + r.removed) ∧
    r.store.sizeOf? arc.head = some r.left
  totalSize_eq : r.store.totalSize + r.removed = s.totalSize

/-- Revising an arc of the network never fails and keeps exactly the supported
dates of its head. -/
theorem exists_revise {net : Network} {n : Nat} (hnet : net.Files n cs) {arc : Arc} {s : Store}
    (hjoined : Joined cs arc.head arc.tail) (hhead : arc.head < s.size)
    (htail : arc.tail < s.size) : ∃ r, revise net arc s = .ok r ∧ Revises cs arc s r := by
  rcases Store.exists_domain? hhead with ⟨head, hhead⟩
  rcases Store.exists_domain? htail with ⟨tail, htail⟩
  have hbetween : net.between arc.head arc.tail ≠ [] := by
    rw [Ne, hnet.between_eq_nil_iff, not_not]
    exact hjoined
  have hpartner := fun v => hasPartner_iff (v := v) hnet htail
  rcases List.exists_cons_of_ne_nil hbetween with ⟨c, rest, hcons⟩
  rw [hcons] at hpartner
  have hle := Domain.size_filter_le (hasPartner (c :: rest) arc tail) head
  have hrevise : revise net arc s =
      .ok ⟨s.replace arc.head (head.filter (hasPartner (c :: rest) arc tail)),
        head.size - (head.filter (hasPartner (c :: rest) arc tail)).size,
        (head.filter (hasPartner (c :: rest) arc tail)).size⟩ := by
    unfold revise
    rw [hcons, hhead, htail]
  refine ⟨_, hrevise, ?_⟩
  constructor
  case size_eq => exact Store.size_replace ..
  case mem_dates_iff =>
    intro i v
    rw [Store.mem_dates_replace_filter hhead]
    constructor
    · intro h
      rcases h with ⟨hv, hkept⟩
      refine ⟨hv, ?_⟩
      intro hi
      rw [hi] at hv
      exact (hpartner v hv).1 (hkept hi)
    · intro h
      rcases h with ⟨hv, hkept⟩
      refine ⟨hv, ?_⟩
      intro hi
      rw [hi] at hv
      exact (hpartner v hv).2 (hkept hi)
  case domain?_eq =>
    intro i hi
    simp only
    rw [Store.domain?_replace (Store.lt_size_of_domain? hhead), if_neg hi]
  case store_eq =>
    intro hzero
    apply Store.replace_filter_of_size_eq hhead
    simp only at hzero
    omega
  case sizeOf?_eq =>
    unfold Store.sizeOf?
    rw [Store.domain?_replace (Store.lt_size_of_domain? hhead), if_pos rfl, hhead]
    simp only [Option.map_some, Option.some.injEq, and_true]
    omega
  case totalSize_eq => exact totalSize_revise hrevise

end ArcConsistency
end DateScheduling
