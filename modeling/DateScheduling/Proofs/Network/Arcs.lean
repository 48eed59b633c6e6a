import DateScheduling.Proofs.Network.Filing

/-!
# Arcs waiting on an agenda

The set an agenda keeps beside its two lists holds exactly what is waiting, so
nothing waits twice.  The agenda of a network starts with one arc for each
direction in which two events are joined.

Main results:

- Theorems `Agenda.Sound.pushAll` and `Agenda.Sound.pop?`: the set of waiting
  items stays right.
- Theorem `Network.Files.mem_arcs_iff`: the arcs of a network are the joined
  pairs of events.
-/

namespace DateScheduling

namespace Agenda

variable {α : Type} [BEq α] [Hashable α]

/-- Nothing waits twice, and the set of waiting items is that of the queue. -/
structure Sound (q : Agenda α) : Prop where
  nodup : q.toList.Nodup
  contains_iff : ∀ a, q.waiting.contains a = true ↔ a ∈ q.toList

theorem sound_empty : (empty : Agenda α).Sound where
  nodup := List.nodup_nil
  contains_iff a := by simp [empty, toList]

/-- What is waiting after an item was put on the agenda. -/
theorem Sound.mem_push_iff {q : Agenda α} (hq : q.Sound) {a b : α} :
    b ∈ (q.push a).toList ↔ b = a ∨ b ∈ q.toList := by
  rw [toList_push]
  split
  · rename_i hwaiting
    have hmem := (hq.contains_iff a).1 hwaiting
    constructor
    · exact Or.inr
    · intro hcases
      rcases hcases with rfl | h
      · exact hmem
      · exact h
  · rw [List.mem_append, List.mem_singleton, or_comm]

/-- An item that is taken leaves the set of waiting items. -/
theorem waiting_pop? {q rest : Agenda α} {a : α} (h : q.pop? = some (a, rest)) :
    rest.waiting = q.waiting.erase a := by
  rcases q with ⟨front, back, waiting⟩
  cases front with
  | cons b front =>
      simp only [Agenda.pop?, Option.some.injEq, Prod.mk.injEq] at h
      rcases h with ⟨rfl, rfl⟩
      rfl
  | nil =>
      simp only [Agenda.pop?] at h
      split at h
      · simp only [Option.some.injEq, Prod.mk.injEq] at h
        rcases h with ⟨rfl, rfl⟩
        rfl
      · cases h

variable [LawfulBEq α]

/-- Putting an item on the agenda keeps its set right. -/
theorem Sound.push {q : Agenda α} (hq : q.Sound) (a : α) : (q.push a).Sound := by
  have hmemPush := fun b => hq.mem_push_iff (a := a) (b := b)
  by_cases hwaiting : q.waiting.contains a = true
  · have hsame : q.push a = q := by
      unfold Agenda.push
      rw [if_pos hwaiting]
    rw [hsame]
    exact hq
  · have hnew : a ∉ q.toList := fun h => hwaiting ((hq.contains_iff a).2 h)
    constructor
    · rw [toList_push, if_neg hwaiting]
      rw [List.nodup_append]
      refine ⟨hq.nodup, List.nodup_cons.2 ⟨List.not_mem_nil, List.nodup_nil⟩, ?_⟩
      intro x hx y hy hxy
      rw [List.mem_singleton.1 hy] at hxy
      rw [hxy] at hx
      exact hnew hx
    · intro b
      rw [hmemPush]
      unfold Agenda.push
      rw [if_neg hwaiting]
      simp only [Std.HashSet.contains_insert, Bool.or_eq_true, beq_iff_eq, hq.contains_iff]
      rw [eq_comm]

/-- Putting several items on the agenda adds them to what is waiting. -/
theorem Sound.mem_pushAll_iff {q : Agenda α} (hq : q.Sound) {items : List α} {b : α} :
    b ∈ (q.pushAll items).toList ↔ b ∈ items ∨ b ∈ q.toList := by
  unfold pushAll
  induction items generalizing q with
  | nil => simp
  | cons a items ih =>
      rw [List.foldl_cons, ih (hq.push a), hq.mem_push_iff, List.mem_cons, or_left_comm, or_assoc]

theorem Sound.pushAll {q : Agenda α} (hq : q.Sound) (items : List α) :
    (q.pushAll items).Sound := by
  unfold Agenda.pushAll
  induction items generalizing q with
  | nil => exact hq
  | cons a items ih => exact ih (hq.push a)

/-- The items of a list wait on its agenda. -/
theorem mem_ofList_iff {items : List α} {a : α} : a ∈ (ofList items).toList ↔ a ∈ items := by
  unfold ofList
  rw [sound_empty.mem_pushAll_iff]
  simp

/-- Taking an item from the agenda keeps its set right. -/
theorem Sound.pop? {q rest : Agenda α} (hq : q.Sound) {a : α}
    (h : q.pop? = some (a, rest)) : rest.Sound ∧ a ∉ rest.toList := by
  have hlist := toList_pop? h
  have hnodup := hq.nodup
  rw [hlist, List.nodup_cons] at hnodup
  refine ⟨⟨hnodup.2, ?_⟩, hnodup.1⟩
  intro b
  rw [waiting_pop? h, Std.HashSet.contains_erase, Bool.and_eq_true, hq.contains_iff, hlist,
    List.mem_cons]
  constructor
  · intro hexists
    rcases hexists with ⟨hne, rfl | hmem⟩
    · simp at hne
    · exact hmem
  · intro hmem
    refine ⟨?_, Or.inr hmem⟩
    rw [Bool.not_eq_true', beq_eq_false_iff_ne]
    rintro rfl
    exact hnodup.1 hmem

end Agenda

/-! ## The arcs of a network -/

theorem Constraint.mem_arcs_iff {c : Constraint} {a : Arc} :
    a ∈ c.arcs ↔ ∃ op, c = binary a.head op a.tail ∨ c = binary a.tail op a.head := by
  cases c with
  | unary var op bound => simp [arcs]
  | binary left op right =>
      rcases a with ⟨head, tail⟩
      simp only [arcs, List.mem_cons, Arc.mk.injEq, List.not_mem_nil, or_false, binary.injEq]
      constructor
      · intro h
        rcases h with ⟨rfl, rfl⟩ | ⟨rfl, rfl⟩
        · exact ⟨op, Or.inl ⟨rfl, rfl, rfl⟩⟩
        · exact ⟨op, Or.inr ⟨rfl, rfl, rfl⟩⟩
      · intro h
        rcases h with ⟨op', ⟨rfl, -, rfl⟩ | ⟨rfl, -, rfl⟩⟩
        · exact Or.inl ⟨rfl, rfl⟩
        · exact Or.inr ⟨rfl, rfl⟩

/-- The arcs of the constraints of a list are the joined pairs of events. -/
theorem mem_flatMap_arcs_iff {cs : List Constraint} {a : Arc} :
    a ∈ cs.flatMap Constraint.arcs ↔ Joined cs a.head a.tail := by
  rw [List.mem_flatMap]
  constructor
  · intro h
    rcases h with ⟨c, hc, ha⟩
    rcases Constraint.mem_arcs_iff.1 ha with ⟨op, rfl | rfl⟩
    · exact ⟨op, Or.inl hc⟩
    · exact ⟨op, Or.inr hc⟩
  · intro hexists
    rcases hexists with ⟨op, hop | hop⟩
    · exact ⟨_, hop, Constraint.mem_arcs_iff.2 ⟨op, Or.inl rfl⟩⟩
    · exact ⟨_, hop, Constraint.mem_arcs_iff.2 ⟨op, Or.inr rfl⟩⟩

namespace Network

/-- The agenda of a network is sound. -/
theorem sound_agenda (net : Network) : net.agenda.Sound := by
  exact Agenda.sound_empty.pushAll _

/-- The arcs of a network are the joined pairs of events. -/
theorem Files.mem_arcs_iff {net : Network} {n : Nat} {cs : List Constraint}
    (hnet : net.Files n cs) {a : Arc} : a ∈ net.arcs ↔ Joined cs a.head a.tail := by
  unfold arcs agenda
  rw [Agenda.mem_ofList_iff, hnet.constraints_eq, mem_flatMap_arcs_iff]

end Network

end DateScheduling
