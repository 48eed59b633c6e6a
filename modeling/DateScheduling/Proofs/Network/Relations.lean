import Mathlib.Data.Set.Basic
import DateScheduling.Proofs.Network.Consistency

/-!
# The relations a list of constraints states

A constraint between two events can be written from either side: `x op y` says
the same as `y op' x` when `op'` is the converse of `op`.  What a list of
constraints states is the set of its constraints, each written from both sides.
Two lists that state the same relations may differ in order, repetitions and
direction; they bound the same events, join the same events, allow the same
dates, and their networks check the same things when an event gets a date.

Main results:

- Theorem `forall_mem_congr`: a property that does not depend on the side holds of
  all constraints of one list when it holds of all of the other.
- Theorems `joined_congr`, `compatible_congr` and `meetsBounds_congr`: what two
  such lists say about events and pairs of events.
- Theorem `Network.Files.completed_all_congr`: what their networks check.
-/

namespace DateScheduling

/-- Two dates that may be unset are compared the same from either side. -/
theorem Comparison.check_converse (op : Comparison) (left right : Option Date) :
    op.converse.check right left = op.check left right := by
  cases left with
  | none => rw [check_none_left, check_none_right]
  | some l =>
      cases right with
      | none => rw [check_none_left, check_none_right]
      | some r => rw [check_some, check_some, holds_converse]

namespace Constraint

/-- The constraint written from the other side. -/
def mirrored : Constraint → Constraint
  | unary var op bound => unary var op bound
  | binary left op right => binary right op.converse left

@[simp] theorem mirrored_mirrored (c : Constraint) : c.mirrored.mirrored = c := by
  cases c with
  | unary var op bound => rfl
  | binary left op right => simp [mirrored]

@[simp] theorem maxIndex_mirrored (c : Constraint) : c.mirrored.maxIndex = c.maxIndex := by
  cases c with
  | unary var op bound => rfl
  | binary left op right => exact Nat.max_comm right left

@[simp] theorem isSatisfiedBy_mirrored (c : Constraint) (a : Array Date) :
    c.mirrored.isSatisfiedBy a = c.isSatisfiedBy a := by
  cases c with
  | unary var op bound => rfl
  | binary left op right => exact Comparison.check_converse op a[left]? a[right]?

end Constraint

/-- What a list of constraints states: its constraints, written from either
side. -/
def relations (cs : List Constraint) : Set Constraint :=
  {c | c ∈ cs ∨ c.mirrored ∈ cs}

variable {cs cs' : List Constraint}

instance (c : Constraint) : Decidable (c ∈ relations cs) :=
  inferInstanceAs (Decidable (c ∈ cs ∨ c.mirrored ∈ cs))

/-! ## What a list says in terms of its relations -/

theorem unary_mem_relations_iff {var : Nat} {op : Comparison} {bound : Date} :
    Constraint.unary var op bound ∈ relations cs ↔ Constraint.unary var op bound ∈ cs := by
  simp [relations, Constraint.mirrored]

theorem binary_mem_relations_iff {a b : Nat} {op : Comparison} :
    Constraint.binary a op b ∈ relations cs ↔
      Constraint.binary a op b ∈ cs ∨ Constraint.binary b op.converse a ∈ cs :=
  Iff.rfl

/-- A property that does not depend on the side holds of all relations when it
holds of all constraints. -/
theorem forall_mem_relations_iff {P : Constraint → Prop} (hP : ∀ c, P c.mirrored → P c) :
    (∀ c ∈ relations cs, P c) ↔ ∀ c ∈ cs, P c := by
  constructor
  · intro h c hc
    exact h c (Or.inl hc)
  · intro h c hc
    rcases hc with hc | hc
    · exact h c hc
    · exact hP c (h c.mirrored hc)

/-- Two lists state the same relations when each constraint of either list is
stated by the other. -/
theorem relations_eq_iff : relations cs = relations cs' ↔
    (∀ c ∈ cs, c ∈ relations cs') ∧ ∀ c ∈ cs', c ∈ relations cs := by
  have hside : ∀ (ds : List Constraint) c, c.mirrored ∈ relations ds → c ∈ relations ds := by
    intro ds c hc
    unfold relations at hc ⊢
    rw [Set.mem_ofPred_eq, Constraint.mirrored_mirrored] at hc
    exact hc.symm
  rw [← forall_mem_relations_iff (hside cs'), ← forall_mem_relations_iff (hside cs)]
  exact Set.Subset.antisymm_iff

/-- Two events are joined when some relation compares them. -/
theorem joined_iff_relations {a b : Nat} :
    Joined cs a b ↔ ∃ op, Constraint.binary a op b ∈ relations cs := by
  unfold Joined
  simp only [binary_mem_relations_iff]
  constructor
  · intro h
    rcases h with ⟨op, hop | hop⟩
    · exact ⟨op, Or.inl hop⟩
    · refine ⟨op.converse, Or.inr ?_⟩
      rw [Comparison.converse_converse]
      exact hop
  · intro h
    rcases h with ⟨op, hop | hop⟩
    · exact ⟨op, Or.inl hop⟩
    · exact ⟨op.converse, Or.inr hop⟩

/-- Two dates are compatible when every relation between their events holds. -/
theorem compatible_iff_relations {a b : Nat} {v w : Date} :
    Compatible cs a v b w ↔
      ∀ op, Constraint.binary a op b ∈ relations cs → op.holds v w = true := by
  simp only [binary_mem_relations_iff]
  constructor
  · intro h op hop
    rcases hop with hop | hop
    · exact (h op).1 hop
    · rw [← Comparison.holds_converse]
      exact (h op.converse).2 hop
  · intro h op
    refine ⟨fun hop => h op (Or.inl hop), ?_⟩
    intro hop
    rw [← Comparison.holds_converse]
    apply h op.converse
    rw [Comparison.converse_converse]
    exact Or.inr hop

/-! ## Lists that state the same relations -/

section Congruence

variable (h : relations cs = relations cs')
include h

/-- A property that does not depend on the side holds of all constraints of one
list when it holds of all of the other. -/
theorem forall_mem_congr {P : Constraint → Prop} (hP : ∀ c, P c.mirrored → P c) :
    (∀ c ∈ cs, P c) ↔ ∀ c ∈ cs', P c := by
  rw [← forall_mem_relations_iff hP, h, forall_mem_relations_iff hP]

theorem joined_congr {a b : Nat} : Joined cs a b ↔ Joined cs' a b := by
  rw [joined_iff_relations, joined_iff_relations, h]

theorem compatible_congr {a b : Nat} {v w : Date} :
    Compatible cs a v b w ↔ Compatible cs' a v b w := by
  rw [compatible_iff_relations, compatible_iff_relations, h]

theorem meetsBounds_congr {var : Nat} {v : Date} :
    MeetsBounds cs var v ↔ MeetsBounds cs' var v := by
  unfold MeetsBounds
  simp only [← unary_mem_relations_iff, h]

/-- Both lists stay within the same events. -/
theorem maxIndex_lt_congr {n : Nat} :
    (∀ c ∈ cs, c.maxIndex < n) ↔ ∀ c ∈ cs', c.maxIndex < n := by
  apply forall_mem_congr h
  intro c hc
  rwa [Constraint.maxIndex_mirrored] at hc

/-- The networks of both lists check the same when an event gets a date. -/
theorem Network.Files.completed_all_congr {n : Nat} {net net' : Network} (hnet : net.Files n cs)
    (hnet' : net'.Files n cs') (var : Nat) (a : Array Date) :
    (net.completedAt? var).map (·.all (·.isSatisfiedBy a)) =
      (net'.completedAt? var).map (·.all (·.isSatisfiedBy a)) := by
  by_cases hvar : var < n
  · rw [hnet.completedAt?_eq var hvar, hnet'.completedAt?_eq var hvar, Option.map_some,
      Option.map_some, Option.some.injEq, Bool.eq_iff_iff, List.all_eq_true, List.all_eq_true]
    simp only [List.mem_filter, and_imp, decide_eq_true_eq]
    apply forall_mem_congr h
    intro c hc hmax
    rw [Constraint.maxIndex_mirrored, Constraint.isSatisfiedBy_mirrored] at hc
    exact hc hmax
  · have hsize := hnet.completed_size
    have hsize' := hnet'.completed_size
    unfold completedAt?
    rw [Array.getElem?_eq_none (by omega), Array.getElem?_eq_none (by omega)]

end Congruence

end DateScheduling
