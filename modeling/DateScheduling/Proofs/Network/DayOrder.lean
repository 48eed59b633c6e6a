import Mathlib.Data.List.Forall2
import Mathlib.Data.List.Sort
import DateScheduling.Proofs.Calendar.RangeDays
import DateScheduling.Proofs.Network.Filing

/-!
# Constraints see the order of days only

Dates can be paired with other dates so that both sides are in the same order.
Constraints whose bounds are paired then hold of paired dates together, and
networks of such constraints answer every query alike: they have the same
neighbours and the same arcs, and find paired constraints in the same places.

Main results:

- Theorem `Date.KeepsOrder.holds_eq`: a comparison holds of both pairs or of
  neither.
- Theorems `Constraint.Paired.supports_eq` and `Constraint.Paired.isSatisfiedBy_eq`:
  paired constraints check paired dates alike.
- Theorem `Network.Files.paired`: networks of paired constraints are paired.
-/

namespace DateScheduling

/-! ## Lists paired item by item -/

section Lists

variable {α β : Type} {R : α → β → Prop}

/-- Two look-ups that are paired find nothing, or they find a pair. -/
theorem rel_cases {x : Option α} {y : Option β} (h : Option.Rel R x y) :
    (x = none ∧ y = none) ∨ ∃ a b, x = some a ∧ y = some b ∧ R a b := by
  cases h with
  | none => exact Or.inl ⟨rfl, rfl⟩
  | some hab => exact Or.inr ⟨_, _, rfl, rfl, hab⟩

/-- Paired lists have paired items in the same positions. -/
theorem forall₂_iff_getElem? {l : List α} {l' : List β} :
    List.Forall₂ R l l' ↔ ∀ i : Nat, Option.Rel R l[i]? l'[i]? := by
  constructor
  · intro h
    induction h with
    | nil =>
        intro i
        exact .none
    | cons hhead _ ih =>
        intro i
        cases i with
        | zero => exact .some hhead
        | succ i => exact ih i
  · intro h
    induction l generalizing l' with
    | nil =>
        cases l' with
        | nil => exact .nil
        | cons b l' => cases h 0
    | cons a l ih =>
        cases l' with
        | nil => cases h 0
        | cons b l' =>
            cases h 0 with
            | some hhead => exact .cons hhead (ih fun i => h (i + 1))

/-- A test that passes both items of every pair passes paired lists together. -/
theorem all_eq_of_forall₂ {l : List α} {l' : List β} {p : α → Bool} {q : β → Bool}
    (h : List.Forall₂ R l l') (hpq : ∀ a b, R a b → p a = q b) : l.all p = l'.all q := by
  induction h with
  | nil => rfl
  | cons hhead _ ih => rw [List.all_cons, List.all_cons, hpq _ _ hhead, ih]

theorem any_eq_of_forall₂ {l : List α} {l' : List β} {p : α → Bool} {q : β → Bool}
    (h : List.Forall₂ R l l') (hpq : ∀ a b, R a b → p a = q b) : l.any p = l'.any q := by
  induction h with
  | nil => rfl
  | cons hhead _ ih => rw [List.any_cons, List.any_cons, hpq _ _ hhead, ih]

/-- Replacing the items in one position by a pair leaves paired lists. -/
theorem forall₂_set {l : List α} {l' : List β} (h : List.Forall₂ R l l') (i : Nat) {a : α} {b : β}
    (hab : R a b) : List.Forall₂ R (l.set i a) (l'.set i b) := by
  induction h generalizing i with
  | nil => exact .nil
  | cons hhead htail ih =>
      cases i with
      | zero => exact .cons hab htail
      | succ i => exact .cons hhead (ih i)

end Lists

/-! ## Comparisons -/

/-- Dates are paired with dates in the same order. -/
def Date.KeepsOrder (R : Date → Date → Prop) : Prop :=
  ∀ ⦃v v' w w'⦄, R v v' → R w w' → (v < w ↔ v' < w')

variable {R : Date → Date → Prop}

namespace Date.KeepsOrder

variable (hR : KeepsOrder R) {v v' w w' : Date}
include hR

theorem le_iff (hv : R v v') (hw : R w w') : v ≤ w ↔ v' ≤ w' :=
  not_congr (hR hw hv)

theorem eq_iff (hv : R v v') (hw : R w w') : v = w ↔ v' = w' := by
  have hvw := hR.le_iff hv hw
  have hwv := hR.le_iff hw hv
  constructor
  · rintro rfl
    exact le_antisymm (hvw.1 (le_refl v)) (hwv.1 (le_refl v))
  · rintro rfl
    exact le_antisymm (hvw.2 (le_refl v')) (hwv.2 (le_refl v'))

/-- A comparison holds of both pairs or of neither. -/
theorem holds_eq (op : Comparison) (hv : R v v') (hw : R w w') :
    op.holds v w = op.holds v' w' := by
  unfold Comparison.holds
  cases op with
  | equal => simp only [hR.eq_iff hv hw]
  | notEqual => simp only [ne_eq, hR.eq_iff hv hw]
  | after => simp only [hR hw hv]
  | before => simp only [hR hv hw]
  | onOrAfter => simp only [hR.le_iff hw hv]
  | onOrBefore => simp only [hR.le_iff hv hw]

/-- The same if dates may be unset. -/
theorem check_eq (op : Comparison) {x x' y y' : Option Date} (hx : Option.Rel R x x')
    (hy : Option.Rel R y y') : op.check x y = op.check x' y' := by
  cases hx with
  | none => rw [Comparison.check_none_left, Comparison.check_none_left]
  | some hv =>
      cases hy with
      | none => rw [Comparison.check_none_right, Comparison.check_none_right]
      | some hw =>
          rw [Comparison.check_some, Comparison.check_some]
          exact hR.holds_eq op hv hw

end Date.KeepsOrder

/-! ## Constraints -/

namespace Constraint

/-- The constraints are the same, except that a fixed date is paired with another. -/
inductive Paired (R : Date → Date → Prop) : Constraint → Constraint → Prop where
  | unary {var : Nat} {op : Comparison} {bound bound' : Date} (h : R bound bound') :
      Paired R (.unary var op bound) (.unary var op bound')
  | binary {left : Nat} {op : Comparison} {right : Nat} :
      Paired R (.binary left op right) (.binary left op right)

namespace Paired

variable {c c' : Constraint} (h : c.Paired R c')
include h

theorem maxIndex_eq : c.maxIndex = c'.maxIndex := by
  cases h <;> rfl

theorem arcs_eq : c.arcs = c'.arcs := by
  cases h <;> rfl

theorem isUnaryOn_eq (var : Nat) : c.isUnaryOn var = c'.isUnaryOn var := by
  cases h <;> rfl

theorem joins_eq (a b : Nat) : c.joins a b = c'.joins a b := by
  cases h <;> rfl

variable (hR : Date.KeepsOrder R)
include hR

/-- Paired constraints allow paired dates together. -/
theorem allows_eq {v v' : Date} (hv : R v v') : c.allows v = c'.allows v' := by
  cases h with
  | unary hbound => exact hR.check_eq _ (.some hv) (.some hbound)
  | binary => simp [allows, isSatisfied, bound?]

/-- Paired constraints hold of paired dates of their events together. -/
theorem supports_eq (head : Nat) {v v' w w' : Date} (hv : R v v') (hw : R w w') :
    c.supports head v w = c'.supports head v' w' := by
  cases h with
  | unary => rfl
  | binary =>
      unfold supports
      simp only [hR.holds_eq _ hv hw, hR.holds_eq _ hw hv]

/-- Paired constraints are satisfied by paired assignments together. -/
theorem isSatisfiedBy_eq {a a' : Array Date} (ha : List.Forall₂ R a.toList a'.toList) :
    c.isSatisfiedBy a = c'.isSatisfiedBy a' := by
  have hdates : ∀ i : Nat, Option.Rel R a[i]? a'[i]? := by
    intro i
    rw [← Array.getElem?_toList, ← Array.getElem?_toList]
    exact forall₂_iff_getElem?.1 ha i
  cases h with
  | unary hbound => exact hR.check_eq _ (hdates _) (.some hbound)
  | binary => exact hR.check_eq _ (hdates _) (hdates _)

end Paired
end Constraint

variable {cs cs' : List Constraint}

/-- Lists of paired constraints join the same events. -/
theorem joined_iff_of_paired (h : List.Forall₂ (Constraint.Paired R) cs cs') {a b : Nat} :
    Joined cs a b ↔ Joined cs' a b := by
  have hjoins : ∀ ds : List Constraint, Joined ds a b ↔ ds.any (·.joins a b) = true := by
    intro ds
    unfold Joined
    simp only [List.any_eq_true, Constraint.joins_iff]
    constructor
    · rintro ⟨op, hop | hop⟩
      · exact ⟨_, hop, op, Or.inl rfl⟩
      · exact ⟨_, hop, op, Or.inr rfl⟩
    · rintro ⟨c, hc, op, rfl | rfl⟩
      · exact ⟨op, Or.inl hc⟩
      · exact ⟨op, Or.inr hc⟩
  rw [hjoins, hjoins, any_eq_of_forall₂ h fun _ _ hc => hc.joins_eq a b]

/-! ## Networks -/

namespace Network

/-- Networks that answer every query alike, with paired constraints in the same
places. -/
structure Paired (R : Date → Date → Prop) (net net' : Network) : Prop where
  agenda_eq : net.agenda = net'.agenda
  neighbors?_eq : ∀ v, net.neighbors? v = net'.neighbors? v
  unary : List.Forall₂ (List.Forall₂ (Constraint.Paired R)) net.unary.toList net'.unary.toList
  between : ∀ a b, List.Forall₂ (Constraint.Paired R) (net.between a b) (net'.between a b)
  completedAt? : ∀ v, Option.Rel (List.Forall₂ (Constraint.Paired R)) (net.completedAt? v)
    (net'.completedAt? v)

variable {net net' : Network} {n : Nat}

/-- Look-ups that are known for `n` events, and find nothing beyond, are paired if
they are paired for these events. -/
theorem rel_of_lt {α β : Type} {S : α → β → Prop} {table : Array α} {table' : Array β}
    {f : Nat → α} {g : Nat → β} (hsize : table.size = n) (hsize' : table'.size = n)
    (hf : ∀ v, v < n → table[v]? = some (f v)) (hg : ∀ v, v < n → table'[v]? = some (g v))
    (hS : ∀ v, S (f v) (g v)) (v : Nat) : Option.Rel S table[v]? table'[v]? := by
  by_cases hv : v < n
  · rw [hf v hv, hg v hv]
    exact .some (hS v)
  · rw [Array.getElem?_eq_none (by omega), Array.getElem?_eq_none (by omega)]
    exact .none

/-- Networks of paired constraints are paired. -/
theorem Files.paired (h : List.Forall₂ (Constraint.Paired R) cs cs') (hnet : net.Files n cs)
    (hnet' : net'.Files n cs') : net.Paired R net' where
  agenda_eq := by
    have harcs : cs.flatMap Constraint.arcs = cs'.flatMap Constraint.arcs := by
      clear hnet hnet'
      induction h with
      | nil => rfl
      | cons hc _ ih => rw [List.flatMap_cons, List.flatMap_cons, hc.arcs_eq, ih]
    unfold agenda
    rw [hnet.constraints_eq, hnet'.constraints_eq, harcs]
  neighbors?_eq v := by
    by_cases hv : v < n
    · rcases hnet.neighbors?_eq v hv with ⟨l, hl, hsorted, hmem⟩
      rcases hnet'.neighbors?_eq v hv with ⟨l', hl', hsorted', hmem'⟩
      have heq : l = l' := by
        apply hsorted.eq_of_mem_iff hsorted'
        intro w
        rw [hmem, hmem', joined_iff_of_paired h]
      rw [hl, hl', heq]
    · have hsize := hnet.neighbors_size
      have hsize' := hnet'.neighbors_size
      unfold neighbors?
      rw [Array.getElem?_eq_none (by omega), Array.getElem?_eq_none (by omega)]
  unary := by
    rw [forall₂_iff_getElem?]
    intro v
    rw [Array.getElem?_toList, Array.getElem?_toList]
    exact rel_of_lt hnet.size_eq hnet'.size_eq hnet.unaryOn?_eq hnet'.unaryOn?_eq
      (fun v => List.rel_filter (fun _ _ hc => by simp only [hc.isUnaryOn_eq v]) h) v
  between a b := by
    rw [hnet.between_eq, hnet'.between_eq]
    exact List.rel_filter (fun _ _ hc => by simp only [hc.joins_eq a b]) h
  completedAt? v :=
    rel_of_lt hnet.completed_size hnet'.completed_size hnet.completedAt?_eq hnet'.completedAt?_eq
      (fun v => List.rel_filter (fun _ _ hc => by simp only [hc.maxIndex_eq]) h) v

end Network
end DateScheduling
