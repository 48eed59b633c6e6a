import DateScheduling.Network
import DateScheduling.Propagation.ArcConsistency

/-!
# What a network files where

A list of constraints bounds the dates of single events and relates events two
by two.  This file says what the list asks of an event and of a pair of events,
and that a network built from the list answers each of its queries with the
constraints or events of the list that the query is about.

Main results:

- Theorem `Network.exists_build?`: a list that stays within `n` events has a
  network of `n` events.
- Theorem `Network.build?_isSome_iff`: no other list has one.
- Theorem `Network.Files.insert?`: filing one more constraint in front of the
  others keeps every query right.
- Theorem `Network.Files.all_supports_iff`: the constraints a network finds
  between two events hold exactly when the list is content with the two dates.
-/

namespace DateScheduling

/-! ## What a list of constraints says about its events -/

/-- Every constraint of the list that compares the event with a fixed date
holds of the date. -/
def MeetsBounds (cs : List Constraint) (var : Nat) (v : Date) : Prop :=
  ∀ op bound, Constraint.unary var op bound ∈ cs → op.holds v bound = true

/-- Some constraint of the list compares the two events, in either direction. -/
def Joined (cs : List Constraint) (a b : Nat) : Prop :=
  ∃ op, Constraint.binary a op b ∈ cs ∨ Constraint.binary b op a ∈ cs

/-- Every constraint of the list between the events `a` and `b` holds, in the
direction in which it is declared, when `a` has the date `v` and `b` the date
`w`. -/
def Compatible (cs : List Constraint) (a : Nat) (v : Date) (b : Nat) (w : Date) : Prop :=
  ∀ op, (Constraint.binary a op b ∈ cs → op.holds v w = true) ∧
    (Constraint.binary b op a ∈ cs → op.holds w v = true)

theorem joined_comm {cs : List Constraint} {a b : Nat} : Joined cs a b ↔ Joined cs b a := by
  unfold Joined
  constructor
  · intro hexists
    rcases hexists with ⟨op, h⟩
    exact ⟨op, h.symm⟩
  · intro hexists
    rcases hexists with ⟨op, h⟩
    exact ⟨op, h.symm⟩

/-- Compatibility does not depend on which of the two events is named first. -/
theorem Compatible.symm {cs : List Constraint} {a b : Nat} {v w : Date}
    (h : Compatible cs a v b w) : Compatible cs b w a v := by
  intro op
  exact ⟨(h op).2, (h op).1⟩

/-- Events that are not joined have no constraint to be compatible with. -/
theorem Compatible.of_not_joined {cs : List Constraint} {a b : Nat} (h : ¬ Joined cs a b)
    (v w : Date) : Compatible cs a v b w := by
  intro op
  constructor
  · intro hmem
    exact absurd ⟨op, Or.inl hmem⟩ h
  · intro hmem
    exact absurd ⟨op, Or.inr hmem⟩ h

/-- Joined events are among the first `n` when all constraints stay within
these. -/
theorem Joined.lt {n : Nat} {cs : List Constraint} (hcs : ∀ c ∈ cs, c.maxIndex < n) {a b : Nat}
    (h : Joined cs a b) : a < n ∧ b < n := by
  rcases h with ⟨op, hop | hop⟩
  · have hmax := hcs _ hop
    simp only [Constraint.maxIndex] at hmax
    omega
  · have hmax := hcs _ hop
    simp only [Constraint.maxIndex] at hmax
    omega

namespace Constraint

/-- The constraint compares the event with a fixed date. -/
def isUnaryOn (var : Nat) : Constraint → Bool
  | unary v _ _ => v = var
  | binary .. => false

/-- The constraint compares the two events, in either direction. -/
def joins (a b : Nat) : Constraint → Bool
  | unary .. => false
  | binary left _ right => Edge.between left right = Edge.between a b

theorem joins_iff {a b : Nat} {c : Constraint} :
    c.joins a b = true ↔ ∃ op, c = binary a op b ∨ c = binary b op a := by
  cases c with
  | unary var op bound => simp [joins]
  | binary left op right =>
      simp only [joins, decide_eq_true_eq]
      constructor
      · intro h
        have hcases : left = a ∧ right = b ∨ left = b ∧ right = a := by
          unfold Edge.between at h
          split at h <;> split at h <;> simp only [Edge.mk.injEq] at h <;> omega
        rcases hcases with ⟨rfl, rfl⟩ | ⟨rfl, rfl⟩
        · exact ⟨op, Or.inl rfl⟩
        · exact ⟨op, Or.inr rfl⟩
      · intro hexists
        rcases hexists with ⟨op', h | h⟩
        · cases h
          rfl
        · cases h
          exact Edge.between_comm ..

theorem isUnaryOn_iff {var : Nat} {c : Constraint} :
    c.isUnaryOn var = true ↔ ∃ op bound, c = unary var op bound := by
  cases c with
  | unary v op bound => simp [isUnaryOn]
  | binary left op right => simp [isUnaryOn]

end Constraint

namespace Network

/-! ## Queries of a network and the list behind it -/

/-- The network has `n` events and answers every query from the list. -/
structure Files (net : Network) (n : Nat) (cs : List Constraint) : Prop where
  constraints_eq : net.constraints = cs
  size_eq : net.size = n
  neighbors_size : net.neighbors.size = n
  completed_size : net.completed.size = n
  unaryOn?_eq : ∀ v, v < n → net.unaryOn? v = some (cs.filter (·.isUnaryOn v))
  neighbors?_eq : ∀ v, v < n → ∃ l, net.neighbors? v = some l ∧
    l.Pairwise (· < ·) ∧ ∀ w, w ∈ l ↔ Joined cs v w
  between_eq : ∀ a b, net.between a b = cs.filter (·.joins a b)
  completedAt?_eq : ∀ v, v < n → net.completedAt? v = some (cs.filter (·.maxIndex = v))

/-- The empty network files the empty list. -/
theorem files_empty (n : Nat) : (empty n).Files n [] where
  constraints_eq := rfl
  size_eq := by simp [empty, size]
  neighbors_size := by simp [empty]
  completed_size := by simp [empty]
  unaryOn?_eq v hv := by simp [empty, unaryOn?, hv]
  neighbors?_eq v hv := by
    refine ⟨[], by simp [empty, neighbors?, hv], List.Pairwise.nil, ?_⟩
    intro w
    simp [Joined]
  between_eq a b := by simp [empty, between]
  completedAt?_eq v hv := by simp [empty, completedAt?, hv]

/-- Changing an entry of a table that reaches far enough succeeds. -/
theorem exists_updateAt? {α : Type} (table : Array α) (i : Nat) (f : α → α)
    (h : i < table.size) : ∃ table', updateAt? table i f = some table' := by
  exact Option.isSome_iff_exists.1 (updateAt?_isSome_iff.2 h)

/-- The table of the largest events after one more constraint. -/
theorem Files.completed_insert {net : Network} {n : Nat} {cs : List Constraint}
    (hnet : net.Files n cs) {c : Constraint} {completed : Array (List Constraint)}
    (h : updateAt? net.completed c.maxIndex (c :: ·) = some completed) (v : Nat) (hv : v < n) :
    completed[v]? = some ((c :: cs).filter (·.maxIndex = v)) := by
  have hold := hnet.completedAt?_eq v hv
  unfold completedAt? at hold
  rw [getElem?_updateAt? h, hold]
  by_cases hmax : c.maxIndex = v
  · simp [hmax]
  · simp [hmax]

/-- A constraint with a fixed date is filed under its event. -/
theorem Files.insert?_unary {net : Network} {n : Nat} {cs : List Constraint}
    (hnet : net.Files n cs) {var : Nat} {op : Comparison} {bound : Date} (hvar : var < n) :
    ∃ net', insert? (.unary var op bound) net = some net' ∧
      net'.Files n (.unary var op bound :: cs) := by
  have hunarySize : net.unary.size = n := hnet.size_eq
  have hcompletedSize : net.completed.size = n := hnet.completed_size
  obtain ⟨completed, hcompleted⟩ := exists_updateAt? net.completed
    (Constraint.maxIndex (.unary var op bound)) (Constraint.unary var op bound :: ·)
    (by simp only [Constraint.maxIndex]; omega)
  rcases exists_updateAt? net.unary var (Constraint.unary var op bound :: ·) (by omega) with
      ⟨unary, hunary⟩
  refine ⟨{ net with constraints := .unary var op bound :: net.constraints, unary, completed },
    by simp [insert?, hcompleted, hunary], ?_⟩
  constructor
  case constraints_eq => simp [hnet.constraints_eq]
  case size_eq =>
    have hsize := size_updateAt? hunary
    simp only [size]
    omega
  case neighbors_size => exact hnet.neighbors_size
  case completed_size =>
    have hsize := size_updateAt? hcompleted
    simp only
    omega
  case unaryOn?_eq =>
    intro v hv
    have hold := hnet.unaryOn?_eq v hv
    unfold unaryOn? at hold ⊢
    rw [getElem?_updateAt? hunary, hold]
    by_cases hsame : var = v
    · simp [hsame, Constraint.isUnaryOn]
    · simp [hsame, Constraint.isUnaryOn]
  case neighbors?_eq =>
    intro v hv
    rcases hnet.neighbors?_eq v hv with ⟨l, hl, hsorted, hmem⟩
    refine ⟨l, hl, hsorted, ?_⟩
    intro w
    simp [hmem, Joined]
  case between_eq =>
    intro a b
    have hold := hnet.between_eq a b
    unfold between at hold ⊢
    simp [hold, Constraint.joins]
  case completedAt?_eq =>
    intro v hv
    exact hnet.completed_insert hcompleted v hv

/-- The list of neighbours of an event after one more constraint between two
events. -/
theorem Files.neighbors_insert {net : Network} {n : Nat} {cs : List Constraint}
    (hnet : net.Files n cs) {left right : Nat} (op : Comparison)
    {once neighbors : Array (List Nat)}
    (honce : updateAt? net.neighbors left (insertAscending right) = some once)
    (hneighbors : updateAt? once right (insertAscending left) = some neighbors)
    (v : Nat) (hv : v < n) :
    ∃ l, neighbors[v]? = some l ∧ l.Pairwise (· < ·) ∧
      ∀ w, w ∈ l ↔ Joined (.binary left op right :: cs) v w := by
  rcases hnet.neighbors?_eq v hv with ⟨l, hl, hsorted, hmem⟩
  unfold neighbors? at hl
  have hjoined : ∀ w, Joined (.binary left op right :: cs) v w ↔
      (v = left ∧ w = right) ∨ (v = right ∧ w = left) ∨ w ∈ l := by
    intro w
    rw [hmem]
    unfold Joined
    simp only [List.mem_cons, Constraint.binary.injEq]
    constructor
    · intro hcases
      rcases hcases with ⟨op', (⟨rfl, -, rfl⟩ | h) | (⟨rfl, -, rfl⟩ | h)⟩
      · exact Or.inl ⟨rfl, rfl⟩
      · exact Or.inr (Or.inr ⟨op', Or.inl h⟩)
      · exact Or.inr (Or.inl ⟨rfl, rfl⟩)
      · exact Or.inr (Or.inr ⟨op', Or.inr h⟩)
    · intro hcases
      rcases hcases with ⟨rfl, rfl⟩ | ⟨rfl, rfl⟩ | ⟨op', h⟩
      · exact ⟨op, Or.inl (Or.inl ⟨rfl, rfl, rfl⟩)⟩
      · exact ⟨op, Or.inr (Or.inl ⟨rfl, rfl, rfl⟩)⟩
      · exact ⟨op', h.imp Or.inr Or.inr⟩
  rw [getElem?_updateAt? hneighbors, getElem?_updateAt? honce, hl]
  by_cases hleft : left = v <;> by_cases hright : right = v
  · refine ⟨insertAscending left (insertAscending right l), by simp [hleft, hright],
      pairwise_insertAscending (pairwise_insertAscending hsorted), ?_⟩
    intro w
    rw [hjoined, mem_insertAscending, mem_insertAscending]
    simp [hleft, hright, eq_comm]
  · refine ⟨insertAscending right l, by simp [hleft, hright],
      pairwise_insertAscending hsorted, ?_⟩
    intro w
    rw [hjoined, mem_insertAscending]
    simp [hleft, Ne.symm hright]
  · refine ⟨insertAscending left l, by simp [hleft, hright],
      pairwise_insertAscending hsorted, ?_⟩
    intro w
    rw [hjoined, mem_insertAscending]
    simp [hright, Ne.symm hleft]
  · refine ⟨l, by simp [hleft, hright], hsorted, ?_⟩
    intro w
    rw [hjoined]
    simp [Ne.symm hleft, Ne.symm hright]

/-- A constraint between two events is filed under both. -/
theorem Files.insert?_binary {net : Network} {n : Nat} {cs : List Constraint}
    (hnet : net.Files n cs) {left right : Nat} {op : Comparison} (hleft : left < n)
    (hright : right < n) :
    ∃ net', insert? (.binary left op right) net = some net' ∧
      net'.Files n (.binary left op right :: cs) := by
  have hneighborsSize : net.neighbors.size = n := hnet.neighbors_size
  have hcompletedSize : net.completed.size = n := hnet.completed_size
  obtain ⟨completed, hcompleted⟩ := exists_updateAt? net.completed
    (Constraint.maxIndex (.binary left op right)) (Constraint.binary left op right :: ·)
    (by simp only [Constraint.maxIndex]; omega)
  rcases exists_updateAt? net.neighbors left (insertAscending right) (by omega) with ⟨once, honce⟩
  have honceSize := size_updateAt? honce
  rcases exists_updateAt? once right (insertAscending left) (by omega) with ⟨neighbors, hneighbors⟩
  have hneighborsSize' := size_updateAt? hneighbors
  refine ⟨{ net with
      constraints := .binary left op right :: net.constraints
      neighbors
      shared := net.shared.insert (Edge.between left right)
        (.binary left op right :: net.shared.getD (Edge.between left right) [])
      completed }, by simp [insert?, hcompleted, honce, hneighbors], ?_⟩
  constructor
  case constraints_eq => simp [hnet.constraints_eq]
  case size_eq => exact hnet.size_eq
  case neighbors_size =>
    simp only
    omega
  case completed_size =>
    have hsize := size_updateAt? hcompleted
    simp only
    omega
  case unaryOn?_eq =>
    intro v hv
    have hold := hnet.unaryOn?_eq v hv
    unfold unaryOn? at hold ⊢
    simp [hold, Constraint.isUnaryOn]
  case neighbors?_eq =>
    intro v hv
    exact hnet.neighbors_insert op honce hneighbors v hv
  case between_eq =>
    intro a b
    have hold := hnet.between_eq a b
    unfold between at hold ⊢
    rw [Std.HashMap.getD_insert]
    by_cases hedge : Edge.between left right = Edge.between a b
    · simp [hedge, hold, Constraint.joins]
    · simp [hedge, hold, Constraint.joins]
  case completedAt?_eq =>
    intro v hv
    exact hnet.completed_insert hcompleted v hv

/-- Filing one more constraint in front of the others keeps every query right. -/
theorem Files.insert? {net : Network} {n : Nat} {cs : List Constraint} (hnet : net.Files n cs)
    {c : Constraint} (hc : c.maxIndex < n) :
    ∃ net', Network.insert? c net = some net' ∧ net'.Files n (c :: cs) := by
  cases c with
  | unary var op bound => exact hnet.insert?_unary hc
  | binary left op right =>
      simp only [Constraint.maxIndex] at hc
      exact hnet.insert?_binary (by omega) (by omega)

/-- A list that stays within `n` events has a network of `n` events. -/
theorem exists_build? {n : Nat} {cs : List Constraint} (h : ∀ c ∈ cs, c.maxIndex < n) :
    ∃ net, build? n cs = some net ∧ net.Files n cs := by
  induction cs with
  | nil => exact ⟨empty n, rfl, files_empty n⟩
  | cons c cs ih =>
      rcases ih fun d hd => h d (List.mem_cons_of_mem c hd) with ⟨net, hbuild, hfiles⟩
      rcases hfiles.insert? (h c List.mem_cons_self) with ⟨net', hinsert, hfiles'⟩
      refine ⟨net', ?_, hfiles'⟩
      unfold build? at hbuild ⊢
      rw [List.foldrM_cons, hbuild]
      exact hinsert

/-- Filing a constraint needs its largest event. -/
theorem maxIndex_lt_of_insert? {net net' : Network} {c : Constraint}
    (h : Network.insert? c net = some net') :
    c.maxIndex < net.completed.size ∧ net'.completed.size = net.completed.size := by
  unfold Network.insert? at h
  rw [Option.bind_eq_bind, Option.bind_eq_some_iff] at h
  rcases h with ⟨completed, hcompleted, h⟩
  have hlt : c.maxIndex < net.completed.size := by
    rw [← updateAt?_isSome_iff (f := (c :: ·)), hcompleted]
    rfl
  refine ⟨hlt, ?_⟩
  rw [← size_updateAt? hcompleted]
  cases c with
  | unary var op bound =>
      simp only [Option.bind_eq_some_iff, Option.pure_def, Option.some.injEq] at h
      rcases h with ⟨unary, -, rfl⟩
      rfl
  | binary left op right =>
      simp only [Option.bind_eq_bind, Option.bind_eq_some_iff, Option.pure_def,
        Option.some.injEq] at h
      rcases h with ⟨once, -, neighbors, -, rfl⟩
      rfl

/-- A list has a network of `n` events exactly when it stays within these. -/
theorem build?_isSome_iff {n : Nat} {cs : List Constraint} :
    (build? n cs).isSome = true ↔ ∀ c ∈ cs, c.maxIndex < n := by
  constructor
  · intro h
    rcases Option.isSome_iff_exists.1 h with ⟨net, hbuild⟩
    suffices hall : net.completed.size = n ∧ ∀ c ∈ cs, c.maxIndex < n from hall.2
    clear h
    induction cs generalizing net with
    | nil =>
        cases hbuild
        simp [empty]
    | cons c cs ih =>
        unfold build? at hbuild ih
        rw [List.foldrM_cons, Option.bind_eq_bind, Option.bind_eq_some_iff] at hbuild
        rcases hbuild with ⟨net', hbuild', hinsert⟩
        rcases ih net' hbuild' with ⟨hsize, hcs⟩
        rcases maxIndex_lt_of_insert? hinsert with ⟨hlt, hsize'⟩
        rw [List.forall_mem_cons]
        exact ⟨hsize'.trans hsize, hsize ▸ hlt, hcs⟩
  · intro h
    rcases exists_build? h with ⟨net, hbuild, -⟩
    rw [hbuild]
    rfl

/-- The network of a list answers every query from the list. -/
theorem files_of_build? {n : Nat} {cs : List Constraint} {net : Network}
    (h : build? n cs = some net) : net.Files n cs := by
  have hcs := build?_isSome_iff.1 (Option.isSome_iff_exists.2 ⟨net, h⟩)
  rcases exists_build? hcs with ⟨net', hbuild, hfiles⟩
  rw [h, Option.some.injEq] at hbuild
  rw [hbuild]
  exact hfiles

/-! ## Constraints between two events -/

theorem Files.mem_between_iff {net : Network} {n : Nat} {cs : List Constraint}
    (hnet : net.Files n cs) {a b : Nat} {c : Constraint} :
    c ∈ net.between a b ↔ c ∈ cs ∧ ∃ op, c = .binary a op b ∨ c = .binary b op a := by
  rw [hnet.between_eq, List.mem_filter, Constraint.joins_iff]

/-- A network finds nothing between two events exactly when the list does not
join them. -/
theorem Files.between_eq_nil_iff {net : Network} {n : Nat} {cs : List Constraint}
    (hnet : net.Files n cs) {a b : Nat} : net.between a b = [] ↔ ¬ Joined cs a b := by
  rw [List.eq_nil_iff_forall_not_mem]
  constructor
  · rintro h ⟨op, hop | hop⟩
    · exact h _ (hnet.mem_between_iff.2 ⟨hop, op, Or.inl rfl⟩)
    · exact h _ (hnet.mem_between_iff.2 ⟨hop, op, Or.inr rfl⟩)
  · intro h c hc
    rcases hnet.mem_between_iff.1 hc with ⟨hmem, op, rfl | rfl⟩
    · exact h ⟨op, Or.inl hmem⟩
    · exact h ⟨op, Or.inr hmem⟩

/-- The constraints found between two events hold of two dates exactly when the
dates are compatible.  An event paired with itself has one date only. -/
theorem Files.all_supports_iff {net : Network} {n : Nat} {cs : List Constraint}
    (hnet : net.Files n cs) {a b : Nat} {v w : Date} (hloop : a = b → v = w) :
    (net.between a b).all (·.supports a v w) = true ↔ Compatible cs a v b w := by
  rw [List.all_eq_true]
  constructor
  · intro h op
    constructor
    · intro hop
      have hsupports := h _ (hnet.mem_between_iff.2 ⟨hop, op, Or.inl rfl⟩)
      simpa [Constraint.supports] using hsupports
    · intro hop
      have hsupports := h _ (hnet.mem_between_iff.2 ⟨hop, op, Or.inr rfl⟩)
      by_cases hsame : a = b
      · have hvw := hloop hsame
        simpa [Constraint.supports, hsame, hvw] using hsupports
      · simpa [Constraint.supports, Ne.symm hsame] using hsupports
  · intro h c hc
    rcases hnet.mem_between_iff.1 hc with ⟨hmem, op, rfl | rfl⟩
    · simpa [Constraint.supports] using (h op).1 hmem
    · by_cases hsame : a = b
      · have hvw := hloop hsame
        have hholds := (h op).2 hmem
        simpa [Constraint.supports, hsame, hvw] using hholds
      · simpa [Constraint.supports, Ne.symm hsame] using (h op).2 hmem

end Network
end DateScheduling
