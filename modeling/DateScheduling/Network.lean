import Std.Data.HashMap
import DateScheduling.Agenda
import DateScheduling.Arc

/-!
# Constraint networks

A network arranges the constraints of a number of events by the events they
mention, so that pruning and search find the constraints they need without
going through all of them.  A network is built constraint by constraint; the
construction fails when a constraint mentions an event that is not there.

Main results:

- Theorem `Network.getElem?_updateAt?`: filing a constraint changes one entry of
  a table.
- Theorem `Network.pairwise_insertAscending`: neighbours are collected in order
  and without repetition.
-/

namespace DateScheduling

/-- Two events without a direction; the smaller number comes first. -/
structure Edge where
  low : Nat
  high : Nat
deriving DecidableEq, Hashable

/-- The edge between two events. -/
def Edge.between (a b : Nat) : Edge :=
  if a ≤ b then ⟨a, b⟩ else ⟨b, a⟩

theorem Edge.between_comm (a b : Nat) : between a b = between b a := by
  unfold between
  split <;> split <;> simp <;> omega

/-- Constraints arranged by the events they mention. -/
structure Network where
  /-- All constraints, in order. -/
  constraints : List Constraint
  /-- For each event, the constraints with a fixed date. -/
  unary : Array (List Constraint)
  /-- For each event, the events it shares a constraint with, ascending. -/
  neighbors : Array (List Nat)
  /-- For each edge, the constraints between its two events. -/
  shared : Std.HashMap Edge (List Constraint)
  /-- For each event, the constraints of which it is the largest event. -/
  completed : Array (List Constraint)

namespace Network

/-! ## Building a network -/

/-- Change the entry of a table at a position, if the table reaches that far. -/
def updateAt? {α : Type} (table : Array α) (i : Nat) (f : α → α) : Option (Array α) :=
  if h : i < table.size then some (table.set i (f table[i])) else none

/-- Put a number at its place in an ascending list, unless it is there. -/
def insertAscending (a : Nat) : List Nat → List Nat
  | [] => [a]
  | b :: rest =>
      if a < b then a :: b :: rest
      else if a = b then b :: rest
      else b :: insertAscending a rest

/-- The network of `n` events without constraints. -/
def empty (n : Nat) : Network where
  constraints := []
  unary := Array.replicate n []
  neighbors := Array.replicate n []
  shared := ∅
  completed := Array.replicate n []

/-- Put a constraint in front of the others. -/
def insert? (c : Constraint) (net : Network) : Option Network := do
  let completed ← updateAt? net.completed c.maxIndex (c :: ·)
  match c with
  | .unary var _ _ =>
      let unary ← updateAt? net.unary var (c :: ·)
      return { net with constraints := c :: net.constraints, unary, completed }
  | .binary left _ right =>
      let once ← updateAt? net.neighbors left (insertAscending right)
      let neighbors ← updateAt? once right (insertAscending left)
      let edge := Edge.between left right
      let shared := net.shared.insert edge (c :: net.shared.getD edge [])
      return { net with constraints := c :: net.constraints, neighbors, shared, completed }

/-- The network of `n` events with the given constraints, if they mention no
other events. -/
def build? (n : Nat) (constraints : List Constraint) : Option Network :=
  constraints.foldrM insert? (empty n)

/-! ## Looking up -/

/-- Number of events. -/
def size (net : Network) : Nat :=
  net.unary.size

/-- The constraints that compare an event with a fixed date, in order. -/
def unaryOn? (net : Network) (var : Nat) : Option (List Constraint) :=
  net.unary[var]?

/-- The events that share a constraint with an event, ascending. -/
def neighbors? (net : Network) (var : Nat) : Option (List Nat) :=
  net.neighbors[var]?

/-- The constraints between two events, in order; none if either is not there. -/
def between (net : Network) (a b : Nat) : List Constraint :=
  net.shared.getD (Edge.between a b) []

/-- The constraints of which an event is the largest, in order.  These can be
checked as soon as the events up to it have dates. -/
def completedAt? (net : Network) (var : Nat) : Option (List Constraint) :=
  net.completed[var]?

/-- All arcs on an agenda, each at its first appearance. -/
def agenda (net : Network) : Agenda Arc :=
  Agenda.ofList (net.constraints.flatMap Constraint.arcs)

/-- All arcs, each at its first appearance. -/
def arcs (net : Network) : List Arc :=
  net.agenda.toList

/-! ## Basic facts -/

theorem size_updateAt? {α : Type} {table table' : Array α} {i : Nat} {f : α → α}
    (h : updateAt? table i f = some table') : table'.size = table.size := by
  unfold updateAt? at h
  split at h
  · simp only [Option.some.injEq] at h
    subst h
    simp
  · simp at h

theorem updateAt?_isSome_iff {α : Type} {table : Array α} {i : Nat} {f : α → α} :
    (updateAt? table i f).isSome = true ↔ i < table.size := by
  unfold updateAt?
  split <;> simp_all

theorem getElem?_updateAt? {α : Type} {table table' : Array α} {i : Nat} {f : α → α}
    (h : updateAt? table i f = some table') (j : Nat) :
    table'[j]? = if i = j then table[j]?.map f else table[j]? := by
  unfold updateAt? at h
  split at h
  · rename_i hi
    simp only [Option.some.injEq] at h
    subst h
    rw [Array.getElem?_set]
    split
    · rename_i hij
      subst hij
      simp [hi]
    · rfl
  · simp at h

@[simp] theorem mem_insertAscending {a b : Nat} {l : List Nat} :
    b ∈ insertAscending a l ↔ b = a ∨ b ∈ l := by
  induction l with
  | nil => simp [insertAscending]
  | cons c rest ih =>
      simp only [insertAscending]
      split
      · simp
      · split
        · simp_all
        · simp only [List.mem_cons, ih]
          constructor
          · rintro (h | h | h) <;> simp [h]
          · rintro (h | h | h) <;> simp [h]

/-- Neighbours stay strictly ascending. -/
theorem pairwise_insertAscending {a : Nat} {l : List Nat} (h : l.Pairwise (· < ·)) :
    (insertAscending a l).Pairwise (· < ·) := by
  induction l with
  | nil => simp [insertAscending]
  | cons c rest ih =>
      obtain ⟨hc, hrest⟩ := List.pairwise_cons.1 h
      simp only [insertAscending]
      split
      · rename_i hac
        refine List.pairwise_cons.2 ⟨?_, h⟩
        intro x hx
        rcases List.mem_cons.1 hx with rfl | hx
        · exact hac
        · exact Nat.lt_trans hac (hc x hx)
      · split
        · exact h
        · rename_i hac hne
          refine List.pairwise_cons.2 ⟨?_, ih hrest⟩
          intro x hx
          rcases mem_insertAscending.1 hx with rfl | hx
          · omega
          · exact hc x hx

end Network
end DateScheduling
