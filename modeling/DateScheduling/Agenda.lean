import Std.Data.HashSet

/-!
# Agendas

An agenda is a first-in, first-out queue in which nothing waits twice.  It is
two lists, so that both ends are cheap, and a set of what is waiting, so that a
repeated item is noticed without searching the queue.

Main results:

- Theorem `Agenda.toList_pop?`: the item that has waited longest comes out.
- Theorem `Agenda.length_pop?`: taking an item out shortens the agenda by one.
- Theorem `Agenda.toList_push`: a new item goes to the end.
-/

namespace DateScheduling

/-- A queue in which nothing waits twice. -/
structure Agenda (α : Type) [BEq α] [Hashable α] where
  /-- The items to be taken first, in order. -/
  front : List α
  /-- The items added last, latest first. -/
  back : List α
  /-- The items of both lists. -/
  waiting : Std.HashSet α

namespace Agenda

variable {α : Type} [BEq α] [Hashable α]

/-- The agenda with nothing on it. -/
def empty : Agenda α :=
  ⟨[], [], ∅⟩

/-- The waiting items in the order in which they will be taken. -/
def toList (q : Agenda α) : List α :=
  q.front ++ q.back.reverse

/-- Number of waiting items. -/
def length (q : Agenda α) : Nat :=
  q.front.length + q.back.length

/-- Put an item at the end, unless it is waiting already. -/
def push (q : Agenda α) (a : α) : Agenda α :=
  if q.waiting.contains a then q
  else { q with back := a :: q.back, waiting := q.waiting.insert a }

/-- Put items at the end one after the other. -/
def pushAll (q : Agenda α) (items : List α) : Agenda α :=
  items.foldl push q

/-- The agenda of a list of items, each at its first place. -/
def ofList (items : List α) : Agenda α :=
  empty.pushAll items

/-- Take the item that has waited longest. -/
def pop? : Agenda α → Option (α × Agenda α)
  | ⟨a :: front, back, waiting⟩ => some (a, ⟨front, back, waiting.erase a⟩)
  | ⟨[], back, waiting⟩ =>
      match back.reverse with
      | a :: front => some (a, ⟨front, [], waiting.erase a⟩)
      | [] => none

/-! ## The queue seen as a list -/

@[simp] theorem toList_empty : (empty : Agenda α).toList = [] := rfl

@[simp] theorem length_toList (q : Agenda α) : q.toList.length = q.length := by
  simp [toList, length]

/-- A new item goes to the end; one that is waiting already changes nothing. -/
theorem toList_push (q : Agenda α) (a : α) :
    (q.push a).toList = if q.waiting.contains a then q.toList else q.toList ++ [a] := by
  unfold push
  split <;> simp [toList]

/-- The item that has waited longest comes out. -/
theorem toList_pop? {q rest : Agenda α} {a : α} (h : q.pop? = some (a, rest)) :
    q.toList = a :: rest.toList := by
  obtain ⟨front, back, waiting⟩ := q
  cases front with
  | cons b front =>
      simp only [pop?, Option.some.injEq, Prod.mk.injEq] at h
      obtain ⟨rfl, rfl⟩ := h
      rfl
  | nil =>
      simp only [pop?] at h
      split at h
      · rename_i b front hback
        simp only [Option.some.injEq, Prod.mk.injEq] at h
        obtain ⟨rfl, rfl⟩ := h
        simp [toList, hback]
      · simp at h

/-- Nothing comes out of an agenda exactly when nothing is waiting. -/
theorem pop?_eq_none_iff {q : Agenda α} : q.pop? = none ↔ q.toList = [] := by
  obtain ⟨front, back, waiting⟩ := q
  cases front with
  | cons b front => simp [pop?, toList]
  | nil =>
      simp only [pop?, toList, List.nil_append]
      split <;> simp_all

/-- Taking an item out shortens the agenda by one. -/
theorem length_pop? {q rest : Agenda α} {a : α} (h : q.pop? = some (a, rest)) :
    rest.length + 1 = q.length := by
  rw [← length_toList, ← length_toList, toList_pop? h, List.length_cons]

end Agenda
end DateScheduling
