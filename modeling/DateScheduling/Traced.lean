import DateScheduling.Log

/-!
# Computations with a log

Pruning and search report what they do, and may find that an event they need is
not there.  A traced computation has its log, which survives such a fault, and
its result.

Main results:

- Theorems `Traced.log_bind_ok` and `Traced.result_bind_ok`: the logs of two
  computations are joined in order.
-/

namespace DateScheduling

/-- An event that was needed and is not there. -/
inductive Fault where
  /-- The store has no domain for the event. -/
  | noDomain (var : Nat)
  /-- The network has no such event. -/
  | noEvent (var : Nat)
deriving DecidableEq

/-- A result, or the fault that prevented it, with everything reported on the
way. -/
structure Traced (α : Type) where
  log : Array LogEntry
  result : Except Fault α

namespace Traced

variable {α β : Type}

/-- A result without a log. -/
def ok (a : α) : Traced α :=
  ⟨#[], .ok a⟩

/-- A fault without a log. -/
def fail (fault : Fault) : Traced α :=
  ⟨#[], .error fault⟩

/-- Report something. -/
def report (entry : LogEntry) : Traced Unit :=
  ⟨#[entry], .ok ()⟩

/-- Go on with the result, unless there was a fault. -/
def andThen (x : Traced α) (f : α → Traced β) : Traced β :=
  match x with
  | ⟨log, .ok a⟩ =>
      let y := f a
      ⟨log ++ y.log, y.result⟩
  | ⟨log, .error fault⟩ => ⟨log, .error fault⟩

/-- The same computation with something done to its result. -/
def map (f : α → β) (x : Traced α) : Traced β :=
  ⟨x.log, x.result.map f⟩

/-- What a computation reports, line by line. -/
def lines (x : Traced α) : List String :=
  x.log.toList.map LogEntry.line

instance : Monad Traced where
  pure := ok
  bind := andThen

@[simp] theorem pure_eq (a : α) : (pure a : Traced α) = ⟨#[], .ok a⟩ := rfl

theorem bind_eq (x : Traced α) (f : α → Traced β) : x >>= f = x.andThen f := rfl

/-- The logs of two computations are joined in order. -/
theorem log_bind_ok {x : Traced α} {a : α} (h : x.result = .ok a) (f : α → Traced β) :
    (x >>= f).log = x.log ++ (f a).log := by
  obtain ⟨log, result⟩ := x
  cases h
  rfl

theorem result_bind_ok {x : Traced α} {a : α} (h : x.result = .ok a) (f : α → Traced β) :
    (x >>= f).result = (f a).result := by
  obtain ⟨log, result⟩ := x
  cases h
  rfl

theorem map_bind {γ : Type} (x : Traced α) (f : α → Traced β) (g : β → γ) :
    (x >>= f).map g = x >>= fun a => (f a).map g := by
  rcases x with ⟨log, _ | a⟩ <;> rfl

end Traced
end DateScheduling
