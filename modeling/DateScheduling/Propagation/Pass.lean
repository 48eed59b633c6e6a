import DateScheduling.Network
import DateScheduling.Store
import DateScheduling.Traced

/-!
# Pruning passes

A pruning pass takes dates out of a store with the help of a network.  The two
may have been made for different numbers of events; a pass that needs an event
one of them lacks ends with a fault.  What it took out and reported until then
stays.
-/

namespace DateScheduling

/-- What a pruning pass leaves behind. -/
structure Pass (α : Type) where
  store : Store
  log : Array LogEntry
  result : Except Fault α

/-- A pass as a computation that yields the pruned store beside its result. -/
def Pass.toTraced {α : Type} (pass : Pass α) : Traced (Store × α) :=
  ⟨pass.log, pass.result.map (pass.store, ·)⟩

/-- A pass as a computation yields the store it leaves beside its result. -/
theorem Pass.result_toTraced_iff {α : Type} {pass : Pass α} {s : Store} {a : α} :
    pass.toTraced.result = .ok (s, a) ↔ pass.store = s ∧ pass.result = .ok a := by
  rcases pass with ⟨store, log, result⟩
  cases result <;> simp [toTraced, Except.map]

end DateScheduling
