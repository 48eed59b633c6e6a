import DateScheduling.Search.Live
import DateScheduling.Solver.Run

/-!
# Live runs

A run whose search reads the cancel signal and the clock while it goes on, and
which measures how long it takes.  A model that fails its check takes no time.
-/

namespace DateScheduling
namespace Solver

variable {μ : Type → Type} [Monad μ]

/-- Solve a model, reading the cancel signal and the clock during the search. -/
def runLive (m : Model) (config : Config) (signals : Signals μ) : μ (Traced Result) := do
  let prepared := prepare m config
  match prepared.result with
  | .ok (.pending net domains stats) =>
      let ended ← Search.runLive net domains (config.limits .quiet) signals (.start domains)
      let solveTimeMs ← signals.elapsedMs
      return prepared >>= fun _ => Search.report ended >>= conclude m { stats with solveTimeMs }
  | .ok (.decided result) =>
      let solveTimeMs ← if result.status = .modelInvalid then pure 0 else signals.elapsedMs
      return prepared >>= fun _ => pure (result.timed solveTimeMs)
  | .error fault => return ⟨prepared.log, .error fault⟩

end Solver
end DateScheduling
