import DateScheduling.Propagation.ArcConsistency
import DateScheduling.Propagation.NodeConsistency
import DateScheduling.Search.Run
import DateScheduling.Solver.Config
import DateScheduling.Solver.Result

/-!
# Solving a model

A run checks the model, prunes the domains of its events, and searches what is
left.  A domain that pruning has emptied settles the matter without a search.
A model that passes its check has all the events that pruning and search look
up, so a fault can only come from a model that was not checked.
-/

namespace DateScheduling
namespace Solver

/-- The network of a model. -/
def network (m : Model) : Traced Network :=
  match Network.build? m.eventCount m.constraints with
  | some net => .ok net
  | none => .fail (.noEvent m.eventCount)

/-- Make the pruning passes that are switched on, starting from the whole range.
The pruned store comes with the counters of the passes. -/
def prune (m : Model) (net : Network) (config : Config) : Traced (Store × Stats) := do
  let full := Store.full m.eventCount m.range
  let (store, nodePruned) ←
    if config.nodeConsistency then (nodeConsistency net full).toTraced else pure (full, 0)
  let (store, counts) ←
    if config.arcConsistency then (arcConsistency net store).toTraced else pure (store, ⟨0, 0⟩)
  return (store,
    { nodePruned, arcPruned := counts.removed, arcRevisions := counts.revisions })

/-- What is known before the search. -/
inductive Prepared where
  /-- There is nothing to search. -/
  | decided (result : Result)
  /-- The candidates of the events are to be searched. -/
  | pending (net : Network) (domains : Array (List Date)) (stats : Stats)

/-- Check and prune a model. -/
def prepare (m : Model) (config : Config) : Traced Prepared :=
  match m.validate with
  | .error error => do
      .report (.rejected error)
      return .decided (.empty .modelInvalid)
  | .ok () => do
      let net ← network m
      let (store, stats) ← prune m net config
      if store.hasEmptyDomain then
        .report .emptied
        return .decided ⟨.infeasible, none, stats⟩
      else return .pending net store.candidates stats

/-- The status an outcome of the search stands for. -/
def status : Search.Outcome → Status
  | .found _ => .feasible
  | .exhausted => .infeasible
  | .stopped stop => .ofStop stop

/-- The dates an outcome of the search brings. -/
def assignment? : Search.Outcome → Option (Array Date)
  | .found assignment => some assignment
  | _ => none

/-- The result after a search. -/
def conclude (m : Model) (stats : Stats) (report : Search.Report) : Traced Result := do
  .report (.solved m.eventCount (status report.outcome))
  return ⟨status report.outcome, assignment? report.outcome,
    { stats with nodes := report.nodes, backtracks := report.backtracks }⟩

/-- Solve a model, given what the cancel signal and the clock say during the
search. -/
def run (m : Model) (config : Config) (readings : Readings) : Traced Result := do
  match ← prepare m config with
  | .decided result => return result
  | .pending net domains stats =>
      let report ← search net domains (config.limits readings)
      conclude m stats report

/-- Check a model and prune its domains only. -/
def propagate (m : Model) (config : Config) : Traced (Except ModelError Store) :=
  match m.validate with
  | .error error => return .error error
  | .ok () => do
      let net ← network m
      let (store, _) ← prune m net config
      return .ok store

/-- The dates that solve a model, or `none` if there are none. -/
def solve (m : Model) : Traced (Except ModelError (Option (Array Date))) :=
  match m.validate with
  | .error error => return .error error
  | .ok () => do
      let result ← run m {} .quiet
      return .ok result.assignment

/-- Solve models one after the other. -/
def solveBatch (models : List Model) (config : Config) : Traced (List Result) :=
  models.mapM (run · config .quiet)

end Solver
end DateScheduling
