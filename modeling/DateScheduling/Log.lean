import DateScheduling.Arc
import DateScheduling.Model
import DateScheduling.Status

/-!
# The log

Everything a run reports about its progress is an entry of its log.  Each entry
has a level and a message; how long a run took is not part of its log, and
stands as `_` in the message.
-/

namespace DateScheduling

/-- How detailed a log entry is. -/
inductive Level where
  | debug
  | trace
deriving DecidableEq

/-- A level as it is written. -/
def Level.name : Level → String
  | debug => "DEBUG"
  | trace => "TRACE"

/-- Something a run reports. -/
inductive LogEntry where
  /-- The model failed its check. -/
  | rejected (error : ModelError)
  /-- The unary constraints took out dates, and so many remain in all. -/
  | nodeConsistent (removed remaining : Nat)
  /-- Revising an arc took dates out of its head, and so many are left there. -/
  | revised (arc : Arc) (removed left : Nat)
  /-- Arc consistency was reached, and so many dates remain in all. -/
  | arcConsistent (removed revisions remaining : Nat)
  /-- Pruning left an event without dates, so there is nothing to search. -/
  | emptied
  /-- All candidates of an event failed. -/
  | exhausted (var : Nat)
  /-- The search was cut short. -/
  | stopped (nodes : Nat) (stop : Stop)
  /-- The search was decided. -/
  | finished (nodes backtracks : Nat) (found : Bool)
  /-- The run ended after a search. -/
  | solved (eventCount : Nat) (status : Status)
deriving DecidableEq

namespace LogEntry

/-- Single revisions and dead ends are details. -/
def level : LogEntry → Level
  | revised .. => .trace
  | exhausted .. => .trace
  | _ => .debug

/-- What a log entry says. -/
def message : LogEntry → String
  | rejected error => "rejecting model: " ++ error.message
  | nodeConsistent removed remaining =>
      "node consistency removed " ++ removed.repr ++ " values, " ++ remaining.repr ++ " remain"
  | revised arc removed left =>
      "revise " ++ arc.head.repr ++ "->" ++ arc.tail.repr ++ ": removed " ++ removed.repr ++
        ", " ++ left.repr ++ " left"
  | arcConsistent removed revisions remaining =>
      "ac3 removed " ++ removed.repr ++ " values in " ++ revisions.repr ++ " revisions, " ++
        remaining.repr ++ " remain"
  | emptied => "propagation emptied a domain; skipping search"
  | exhausted var =>
      Constraint.eventText var ++ " exhausted at depth " ++ var.repr ++ ", backtracking"
  | stopped nodes stop =>
      "search stopped after " ++ nodes.repr ++ " nodes: " ++ stop.name
  | finished nodes backtracks found =>
      "search finished: " ++ nodes.repr ++ " nodes, " ++ backtracks.repr ++
        " backtracks, found=" ++ (if found then "true" else "false")
  | solved eventCount status =>
      "solved " ++ eventCount.repr ++ " variables: " ++ status.name ++ " in _ms"

/-- A log entry as a line of text. -/
def line (e : LogEntry) : String :=
  e.level.name ++ " " ++ e.message

end LogEntry
end DateScheduling
