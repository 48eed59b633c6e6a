import DateScheduling.Document.Basic
import DateScheduling.Model
import DateScheduling.Solver.Config
import DateScheduling.Solver.Result

/-!
# Reading and writing documents

Each type that is exchanged has a function that writes a value as a document
and one that reads it back.  Reading checks the form only: a model that is read
may still fail its check.
-/

namespace DateScheduling

open Document

/-! ## Dates and comparisons -/

/-- A date as a document. -/
def Date.toDocument (d : Date) : Document :=
  text d.toText

/-- Read a date. -/
def Date.ofDocument? (doc : Document) : Option Date :=
  (text? doc).bind Date.ofText?

namespace Comparison

/-- The name of a comparison in documents. -/
def name : Comparison → String
  | equal => "Equal"
  | notEqual => "NotEqual"
  | after => "After"
  | before => "Before"
  | onOrAfter => "OnOrAfter"
  | onOrBefore => "OnOrBefore"

/-- The comparison with a given name. -/
def ofName? (name : String) : Option Comparison :=
  all.find? fun op => op.name = name

/-- A comparison as a document. -/
def toDocument (op : Comparison) : Document :=
  text op.name

/-- Read a comparison. -/
def ofDocument? (doc : Document) : Option Comparison :=
  (choice? doc).bind ofName?

theorem ofDocument?_toDocument (op : Comparison) : ofDocument? op.toDocument = some op := by
  cases op <;> decide

end Comparison

/-! ## Constraints and models -/

namespace Constraint

/-- A constraint as a document: a record whose only field is named for the kind
of constraint. -/
def toDocument : Constraint → Document
  | unary var op bound =>
      record [("Unary", record
        [("var", ofNat var), ("op", op.toDocument), ("bound", bound.toDocument)])]
  | binary left op right =>
      record [("Binary", record
        [("left", ofNat left), ("op", op.toDocument), ("right", ofNat right)])]

/-- Read the parts of a constraint with a fixed date. -/
def unaryOfDocument? (body : Document) : Option Constraint :=
  match recordFields? [required "var", required "op", required "bound"] body with
  | some [var, op, bound] => do
      return unary (← natural? var) (← Comparison.ofDocument? op) (← Date.ofDocument? bound)
  | _ => none

/-- Read the parts of a constraint between two events. -/
def binaryOfDocument? (body : Document) : Option Constraint :=
  match recordFields? [required "left", required "op", required "right"] body with
  | some [left, op, right] => do
      return binary (← natural? left) (← Comparison.ofDocument? op) (← natural? right)
  | _ => none

/-- Read a constraint. -/
def ofDocument? : Document → Option Constraint
  | record [(kind, body)] =>
      if kind = "Unary" then unaryOfDocument? body
      else if kind = "Binary" then binaryOfDocument? body
      else none
  | _ => none

end Constraint

namespace Model

/-- A model as a document. -/
def toDocument (m : Model) : Document :=
  record [("num_variables", ofNat m.eventCount), ("start", m.range.first.toDocument),
    ("end", m.range.last.toDocument),
    ("constraints", list (m.constraints.map Constraint.toDocument))]

/-- Read a model. -/
def ofDocument? (doc : Document) : Option Model :=
  match structFields? [required "num_variables", required "start", required "end",
      required "constraints"] doc with
  | some [eventCount, start, stop, constraints] => do
      return ⟨← natural? eventCount, ⟨← Date.ofDocument? start, ← Date.ofDocument? stop⟩,
        ← list? Constraint.ofDocument? constraints⟩
  | _ => none

end Model

/-! ## Configurations and results -/

namespace Config

/-- A configuration as a document. -/
def toDocument (c : Config) : Document :=
  record [("node_consistency", bool c.nodeConsistency),
    ("arc_consistency", bool c.arcConsistency), ("max_nodes", ofNat c.maxNodes),
    ("time_limit_ms", ofNat c.timeLimitMs)]

/-- Read a configuration. -/
def ofDocument? (doc : Document) : Option Config :=
  match structFields? [required "node_consistency", required "arc_consistency",
      required "max_nodes", required "time_limit_ms"] doc with
  | some [node, arc, nodes, ms] => do
      return ⟨← bool? node, ← bool? arc, ← natural? nodes, ← natural? ms⟩
  | _ => none

end Config

namespace Status

/-- A status as a document. -/
def toDocument (s : Status) : Document :=
  text s.name

/-- Read a status. -/
def ofDocument? (doc : Document) : Option Status :=
  (choice? doc).bind ofName?

theorem ofDocument?_toDocument (s : Status) : ofDocument? s.toDocument = some s :=
  ofName?_name s

end Status

namespace Stats

/-- Counters as a document. -/
def toDocument (s : Stats) : Document :=
  record [("node_pruned", ofNat s.nodePruned), ("arc_pruned", ofNat s.arcPruned),
    ("arc_revisions", ofNat s.arcRevisions), ("nodes", ofNat s.nodes),
    ("backtracks", ofNat s.backtracks), ("solve_time_ms", ofNat s.solveTimeMs)]

/-- Read counters. -/
def ofDocument? (doc : Document) : Option Stats :=
  match structFields? [required "node_pruned", required "arc_pruned",
      required "arc_revisions", required "nodes", required "backtracks",
      required "solve_time_ms"] doc with
  | some [nodePruned, arcPruned, arcRevisions, nodes, backtracks, ms] => do
      return ⟨← natural? nodePruned, ← natural? arcPruned, ← natural? arcRevisions,
        ← natural? nodes, ← natural? backtracks, ← natural? ms⟩
  | _ => none

end Stats

namespace Result

/-- Dates as a document; absent dates are null. -/
def assignmentToDocument : Option (Array Date) → Document
  | none => null
  | some assignment => list (assignment.toList.map Date.toDocument)

/-- Read dates; null stands for absent ones. -/
def assignmentOfDocument? (doc : Document) : Option (Option (Array Date)) :=
  option? (fun items => (list? Date.ofDocument? items).map List.toArray) doc

/-- A result as a document. -/
def toDocument (r : Result) : Document :=
  record [("status", r.status.toDocument), ("assignment", assignmentToDocument r.assignment),
    ("stats", r.stats.toDocument)]

/-- Read a result; dates that are missing count as absent. -/
def ofDocument? (doc : Document) : Option Result :=
  match structFields? [required "status", nullable "assignment", required "stats"] doc with
  | some [status, assignment, stats] => do
      return ⟨← Status.ofDocument? status, ← assignmentOfDocument? assignment,
        ← Stats.ofDocument? stats⟩
  | _ => none

end Result

/-! ## Canonical form -/

/-- Read a value and write it again.  The flag tells whether the written form is
read as the same value. -/
def Document.canonical? {α : Type} [DecidableEq α] (read : Document → Option α)
    (write : α → Document) (doc : Document) : Option (Document × Bool) :=
  (read doc).map fun a => (write a, read (write a) = some a)

end DateScheduling
