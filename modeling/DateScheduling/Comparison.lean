import DateScheduling.Calendar.DateText
import DateScheduling.Text.Blank
import DateScheduling.Text.Quoted

/-!
# Comparisons of dates

The six ways two dates can be compared.  A comparison with an unset side is
taken to hold, so that a partial schedule is never rejected for what it has not
decided yet.

Main results:

- Theorem `Comparison.holds_converse`: a comparison read from the other side is
  its converse.
- Theorem `Comparison.ofText_symbol`: the symbol of a comparison is read back.
-/

namespace DateScheduling

/-- A comparison of two dates. -/
inductive Comparison where
  /-- The same day. -/
  | equal
  /-- Different days. -/
  | notEqual
  /-- Strictly later. -/
  | after
  /-- Strictly earlier. -/
  | before
  /-- Later or the same day. -/
  | onOrAfter
  /-- Earlier or the same day. -/
  | onOrBefore
deriving DecidableEq

/-- A text that is not the symbol of a comparison, without the blanks around
it. -/
structure UnknownComparison where
  text : String
deriving DecidableEq

/-- What is reported about an unknown symbol. -/
def UnknownComparison.message (e : UnknownComparison) : String :=
  "unknown operator: " ++ Text.quote e.text

namespace Comparison

/-- All comparisons. -/
def all : List Comparison :=
  [equal, notEqual, after, before, onOrAfter, onOrBefore]

/-- The comparison holds of two dates. -/
def holds (op : Comparison) (left right : Date) : Bool :=
  match op with
  | equal => left = right
  | notEqual => left ≠ right
  | after => right < left
  | before => left < right
  | onOrAfter => right ≤ left
  | onOrBefore => left ≤ right

/-- The comparison holds of two dates, or one of them is unset. -/
def check (op : Comparison) : Option Date → Option Date → Bool
  | some left, some right => op.holds left right
  | _, _ => true

/-- The comparison seen from the right-hand side. -/
def converse : Comparison → Comparison
  | equal => equal
  | notEqual => notEqual
  | after => before
  | before => after
  | onOrAfter => onOrBefore
  | onOrBefore => onOrAfter

/-- A comparison as it is written. -/
def symbol : Comparison → String
  | equal => "=="
  | notEqual => "!="
  | after => ">"
  | before => "<"
  | onOrAfter => ">="
  | onOrBefore => "<="

/-- Read a comparison; blanks around the symbol do not matter. -/
def ofText (text : String) : Except UnknownComparison Comparison :=
  let trimmed := Text.trim text
  match all.find? fun op => op.symbol = trimmed with
  | some op => .ok op
  | none => .error ⟨trimmed⟩

/-! ## Basic facts -/

theorem mem_all (op : Comparison) : op ∈ all := by
  cases op <;> decide

@[simp] theorem check_some (op : Comparison) (left right : Date) :
    op.check (some left) (some right) = op.holds left right := rfl

@[simp] theorem check_none_left (op : Comparison) (right : Option Date) :
    op.check none right = true := by
  cases right <;> rfl

@[simp] theorem check_none_right (op : Comparison) (left : Option Date) :
    op.check left none = true := by
  cases left <;> rfl

/-- A comparison read from the other side is its converse. -/
@[simp] theorem holds_converse (op : Comparison) (left right : Date) :
    op.converse.holds right left = op.holds left right := by
  cases op <;> simp [holds, converse, eq_comm]

/-- There are no blanks around a symbol. -/
theorem trim_symbol (op : Comparison) : Text.trim op.symbol = op.symbol := by
  cases op <;> rfl

/-- Symbols tell comparisons apart. -/
theorem find?_symbol (op : Comparison) :
    (all.find? fun other => other.symbol = op.symbol) = some op := by
  cases op <;> decide

/-- The symbol of a comparison is read back. -/
theorem ofText_symbol (op : Comparison) : ofText op.symbol = .ok op := by
  unfold ofText
  rw [trim_symbol]
  simp only [find?_symbol]

@[simp] theorem converse_converse (op : Comparison) : op.converse.converse = op := by
  cases op <;> rfl

end Comparison
end DateScheduling
