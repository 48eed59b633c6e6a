import DateScheduling.Proofs.Propagation.RevisionLog
import DateScheduling.Text.Digits

/-!
# What the lines of a log show

A log is read line by line.  The words a line opens with tell which phase of a run has
reported it, and the digits in the line are the numbers it shows.

Main results:

- Theorem `Text.isNumeral_repr`: a number is written as a numeral.
- Theorem `LogEntry.opens_line`: the words a line opens with tell its phase.
- Theorem `LogEntry.numbers_line`: the numbers of an entry are read off its line.
- Theorem `LogEntry.revisionShown?_line`: the revision of an entry is read off its line.
-/

namespace DateScheduling

/-! ## Numbers in a text -/

namespace Text

/-- The numbers in a text, after digits that were read as `pending`, if there were any. -/
def numbersFrom : Option Nat → List Char → List Nat
  | pending, [] => pending.toList
  | pending, c :: cs =>
      match digitValue? c with
      | some v => numbersFrom (some (10 * pending.getD 0 + v)) cs
      | none => pending.toList ++ numbersFrom none cs

/-- The numbers that a text shows, one for each longest row of digits in it. -/
def numbers (text : String) : List Nat :=
  numbersFrom none text.toList

/-- The text is not empty and has no digits. -/
def isWord (cs : List Char) : Bool :=
  !cs.isEmpty && cs.all (!isDigit ·)

/-- Digits go on with the number that was begun. -/
theorem numbersFrom_digits {pending : Option Nat} {n : Nat} {digits rest : List Char}
    (hne : digits ≠ []) (h : readDigits? (pending.getD 0) digits = some n) :
    numbersFrom pending (digits ++ rest) = numbersFrom (some n) rest := by
  induction digits generalizing pending with
  | nil => exact absurd rfl hne
  | cons c digits ih =>
      unfold readDigits? at h
      split at h
      · rename_i v hv
        rw [List.cons_append, numbersFrom, hv]
        cases digits with
        | nil =>
            cases h
            rfl
        | cons d digits => exact ih (List.cons_ne_nil _ _) h
      · cases h

theorem isWord_cons_iff {c : Char} {cs : List Char} :
    isWord (c :: cs) = true ↔ digitValue? c = none ∧ (cs = [] ∨ isWord cs = true) := by
  cases cs <;> simp [isWord, isDigit]

/-- Any other text ends the number. -/
theorem numbersFrom_word {pending : Option Nat} {word rest : List Char} (h : isWord word = true) :
    numbersFrom pending (word ++ rest) = pending.toList ++ numbersFrom none rest := by
  induction word generalizing pending with
  | nil => cases h
  | cons c word ih =>
      rcases isWord_cons_iff.1 h with ⟨hc, rfl | hword⟩
      · rw [List.cons_append, numbersFrom, hc, List.nil_append]
      · rw [List.cons_append, numbersFrom, hc]
        exact congrArg _ (ih hword)

/-- A text that ends without a number. -/
theorem numbersFrom_last {pending : Option Nat} {word : List Char} (h : isWord word = true) :
    numbersFrom pending word = pending.toList := by
  rw [← List.append_nil word, numbersFrom_word h]
  exact List.append_nil _

/-- A number is written as a numeral. -/
theorem isNumeral_repr (n : Nat) : IsNumeral n.repr.toList n := by
  rw [Nat.toList_repr]
  refine ⟨Nat.toDigits_ne_nil, ?_⟩
  have hdigit : ∀ k, k < 10 → digitValue? (Nat.digitChar k) = some k := by decide
  induction n using Nat.strongRecOn with
  | ind n ih =>
      rw [Nat.toDigits_eq_if (by decide)]
      by_cases hlt : n < 10
      · simp [ofDigits?, readDigits?, hlt, hdigit n hlt]
      · have hlast : n % 10 < 10 := Nat.mod_lt _ (by decide)
        have hrest := ih (n / 10) (by omega)
        unfold ofDigits? at hrest ⊢
        rw [if_neg hlt, readDigits?_append, hrest]
        simp [readDigits?, hdigit _ hlast]
        omega

/-- A written number is read after a text that ends without one. -/
theorem numbersFrom_repr (n : Nat) (rest : List Char) :
    numbersFrom none (n.repr.toList ++ rest) = numbersFrom (some n) rest :=
  numbersFrom_digits (isNumeral_repr n).ne_nil (isNumeral_repr n).value

end Text

/-! ## Opening words -/

/-- The phases of a run that report something. -/
inductive Phase where
  | nodeSummary
  | revision
  | arcSummary
  | deadEnd
  | ending
deriving DecidableEq

/-- The line opens with words of the phase. -/
def Phase.opens (phase : Phase) (line : String) : Bool :=
  match phase with
  | nodeSummary => line.startsWith "DEBUG node consistency "
  | revision => line.startsWith "TRACE revise "
  | arcSummary => line.startsWith "DEBUG ac3 "
  | deadEnd => line.startsWith "TRACE x"
  | ending =>
      line.startsWith "DEBUG rejecting " || line.startsWith "DEBUG propagation " ||
        line.startsWith "DEBUG search " || line.startsWith "DEBUG solved "

namespace LogEntry

/-- The phase that reports an entry. -/
def phase : LogEntry → Phase
  | nodeConsistent .. => .nodeSummary
  | revised .. => .revision
  | arcConsistent .. => .arcSummary
  | exhausted _ => .deadEnd
  | rejected _ => .ending
  | emptied => .ending
  | stopped .. => .ending
  | finished .. => .ending
  | solved .. => .ending

/-- Only revisions and dead ends are details. -/
theorem level_eq_trace_iff (e : LogEntry) :
    e.level = .trace ↔ e.phase = .revision ∨ e.phase = .deadEnd := by
  cases e <;> simp [level, phase]

/-! ## The text of a line -/

theorem line_rejected (error : ModelError) :
    (rejected error).line = "DEBUG rejecting model: " ++ error.message := by
  show "DEBUG" ++ " " ++ ("rejecting model: " ++ error.message) = _
  apply String.toList_injective
  simp

theorem line_nodeConsistent (removed remaining : Nat) :
    (nodeConsistent removed remaining).line = "DEBUG node consistency removed " ++ removed.repr ++
      " values, " ++ remaining.repr ++ " remain" := by
  show "DEBUG" ++ " " ++ ("node consistency removed " ++ removed.repr ++ " values, " ++
    remaining.repr ++ " remain") = _
  apply String.toList_injective
  simp

theorem line_revised (arc : Arc) (removed left : Nat) :
    (revised arc removed left).line = "TRACE revise " ++ arc.head.repr ++ "->" ++ arc.tail.repr ++
      ": removed " ++ removed.repr ++ ", " ++ left.repr ++ " left" := by
  show "TRACE" ++ " " ++ ("revise " ++ arc.head.repr ++ "->" ++ arc.tail.repr ++ ": removed " ++
    removed.repr ++ ", " ++ left.repr ++ " left") = _
  apply String.toList_injective
  simp

theorem line_arcConsistent (removed revisions remaining : Nat) :
    (arcConsistent removed revisions remaining).line = "DEBUG ac3 removed " ++ removed.repr ++
      " values in " ++ revisions.repr ++ " revisions, " ++ remaining.repr ++ " remain" := by
  show "DEBUG" ++ " " ++ ("ac3 removed " ++ removed.repr ++ " values in " ++ revisions.repr ++
    " revisions, " ++ remaining.repr ++ " remain") = _
  apply String.toList_injective
  simp

theorem line_emptied : emptied.line = "DEBUG propagation emptied a domain; skipping search" := by
  decide

theorem line_exhausted (var : Nat) :
    (exhausted var).line = "TRACE x" ++ var.repr ++ " exhausted at depth " ++ var.repr ++
      ", backtracking" := by
  show "TRACE" ++ " " ++ ("x" ++ var.repr ++ " exhausted at depth " ++ var.repr ++
    ", backtracking") = _
  apply String.toList_injective
  simp

theorem line_stopped (nodes : Nat) (stop : Stop) :
    (stopped nodes stop).line = "DEBUG search stopped after " ++ nodes.repr ++ " nodes: " ++
      stop.name := by
  show "DEBUG" ++ " " ++ ("search stopped after " ++ nodes.repr ++ " nodes: " ++ stop.name) = _
  apply String.toList_injective
  simp

theorem line_finished (nodes backtracks : Nat) (found : Bool) :
    (finished nodes backtracks found).line = "DEBUG search finished: " ++ nodes.repr ++
      " nodes, " ++ backtracks.repr ++ " backtracks, found=" ++
      (if found then "true" else "false") := by
  show "DEBUG" ++ " " ++ ("search finished: " ++ nodes.repr ++ " nodes, " ++ backtracks.repr ++
    " backtracks, found=" ++ (if found then "true" else "false")) = _
  apply String.toList_injective
  simp

theorem line_solved (eventCount : Nat) (status : Status) :
    (solved eventCount status).line = "DEBUG solved " ++ eventCount.repr ++ " variables: " ++
      status.name ++ " in _ms" := by
  show "DEBUG" ++ " " ++ ("solved " ++ eventCount.repr ++ " variables: " ++ status.name ++
    " in _ms") = _
  apply String.toList_injective
  simp

/-- The words a line opens with tell its phase. -/
theorem opens_line (phase : Phase) (e : LogEntry) :
    phase.opens e.line = decide (e.phase = phase) := by
  cases e with
  | rejected error =>
      rw [line_rejected]
      cases phase <;> simp [Phase.opens, LogEntry.phase]
  | nodeConsistent removed remaining =>
      rw [line_nodeConsistent]
      cases phase <;> simp [Phase.opens, LogEntry.phase]
  | revised arc removed left =>
      rw [line_revised]
      cases phase <;> simp [Phase.opens, LogEntry.phase]
  | arcConsistent removed revisions remaining =>
      rw [line_arcConsistent]
      cases phase <;> simp [Phase.opens, LogEntry.phase]
  | emptied =>
      rw [line_emptied]
      cases phase <;> simp [Phase.opens, LogEntry.phase]
  | exhausted var =>
      rw [line_exhausted]
      cases phase <;> simp [Phase.opens, LogEntry.phase]
  | stopped nodes stop =>
      rw [line_stopped]
      cases phase <;> simp [Phase.opens, LogEntry.phase]
  | finished nodes backtracks found =>
      rw [line_finished]
      cases phase <;> simp [Phase.opens, LogEntry.phase]
  | solved eventCount status =>
      rw [line_solved]
      cases phase <;> simp [Phase.opens, LogEntry.phase]

/-- The level stands before everything else. -/
theorem startsWith_trace_line (e : LogEntry) :
    e.line.startsWith "TRACE " = decide (e.level = .trace) := by
  unfold line
  cases e.level <;> simp [Level.name]

/-! ## Numbers in a line -/

/-- The numbers that the line of an entry shows, from left to right. -/
def shown : LogEntry → List Nat
  | rejected error => Text.numbers error.message
  | nodeConsistent removed remaining => [removed, remaining]
  | revised arc removed left => [arc.head, arc.tail, removed, left]
  | arcConsistent removed revisions remaining => [3, removed, revisions, remaining]
  | emptied => []
  | exhausted var => [var, var]
  | stopped nodes _ => [nodes]
  | finished nodes backtracks _ => [nodes, backtracks]
  | solved eventCount _ => [eventCount]

/-- The numbers of an entry are read off its line. -/
theorem numbers_line (e : LogEntry) : Text.numbers e.line = e.shown := by
  unfold Text.numbers
  cases e with
  | rejected error =>
      rw [line_rejected, String.toList_append, Text.numbersFrom_word (by decide)]
      rfl
  | nodeConsistent removed remaining =>
      rw [line_nodeConsistent]
      simp (disch := decide) only [String.toList_append, List.append_assoc,
        Text.numbersFrom_word, Text.numbersFrom_repr, Text.numbersFrom_last]
      rfl
  | revised arc removed left =>
      rw [line_revised]
      simp (disch := decide) only [String.toList_append, List.append_assoc,
        Text.numbersFrom_word, Text.numbersFrom_repr, Text.numbersFrom_last]
      rfl
  | arcConsistent removed revisions remaining =>
      -- the name of the algorithm has a digit of its own
      have hname : "DEBUG ac3 removed ".toList =
          "DEBUG ac".toList ++ ((3).repr.toList ++ " removed ".toList) := by decide
      rw [line_arcConsistent]
      simp (disch := decide) only [String.toList_append, List.append_assoc, hname,
        Text.numbersFrom_word, Text.numbersFrom_repr, Text.numbersFrom_last]
      rfl
  | emptied =>
      rw [line_emptied]
      exact Text.numbersFrom_last (by decide)
  | exhausted var =>
      rw [line_exhausted]
      simp (disch := decide) only [String.toList_append, List.append_assoc,
        Text.numbersFrom_word, Text.numbersFrom_repr, Text.numbersFrom_last]
      rfl
  | stopped nodes stop =>
      have hname : Text.isWord stop.name.toList = true := by cases stop <;> decide
      rw [line_stopped]
      simp (disch := decide) only [String.toList_append, List.append_assoc,
        Text.numbersFrom_word, Text.numbersFrom_repr]
      rw [Text.numbersFrom_last hname]
      rfl
  | finished nodes backtracks found =>
      have hname : Text.isWord (if found then "true" else "false").toList = true := by
        cases found <;> decide
      rw [line_finished]
      simp (disch := decide) only [String.toList_append, List.append_assoc,
        Text.numbersFrom_word, Text.numbersFrom_repr]
      rw [Text.numbersFrom_last hname]
      rfl
  | solved eventCount status =>
      have hname : Text.isWord status.name.toList = true := by cases status <;> decide
      rw [line_solved]
      simp (disch := decide) only [String.toList_append, List.append_assoc,
        Text.numbersFrom_word, Text.numbersFrom_repr]
      rw [Text.numbersFrom_word hname, Text.numbersFrom_last (by decide)]
      rfl

end LogEntry

/-- The revision that a line shows, if it is about one: the events of the arc, how many dates were
taken out of the first, and how many are left. -/
def revisionShown? (line : String) : Option (Arc × Reduction) :=
  if Phase.revision.opens line then
    match Text.numbers line with
    | [head, tail, removed, left] => some (⟨head, tail⟩, ⟨removed, left⟩)
    | _ => none
  else none

namespace LogEntry

/-- The lines of revisions show them, and no other line does. -/
theorem revisionShown?_line (e : LogEntry) : revisionShown? e.line = e.revision? := by
  unfold revisionShown?
  rw [opens_line]
  cases e with
  | revised arc removed left =>
      rw [numbers_line]
      rfl
  | _ => rfl

/-- Lines and entries are selected alike if the selections agree on each of them. -/
theorem filter_map_line {kept : String → Bool} {p : LogEntry → Bool}
    (h : ∀ e, kept e.line = p e) (log : List LogEntry) :
    (log.map line).filter kept = (log.filter p).map line := by
  rw [List.filter_map]
  exact congrArg _ (List.filter_congr fun e _ => h e)

/-- The lines of a phase show its entries. -/
theorem filter_opens (log : List LogEntry) (phase : Phase) :
    (log.map line).filter phase.opens = (log.filter (·.phase = phase)).map line :=
  filter_map_line (opens_line phase) log

theorem filterMap_revisionShown? (log : List LogEntry) :
    (log.map line).filterMap revisionShown? = log.filterMap revision? := by
  rw [List.filterMap_map]
  exact List.filterMap_congr fun e _ => revisionShown?_line e

/-- A line that opens with words of a phase shows an entry of the phase. -/
theorem exists_of_opens {log : List LogEntry} {shown : String} {phase : Phase}
    (hshown : shown ∈ log.map line) (hopens : phase.opens shown = true) :
    ∃ e ∈ log, e.line = shown ∧ e.phase = phase := by
  rcases List.mem_map.1 hshown with ⟨e, he, rfl⟩
  rw [opens_line, decide_eq_true_iff] at hopens
  exact ⟨e, he, rfl, hopens⟩

/-- The lines of details show the revisions and the dead ends. -/
theorem filter_startsWith_trace (log : List LogEntry) :
    (log.map line).filter (·.startsWith "TRACE ") = (log.filter (·.level = .trace)).map line :=
  filter_map_line startsWith_trace_line log

/-- Dead ends at different events are shown by different lines. -/
theorem line_eq_line_exhausted_iff {e : LogEntry} {var : Nat} :
    e.line = (exhausted var).line ↔ e = .exhausted var := by
  refine ⟨fun h => ?_, fun h => congrArg line h⟩
  have hphase : decide (e.phase = .deadEnd) = true := by
    rw [← opens_line, h, opens_line]
    rfl
  cases e with
  | exhausted k =>
      have hnumbers := congrArg Text.numbers h
      rw [numbers_line, numbers_line] at hnumbers
      cases hnumbers
      rfl
  | _ => cases hphase

/-- As many lines show a dead end at an event as there are entries for it. -/
theorem count_line_exhausted (log : List LogEntry) (var : Nat) :
    (log.map line).count (exhausted var).line = log.count (.exhausted var) := by
  unfold List.count
  rw [List.countP_map]
  congr 1
  funext e
  rw [Function.comp, Bool.eq_iff_iff, beq_iff_eq, beq_iff_eq, line_eq_line_exhausted_iff]

end LogEntry
end DateScheduling
