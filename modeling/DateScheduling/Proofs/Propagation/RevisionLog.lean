import DateScheduling.Proofs.Propagation.GreatestConsistency
import DateScheduling.Proofs.Store.Losses

/-!
# What an arc consistency pass reports

Every revision that takes dates out of an event is reported with the number of dates it
has taken out and the number it has left.  The reports about one event are the steps of a
countdown: it starts from the dates the event had before the pass and ends with those it
has after it.  What all reports have taken out is what the pass counts.

Main results:

- Theorem `ArcConsistency.Advances.narrates`: every step reports the dates it takes out.
- Theorem `exists_arcLog`: the log of a whole pass.
-/

namespace DateScheduling

/-- Something was taken out of a number of things, and some were left. -/
structure Reduction where
  removed : Nat
  left : Nat
deriving DecidableEq

/-- The reductions lead from `start` to `last`: each takes something out of what the one
before has left. -/
inductive Countdown : Nat → List Reduction → Nat → Prop where
  | done (n : Nat) : Countdown n [] n
  | step {start last removed left : Nat} {rest : List Reduction} (hsome : 0 < removed)
      (hleft : left + removed = start) (hrest : Countdown left rest last) :
      Countdown start (⟨removed, left⟩ :: rest) last

/-- A countdown goes on from where it has come to. -/
theorem Countdown.concat {start last removed left : Nat} {steps : List Reduction}
    (h : Countdown start steps last) (hsome : 0 < removed) (hleft : left + removed = last) :
    Countdown start (steps ++ [⟨removed, left⟩]) left := by
  induction h with
  | done n => exact .step hsome hleft (.done left)
  | step hfirst hrest _ ih => exact .step hfirst hrest (ih hleft)

/-- The revision of an arc and what it has done to the dates of the head, if the entry reports
one. -/
def LogEntry.revision? : LogEntry → Option (Arc × Reduction)
  | revised arc removed left => some (arc, ⟨removed, left⟩)
  | _ => none

/-- The reductions of the dates of one event. -/
def reductionsOf (var : Nat) (revisions : List (Arc × Reduction)) : List Reduction :=
  (revisions.filter (·.1.head = var)).map Prod.snd

/-- The entries tell how the store `before` became the store `after` when `removed` dates
were taken out. -/
structure Narrates (before : Store) (entries : List LogEntry) (after : Store)
    (removed : Nat) : Prop where
  revised : ∀ e ∈ entries, ∃ arc k left, e = .revised arc k left
  countdown : ∀ var, Countdown (before.sizeAt var)
    (reductionsOf var (entries.filterMap LogEntry.revision?)) (after.sizeAt var)
  removed_eq : ((entries.filterMap LogEntry.revision?).map (·.2.removed)).sum = removed

/-- Where nothing is taken out, there is nothing to tell. -/
theorem Narrates.refl (s : Store) : Narrates s [] s 0 where
  revised _ he := absurd he List.not_mem_nil
  countdown _ := .done _
  removed_eq := rfl

namespace ArcConsistency

variable {cs : List Constraint} {net : Network} {n : Nat} {original : Store} {s s' : State}

/-- One more report about the event that lost dates. -/
theorem Revises.narrates {arc : Arc} {store : Store} {r : Revision} {entries : List LogEntry}
    {removed : Nat} (hrevises : Revises cs arc store r) (hlost : r.removed ≠ 0)
    (h : Narrates original entries store removed) :
    Narrates original (entries ++ [.revised arc r.removed r.left]) r.store
      (removed + r.removed) := by
  constructor
  case revised =>
    intro e he
    rcases List.mem_append.1 he with hold | hnew
    · exact h.revised e hold
    · exact ⟨arc, r.removed, r.left, List.mem_singleton.1 hnew⟩
  case countdown =>
    intro var
    have hold := h.countdown var
    rw [List.filterMap_append]
    by_cases hvar : arc.head = var
    · rcases hrevises.sizeOf?_eq with ⟨hbefore, hafter⟩
      subst hvar
      unfold Store.sizeAt at hold ⊢
      rw [hbefore, Option.getD_some] at hold
      rw [hafter, Option.getD_some]
      have hstep := hold.concat (Nat.pos_of_ne_zero hlost) rfl
      simpa [reductionsOf, LogEntry.revision?] using hstep
    · have hsame : r.store.sizeAt var = store.sizeAt var := by
        unfold Store.sizeAt Store.sizeOf?
        rw [hrevises.domain?_eq var (Ne.symm hvar)]
      rw [hsame]
      simpa [reductionsOf, LogEntry.revision?, hvar] using hold
  case removed_eq =>
    rw [List.filterMap_append, List.map_append, List.sum_append, h.removed_eq]
    simp [LogEntry.revision?]

/-- Every step reports the dates it takes out. -/
theorem Advances.narrates (hadvances : Advances cs s s')
    (h : Narrates original s.log.toList s.store s.removed) :
    Narrates original s'.log.toList s'.store s'.removed := by
  cases hadvances with
  | kept _ _ => exact h
  | pruned _ hrevises hlost _ =>
      simp only [Array.toList_push]
      exact hrevises.narrates hlost h

end ArcConsistency

/-- The log of a pass reports all revisions that took dates out, and then the counters of
the pass and the dates that remain. -/
theorem exists_arcLog {net : Network} {n : Nat} {cs : List Constraint} (hnet : net.Files n cs)
    (hcs : ∀ c ∈ cs, c.maxIndex < n) {s : Store} (hsize : n ≤ s.size) :
    ∃ entries counts, (arcConsistency net s).result = .ok counts ∧
      (arcConsistency net s).log.toList = entries ++
        [.arcConsistent counts.removed counts.revisions (arcConsistency net s).store.totalSize] ∧
      Narrates s entries (arcConsistency net s).store counts.removed := by
  rcases exists_last hnet hcs hsize
      (P := fun t => Narrates s t.log.toList t.store t.removed)
      (fun _ _ _ hadvances => hadvances.narrates) (Narrates.refl s) with
      ⟨last, hstore, hresult, hlog, -, -, hnarrates⟩
  refine ⟨last.log.toList, _, hresult, ?_, ?_⟩
  · rw [hlog, hstore, Array.toList_push]
  · rw [hstore]
    exact hnarrates

end DateScheduling
