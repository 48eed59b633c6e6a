import DateScheduling.Proofs.Propagation.GreatestConsistency
import DateScheduling.Proofs.Propagation.UnaryFilter

/-!
# What happens to a store

A store is changed by four operations: dates of an event are retained or taken
out, or one of the two pruning passes is made.  Each of them only takes dates
out, and says how many.  So whatever is done to a store, in whatever order,
what is left and what was counted on the way add up to what was there at first.

Main results:

- Theorem `Domain.mem_removeAll_iff`: taking dates out leaves the other dates.
- Theorem `Store.Operation.exists_perform?`: what one operation does to a store.
- Theorem `Store.exists_performAll?`: what any sequence of operations does.
-/

namespace DateScheduling

/-! ## Taking dates out of a domain -/

namespace Domain

/-- Retaining dates brings in no others. -/
theorem mem_of_mem_retain {keep : Nat → Date → Bool} {d : Domain} {day : Date}
    (h : day ∈ d.retain keep) : day ∈ d := by
  have hmem : day ∈ (d.retain keep).days := h
  simp only [retain, List.mem_map, List.mem_filter, Prod.exists] at hmem
  rcases hmem with ⟨day', visited, ⟨hzip, -⟩, rfl⟩
  exact List.fst_mem_of_mem_zipIdx hzip

/-- No date is twice in a domain. -/
theorem nodup (d : Domain) : d.days.Nodup := by
  apply d.ascending.imp
  rintro a b hlt rfl
  exact Date.lt_irrefl a hlt

/-- Taking one date out leaves the other dates. -/
theorem mem_erase_iff {d : Domain} {day other : Date} :
    other ∈ d.erase day ↔ other ≠ day ∧ other ∈ d :=
  d.nodup.mem_erase_iff

/-- Taking dates out one after the other leaves the dates that are none of them,
whatever repetitions and absent dates the list has. -/
theorem mem_removeAll_iff {d : Domain} {values : List Date} {day : Date} :
    day ∈ (d.removeAll values).1 ↔ day ∈ d ∧ day ∉ values := by
  induction values generalizing d with
  | nil => simp [removeAll]
  | cons value rest ih =>
      unfold removeAll
      rw [List.mem_cons, not_or]
      split
      · simp only [ih, mem_erase_iff, and_assoc, and_left_comm]
      · rename_i habsent
        rw [contains_iff] at habsent
        rw [ih]
        constructor
        · intro h
          rcases h with ⟨hday, hrest⟩
          refine ⟨hday, ?_, hrest⟩
          rintro rfl
          exact habsent hday
        · intro h
          rcases h with ⟨hday, -, hrest⟩
          exact ⟨hday, hrest⟩

end Domain

namespace Store

variable {n : Nat} {s s' t : Store} {k k' : Nat}

/-! ## Shrinking -/

/-- The store `s'` is what is left of `s` after `removed` dates were taken out. -/
structure Shrinks (s : Store) (removed : Nat) (s' : Store) : Prop where
  size_eq : s'.size = s.size
  subset : ∀ i, s'.dates i ⊆ s.dates i
  total : removed + s'.totalSize = s.totalSize

namespace Shrinks

theorem refl (s : Store) : s.Shrinks 0 s :=
  ⟨rfl, fun _ => Set.Subset.rfl, Nat.zero_add _⟩

theorem trans (h : s.Shrinks k s') (h' : s'.Shrinks k' t) : s.Shrinks (k + k') t where
  size_eq := h'.size_eq.trans h.size_eq
  subset i := (h'.subset i).trans (h.subset i)
  total := by
    have htotal := h.total
    have htotal' := h'.total
    omega

/-- Putting fewer dates in the place of a domain shrinks the store. -/
theorem replace {var : Nat} {old new : Domain} (hold : s.domain? var = some old)
    (hsubset : ∀ day, day ∈ new → day ∈ old) (hcount : k + new.size = old.size) :
    s.Shrinks k (s.replace var new) where
  size_eq := size_replace ..
  subset i := by
    have hdomain := domain?_replace (d := new) (lt_size_of_domain? hold) i
    intro v hv
    rw [mem_dates_iff, hdomain] at hv
    by_cases hi : i = var
    · rw [if_pos hi] at hv
      rcases hv with ⟨d, hd, hv⟩
      cases hd
      rw [hi, mem_dates_of_domain? hold]
      exact hsubset v hv
    · rw [if_neg hi] at hv
      exact hv
  total := by
    have htotal := totalSize_replace hold new
    omega

end Shrinks

/-! ## Operations -/

/-- What can be done to a store.  The passes are made with the network of the
given constraints between the first `count` events. -/
inductive Operation where
  /-- Keep the dates of an event that pass a test. -/
  | retain (var : Nat) (keep : Nat → Date → Bool)
  /-- Take dates of an event out. -/
  | removeAll (var : Nat) (values : List Date)
  /-- Prune by the constraints with a fixed date. -/
  | nodeConsistency (count : Nat) (constraints : List Constraint)
  /-- Prune by the constraints between events. -/
  | arcConsistency (count : Nat) (constraints : List Constraint)

namespace Operation

/-- The operation names none but the first `n` events. -/
def Within (n : Nat) : Operation → Prop
  | retain var _ => var < n
  | removeAll var _ => var < n
  | nodeConsistency count constraints => count ≤ n ∧ ∀ c ∈ constraints, c.maxIndex < count
  | arcConsistency count constraints => count ≤ n ∧ ∀ c ∈ constraints, c.maxIndex < count

/-- The only event the operation can change, if there is such an event. -/
def target? : Operation → Option Nat
  | retain var _ => some var
  | removeAll var _ => some var
  | nodeConsistency .. => none
  | arcConsistency .. => none

/-- Carry out an operation; also tells how many dates it has taken out. -/
def perform? : Operation → Store → Option (Store × Nat)
  | retain var keep, s => s.retain? var keep
  | removeAll var values, s => s.removeAll? var values
  | nodeConsistency count constraints, s => do
      let net ← Network.build? count constraints
      let pass := DateScheduling.nodeConsistency net s
      let removed ← pass.result.toOption
      return (pass.store, removed)
  | arcConsistency count constraints, s => do
      let net ← Network.build? count constraints
      let pass := DateScheduling.arcConsistency net s
      let counts ← pass.result.toOption
      return (pass.store, counts.removed)

end Operation

/-- Carry out operations one after the other; also tells how many dates they have
taken out together. -/
def performAll? : List Operation → Store → Option (Store × Nat)
  | [], s => some (s, 0)
  | op :: rest, s => do
      let (s', removed) ← op.perform? s
      let (t, more) ← performAll? rest s'
      return (t, removed + more)

/-- What an operation on a single event does to it; the others keep their
domains. -/
theorem exists_retain? {var : Nat} (keep : Nat → Date → Bool) (h : var < s.size) :
    ∃ s' removed, s.retain? var keep = some (s', removed) ∧ s.Shrinks removed s' ∧
      ∀ i, i ≠ var → s'.domain? i = s.domain? i := by
  rcases exists_domain? h with ⟨d, hd⟩
  have hle := Domain.size_retain_le keep d
  refine ⟨s.replace var (d.retain keep), d.size - (d.retain keep).size, ?_,
    .replace hd (fun day => Domain.mem_of_mem_retain) (by omega), ?_⟩
  · simp only [retain?, hd]
  · intro i hi
    rw [domain?_replace h, if_neg hi]

theorem exists_removeAll? {var : Nat} (values : List Date) (h : var < s.size) :
    ∃ s' removed, s.removeAll? var values = some (s', removed) ∧ s.Shrinks removed s' ∧
      ∀ i, i ≠ var → s'.domain? i = s.domain? i := by
  rcases exists_domain? h with ⟨d, hd⟩
  have hcount := Domain.size_removeAll_add d values
  refine ⟨s.replace var (d.removeAll values).1, (d.removeAll values).2, ?_,
    .replace hd (fun day hday => (Domain.mem_removeAll_iff.1 hday).1) (by omega), ?_⟩
  · simp only [removeAll?, hd]
  · intro i hi
    rw [domain?_replace h, if_neg hi]

/-- An operation within the events of a store succeeds and shrinks the store; an
operation on a single event leaves the others alone. -/
theorem Operation.exists_perform? (op : Operation) (hop : op.Within s.size) :
    ∃ s' removed, op.perform? s = some (s', removed) ∧ s.Shrinks removed s' ∧
      ∀ var, op.target? = some var → ∀ i, i ≠ var → s'.domain? i = s.domain? i := by
  cases op with
  | retain var keep =>
      rcases exists_retain? keep hop with ⟨s', removed, hperform, hshrinks, hothers⟩
      refine ⟨s', removed, hperform, hshrinks, ?_⟩
      intro other hother
      cases hother
      exact hothers
  | removeAll var values =>
      rcases exists_removeAll? values hop with ⟨s', removed, hperform, hshrinks, hothers⟩
      refine ⟨s', removed, hperform, hshrinks, ?_⟩
      intro other hother
      cases hother
      exact hothers
  | nodeConsistency count constraints =>
      rcases hop with ⟨hcount, hcs⟩
      rcases Network.exists_build? hcs with ⟨net, hbuild, hnet⟩
      rcases exists_nodeConsistency hnet hcs hcount with
          ⟨s', removed, hstore, hresult, hsize, hdates, htotal⟩
      refine ⟨s', removed, ?_, ⟨hsize, fun i v hv => ((hdates i v).1 hv).1, by omega⟩, ?_⟩
      · simp [perform?, hbuild, hresult, hstore, Except.toOption]
      · intro var hvar
        cases hvar
  | arcConsistency count constraints =>
      rcases hop with ⟨hcount, hcs⟩
      rcases Network.exists_build? hcs with ⟨net, hbuild, hnet⟩
      rcases exists_arcConsistency hnet hcs hcount with
          ⟨s', counts, hstore, hresult, hgreatest, htotal⟩
      refine ⟨s', counts.removed, ?_, ⟨hgreatest.size_eq, hgreatest.subset, by omega⟩, ?_⟩
      · simp [perform?, hbuild, hresult, hstore, Except.toOption]
      · intro var hvar
        cases hvar

/-! ## Histories -/

/-- Operations within the events of a store succeed one after the other, and
together they shrink the store by the dates they count. -/
theorem exists_performAll? {ops : List Operation} (hops : ∀ op ∈ ops, op.Within s.size) :
    ∃ s' removed, performAll? ops s = some (s', removed) ∧ s.Shrinks removed s' := by
  induction ops generalizing s with
  | nil => exact ⟨s, 0, rfl, .refl s⟩
  | cons op rest ih =>
      rcases op.exists_perform? (hops op List.mem_cons_self) with
          ⟨s', removed, hperform, hshrinks, -⟩
      have hrest : ∀ other ∈ rest, other.Within s'.size := by
        intro other hother
        rw [hshrinks.size_eq]
        exact hops other (List.mem_cons_of_mem op hother)
      rcases ih hrest with ⟨t, more, hall, hshrinks'⟩
      exact ⟨t, removed + more, by simp [performAll?, hperform, hall], hshrinks.trans hshrinks'⟩

/-- One more operation comes after all the others. -/
theorem performAll?_concat {ops : List Operation} {op : Operation}
    (hall : performAll? ops s = some (s', k)) (hperform : op.perform? s' = some (t, k')) :
    performAll? (ops ++ [op]) s = some (t, k + k') := by
  induction ops generalizing s k with
  | nil =>
      cases hall
      simp [performAll?, hperform]
  | cons first rest ih =>
      simp only [performAll?, Option.bind_eq_bind, Option.bind_eq_some_iff, Option.pure_def,
        Option.some.injEq, Prod.mk.injEq, Prod.exists] at hall
      rcases hall with ⟨u, removed, hfirst, u', more, hrest, rfl, rfl⟩
      have hlater := ih hrest
      simp [performAll?, hfirst, hlater, Nat.add_assoc]

end Store
end DateScheduling
