import DateScheduling.Domain

/-!
# Stores

A store holds one domain per event.  Operations name an event and answer
`none` when the store has no such event; they tell how many dates they took
out.

Main results:

- Theorem `Store.totalSize_replace`: replacing one domain changes the total by
  the difference of the two.
- Theorem `Store.totalSize_filter?`: what is left and what was taken out add up.
-/

namespace DateScheduling

/-- One domain per event. -/
structure Store where
  domains : Array Domain
deriving DecidableEq

namespace Store

/-- The store in which each of `n` events may take every day of a range. -/
def full (n : Nat) (r : DateRange) : Store :=
  ⟨Array.replicate n (Domain.ofRange r)⟩

/-- Number of events. -/
def size (s : Store) : Nat :=
  s.domains.size

/-- The store has no events. -/
def isEmpty (s : Store) : Bool :=
  s.domains.isEmpty

/-- The domain of an event. -/
def domain? (s : Store) (var : Nat) : Option Domain :=
  s.domains[var]?

/-- Number of dates in the domain of an event. -/
def sizeOf? (s : Store) (var : Nat) : Option Nat :=
  (s.domain? var).map Domain.size

/-- The domain of an event has a date. -/
def contains? (s : Store) (var : Nat) (day : Date) : Option Bool :=
  (s.domain? var).map (·.contains day)

/-- Number of dates in all domains together. -/
def totalSize (s : Store) : Nat :=
  s.domains.toList.foldr (fun d rest => d.size + rest) 0

/-- Some event has no date left. -/
def hasEmptyDomain (s : Store) : Bool :=
  s.domains.any Domain.isEmpty

/-- The candidates of each event, in ascending order. -/
def candidates (s : Store) : Array (List Date) :=
  s.domains.map Domain.days

/-- Put a domain in place of the one an event has. -/
def replace (s : Store) (var : Nat) (d : Domain) : Store :=
  ⟨s.domains.setIfInBounds var d⟩

/-- Keep the dates of an event that pass a test; also tells how many were taken
out. -/
def filter? (s : Store) (var : Nat) (p : Date → Bool) : Option (Store × Nat) :=
  match s.domain? var with
  | none => none
  | some d =>
      let left := d.filter p
      some (s.replace var left, d.size - left.size)

/-- Keep the dates of an event that pass a test, which may depend on how many
dates were visited before; also tells how many were taken out. -/
def retain? (s : Store) (var : Nat) (keep : Nat → Date → Bool) : Option (Store × Nat) :=
  match s.domain? var with
  | none => none
  | some d =>
      let left := d.retain keep
      some (s.replace var left, d.size - left.size)

/-- Take dates out of the domain of an event; also tells how many were there. -/
def removeAll? (s : Store) (var : Nat) (values : List Date) : Option (Store × Nat) :=
  match s.domain? var with
  | none => none
  | some d =>
      let (left, removed) := d.removeAll values
      some (s.replace var left, removed)

/-! ## Sizes -/

@[simp] theorem size_replace (s : Store) (var : Nat) (d : Domain) :
    (s.replace var d).size = s.size := by
  simp [size, replace]

theorem domain?_eq_none_iff {s : Store} {var : Nat} : s.domain? var = none ↔ s.size ≤ var := by
  simp [domain?, size]

theorem domain?_isSome_iff {s : Store} {var : Nat} :
    (s.domain? var).isSome = true ↔ var < s.size := by
  simp [domain?, size]

@[simp] theorem domain?_full {n : Nat} {r : DateRange} {var : Nat} :
    (full n r).domain? var = if var < n then some (Domain.ofRange r) else none := by
  simp [full, domain?, Array.getElem?_replicate]

/-- The replaced event has the new domain and all others keep theirs. -/
theorem domain?_replace {s : Store} {var : Nat} {d : Domain} (h : var < s.size) (other : Nat) :
    (s.replace var d).domain? other = if other = var then some d else s.domain? other := by
  simp only [replace, domain?, Array.getElem?_setIfInBounds]
  have hsize : var < s.domains.size := h
  by_cases hother : var = other
  · subst hother
    simp [hsize]
  · simp [hother, Ne.symm hother]

/-- Replacing one entry of a list changes its sum by the difference. -/
theorem foldr_add_set {α : Type} (f : α → Nat) (l : List α) (i : Nat) (a b : α)
    (h : l[i]? = some a) :
    (l.set i b).foldr (fun x rest => f x + rest) 0 + f a =
      l.foldr (fun x rest => f x + rest) 0 + f b := by
  induction l generalizing i with
  | nil => simp at h
  | cons x xs ih =>
      cases i with
      | zero =>
          simp only [List.getElem?_cons_zero, Option.some.injEq] at h
          subst h
          simp only [List.set_cons_zero, List.foldr_cons]
          omega
      | succ i =>
          simp only [List.getElem?_cons_succ] at h
          have hrec := ih i h
          simp only [List.set_cons_succ, List.foldr_cons]
          omega

/-- Replacing one domain changes the total by the difference of the two. -/
theorem totalSize_replace {s : Store} {var : Nat} {old : Domain}
    (h : s.domain? var = some old) (new : Domain) :
    (s.replace var new).totalSize + old.size = s.totalSize + new.size := by
  have hlist : s.domains.toList[var]? = some old := by
    simpa [domain?] using h
  have hsum := foldr_add_set Domain.size s.domains.toList var old new hlist
  simpa only [totalSize, replace, Array.toList_setIfInBounds] using hsum

/-- What a filter leaves and what it takes out add up. -/
theorem totalSize_filter? {s s' : Store} {var removed : Nat} {p : Date → Bool}
    (h : s.filter? var p = some (s', removed)) : s'.totalSize + removed = s.totalSize := by
  unfold filter? at h
  split at h
  · simp at h
  · rename_i d hd
    simp only [Option.some.injEq, Prod.mk.injEq] at h
    obtain ⟨rfl, rfl⟩ := h
    have hsum := totalSize_replace hd (d.filter p)
    have hle := Domain.size_filter_le p d
    omega

end Store
end DateScheduling
