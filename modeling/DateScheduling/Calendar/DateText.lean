import DateScheduling.Calendar.Date
import DateScheduling.Text.Blank
import DateScheduling.Text.Digits

/-!
# Dates as text

A date is written `YYYY-MM-DD`.  The years 0 to 9999 have four digits and no
sign; other years have a sign and at least four digits.  The reader takes more
than the writer makes: a year with a sign may have any number of digits and one
without a sign has at most four, month and day have one or two digits, and
blanks may stand in front of each number, in front of each dash, and at the end.

Main results:

- Theorem `Date.ofChars?_eq_some_iff`: the texts that are read as a date.
- Theorem `Date.ofText?_toText`: a date that was written is read back.
-/

namespace DateScheduling
namespace Date

open Text

/-! ## Writing -/

/-- Number of digits a year is written with: four, or more if it needs them. -/
def yearWidth (year : Nat) : Nat :=
  if year < 10000 then 4 else if year < 100000 then 5 else 6

/-- The sign in front of a year; the years 0 to 9999 have none. -/
def yearSign (year : Int) : List Char :=
  if year < 0 then ['-'] else if 9999 < year then ['+'] else []

/-- A year as text. -/
def yearChars (year : Int) : List Char :=
  yearSign year ++ padded (yearWidth year.natAbs) year.natAbs

/-- A date as a list of characters. -/
def chars (d : Date) : List Char :=
  yearChars d.year ++ '-' :: padded 2 d.month ++ '-' :: padded 2 d.day

/-- A date as text. -/
def toText (d : Date) : String :=
  String.ofList d.chars

/-! ## Reading -/

/-- Read a year.  Only a sign makes room for more than four digits. -/
def year? : List Char → Option (Int × List Char)
  | '-' :: rest => (number? rest.length rest).map fun (year, rest) => (-(year : Int), rest)
  | '+' :: rest => (number? rest.length rest).map fun (year, rest) => ((year : Int), rest)
  | cs => (number? 4 cs).map fun (year, rest) => ((year : Int), rest)

/-- Read a dash and the month or the day after it. -/
def part? (cs : List Char) : Option (Nat × List Char) :=
  match skipBlanks cs with
  | '-' :: rest => number? 2 (skipBlanks rest)
  | _ => none

/-- Read a date from a list of characters. -/
def ofChars? (cs : List Char) : Option Date := do
  let (year, rest) ← year? (skipBlanks cs)
  let (month, rest) ← part? rest
  let (day, rest) ← part? rest
  if skipBlanks rest = [] then ofFields? year month day else none

/-- Read a date from text. -/
def ofText? (text : String) : Option Date :=
  ofChars? text.toList

/-! ## The texts that denote a date -/

/-- The text denotes a year. -/
inductive IsYear : List Char → Int → Prop where
  | unsigned {digits : List Char} {n : Nat} (h : IsNumeral digits n)
      (hlength : digits.length ≤ 4) : IsYear digits n
  | plus {digits : List Char} {n : Nat} (h : IsNumeral digits n) : IsYear ('+' :: digits) n
  | minus {digits : List Char} {n : Nat} (h : IsNumeral digits n) : IsYear ('-' :: digits) (-n)

/-- The text denotes a month or a day: a dash and a number of one or two digits, with blanks in
front of both. -/
inductive IsPart : List Char → Nat → Prop where
  | mk {blanks inner digits : List Char} {n : Nat} (hblanks : IsBlanks blanks)
      (hinner : IsBlanks inner) (h : IsNumeral digits n) (hlength : digits.length ≤ 2) :
      IsPart (blanks ++ '-' :: (inner ++ digits)) n

/-- The text denotes the date. -/
inductive IsDenoted (d : Date) : List Char → Prop where
  | mk {before year month day after : List Char} (hbefore : IsBlanks before)
      (hyear : IsYear year d.year) (hmonth : IsPart month d.month) (hday : IsPart day d.day)
      (hafter : IsBlanks after) : IsDenoted d (before ++ (year ++ (month ++ (day ++ after))))

/-! ## Years and parts at the front of a text -/

/-- A digit is not blank. -/
theorem isBlank_eq_false_of_isDigit {c : Char} (h : isDigit c = true) : isBlank c = false := by
  have hrange : 48 ≤ c.toNat ∧ c.toNat ≤ 57 := by
    unfold isDigit digitValue? at h
    split at h
    · assumption
    · cases h
  simp only [isBlank, blank, inRanges, List.any_cons, List.any_nil, Bool.or_false,
    Bool.or_eq_false_iff, decide_eq_false_iff_not]
  omega

/-- Nothing that is blank is a digit. -/
theorem noDigit_of_isBlanks {blanks : List Char} (h : IsBlanks blanks) : NoDigit blanks := by
  intro c hc
  have hblank := h c (List.mem_of_head? hc)
  by_cases hdigit : isDigit c = true
  · rw [isBlank_eq_false_of_isDigit hdigit] at hblank
    cases hblank
  · simpa using hdigit

/-- No number begins with a blank. -/
theorem noBlank_append_of_isNumeral {digits : List Char} {n : Nat} (h : IsNumeral digits n)
    (rest : List Char) : NoBlank (digits ++ rest) :=
  fun c hc => isBlank_eq_false_of_isDigit (h.isDigit_of_head? rest c hc)

/-- Without a sign a year has at most four digits. -/
theorem year?_of_isDigit {c : Char} (h : isDigit c = true) (rest : List Char) :
    year? (c :: rest) = (number? 4 (c :: rest)).map fun (year, rest) => ((year : Int), rest) := by
  unfold year?
  split
  · rename_i heq
    cases heq
    simp [isDigit, digitValue?] at h
  · rename_i heq
    cases heq
    simp [isDigit, digitValue?] at h
  · rfl

/-- A year is read if no digit follows it. -/
theorem year?_append {year rest : List Char} {y : Int} (hyear : IsYear year y)
    (hrest : NoDigit rest) : year? (year ++ rest) = some (y, rest) := by
  have hread : ∀ {digits : List Char} {n most : Nat}, IsNumeral digits n →
      digits.length ≤ most → number? most (digits ++ rest) = some (n, rest) :=
    fun hnumeral hlength =>
      number?_eq_some_iff.2 ⟨_, rfl, hnumeral, hlength, fun _ => hrest⟩
  have hall : ∀ digits : List Char, digits.length ≤ (digits ++ rest).length := by
    intro digits
    rw [List.length_append]
    exact Nat.le_add_right _ _
  cases hyear with
  | @unsigned _ n hnumeral hlength =>
      cases year with
      | nil => exact absurd rfl hnumeral.ne_nil
      | cons c digits =>
          have hc := hnumeral.isDigit_of_mem c List.mem_cons_self
          rw [List.cons_append, year?_of_isDigit hc, ← List.cons_append, hread hnumeral hlength]
          rfl
  | @plus digits n hnumeral =>
      rw [List.cons_append, year?, hread hnumeral (hall digits)]
      rfl
  | @minus digits n hnumeral =>
      rw [List.cons_append, year?, hread hnumeral (hall digits)]
      rfl

/-- The number of a year stands at the front of what it was read from. -/
theorem exists_of_number?_map {most : Nat} {cs rest : List Char} {f : Nat → Int} {y : Int}
    (h : ((number? most cs).map fun (year, rest) => (f year, rest)) = some (y, rest)) :
    ∃ digits n, cs = digits ++ rest ∧ IsNumeral digits n ∧ digits.length ≤ most ∧ y = f n := by
  rw [Option.map_eq_some_iff] at h
  rcases h with ⟨⟨n, left⟩, hnumber, heq⟩
  rcases number?_eq_some_iff.1 hnumber with ⟨digits, hcs, hnumeral, hlength, -⟩
  cases heq
  exact ⟨digits, n, hcs, hnumeral, hlength, rfl⟩

/-- Only years are read as years. -/
theorem exists_of_year? {cs rest : List Char} {y : Int} (h : year? cs = some (y, rest)) :
    ∃ year, cs = year ++ rest ∧ IsYear year y := by
  unfold year? at h
  split at h
  · rcases exists_of_number?_map (f := fun n => -(n : Int)) h with
        ⟨digits, n, rfl, hnumeral, -, rfl⟩
    exact ⟨'-' :: digits, rfl, .minus hnumeral⟩
  · rcases exists_of_number?_map (f := fun n => (n : Int)) h with
        ⟨digits, n, rfl, hnumeral, -, rfl⟩
    exact ⟨'+' :: digits, rfl, .plus hnumeral⟩
  · rcases exists_of_number?_map (f := fun n => (n : Int)) h with
        ⟨digits, n, rfl, hnumeral, hlength, rfl⟩
    exact ⟨digits, rfl, .unsigned hnumeral hlength⟩

/-- A month or a day is read if no digit follows it. -/
theorem part?_append {part rest : List Char} {n : Nat} (hpart : IsPart part n)
    (hrest : NoDigit rest) : part? (part ++ rest) = some (n, rest) := by
  rcases hpart with ⟨hblanks, hinner, hnumeral, hlength⟩
  rename_i blanks inner digits
  have hdash : skipBlanks (blanks ++ '-' :: (inner ++ (digits ++ rest))) =
      '-' :: (inner ++ (digits ++ rest)) := by
    refine eq_skipBlanks_iff.2 ⟨⟨blanks, hblanks, rfl⟩, ?_⟩
    intro c hc
    cases hc
    rfl
  have hnumber : skipBlanks (inner ++ (digits ++ rest)) = digits ++ rest :=
    eq_skipBlanks_iff.2 ⟨⟨inner, hinner, rfl⟩, noBlank_append_of_isNumeral hnumeral rest⟩
  unfold part?
  simp only [List.append_assoc, List.cons_append, hdash, hnumber]
  exact number?_eq_some_iff.2 ⟨digits, rfl, hnumeral, hlength, fun _ => hrest⟩

/-- Only months and days are read as such. -/
theorem exists_of_part? {cs rest : List Char} {n : Nat} (h : part? cs = some (n, rest)) :
    ∃ part, cs = part ++ rest ∧ IsPart part n := by
  unfold part? at h
  split at h
  · rename_i tail hdash
    rcases number?_eq_some_iff.1 h with ⟨digits, htail, hnumeral, hlength, -⟩
    rcases (eq_skipBlanks_iff.1 hdash).1 with ⟨blanks, hblanks, rfl⟩
    rcases (eq_skipBlanks_iff.1 htail).1 with ⟨inner, hinner, rfl⟩
    refine ⟨blanks ++ '-' :: (inner ++ digits), ?_, .mk hblanks hinner hnumeral hlength⟩
    simp
  · cases h

/-- A month or a day begins with a blank or a dash. -/
theorem IsPart.noDigit_append {part : List Char} {n : Nat} (h : IsPart part n)
    (rest : List Char) : NoDigit (part ++ rest) := by
  rcases h with ⟨hblanks, -, -, -⟩
  rename_i blanks inner digits
  intro c hc
  cases blanks with
  | nil =>
      cases hc
      decide
  | cons b blanks =>
      cases hc
      exact noDigit_of_isBlanks hblanks _ rfl

/-- A year begins with a sign or a digit. -/
theorem IsYear.noBlank_append {year : List Char} {y : Int} (h : IsYear year y)
    (rest : List Char) : NoBlank (year ++ rest) := by
  cases h with
  | unsigned hnumeral hlength => exact noBlank_append_of_isNumeral hnumeral rest
  | plus hnumeral =>
      intro c hc
      cases hc
      decide
  | minus hnumeral =>
      intro c hc
      cases hc
      decide

/-! ## What is read as a date -/

theorem ofFields?_eq_some_iff {year : Int} {month day : Nat} {d : Date} :
    ofFields? year month day = some d ↔ year = d.year ∧ month = d.month ∧ day = d.day := by
  unfold ofFields?
  constructor
  · intro h
    split at h
    · cases h
      exact ⟨rfl, rfl, rfl⟩
    · cases h
  · rintro ⟨rfl, rfl, rfl⟩
    rw [dif_pos d.isDay]

/-- A text is read as a date exactly if it denotes it. -/
theorem ofChars?_eq_some_iff {cs : List Char} {d : Date} :
    ofChars? cs = some d ↔ d.IsDenoted cs := by
  constructor
  · intro h
    unfold ofChars? at h
    simp only [Option.bind_eq_bind, Option.bind_eq_some_iff, Prod.exists] at h
    rcases h with ⟨y, cs₁, hyear, m, cs₂, hmonth, k, after, hday, hend⟩
    split at hend
    · rename_i hafter
      rcases exists_of_year? hyear with ⟨year, hcs, hisYear⟩
      rcases exists_of_part? hmonth with ⟨month, rfl, hisMonth⟩
      rcases exists_of_part? hday with ⟨day, rfl, hisDay⟩
      rcases (eq_skipBlanks_iff.1 hcs).1 with ⟨before, hbefore, rfl⟩
      rcases (eq_skipBlanks_iff.1 hafter).1 with ⟨blanks, hblanks, heq⟩
      rw [List.append_nil] at heq
      subst heq
      rcases ofFields?_eq_some_iff.1 hend with ⟨rfl, rfl, rfl⟩
      exact .mk hbefore hisYear hisMonth hisDay hblanks
    · cases hend
  · rintro ⟨hbefore, hyear, hmonth, hday, hafter⟩
    rename_i before year month day after
    have hskip : skipBlanks (before ++ (year ++ (month ++ (day ++ after)))) =
        year ++ (month ++ (day ++ after)) :=
      eq_skipBlanks_iff.2 ⟨⟨before, hbefore, rfl⟩, hyear.noBlank_append _⟩
    have hend : skipBlanks after = [] :=
      eq_skipBlanks_iff.2 ⟨⟨after, hafter, (List.append_nil after).symm⟩, nofun⟩
    unfold ofChars?
    rw [hskip, year?_append hyear (hmonth.noDigit_append _)]
    simp only [Option.bind_eq_bind, Option.bind_some, part?_append hmonth (hday.noDigit_append _),
      part?_append hday (noDigit_of_isBlanks hafter), hend, if_true]
    exact ofFields?_eq_some_iff.2 ⟨rfl, rfl, rfl⟩

example : (ofChars? " -7 - 6-05 ".toList).map chars = some "-0007-06-05".toList := by decide

example : ofChars? "12345-01-01".toList = none := by decide

/-! ## Reading back what was written -/

theorem yearWidth_bounds (year : Nat) : 4 ≤ yearWidth year ∧ yearWidth year ≤ 6 := by
  unfold yearWidth
  split
  · omega
  · split <;> omega

/-- The years that have dates fit their width. -/
theorem lt_pow_yearWidth {year : Nat} (h : year < 1000000) :
    year < Nat.pow 10 (yearWidth year) := by
  unfold yearWidth
  split
  · omega
  · split <;> omega

/-- A year denotes itself when it was written. -/
theorem isYear_yearChars {year : Int} (h : year.natAbs < 1000000) :
    IsYear (yearChars year) year := by
  have hwidth := (yearWidth_bounds year.natAbs).1
  have hnumeral := isNumeral_padded (by omega) (lt_pow_yearWidth h)
  unfold yearChars yearSign
  split
  · rename_i hneg
    have hminus := IsYear.minus hnumeral
    rw [show -(year.natAbs : Int) = year by omega] at hminus
    exact hminus
  · rename_i hnonneg
    have hsame : (year.natAbs : Int) = year := by omega
    split
    · have hplus := IsYear.plus hnumeral
      rw [hsame] at hplus
      exact hplus
    · have hfour : yearWidth year.natAbs = 4 := if_pos (by omega)
      have hlength : (padded (yearWidth year.natAbs) year.natAbs).length = 4 :=
        (length_padded _ _).trans hfour
      have hunsigned := IsYear.unsigned hnumeral (Nat.le_of_eq hlength)
      rw [hsame] at hunsigned
      exact hunsigned

/-- Two digits after a dash denote a month or a day. -/
theorem isPart_padded {n : Nat} (h : n < 100) : IsPart ('-' :: padded 2 n) n := by
  have hnumeral : IsNumeral (padded 2 n) n := isNumeral_padded (by decide) h
  have hpart := IsPart.mk isBlanks_nil isBlanks_nil hnumeral (Nat.le_of_eq (length_padded 2 n))
  exact hpart

/-- A date that was written is denoted by its text. -/
theorem isDenoted_chars (d : Date) : d.IsDenoted d.chars := by
  obtain ⟨hlow, hhigh, hm1, hm12, hd1, hdlen⟩ := d.isDay
  have hyear : d.year.natAbs < 1000000 := by
    unfold minYear at hlow
    unfold maxYear at hhigh
    omega
  have hday : d.day < 100 := by
    have hbound := Calendar.monthLength_le d.year d.month
    omega
  have hdenoted := IsDenoted.mk isBlanks_nil (isYear_yearChars hyear)
    (isPart_padded (by omega : d.month < 100)) (isPart_padded hday) isBlanks_nil
  simpa [chars] using hdenoted

/-- The text of a date is read back. -/
theorem ofText?_toText (d : Date) : ofText? d.toText = some d := by
  unfold ofText? toText
  rw [String.toList_ofList]
  exact ofChars?_eq_some_iff.2 (isDenoted_chars d)

end Date
end DateScheduling
