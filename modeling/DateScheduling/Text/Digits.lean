/-!
# Decimal digits

Numbers written with a fixed number of decimal digits, and read back from
digits.  Only the ten ASCII digits count as digits.

Main results:

- Theorem `ofDigits?_padded`: a number that fits the width is read back.
- Theorem `number?_eq_some_iff`: what number is read at the front of a text, and what is left
  of the text.
-/

namespace DateScheduling
namespace Text

/-- The digit of a number below ten; only the last decimal counts. -/
def digit (n : Nat) : Char :=
  Char.ofNat (48 + n % 10)

/-- The value of an ASCII digit. -/
def digitValue? (c : Char) : Option Nat :=
  if 48 ≤ c.toNat ∧ c.toNat ≤ 57 then some (c.toNat - 48) else none

/-- A character is a digit when it has a digit's value. -/
def isDigit (c : Char) : Bool :=
  (digitValue? c).isSome

/-- The last `width` decimal digits of a number, with leading zeros. -/
def padded : Nat → Nat → List Char
  | 0, _ => []
  | width + 1, n => padded width (n / 10) ++ [digit n]

/-- Continue reading digits after a number already read; every character has to
be a digit. -/
def readDigits? (read : Nat) : List Char → Option Nat
  | [] => some read
  | c :: rest =>
      match digitValue? c with
      | some v => readDigits? (10 * read + v) rest
      | none => none

/-- The number that a list of digits denotes. -/
def ofDigits? (cs : List Char) : Option Nat :=
  readDigits? 0 cs

/-- The digits at the front of a text, at most `most` of them. -/
def leadingDigits (most : Nat) (cs : List Char) : List Char :=
  (cs.take most).takeWhile isDigit

/-- Read a number at the front of a text.  It has at least one digit and at most `most` of them,
and ends before the first character that is none. -/
def number? (most : Nat) (cs : List Char) : Option (Nat × List Char) :=
  match leadingDigits most cs with
  | [] => none
  | c :: digits => (ofDigits? (c :: digits)).map fun n => (n, cs.drop (c :: digits).length)

/-! ## Reading back -/

@[simp] theorem digitValue?_digit (n : Nat) : digitValue? (digit n) = some (n % 10) := by
  have hlt : n % 10 < 10 := Nat.mod_lt _ (by decide)
  have hall : ∀ k, k < 10 → digitValue? (Char.ofNat (48 + k)) = some k := by decide
  exact hall _ hlt

@[simp] theorem length_padded (width n : Nat) : (padded width n).length = width := by
  induction width generalizing n with
  | zero => rfl
  | succ w ih => simp [padded, ih]

theorem readDigits?_append (read : Nat) (cs ds : List Char) :
    readDigits? read (cs ++ ds) = (readDigits? read cs).bind (readDigits? · ds) := by
  induction cs generalizing read with
  | nil => rfl
  | cons c cs ih =>
      simp only [List.cons_append, readDigits?]
      cases digitValue? c with
      | none => rfl
      | some v => exact ih _

/-- The written digits of a number are its remainder by a power of ten. -/
theorem ofDigits?_padded_mod (width n : Nat) :
    ofDigits? (padded width n) = some (n % Nat.pow 10 width) := by
  unfold ofDigits?
  induction width generalizing n with
  | zero => simp [padded, readDigits?, Nat.mod_one]
  | succ w ih =>
      have hmod : n % Nat.pow 10 (w + 1) = 10 * (n / 10 % Nat.pow 10 w) + n % 10 := by
        rw [Nat.pow_eq, Nat.pow_eq, Nat.pow_succ', Nat.mod_mul]
        omega
      simp only [padded, readDigits?_append, ih, hmod]
      simp [readDigits?]

/-- A number that fits the width is read back. -/
theorem ofDigits?_padded {width n : Nat} (h : n < Nat.pow 10 width) :
    ofDigits? (padded width n) = some n := by
  rw [ofDigits?_padded_mod, Nat.mod_eq_of_lt h]

/-! ## Numbers at the front of a text -/

/-- Digits that denote a number. -/
structure IsNumeral (digits : List Char) (n : Nat) : Prop where
  ne_nil : digits ≠ []
  value : ofDigits? digits = some n

/-- The text does not begin with a digit. -/
def NoDigit (cs : List Char) : Prop :=
  ∀ c ∈ cs.head?, isDigit c = false

theorem isDigit_of_mem_of_readDigits? {cs : List Char} {read n : Nat}
    (h : readDigits? read cs = some n) : ∀ c ∈ cs, isDigit c = true := by
  induction cs generalizing read with
  | nil => exact fun c hc => absurd hc List.not_mem_nil
  | cons c cs ih =>
      unfold readDigits? at h
      split at h
      · rename_i v hv
        rw [List.forall_mem_cons]
        exact ⟨by simp [isDigit, hv], ih h⟩
      · cases h

/-- A numeral has digits only. -/
theorem IsNumeral.isDigit_of_mem {digits : List Char} {n : Nat} (h : IsNumeral digits n) :
    ∀ c ∈ digits, isDigit c = true :=
  isDigit_of_mem_of_readDigits? h.value

/-- A text that begins with a numeral begins with a digit. -/
theorem IsNumeral.isDigit_of_head? {digits : List Char} {n : Nat} (h : IsNumeral digits n)
    (rest : List Char) : ∀ c ∈ (digits ++ rest).head?, isDigit c = true := by
  intro c hc
  cases digits with
  | nil => exact absurd rfl h.ne_nil
  | cons d digits =>
      rw [List.cons_append, List.head?_cons, Option.mem_some_iff] at hc
      rw [← hc]
      exact h.isDigit_of_mem d List.mem_cons_self

/-- The digits at the front end with the most there may be, or where a character follows that is
no digit. -/
theorem leadingDigits_append {digits rest : List Char} {most : Nat}
    (hdigits : ∀ c ∈ digits, isDigit c = true) (hlength : digits.length ≤ most)
    (hrest : digits.length < most → NoDigit rest) :
    leadingDigits most (digits ++ rest) = digits := by
  unfold leadingDigits
  rw [List.take_append, List.take_of_length_le hlength, List.takeWhile_append_of_pos hdigits]
  rcases Nat.eq_or_lt_of_le hlength with heq | hlt
  · rw [heq, Nat.sub_self, List.take_zero, List.takeWhile_nil, List.append_nil]
  · cases rest with
    | nil => rw [List.take_nil, List.takeWhile_nil, List.append_nil]
    | cons c rest =>
        have hc : isDigit c = false := hrest hlt c rfl
        have hpos : most - digits.length = most - digits.length - 1 + 1 := by omega
        rw [hpos, List.take_succ_cons, List.takeWhile_cons_of_neg (by simp [hc]), List.append_nil]

/-- A text is its leading digits, and then what does not go on with a digit unless the most there
may be were read. -/
theorem exists_eq_leadingDigits_append (most : Nat) (cs : List Char) :
    ∃ rest, cs = leadingDigits most cs ++ rest ∧ (leadingDigits most cs).length ≤ most ∧
      ((leadingDigits most cs).length < most → NoDigit rest) := by
  unfold leadingDigits
  induction cs generalizing most with
  | nil => exact ⟨[], by simp [NoDigit]⟩
  | cons c cs ih =>
      cases most with
      | zero => exact ⟨c :: cs, by simp⟩
      | succ most =>
          rw [List.take_succ_cons]
          by_cases hc : isDigit c = true
          · rcases ih most with ⟨rest, hcs, hlength, hrest⟩
            refine ⟨rest, ?_, ?_, ?_⟩
            · rw [List.takeWhile_cons_of_pos hc, List.cons_append, ← hcs]
            · rw [List.takeWhile_cons_of_pos hc, List.length_cons]
              exact Nat.succ_le_succ hlength
            · rw [List.takeWhile_cons_of_pos hc, List.length_cons]
              exact fun hlt => hrest (Nat.lt_of_succ_lt_succ hlt)
          · refine ⟨c :: cs, ?_, ?_, ?_⟩
            · rw [List.takeWhile_cons_of_neg hc, List.nil_append]
            · rw [List.takeWhile_cons_of_neg hc]
              exact Nat.zero_le _
            · intro _ d hd
              rw [List.head?_cons, Option.mem_some_iff] at hd
              rw [← hd]
              simpa using hc

/-- The number at the front of a text is the longest numeral of at most `most` digits there. -/
theorem number?_eq_some_iff {most n : Nat} {cs rest : List Char} :
    number? most cs = some (n, rest) ↔ ∃ digits, cs = digits ++ rest ∧ IsNumeral digits n ∧
      digits.length ≤ most ∧ (digits.length < most → NoDigit rest) := by
  unfold number?
  constructor
  · intro h
    rcases exists_eq_leadingDigits_append most cs with ⟨left, hcs, hlength, hleft⟩
    split at h
    · cases h
    · rename_i c digits hleading
      rw [hleading] at hcs hlength hleft
      rw [Option.map_eq_some_iff] at h
      rcases h with ⟨m, hm, heq⟩
      rw [hcs, List.drop_left, Prod.mk.injEq] at heq
      rcases heq with ⟨rfl, rfl⟩
      exact ⟨c :: digits, hcs, ⟨List.cons_ne_nil _ _, hm⟩, hlength, hleft⟩
  · rintro ⟨digits, rfl, hnumeral, hlength, hrest⟩
    rw [leadingDigits_append hnumeral.isDigit_of_mem hlength hrest]
    cases digits with
    | nil => exact absurd rfl hnumeral.ne_nil
    | cons c digits =>
        have hvalue := hnumeral.value
        simp only [hvalue, Option.map_some, List.drop_left]

/-- A number that fits the width is written as a numeral. -/
theorem isNumeral_padded {width n : Nat} (hwidth : 0 < width) (h : n < Nat.pow 10 width) :
    IsNumeral (padded width n) n where
  ne_nil heq := by
    have hlength := length_padded width n
    rw [heq, List.length_nil] at hlength
    omega
  value := ofDigits?_padded h

end Text
end DateScheduling
