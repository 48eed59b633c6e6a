import DateScheduling.Text.CodeRange

/-!
# Blank characters

Blanks are the characters with the Unicode property White_Space.  Trimming
removes them from both ends of a text.

Main results:

- Theorem `eq_skipBlanks_iff`: what is left of a text without the blanks at its front.
-/

namespace DateScheduling
namespace Text

/-- Ranges of blank characters. -/
def blank : List (Nat × Nat) :=
  [(0x9, 0xD), (0x20, 0x20), (0x85, 0x85), (0xA0, 0xA0), (0x1680, 0x1680), (0x2000, 0x200A),
   (0x2028, 0x2029), (0x202F, 0x202F), (0x205F, 0x205F), (0x3000, 0x3000)]

/-- The character is blank. -/
def isBlank (c : Char) : Bool :=
  inRanges blank c

/-- Leave out the blanks at the front. -/
def skipBlanks (cs : List Char) : List Char :=
  cs.dropWhile isBlank

/-- Remove the blanks at both ends. -/
def trimChars (cs : List Char) : List Char :=
  (skipBlanks (skipBlanks cs).reverse).reverse

/-- Remove the blanks at both ends of a text. -/
def trim (text : String) : String :=
  String.ofList (trimChars text.toList)

/-! ## Blanks at the front -/

/-- All characters are blank. -/
def IsBlanks (cs : List Char) : Prop :=
  ∀ c ∈ cs, isBlank c = true

theorem isBlanks_nil : IsBlanks [] :=
  fun _ hc => absurd hc List.not_mem_nil

/-- The text does not begin with a blank. -/
def NoBlank (cs : List Char) : Prop :=
  ∀ c ∈ cs.head?, isBlank c = false

/-- What is left begins where the first character stands that is not blank. -/
theorem eq_skipBlanks_iff {cs rest : List Char} :
    skipBlanks cs = rest ↔ (∃ blanks, IsBlanks blanks ∧ cs = blanks ++ rest) ∧ NoBlank rest := by
  unfold skipBlanks
  constructor
  · rintro rfl
    refine ⟨⟨cs.takeWhile isBlank, ?_, List.takeWhile_append_dropWhile.symm⟩, ?_⟩
    · intro c hc
      exact List.all_eq_true.1 List.all_takeWhile c hc
    · intro c hc
      have hstop := List.head?_dropWhile_not isBlank cs
      rw [hc] at hstop
      exact hstop
  · rintro ⟨⟨blanks, hblanks, rfl⟩, hrest⟩
    rw [List.dropWhile_append_of_pos hblanks]
    cases rest with
    | nil => rfl
    | cons c rest => rw [List.dropWhile_cons_of_neg (by simp [hrest c rfl])]

end Text
end DateScheduling
