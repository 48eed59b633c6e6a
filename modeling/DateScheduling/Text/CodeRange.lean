/-!
# Ranges of code points

Character properties are kept as tables of inclusive ranges of code points.
-/

namespace DateScheduling
namespace Text

/-- The code point of a character lies in one of the inclusive ranges. -/
def inRanges (table : List (Nat × Nat)) (c : Char) : Bool :=
  table.any fun (first, last) => decide (first ≤ c.toNat ∧ c.toNat ≤ last)

end Text
end DateScheduling
