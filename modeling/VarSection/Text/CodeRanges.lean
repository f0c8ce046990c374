/-
Sets of characters written as ranges of code points, the form in which a
character property is tabulated.
-/
import VarSection.Text

namespace VarSection.Text

/-- Closed ranges of code points, ascending and apart. -/
abbrev CodeRanges := List (Nat × Nat)

/-- Membership of a code point. The ranges ascend, so the search ends at
the first range that begins behind the code point. -/
def CodeRanges.containsCode : CodeRanges → Nat → Bool
  | [], _ => false
  | (low, high) :: rest, n =>
    if n < low then false else if n ≤ high then true else containsCode rest n

/-- Membership of a character. -/
def CodeRanges.contains (ranges : CodeRanges) (c : CodePoint) : Bool :=
  ranges.containsCode c.code

end VarSection.Text
