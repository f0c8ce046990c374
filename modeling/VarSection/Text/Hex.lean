/-
Hexadecimal digits.
-/
import VarSection.Text

namespace VarSection.Text

/-- The last `width` hexadecimal digits of `n`, in lower case. -/
def hexDigits : Nat → Nat → Text
  | 0, _ => []
  | width + 1, n =>
    hexDigits width (n / 16) ++ [.char (Nat.digitChar (n % 16))]

/-- The value of a hexadecimal digit. -/
def hexValue? (c : CodePoint) : Option Nat :=
  if c.within '0' '9' then some (c.code - '0'.toNat)
  else if c.within 'a' 'f' then some (c.code - 'a'.toNat + 10)
  else if c.within 'A' 'F' then some (c.code - 'A'.toNat + 10)
  else none

end VarSection.Text
