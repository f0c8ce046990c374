/-
Integers as they are written: an optional minus sign and decimal digits,
of any script, and possibly one line feed at the very end. The value is
exact however long the number is; whether it has more digits than an
integer may have is a question of its own (`digitCount`).
-/
import VarSection.Text.DecimalDigit

namespace VarSection.Numeral

/-- A text without a line feed at its very end. -/
def dropFinalBreak (text : Text) : Text :=
  if text.getLast? = some (.char '\n') then text.dropLast else text

/-- A text without its minus sign. -/
def unsigned : Text → Text
  | .char '-' :: digits => digits
  | digits => digits

/-- The digits of a number: what is left without sign and final line
feed. -/
def digits (text : Text) : Text :=
  unsigned (dropFinalBreak text)

/-- Whether a text is an integer. -/
def isInteger (text : Text) : Bool :=
  !(digits text).isEmpty && (digits text).all Text.isDecimalDigit

/-- How many digits a number is written with, leading zeros included. -/
def digitCount (text : Text) : Nat := (digits text).length

/-- The value of digits, most significant first. -/
def natValue (digits : Text) : Nat :=
  digits.foldl (fun n c => 10 * n + (Text.digitValue? c).getD 0) 0

/-- The value of an integer. -/
def value (text : Text) : Int :=
  if text.head? = some (.char '-') then -(natValue (digits text) : Int)
  else natValue (digits text)

end VarSection.Numeral
