/-
What can keep an operation from giving an answer at all, as opposed to a
diagnostic about the text at hand.
-/
namespace VarSection

/-- The reasons for an operation to give up. -/
inductive Fault where
  /-- a lexeme was asked for where the table has none -/
  | outsideTable
  /-- a character was asked for in front of the text -/
  | outsideText
  /-- the lexeme in front of the first one was needed -/
  | nothingBefore
  /-- an integer with more digits than an integer may have -/
  | tooManyDigits (digits : Nat)
  /-- an array inside more arrays than there is room for -/
  | nestedTooDeep
deriving DecidableEq

/-- The wording of a fault. -/
def Fault.message : Fault → String
  | .outsideTable => "list index out of range"
  | .outsideText => "string index out of range"
  | .nothingBefore => "'NoneType' object has no attribute 'line'"
  | .tooManyDigits digits =>
    "Exceeds the limit (4300 digits) for integer string conversion: " ++
      "value has " ++ toString digits ++ " digits; " ++
      "use sys.set_int_max_str_digits() to increase the limit"
  | .nestedTooDeep => "maximum recursion depth exceeded in comparison"

end VarSection
