/-
Types of variables, as a declaration writes them.
-/
import VarSection.Text

namespace VarSection

/-- The bounds of an array index. Faulty bounds are kept as written, so the
lower one may be above the upper. -/
structure IndexRange where
  low : Int
  high : Int
deriving DecidableEq, Inhabited

/-- An index range as a declaration writes it. -/
def IndexRange.written (r : IndexRange) : Text :=
  Text.ofInt r.low ++ ".." ++ Text.ofInt r.high

/-- The type of a variable. -/
inductive VarType where
  /-- a type that is one word -/
  | scalar (name : Text)
  /-- a string, of a given size where one is written -/
  | string (size : Option Int)
  /-- an array over index ranges, with the type of its elements -/
  | array (ranges : List IndexRange) (element : VarType)
  /-- stands where a type could not be read -/
  | unknown
  /-- stands where no type was given at all -/
  | missing
deriving DecidableEq, Inhabited

namespace VarType

/-- A type as a declaration writes it. -/
def written : VarType → Text
  | .scalar name => name
  | .string none => "string"
  | .string (some size) => "string[" ++ Text.ofInt size ++ "]"
  | .array ranges element =>
    "array[" ++ Text.joinWith ", " (ranges.map IndexRange.written) ++
      "] of " ++ element.written
  | .unknown => "unknown"
  | .missing => "None"

/-- A type as a table of symbols shows it, where a missing type is shown
as an unknown one. -/
def shown : VarType → Text
  | .missing => "unknown"
  | type => type.written

end VarType

end VarSection
