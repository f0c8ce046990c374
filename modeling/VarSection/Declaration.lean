/-
Declarations: names that share one type.
-/
import VarSection.Position
import VarSection.VarType

namespace VarSection

/-- A declared name and the place where it is written. -/
structure Identifier where
  name : Text
  pos : Position
deriving DecidableEq, Inhabited

/-- Names with their common type, and the place where the first one
begins. -/
structure Declaration where
  names : List Identifier
  type : VarType
  pos : Position
deriving DecidableEq, Inhabited

/-- A declaration as a section writes it. -/
def Declaration.written (d : Declaration) : Text :=
  Text.joinWith ", " (d.names.map (·.name)) ++ ": " ++ d.type.written ++ ";"

end VarSection
