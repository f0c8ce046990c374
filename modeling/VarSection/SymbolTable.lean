/-
The table of declared names. Names that differ only in case are one name,
and the first declaration of a name is the one that counts: a later one
changes nothing and is told of the first.
-/
import VarSection.Text.Lower
import VarSection.VarType

namespace VarSection

/-- A declared name as first written, its type and its place. -/
structure Symbol (Place : Type) where
  name : Text
  type : VarType
  place : Place
deriving DecidableEq

/-- The declared names: each symbol under the lower case of its name,
latest first. -/
structure SymbolTable (Place : Type) where
  entries : List (Text × Symbol Place)

namespace SymbolTable

variable {Place : Type}

/-- The table without names. -/
def empty : SymbolTable Place := ⟨[]⟩

/-- The symbol under a key. -/
def get? (t : SymbolTable Place) (key : Text) : Option (Symbol Place) :=
  (t.entries.find? fun entry => entry.1 == key).map (·.2)

/-- The symbol of a name, in upper or lower case. -/
def lookup (t : SymbolTable Place) (name : Text) :
    Option (Symbol Place) :=
  t.get? (Text.lower name)

/-- Whether a name is declared, in upper or lower case. -/
def contains (t : SymbolTable Place) (name : Text) : Bool :=
  (t.lookup name).isSome

/-- Enters a symbol, unless its name is declared already: then the table
stays as it is and the first declaration is returned. -/
def define (t : SymbolTable Place) (symbol : Symbol Place) :
    Option (Symbol Place) × SymbolTable Place :=
  let key := Text.lower symbol.name
  match t.get? key with
  | some first => (some first, t)
  | none => (none, ⟨(key, symbol) :: t.entries⟩)

/-- The keys in the order of declaration. -/
def keys (t : SymbolTable Place) : List Text :=
  (t.entries.map (·.1)).reverse

/-- The symbols in the order of declaration. -/
def toList (t : SymbolTable Place) : List (Symbol Place) :=
  (t.entries.map (·.2)).reverse

/-- How many names are declared. -/
def size (t : SymbolTable Place) : Nat := t.entries.length

end SymbolTable

end VarSection
