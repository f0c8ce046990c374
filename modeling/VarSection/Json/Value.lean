/-
JSON values. Whole numbers and numbers with a point or exponent are
different values, and the members of an object keep the order in which
their keys first came up.
-/
import VarSection.Decimal.Shortest
import VarSection.Text.Quoted

namespace VarSection

/-- A JSON value. -/
inductive Json where
  | null
  | bool (value : Bool)
  | int (value : Int)
  | float (value : Float)
  | text (value : Text)
  | list (items : List Json)
  | object (members : List (Text × Json))
deriving Inhabited

namespace Json

/-- How the kind of a value is called in messages. -/
def kindName : Json → String
  | .null => "NoneType"
  | .bool _ => "bool"
  | .int _ => "int"
  | .float _ => "float"
  | .text _ => "str"
  | .list _ => "list"
  | .object _ => "dict"

/-- The member of an object under a key. -/
def lookup? (members : List (Text × Json)) (key : Text) :
    Option Json :=
  (members.find? (·.1 == key)).map (·.2)

/-- An object's members with a value under a key: in the key's place if it
is there, at the end if it is new. -/
def insert (members : List (Text × Json)) (key : Text) (value : Json) :
    List (Text × Json) :=
  if members.any (·.1 == key) then
    members.map fun member =>
      if member.1 == key then (key, value) else member
  else members ++ [(key, value)]

/-- The members of an object, where a later value of a key replaces an
earlier one. -/
def ofMembers (members : List (Text × Json)) : List (Text × Json) :=
  members.foldl (fun found member => insert found member.1 member.2) []

/-- Whether a value counts as a yes: neither null, false, zero nor
empty. -/
def isTruthy : Json → Bool
  | .null => false
  | .bool value => value
  | .int value => value != 0
  | .float value => value != 0
  | .text value => !value.isEmpty
  | .list items => !items.isEmpty
  | .object members => !members.isEmpty

mutual

/-- A value in words, as messages show it: texts quoted, lists and objects
in brackets. -/
def shown : Json → Text
  | .null => "None"
  | .bool true => "True"
  | .bool false => "False"
  | .int value => Text.ofInt value
  | .float value => Decimal.written value
  | .text value => Text.quoted value
  | .list items => "[" ++ Text.joinWith ", " (shownItems items) ++ "]"
  | .object members =>
    "\x7b" ++ Text.joinWith ", " (shownMembers members) ++ "\x7d"

/-- The items of a list in words. -/
def shownItems : List Json → List Text
  | [] => []
  | item :: items => shown item :: shownItems items

/-- The members of an object in words. -/
def shownMembers : List (Text × Json) → List Text
  | [] => []
  | (key, value) :: members =>
    (Text.quoted key ++ ": " ++ shown value) :: shownMembers members

end

/-- A value in words inside a sentence, where a text needs no quotes. -/
def spoken : Json → Text
  | .text value => value
  | value => value.shown

end Json

end VarSection
