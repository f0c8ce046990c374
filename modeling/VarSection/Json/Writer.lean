/-
JSON values as text. The members of an object are written in the order of
their keys, and characters beyond ASCII stand for themselves. A text is
either compact, or indented by two spaces a level with one item or member
a line.
-/
import VarSection.Json.Value

namespace VarSection.Json

/-- How a character is written inside quotes. -/
def escapeChar (c : CodePoint) : Text :=
  if c = '"' then ['\\', '"']
  else if c = '\\' then ['\\', '\\']
  else if c = '\n' then ['\\', 'n']
  else if c = '\r' then ['\\', 'r']
  else if c = '\t' then ['\\', 't']
  else if c = '\u0008' then ['\\', 'b']
  else if c = '\u000c' then ['\\', 'f']
  else if c.code < 0x20 then '\\' :: 'u' :: Text.hexDigits 4 c.code
  else [c]

/-- A text in quotes. -/
def writtenText (text : Text) : Text :=
  "\"" ++ text.flatMap escapeChar ++ "\""

/-- A number with a point or exponent. -/
def writtenFloat (value : Float) : Text :=
  if value.isNaN then "NaN"
  else if value.isInf then if value > 0 then "Infinity" else "-Infinity"
  else Decimal.written value

/-- Members in the order of their keys. -/
def sortMembers {α : Type} (members : List (Text × α)) :
    List (Text × α) :=
  members.mergeSort fun a b => a.1.le b.1

/-- Written items between brackets; `indent?` is the depth of the items
where each stands on a line of its own. -/
def bracketed (opener closer : Text) (indent? : Option Nat)
    (items : List Text) : Text :=
  match items, indent? with
  | [], _ => opener ++ closer
  | items, none => opener ++ Text.joinWith "," items ++ closer
  | items, some depth =>
    let line (n : Nat) : Text := "\n" ++ Text.repeated (2 * n) ' '
    opener ++ line depth ++ Text.joinWith ("," ++ line depth) items ++
      line (depth - 1) ++ closer

mutual

/-- A value as text, where `indent?` is the depth of its own items. -/
def render (indent? : Option Nat) : Json → Text
  | .null => "null"
  | .bool true => "true"
  | .bool false => "false"
  | .int value => Text.ofInt value
  | .float value => writtenFloat value
  | .text value => writtenText value
  | .list items =>
    bracketed "[" "]" indent? (renderItems (indent?.map (· + 1)) items)
  | .object members =>
    let colon : Text := if indent?.isSome then ": " else ":"
    bracketed "\x7b" "\x7d" indent? <|
      (sortMembers (renderMembers (indent?.map (· + 1)) members)).map
        fun member => writtenText member.1 ++ colon ++ member.2

/-- The items of a list as texts. -/
def renderItems (indent? : Option Nat) : List Json → List Text
  | [] => []
  | item :: items => render indent? item :: renderItems indent? items

/-- The members of an object, each value as text. -/
def renderMembers (indent? : Option Nat) :
    List (Text × Json) → List (Text × Text)
  | [] => []
  | (key, value) :: members =>
    (key, render indent? value) :: renderMembers indent? members

end

/-- A value on one line. -/
def compact (value : Json) : Text := value.render none

/-- A value over several lines, indented. -/
def indented (value : Json) : Text := value.render (some 1)

end VarSection.Json
