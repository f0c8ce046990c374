/-
Texts as sequences of code points. Nearly every code point is a character.
The escapes of JSON can also name one half of a surrogate pair without the
other, and a text may hold such a half: it is a code point like any other,
but no string has room for it (`Text.string?`).

A string is a text without halves; where a text is expected, a string
stands for its characters.
-/
namespace VarSection

/-- A code point: a character, or one of the 2048 halves of surrogate pairs
on its own. -/
inductive CodePoint where
  | char (c : Char)
  | half (n : Fin 2048)
deriving DecidableEq, Inhabited

namespace CodePoint

instance : Coe Char CodePoint := ⟨.char⟩

/-- The number of a code point. -/
def code : CodePoint → Nat
  | .char c => c.toNat
  | .half n => 0xD800 + n

/-- The code point with a number; numbers of none count as zero. -/
def ofCode (n : Nat) : CodePoint :=
  if h : 0xD800 ≤ n ∧ n < 0xE000 then .half ⟨n - 0xD800, by omega⟩
  else .char (Char.ofNat n)

/-- The character that a code point is, if it is one. -/
def char? : CodePoint → Option Char
  | .char c => some c
  | .half _ => none

/-- Whether a code point is a half of a surrogate pair. -/
def isHalf (c : CodePoint) : Bool := c.char?.isNone

/-- Whether a code point lies between two characters, ends included. -/
def within (c : CodePoint) (first last : Char) : Bool :=
  first.toNat ≤ c.code && c.code ≤ last.toNat

end CodePoint

/-- A text: a sequence of code points. -/
abbrev Text := List CodePoint

namespace Text

/-- The text of a string. -/
def ofString (s : String) : Text := s.toList.map .char

instance : Coe String Text := ⟨ofString⟩

/-- A whole number in decimal digits. Numbers of more digits than an integer
may have (`integerDigitsMax`) are not printed at all, which is left out
here: what is read has fewer, and so has any line or column of a text. -/
def ofInt (n : Int) : Text := ofString (toString n)

/-- One character a number of times. -/
def repeated (n : Nat) (c : Char) : Text := List.replicate n (.char c)

/-- Texts in a row. -/
def join (texts : List Text) : Text := texts.flatten

/-- Texts in a row, with `between` between every two. -/
def joinWith (between : Text) (texts : List Text) : Text :=
  between.intercalate texts

/-- The order of texts by the numbers of their code points. -/
def le : Text → Text → Bool
  | [], _ => true
  | _ :: _, [] => false
  | c :: s, d :: t => c.code < d.code || (c == d && le s t)

/-- A text as a string, if it holds no half of a surrogate pair. -/
def string? (text : Text) : Option String :=
  (text.mapM CodePoint.char?).map String.ofList

/-- A text as a string to be looked at, where a half of a surrogate pair
shows as the replacement character. -/
def display (text : Text) : String :=
  String.ofList (text.map fun c => c.char?.getD '\ufffd')

end Text

end VarSection
