/-
The words, symbols and bounds of a variable section: what the lexemes are
made of and which values a declaration may hold. Each list is in ascending
order of code points.
-/
import VarSection.Text.Lower

namespace VarSection

/-- The words that cannot be names, in lower case. -/
def keywords : List Text :=
  ["array", "boolean", "char", "integer", "of", "real", "string", "var"]

/-- The words that are a type on their own. -/
def scalarTypes : List Text :=
  ["boolean", "char", "integer", "real"]

/-- The words with which a type begins. -/
def typeKeywords : List Text :=
  ["array", "boolean", "char", "integer", "real", "string"]

/-- The symbols of two characters. -/
def twoCharSymbols : List Text := ["..", ":="]

/-- The symbols of one character. -/
def singleCharSymbols : List CodePoint :=
  ['(', ')', '*', '+', ',', '-', '.', '/', ':', ';', '<', '=', '>', '@',
   '[', ']', '^']

/-- The characters that separate lexemes within a line. -/
def blanks : List CodePoint := ['\t', '\u000b', '\u000c', ' ']

/-- The characters that end a line. -/
def lineBreaks : List CodePoint := ['\n', '\r']

/-- The least size of a sized string. -/
def stringSizeMin : Int := 1

/-- The greatest size of a sized string. -/
def stringSizeMax : Int := 255

/-- The most digits that an integer may be written with. -/
def integerDigitsMax : Nat := 4300

/-- The section shown to users as an example. -/
def sampleSection : Text := "var d: array [-10..6, 6..9] of integer;"

/-- The digits of integers in a source text. -/
def isDigit (c : CodePoint) : Bool := c.within '0' '9'

/-- The characters that a name may begin with. -/
def isNameStart (c : CodePoint) : Bool :=
  c.within 'a' 'z' || c.within 'A' 'Z' || c == '_'

/-- The characters that a name may go on with. -/
def isNameChar (c : CodePoint) : Bool := isNameStart c || isDigit c

/-- Whether a character separates lexemes. -/
def isBlank (c : CodePoint) : Bool := blanks.contains c || lineBreaks.contains c

/-- Whether a word is a keyword, in upper or lower case. -/
def isKeyword (word : Text) : Bool := keywords.contains (Text.lower word)

end VarSection
