/-
The quoted form of a text: what stands between the quotes names every
character of the text without ambiguity and without line breaks.

Single quotes enclose the text, unless it holds a single quote and no
double one; then double quotes do. The quote in use and the backslash are
escaped by a backslash, line feed, carriage return and tab by their
letters, and every other character that is not printable by its code point
in two, four or eight hexadecimal digits, the fewest that suffice.
-/
import VarSection.Text.Hex
import VarSection.Text.Printable

namespace VarSection.Text

/-- The escape of a character by its code point. -/
def codeEscape (c : CodePoint) : Text :=
  if c.code < 0x100 then '\\' :: 'x' :: hexDigits 2 c.code
  else if c.code < 0x10000 then '\\' :: 'u' :: hexDigits 4 c.code
  else '\\' :: 'U' :: hexDigits 8 c.code

/-- How a character is written between the given quotes. -/
def quoteChar (quote c : CodePoint) : Text :=
  if c = quote || c = '\\' then ['\\', c]
  else if c = '\n' then ['\\', 'n']
  else if c = '\r' then ['\\', 'r']
  else if c = '\t' then ['\\', 't']
  else if isPrintable c then [c]
  else codeEscape c

/-- The quote that encloses a text. -/
def quoteFor (text : Text) : CodePoint :=
  if text.contains '\'' && !text.contains '"' then '"' else '\''

/-- The quoted form of a text. -/
def quoted (text : Text) : Text :=
  quoteFor text :: text.flatMap (quoteChar (quoteFor text)) ++ [quoteFor text]

end VarSection.Text
