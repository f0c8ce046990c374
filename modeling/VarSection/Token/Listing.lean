/-
The table of lexemes as text: two lines of heading and one line for each
lexeme, with line, column, class and quoted text in columns. A column is
filled up with spaces on the right and never cut.
-/
import VarSection.Token

namespace VarSection.Listing

/-- A text filled up with spaces on the right to a width. -/
def padRight (width : Nat) (text : Text) : Text :=
  text ++ Text.repeated (width - text.length) ' '

/-- Four cells set in columns. -/
def row (line col kind text : Text) : Text :=
  padRight 7 line ++ " " ++ padRight 8 col ++ " " ++ padRight 10 kind ++
    " " ++ padRight 30 text

/-- The heading: the names of the columns over a rule. -/
def heading : List Text :=
  [row "Строка" "Позиция" "Класс" "Текст", Text.repeated 58 '-']

/-- The line of a lexeme. Its place is one of a text, and so has fewer digits
than an integer may have. -/
def tokenRow (t : Token) : Text :=
  row (Text.ofInt t.pos.line) (Text.ofInt t.pos.col) t.kind.name
    (Text.quoted t.text)

/-- The lines of the listing. -/
def lines (table : List Token) : List Text :=
  heading ++ table.map tokenRow

/-- The listing as one text. -/
def text (table : List Token) : Text :=
  Text.joinWith "\n" (lines table)

end VarSection.Listing
