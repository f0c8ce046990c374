/-
Places in a text, as a reader counts them: lines and columns start at one
and a column counts code points.

A position in a diagnostic or in a lexeme handed in from outside need not
lie in any text, so both numbers are integers.
-/
import VarSection.Text

namespace VarSection

/-- A line and a column. -/
structure Position where
  line : Int
  col : Int
deriving DecidableEq, Inhabited

namespace Position

/-- Where a text begins. -/
def start : Position := ⟨1, 1⟩

/-- The place `n` columns further on the same line. -/
def right (p : Position) (n : Nat) : Position :=
  { p with col := p.col + n }

/-- The beginning of the next line. -/
def newLine (p : Position) : Position :=
  ⟨p.line + 1, 1⟩

/-- A place in words: line and column. -/
def written (p : Position) : Text :=
  Text.ofInt p.line ++ "," ++ Text.ofInt p.col

/-- Reading order: by line, and by column on one line. -/
def le (p q : Position) : Bool :=
  p.line < q.line || (p.line == q.line && p.col ≤ q.col)

/-- The place behind a character that stands at `p`, where `next` is the
character that follows it. A line feed starts a new line, and so does a
carriage return, except that in front of a line feed it moves nothing: the
two together are one line break. -/
def after (p : Position) (c : CodePoint) (next : Option CodePoint) :
    Position :=
  if c = '\n' then p.newLine
  else if c = '\r' then
    if next = some (.char '\n') then p else p.newLine
  else p.right 1

end Position

end VarSection
