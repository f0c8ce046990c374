/-
The scanner: a place in a source text together with the lexemes and the
findings gathered so far. Its line and column are kept up to date by
`advance` alone, one character at a time, so they follow the place however
the scanner is driven.

`scan` reads the rest of the text, item by item as `Lead.read` classifies
its head. The one fatal finding is a comment that the text does not close:
nothing behind its opener can be read, and the table stays without a mark
of the end.
-/
import VarSection.Cursor
import VarSection.Diagnostic
import VarSection.Fault
import VarSection.Token.Lexeme

namespace VarSection

/-- A place in a source text, its line and column, and what has been
gathered on the way: lexemes and findings, latest first. -/
structure Scanner where
  cursor : Cursor CodePoint
  pos : Position
  tokens : List Token
  errors : List Diagnostic

namespace Scanner

/-- The scanner in front of a text. -/
def ofText (text : Text) : Scanner :=
  ⟨.ofList text, .start, [], []⟩

-- ================================================== place and steps

/-- The text ahead. -/
def ahead (s : Scanner) : Text := s.cursor.ahead

/-- The character at the place; `none` at the end of the text. -/
def current? (s : Scanner) : Option CodePoint := s.ahead.head?

/-- The character at a distance from the place, `none` behind the end. A
negative index counts from the end of the text, and in front of the text
there is nothing to be read. -/
def peek (s : Scanner) (offset : Int) :
    Except Fault (Option CodePoint) :=
  let text := s.cursor.toList
  let index := s.cursor.position + offset
  let wrapped := if index < 0 then index + text.length else index
  if index ≥ text.length then .ok none
  else if wrapped < 0 then .error .outsideText
  else .ok text[wrapped.toNat]?

/-- One character forward. Behind the end of the text only the column
goes on. -/
def advance (s : Scanner) : Scanner :=
  { s with
    cursor := s.cursor.advance
    pos := match s.ahead with
      | c :: rest => s.pos.after c rest.head?
      | [] => s.pos.right 1 }

/-- A number of characters forward. -/
def advanceBy : Nat → Scanner → Scanner
  | 0, s => s
  | n + 1, s => advanceBy n s.advance

@[simp] theorem ahead_advance (s : Scanner) :
    s.advance.ahead = s.ahead.tail := by
  simp [advance, ahead, Cursor.ahead_advance]

theorem ahead_advanceBy (n : Nat) (s : Scanner) :
    (advanceBy n s).ahead = s.ahead.drop n := by
  induction n generalizing s with
  | zero => simp [advanceBy]
  | succ n ih => simp [advanceBy, ih]

-- ============================================== gathering what is found

/-- Enters a lexeme into the table. -/
def push (s : Scanner) (token : Token) : Scanner :=
  { s with tokens := token :: s.tokens }

/-- Records a finding. -/
def report (s : Scanner) (pos : Position) (cause : Cause) : Scanner :=
  { s with errors := ⟨.lexical, pos, cause⟩ :: s.errors }

/-- The lexemes in the order of the text. -/
def table (s : Scanner) : List Token := s.tokens.reverse

/-- The findings in the order in which they were made. -/
def findings (s : Scanner) : List Diagnostic := s.errors.reverse

@[simp] theorem ahead_push (s : Scanner) (token : Token) :
    (s.push token).ahead = s.ahead := rfl

@[simp] theorem ahead_report (s : Scanner) (pos : Position) (cause : Cause) :
    (s.report pos cause).ahead = s.ahead := rfl

-- =============================================== runs and comments

/-- Reads characters of a set as far as they reach. -/
def readWhile (allowed : CodePoint → Bool) (s : Scanner) :
    Text × Scanner :=
  let run := s.ahead.takeWhile allowed
  (run, advanceBy run.length s)

/-- How many characters stand in front of the first occurrence of a
closing bracket, where at least one character is left. -/
def distanceTo? (closer : Text) : Text → Option Nat
  | [] => none
  | c :: rest =>
    if closer.isPrefixOf (c :: rest) then some 0
    else (distanceTo? closer rest).map (· + 1)

/-- Skips a comment whose opening bracket stands at the place, and says
whether the text closes it. One that is not closed reaches to the end of
the text and is reported where it begins. -/
def skipComment (opener closer : Text) (s : Scanner) :
    Bool × Scanner :=
  let inside := advanceBy opener.length s
  match distanceTo? closer inside.ahead with
  | some n => (true, advanceBy (n + closer.length) inside)
  | none =>
    (false, (advanceBy inside.ahead.length inside).report s.pos
      .unclosedComment)

theorem length_ahead_skipComment_le (opener closer : Text)
    (s : Scanner) :
    (s.skipComment opener closer).2.ahead.length ≤
      s.ahead.length - opener.length := by
  unfold skipComment
  simp only
  split <;> simp [ahead_advanceBy] <;> omega

-- ==================================================== the whole text

theorem length_ahead_skipComment_lt (style : CommentStyle) (s : Scanner)
    (h : s.ahead ≠ []) :
    (s.skipComment style.opener style.closer).2.ahead.length <
      s.ahead.length := by
  have hle := length_ahead_skipComment_le style.opener style.closer s
  have hpos : 0 < s.ahead.length := List.length_pos_iff.2 h
  have : 0 < style.opener.length := by cases style <;> decide
  omega

/-- Reads items up to the end of the text, or up to a comment that is not
closed. -/
def scanItems (s : Scanner) : Scanner :=
  match _h : s.ahead with
  | [] => s
  | c :: rest =>
    match Lead.read c rest with
    | .blank => scanItems s.advance
    | .comment style =>
      let skipped := s.skipComment style.opener style.closer
      if skipped.1 then scanItems skipped.2 else skipped.2
    | .lexeme kind more =>
      scanItems ((advanceBy (more.length + 1) s).push
        ⟨kind, c :: more, s.pos⟩)
termination_by s.ahead.length
decreasing_by
  · simp [_h]
  · exact length_ahead_skipComment_lt style s (by simp [_h])
  · rw [ahead_push, ahead_advanceBy, List.length_drop, _h, List.length_cons]
    omega

/-- Reads the rest of the text and says whether it is free of findings;
only then is the table closed by the mark of the end. -/
def scan (s : Scanner) : Bool × Scanner :=
  let s := s.scanItems
  if s.errors.isEmpty then (true, s.push ⟨.ending, [], s.pos⟩)
  else (false, s)

end Scanner

/-- The lexemes of a text, or the comment that it does not close. -/
def tokenize (text : Text) : Except Diagnostic (List Token) :=
  let (clean, s) := (Scanner.ofText text).scan
  match clean, s.findings with
  | false, first :: _ => .error first
  | _, _ => .ok s.table

end VarSection
