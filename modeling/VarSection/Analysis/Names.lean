/-
Names and lists of names. Lexemes written without a gap are one name,
however the text was cut into lexemes, and the name is judged as a whole.
-/
import VarSection.Analysis.Recovery

namespace VarSection

/-- Whether a text is a name, disregarding one line feed at its very end:
a letter or underscore, then letters, digits and underscores. -/
def isName (text : Text) : Bool :=
  match Numeral.dropFinalBreak text with
  | [] => false
  | c :: rest => isNameStart c && rest.all isNameChar

/-- Whether a text may be declared as a name. -/
def isValidName (text : Text) : Bool :=
  isName text && !isKeyword text

/-- Whether lexemes of a class can be part of a written name. -/
def Kind.isNamePart : Kind → Bool
  | .identifier | .number | .keyword | .unknown => true
  | .symbol | .ending => false

/-- The lexemes that go on with a name after its lexeme `last`: each
begins right where the one before it ends. -/
def gluedRun (last : Token) : List Token → List Token
  | [] => []
  | t :: rest =>
    if t.pos = last.endPos ∧ t.kind.isNamePart then t :: gluedRun t rest
    else []

namespace Analysis

/-- Reads a name, which begins with the current lexeme. -/
def readName (a : Analysis) : Identifier × Analysis :=
  let first := a.current
  let a := a.next
  let more := gluedRun first a.upcoming
  let a := nextBy more.length a
  let name := Text.join ((first :: more).map (·.text))
  (⟨name, first.pos⟩,
    if isValidName name then a else a.report first.pos (.invalidName name))

/-- Whether the current lexeme can be read as a name behind a comma. A
keyword can, if it stands on the line of the comma and does not open a
block. -/
def atNameAfter (a : Analysis) (comma : Token) : Bool :=
  match a.current.kind with
  | .identifier | .number | .unknown => true
  | .keyword => !a.atKeyword "var" && a.current.line == comma.line
  | .symbol | .ending => false

/-- Gives up a list of names behind its last comma. A misplaced symbol on
the line of the comma is passed; anything else is left to what follows. -/
def abandonNames (a : Analysis) (comma : Token) : Analysis :=
  let token := a.current
  let a := (a.report token.pos .nameExpected).recover
  if token.kind == .symbol && !(token.text == ":" || token.text == ";") &&
      token.line == comma.line then a.next
  else a

theorem left_readName_le (a : Analysis) : a.readName.2.left ≤ a.left := by
  unfold readName
  simp only
  have h := Nat.le_trans (left_nextBy_le
    (gluedRun a.current a.next.upcoming).length a.next) (left_next_le a)
  split
  · exact h
  · rw [left_congr (cursor_report ..)]; exact h

/-- A name behind a comma is read only when the comma was unread. -/
theorem left_next_lt_of_comma {a : Analysis} (hcomma : a.atSymbol ",")
    (hname : a.next.atNameAfter a.current) : a.next.left < a.left := by
  have hkind : a.current.kind = .symbol := by
    simp [atSymbol, Token.isSymbol] at hcomma
    exact hcomma.1
  cases hahead : a.cursor.ahead with
  | cons t rest =>
    have hcurrent : a.current = t := by simp [current, hahead]
    exact left_next_lt (t := t) (by simp [hahead])
      (by simp [← hcurrent, hkind])
  | nil =>
    have hcurrent : a.next.current = a.current := by
      unfold next
      split
      · rfl
      · unfold current Cursor.advance
        simp [hahead]
    simp [atNameAfter, hcurrent, hkind] at hname

/-- Reads the names that follow one, each behind a comma. -/
def readMoreNames (a : Analysis) : List Identifier × Analysis :=
  if _hcomma : a.atSymbol "," then
    if _hname : a.next.atNameAfter a.current then
      let name := a.next.readName
      let more := name.2.readMoreNames
      (name.1 :: more.1, more.2)
    else ([], a.next.abandonNames a.current)
  else ([], a)
termination_by a.left
decreasing_by
  exact Nat.lt_of_le_of_lt (left_readName_le a.next)
    (left_next_lt_of_comma _hcomma _hname)

/-- Reads a list of names. -/
def readNames (a : Analysis) : List Identifier × Analysis :=
  let name := a.readName
  let more := name.2.readMoreNames
  (name.1 :: more.1, more.2)

-- ==================================================== how far steps go

theorem left_abandonNames_le (a : Analysis) (comma : Token) :
    (a.abandonNames comma).left ≤ a.left := by
  unfold abandonNames
  simp only
  split
  · exact Nat.le_trans (left_next_le _) (Nat.le_of_eq (left_congr (by simp)))
  · exact Nat.le_of_eq (left_congr (by simp))

theorem left_readMoreNames_le (a : Analysis) :
    (readMoreNames a).2.left ≤ a.left := by
  fun_induction readMoreNames a with
  | case1 a hcomma hname name more ih =>
    exact Nat.le_trans ih (Nat.le_trans (left_readName_le a.next)
      (left_next_le a))
  | case2 a hcomma hname =>
    exact Nat.le_trans (left_abandonNames_le ..) (left_next_le a)
  | case3 a hcomma => exact Nat.le_refl _

/-- Reading names that begin with an unread lexeme, other than the mark of
the end, leaves less unread. -/
theorem left_readName_lt {a : Analysis} {t : Token}
    (hhead : a.cursor.ahead.head? = some t) (hkind : t.kind ≠ .ending) :
    a.readName.2.left < a.left := by
  unfold readName
  simp only
  have h := Nat.lt_of_le_of_lt (left_nextBy_le
    (gluedRun a.current a.next.upcoming).length a.next)
    (left_next_lt hhead hkind)
  split
  · exact h
  · rw [left_congr (cursor_report ..)]; exact h

theorem left_readNames_lt {a : Analysis} {t : Token}
    (hhead : a.cursor.ahead.head? = some t) (hkind : t.kind ≠ .ending) :
    a.readNames.2.left < a.left :=
  Nat.lt_of_le_of_lt (left_readMoreNames_le _)
    (left_readName_lt hhead hkind)

end Analysis

end VarSection
