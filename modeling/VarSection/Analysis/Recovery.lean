/-
Going on after a fault. What is passed over is always a run of lexemes that
the table alone decides: unknown symbols in a row on one line, the rest of
a broken declaration, the rest of a broken index range. A run is a prefix
of the unread lexemes, given by a function on lists; passing it moves the
place and reports each unknown symbol in it.
-/
import VarSection.Analysis.State

namespace VarSection

/-- Unknown symbols in a row on a line. -/
def unknownRun (line : Int) (unread : List Token) : List Token :=
  unread.takeWhile fun t => t.kind == .unknown && t.line == line

/-- What is left of a broken declaration on a line: everything up to and
including the next semicolon, but nothing on another line, and neither the
word that opens a block nor a declaration that seems to begin. -/
def brokenRun (line : Int) : List Token → List Token
  | [] => []
  | t :: rest =>
    if t.isEnding || t.isKeyword "var" || t.line != line ||
        t.startsDeclaration (rest.headD t) then []
    else if t.isSymbol ";" then [t]
    else t :: brokenRun line rest

/-- Whether a lexeme ends an index range, whatever stands in front. -/
def Token.isRangeBoundary (t : Token) : Bool :=
  t.isEnding || t.isSymbol "," || t.isSymbol "]" || t.isSymbol ";" ||
    t.isKeyword "of" || t.isKeyword "var"

namespace Analysis

/-- Passes one lexeme and reports it if it is an unknown symbol. -/
def passToken (a : Analysis) (t : Token) : Analysis :=
  if t.kind == .unknown then a.next.report t.pos (.unknownSymbol t.text)
  else a.next

/-- Passes a run of lexemes and reports each unknown symbol in it. -/
def pass (run : List Token) (a : Analysis) : Analysis :=
  run.foldl passToken a

/-- Reports the unknown symbols in a row on a line, and says whether there
are any. -/
def reportUnknown (line : Int) (a : Analysis) : Bool × Analysis :=
  let run := unknownRun line a.upcoming
  (!run.isEmpty, a.pass run)

/-- Passes what is left of a broken declaration on a line, and after its
semicolon the unknown symbols that follow on the same line. -/
def synchronize (line : Int) (a : Analysis) : Analysis :=
  let run := brokenRun line a.upcoming
  let a := a.pass run
  match run.getLast? with
  | some t => if t.isSymbol ";" then (a.reportUnknown t.line).2 else a
  | none => a

/-- Passes the rest of a broken index range. -/
def skipToRangeBoundary (a : Analysis) : Analysis :=
  nextBy (a.upcoming.takeWhile fun t => !t.isRangeBoundary).length a

-- ==================================================== how far steps go

theorem left_passToken_le (a : Analysis) (t : Token) :
    (a.passToken t).left ≤ a.left := by
  unfold passToken
  split
  · rw [left_congr (cursor_report ..)]; exact left_next_le a
  · exact left_next_le a

theorem left_pass_le (run : List Token) (a : Analysis) :
    (a.pass run).left ≤ a.left := by
  unfold pass
  induction run generalizing a with
  | nil => exact Nat.le_refl _
  | cons t run ih =>
    exact Nat.le_trans (ih (a.passToken t)) (left_passToken_le a t)

theorem left_reportUnknown_le (line : Int) (a : Analysis) :
    (a.reportUnknown line).2.left ≤ a.left :=
  left_pass_le _ a

theorem left_synchronize_le (line : Int) (a : Analysis) :
    (a.synchronize line).left ≤ a.left := by
  unfold synchronize
  simp only
  have hpass := left_pass_le (brokenRun line a.upcoming) a
  split
  · split
    · exact Nat.le_trans (left_reportUnknown_le ..) hpass
    · exact hpass
  · exact hpass

theorem left_skipToRangeBoundary_le (a : Analysis) :
    a.skipToRangeBoundary.left ≤ a.left :=
  left_nextBy_le _ a

end Analysis

end VarSection
