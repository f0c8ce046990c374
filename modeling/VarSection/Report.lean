/-
The result of a check: the findings in reading order, and what the text
declares. Findings at one place keep the order in which they were made, so
the sort is stable, and the headline speaks of the first.
-/
import VarSection.Declaration
import VarSection.Diagnostic
import VarSection.SymbolTable

namespace VarSection

/-- What a check found and what the text declares. -/
structure Report where
  errors : List Diagnostic
  symbols : SymbolTable Position
  declarations : List Declaration

namespace Report

/-- Findings in reading order; those at one place stay in order. -/
def arrange (errors : List Diagnostic) : List Diagnostic :=
  errors.mergeSort fun d e => d.pos.le e.pos

/-- The report on findings made in any order. -/
def ofFindings (errors : List Diagnostic) (symbols : SymbolTable Position)
    (declarations : List Declaration) : Report :=
  ⟨arrange errors, symbols, declarations⟩

/-- Whether nothing was found. -/
def success (r : Report) : Bool := r.errors.isEmpty

/-- Whether the text could not even be cut into lexemes. -/
def isLexicalFailure (r : Report) : Bool :=
  r.errors.head?.any (·.severity == .lexical)

/-- The message of a check that found nothing. -/
def successMessage : Text := "✅ Описание корректное"

/-- A finding as a headline. Its place is one of a text, and so has fewer
digits than an integer may have. -/
def headlineOf (d : Diagnostic) : Text :=
  "❗ " ++ d.severity.title ++ " в строке " ++ Text.ofInt d.pos.line ++
    ", позиция " ++ Text.ofInt d.pos.col ++ ": " ++ d.message

/-- The main message: success, or the first finding in reading order. -/
def headline (r : Report) : Text :=
  match r.errors with
  | [] => successMessage
  | first :: _ => headlineOf first

end Report

end VarSection
