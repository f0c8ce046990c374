/-
Checking a text. Its lexemes are read first; a comment that is not closed
is then the only finding. Otherwise the table is analysed as a section of
declarations.

A check gives a report, or the fault that kept it from one. Beside it
stands the log that the check writes on the way, up to the fault.
-/
import VarSection.Analysis.Section
import VarSection.Log
import VarSection.Report
import VarSection.Token.Listing
import VarSection.Token.Scanner

namespace VarSection

/-- The report of a finished analysis. -/
def Analysis.report? (a : Analysis) : Except Fault Report :=
  match a.halt? with
  | some note => .error note.fault
  | none => .ok (.ofFindings a.findings a.symbols a.declared)

/-- Checks the declarations of a text. -/
def check [NestingLimit] (text : Text) : Except Fault Report :=
  let (clean, s) := (Scanner.ofText text).scan
  if clean then (Analysis.ofTable s.table).run.report?
  else .ok (.ofFindings s.findings .empty [])

-- ================================================================== the log

/-- What reading the lexemes of a text writes. -/
def Scanner.log (s : Scanner) : List LogRecord :=
  let outcome : Text := if s.errors.isEmpty then "успешно" else "с ошибками"
  s.findings.map (fun d => ⟨"varcheck.lexer", .debug, d.written⟩) ++
    [⟨"varcheck.lexer", .debug,
      "Лексический анализ завершен " ++ outcome ++ ". Обработано " ++
        Text.ofInt s.tokens.length ++ " лексем."⟩]

/-- What an analysis writes when it is finished. -/
def Analysis.log (a : Analysis) : List LogRecord :=
  if a.halt?.isSome then []
  else if a.isClean then
    [⟨"varcheck.parser", .debug,
      "Синтаксический анализ завершен успешно. Описаний: " ++
        Text.ofInt a.declarations.length⟩]
  else
    [⟨"varcheck.parser", .debug,
      "Синтаксический анализ завершен с ошибками: " ++
        Text.ofInt a.errors.length⟩]

/-- The log of a check. -/
def checkLog [NestingLimit] (text : Text) : List LogRecord :=
  let (clean, s) := (Scanner.ofText text).scan
  s.log ++
    if clean then
      ⟨"varcheck.checker", .debug,
        "Таблица лексем:\n" ++ Listing.text s.table⟩ ::
        (Analysis.ofTable s.table).run.log
    else []

end VarSection
