/-
The answers of the service as JSON. Every answer of a check is one object
with the same five members, whether the check was made or refused:
`success`, `message`, `errors`, `symbols` and `declarations`.
-/
import VarSection.Json.Writer
import VarSection.Report

namespace VarSection

/-- An entry of the list of errors. -/
def errorEntry (severity : Text) (pos : Position) (message source : Text) :
    Json :=
  .object [("type", .text "error"), ("severity", .text severity),
    ("line", .int pos.line), ("col", .int pos.col),
    ("message", .text message), ("source", .text source)]

/-- A finding as an entry of the list of errors. -/
def Diagnostic.toJson (d : Diagnostic) : Json :=
  errorEntry d.severity.name d.pos d.message d.severity.source

/-- A declared name, where `line` and `col` tell the parts of its place. -/
def Symbol.toJson {Place : Type} (line col : Place → Json)
    (s : Symbol Place) : Json :=
  .object [("name", .text s.name), ("type", .text s.type.shown),
    ("line", line s.place), ("col", col s.place)]

/-- A declaration. -/
def Declaration.toJson (d : Declaration) : Json :=
  .object [("names", .list (d.names.map fun n => .text n.name)),
    ("type", .text d.type.written),
    ("line", .int d.pos.line), ("col", .int d.pos.col)]

/-- The members of every answer of a check. -/
structure Envelope where
  success : Bool
  message : Text
  errors : List Json
  symbols : List Json
  declarations : List Json

namespace Envelope

/-- An answer as JSON. -/
def toJson (e : Envelope) : Json :=
  .object [("success", .bool e.success), ("message", .text e.message),
    ("errors", .list e.errors), ("symbols", .list e.symbols),
    ("declarations", .list e.declarations)]

/-- The answer of a check that was made. -/
def ofReport (r : Report) : Envelope where
  success := r.success
  message := r.headline
  errors := r.errors.map Diagnostic.toJson
  symbols := r.symbols.toList.map
    (Symbol.toJson (fun p : Position => .int p.line) fun p => .int p.col)
  declarations := r.declarations.map Declaration.toJson

/-- Where an error lies that is not about the text. -/
def nowhere : Position := ⟨-1, -1⟩

/-- The answer where no check was made: one error, outside the text. -/
def refusal (source message : Text) : Envelope where
  success := false
  message := message
  errors := [errorEntry source nowhere message source]
  symbols := []
  declarations := []

end Envelope

/-- A report as JSON. -/
def Report.toJson (r : Report) : Json := (Envelope.ofReport r).toJson

end VarSection
