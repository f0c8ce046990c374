/-
How the service answers. A request for a check passes its gates in order (a
JSON object with a member `code`, a text under it, not too long) before the
check is made, and whatever happens then is an answer too: a report with
status 200, or what was raised instead. An error of HTTP is answered with
its own status and everything else with status 500, in words of the same
form.
-/
import VarSection.Check
import VarSection.Service.Envelope
import VarSection.Service.Server

namespace VarSection

/-- An answer to a request, and what was written to the log for it. -/
structure Response where
  status : Nat
  payload : Payload
  allowOrigin : String
  allow : Option (List String)
  log : List LogRecord

-- ================================================================ the log

/-- A record of the service itself. -/
def serviceRecord (level : LogLevel) (message : Text) : LogRecord :=
  ⟨"varcheck.app", level, "[==+==] " ++ message⟩

/-- The record of a report. -/
def reportRecord (r : Report) : LogRecord :=
  let list : Text :=
    "[" ++ Text.joinWith ", " (r.errors.map fun d => Text.quoted d.written) ++
      "]"
  serviceRecord .info <|
    if r.success then
      "Проверка успешна, объявлено переменных: " ++
        Text.ofInt r.symbols.size
    else if r.isLexicalFailure then "Лексические ошибки: " ++ list
    else "Синтаксические ошибки: " ++ list

/-- What a check writes to the log, up to its result. -/
def startLog [NestingLimit] (code : Text) : List LogRecord :=
  serviceRecord .info
    "=====================Начало запроса====================" ::
  serviceRecord .debug ("Задача:\n" ++ code) ::
  checkLog code

/-- What a report writes to the log. -/
def reportLog (report : Report) : List LogRecord :=
  [reportRecord report, serviceRecord .info
    "=====================Конец запроса====================="]

-- ===================================================== what was raised

/-- The wording of an answer that something has kept from a report. -/
def faultMessage (message : Text) : Text :=
  "Исключение при проверке: " ++ message

namespace Raised

/-- The status that something raised is answered with. -/
def status : Raised → Nat
  | .http status _ => status
  | .other _ => 500

/-- The content of the answer to something raised. -/
def envelope : Raised → Envelope
  | .http _ description => .refusal "request" description
  | .other message => .refusal "server" (faultMessage message)

/-- What is written to the log for something raised. -/
def log : Raised → List LogRecord
  | .http .. => []
  | .other _ => [serviceRecord .error "Ошибка при обработке запроса"]

end Raised

-- ===================================================== refusing a request

/-- Why a request for a check is refused. -/
inductive Refusal where
  | noCode
  | codeNotText
  | tooLong (limit : Json)

namespace Refusal

/-- The status of a refusal. -/
def status : Refusal → Nat
  | .noCode | .codeNotText => 400
  | .tooLong _ => 413

/-- The wording of a refusal. A limit is read from JSON, and so has no more
digits than are printed. -/
def message : Refusal → Text
  | .noCode => "Не предоставлен код для проверки"
  | .codeNotText => "Код должен быть строкой"
  | .tooLong limit =>
    "Слишком длинный текст: больше " ++ limit.spoken ++ " символов"

/-- The content of a refusal. -/
def envelope (why : Refusal) : Envelope := .refusal "request" why.message

end Refusal

/-- The text under `code` in a value. -/
def codeIn : Json → Except Refusal Text
  | .object members =>
    match Json.lookup? members "code" with
    | some (.text code) => .ok code
    | some _ => .error .codeNotText
    | none => .error .noCode
  | _ => .error .noCode

/-- What becomes of a request for a check. -/
inductive Verdict where
  | refused (why : Refusal)
  | raised (what : Raised)
  | checked (code : Text) (result : Except Fault Report)

section Answering

variable [Server]

/-- Passes a request through the gates, and checks its text if it gets
through. -/
def Request.judge (settings : Settings) (r : Request) : Verdict :=
  match Server.readJson settings r with
  | .error what => .raised what
  | .ok value =>
    match codeIn value with
    | .error why => .refused why
    | .ok code =>
      let limit := settings.get "MAX_SOURCE_LENGTH"
      match exceeds code.length limit with
      | .error what => .raised what
      | .ok true => .refused (.tooLong limit)
      | .ok false => .checked code (check code)

-- ============================================================= all requests

/-- An answer on its way back. -/
def Request.answer (r : Request) (status : Nat) (payload : Payload)
    (log : List LogRecord) : Response where
  status
  payload :=
    if Server.showsContent r then payload else { payload with bytes := .empty }
  allowOrigin := Server.allowOrigin r
  allow := none
  log

/-- The answer to a request that something was raised for. -/
def Request.answerRaised (settings : Settings) (r : Request) (what : Raised)
    (log : List LogRecord) : Response :=
  match Server.writeJson settings what.envelope.toJson with
  | .ok payload => r.answer what.status payload (log ++ what.log)
  | .error again =>
    let (status, payload) := Server.abandon settings again
    r.answer status payload (log ++ what.log)

/-- The answer to a request with a value as its content. -/
def Request.answerJson (settings : Settings) (r : Request) (status : Nat)
    (content : Json) (log : List LogRecord) : Response :=
  match Server.writeJson settings content with
  | .ok payload => r.answer status payload log
  | .error what => r.answerRaised settings what log

/-- The answer to a request for a check. -/
def Request.answerCheck (settings : Settings) (r : Request) : Response :=
  match r.judge settings with
  | .refused why => r.answerJson settings why.status why.envelope.toJson []
  | .raised what => r.answerRaised settings what []
  | .checked code (.error fault) =>
    r.answerRaised settings (.other fault.message) (startLog code)
  | .checked code (.ok report) =>
    r.answerJson settings 200 report.toJson
      (startLog code ++ reportLog report)

/-- The answer to a request. -/
def respond (settings : Settings) (r : Request) : Response :=
  match Server.dispatch routes settings r with
  | .raised what => r.answerRaised settings what []
  | .answered status allow payload =>
    { r.answer status payload [] with allow }
  | .page .sample =>
    r.answerJson settings 200 (.object [("code", .text sampleSection)]) []
  | .page .check => r.answerCheck settings

end Answering

end VarSection
