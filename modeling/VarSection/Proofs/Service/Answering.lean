/-
What the service relies on of the server that it runs in
(`Server.Documented`), and what it answers then. Each law says what the
server is there for, and none speaks of the check: a request is led to a
page by its methods, a body that cannot be read is an error of HTTP or a
fault in words, and what is written as JSON is sent in units that halves of
surrogate pairs have none of.

A request for a check is answered with a report or a refusal, so the laws
about writing are about these. Numbers that are too long to be written are left
out: those in a report count lines and columns of a text.
-/
import VarSection.Proofs.Service.Reports
import VarSection.Service.Answer

namespace VarSection

-- ======================================================= what is relied on

/-- What a server raises for a body: an error of HTTP, worded in ASCII, or a
fault worded without halves of surrogate pairs. -/
def Raised.IsProper : Raised → Prop
  | .http status description =>
    400 ≤ status ∧ ∀ c ∈ description, c.code < 0x80
  | .other message => message.IsWhole

/-- What the service relies on of its server. -/
structure Server.Documented [Server] : Prop where
  /-- Only an answer to HEAD is sent without its content, and HEAD leads to
  pages that answer GET. -/
  shown {settings : Settings} {r : Request} {route : Route}
    (hroute : route ∈ routes) (hget : "GET" ∉ route.methods)
    (h : dispatch routes settings r = .page route.page) :
    showsContent r = true
  /-- A body that is no JSON is null, so what is raised for a body has
  another reason. -/
  proper_of_readJson {settings : Settings} {r : Request} {what : Raised}
    (h : readJson settings r = .error what) : what.IsProper
  /-- A report is written unless it holds half of a surrogate pair. -/
  writes_iff (settings : Settings) (report : Report) :
    (∃ payload, writeJson settings report.toJson = .ok payload)
      ↔ report.toJson.IsWhole
  /-- A refusal is written if it is worded without such halves. -/
  writes_refusal (settings : Settings) {source message : Text}
    (hsource : source.IsWhole) (hmessage : message.IsWhole) :
    ∃ payload, writeJson settings (Envelope.refusal source message).toJson
      = .ok payload
  /-- The fault of a report that is not written is no error of HTTP, and its
  wording spells halves out. -/
  fault_of_writeJson {settings : Settings} {report : Report} {what : Raised}
    (h : writeJson settings report.toJson = .error what) :
    ∃ message, what = .other message ∧ message.IsWhole
  /-- What is written is declared to be JSON. -/
  declares {settings : Settings} {value : Json} {payload : Payload}
    (h : writeJson settings value = .ok payload) :
    payload.contentType = "application/json"

-- ================================================================= answers

/-- What the service answers with: a status, and JSON as the content. -/
structure Response.Answers [Server] (response : Response)
    (settings : Settings) (status : Nat) (content : Json) : Prop where
  status : response.status = status
  content : Server.writeJson settings content = .ok response.payload
  declared : response.payload.contentType = "application/json"

/-- What is raised for a body is worded without halves. -/
theorem Raised.IsProper.writes [Server] (hserver : Server.Documented)
    {what : Raised} (h : what.IsProper) (settings : Settings) :
    ∃ payload, Server.writeJson settings what.envelope.toJson
      = .ok payload := by
  cases what with
  | http status description =>
    refine hserver.writes_refusal settings (Text.isWhole_ofString _)
      fun c hc => ?_
    have hcode := h.2 c hc
    cases c with
    | char c => rfl
    | half n =>
      change 0xD800 + n.val < 0x80 at hcode
      omega
  | other message =>
    exact hserver.writes_refusal settings (Text.isWhole_ofString _)
      (Text.isWhole_append.2 ⟨Text.isWhole_ofString _, h⟩)

section Answering

variable [Server] {settings : Settings} {r : Request}

/-- A request for a check is answered as its verdict says. -/
theorem Request.respond_of_page
    (h : Server.dispatch routes settings r = .page .check) :
    respond settings r = r.answerCheck settings := by
  unfold respond
  rw [h]

variable (hserver : Server.Documented)

include hserver

/-- An answer to a request for a check is sent with its content. -/
theorem Request.shows_of_page
    (h : Server.dispatch routes settings r = .page .check) :
    Server.showsContent r = true :=
  hserver.shown List.mem_cons_self (by decide) h

/-- What was written is sent. -/
theorem Request.answer_answers (hshown : Server.showsContent r = true)
    {payload : Payload} {content : Json}
    (h : Server.writeJson settings content = .ok payload) (status : Nat)
    (log : List LogRecord) :
    (r.answer status payload log).Answers settings status content := by
  have hpayload : (r.answer status payload log).payload = payload := by
    unfold answer
    rw [hshown, if_pos rfl]
  refine ⟨rfl, ?_, ?_⟩
  · rw [hpayload, h]
  · rw [hpayload, hserver.declares h]

/-- A value that is written is what is answered. -/
theorem Request.answerJson_answers (hshown : Server.showsContent r = true)
    {payload : Payload} {content : Json}
    (h : Server.writeJson settings content = .ok payload) (status : Nat)
    (log : List LogRecord) :
    (r.answerJson settings status content log).Answers settings status content
      ∧ (r.answerJson settings status content log).log = log := by
  unfold answerJson
  rw [h]
  exact ⟨answer_answers hserver hshown h _ _, rfl⟩

/-- What is raised is answered in words. -/
theorem Request.answerRaised_answers (hshown : Server.showsContent r = true)
    {what : Raised} (h : what.IsProper) (log : List LogRecord) :
    (r.answerRaised settings what log).Answers settings what.status
        what.envelope.toJson
      ∧ (r.answerRaised settings what log).log = log ++ what.log := by
  obtain ⟨payload, hpayload⟩ := h.writes hserver settings
  unfold answerRaised
  rw [hpayload]
  exact ⟨answer_answers hserver hshown hpayload _ _, rfl⟩

/-- A request that is refused is answered in the words of the refusal. -/
theorem Request.answerCheck_of_refused (hshown : Server.showsContent r = true)
    {why : Refusal} (hjudge : r.judge settings = .refused why)
    (h : why.message.IsWhole) :
    (r.answerCheck settings).Answers settings why.status why.envelope.toJson
      ∧ (r.answerCheck settings).log = [] := by
  obtain ⟨payload, hpayload⟩ :=
    hserver.writes_refusal settings (Text.isWhole_ofString "request") h
  simp only [answerCheck, hjudge]
  exact answerJson_answers hserver hshown hpayload _ _

/-- What is raised for a body is answered in words. -/
theorem Request.answerCheck_of_raised (hshown : Server.showsContent r = true)
    {what : Raised} (hjudge : r.judge settings = .raised what)
    (h : what.IsProper) :
    (r.answerCheck settings).Answers settings what.status what.envelope.toJson
      ∧ (r.answerCheck settings).log = what.log := by
  simp only [answerCheck, hjudge]
  exact answerRaised_answers hserver hshown h []

/-- A fault of the check is told. -/
theorem Request.answerCheck_of_fault (hshown : Server.showsContent r = true)
    {code : Text} {fault : Fault}
    (hjudge : r.judge settings = .checked code (.error fault)) :
    (r.answerCheck settings).Answers settings 500
        (Raised.other fault.message).envelope.toJson
      ∧ (r.answerCheck settings).log
        = startLog code ++ (Raised.other fault.message).log := by
  have hproper : (Raised.other fault.message).IsProper :=
    Text.isWhole_ofString _
  simp only [answerCheck, hjudge]
  exact answerRaised_answers hserver hshown hproper _

/-- A report that holds no half is what is answered. -/
theorem Request.answerCheck_of_report (hshown : Server.showsContent r = true)
    {code : Text} {report : Report}
    (hjudge : r.judge settings = .checked code (.ok report))
    (h : report.toJson.IsWhole) :
    (r.answerCheck settings).Answers settings 200 report.toJson
      ∧ (r.answerCheck settings).log
        = startLog code ++ reportLog report := by
  obtain ⟨payload, hpayload⟩ := (hserver.writes_iff settings report).2 h
  simp only [answerCheck, hjudge]
  exact answerJson_answers hserver hshown hpayload _ _

/-- A report that holds a half is not answered, but what is raised for it. -/
theorem Request.answerCheck_of_unwritten
    (hshown : Server.showsContent r = true) {code : Text} {report : Report}
    (hjudge : r.judge settings = .checked code (.ok report))
    (h : ¬ report.toJson.IsWhole) :
    ∃ message, Server.writeJson settings report.toJson
        = .error (.other message)
      ∧ (r.answerCheck settings).Answers settings 500
        (Raised.other message).envelope.toJson
      ∧ (r.answerCheck settings).log
        = startLog code ++ reportLog report ++ (Raised.other message).log := by
  cases hwrite : Server.writeJson settings report.toJson with
  | ok payload =>
    exact absurd ((hserver.writes_iff settings report).1 ⟨payload, hwrite⟩) h
  | error what =>
    obtain ⟨message, rfl, hmessage⟩ := hserver.fault_of_writeJson hwrite
    have hproper : (Raised.other message).IsProper := hmessage
    refine ⟨message, rfl, ?_⟩
    simp only [answerCheck, hjudge, answerJson, hwrite]
    exact answerRaised_answers hserver hshown hproper _

end Answering

end VarSection
