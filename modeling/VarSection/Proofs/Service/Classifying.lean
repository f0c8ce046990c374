/-
How a request for a check is classified, whatever its body. There are seven
outcomes (`Request.Outcome`), told apart by what the server reads from the
body, by the length of the text in it, by what a check of that text comes
to, and by whether the report can be written; and each has its status, its
content and its log (`respond_classified`). A check is only made of a text
that is not too long.

A report and a refusal are made apart from each other, but agree on the
members of an answer and on what these tell together (`Envelope.Coherent`).

Two faults are not those of a check. A body that the server breaks off
reading is not refused as one without a text. And a report that quotes half
of a surrogate pair cannot be written, although it was made
(`respond_loneHalf`).
-/
import VarSection.Proofs.Service.Checking

namespace VarSection

open Analysis

section Outcomes

variable [Server]

-- ============================================================== outcomes

/-- A request for a check, where texts have a greatest length. -/
structure Request.ForCheck (r : Request) (settings : Settings)
    (limit : Int) : Prop where
  page : Server.dispatch routes settings r = .page .check
  limited : settings.get "MAX_SOURCE_LENGTH" = .int limit

/-- What a request for a check comes to: the status, the content and the log
of its answer. Only the last three outcomes are those of a text that was
checked. -/
inductive Request.Outcome (r : Request) (settings : Settings) (limit : Int) :
    Nat → Envelope → List LogRecord → Prop
  | noCode {value : Json} (hread : Server.readJson settings r = .ok value)
      (hnone : ∀ found, ¬ r.Offers settings found) :
      Outcome r settings limit 400
        (.refusal "request" "Не предоставлен код для проверки") []
  | codeNotText {value : Json} (hoffers : r.Offers settings value)
      (hother : ∀ code, value ≠ .text code) :
      Outcome r settings limit 400
        (.refusal "request" "Код должен быть строкой") []
  | tooLong {code : Text} (hoffers : r.Offers settings (.text code))
      (hlong : limit < code.length) :
      Outcome r settings limit 413
        (.refusal "request"
          ("Слишком длинный текст: больше " ++ Text.ofInt limit ++
            " символов")) []
  | unread {what : Raised} (hread : Server.readJson settings r = .error what)
      (hproper : what.IsProper) :
      Outcome r settings limit what.status what.envelope what.log
  | sent {code : Text} {report : Report}
      (hoffers : r.Offers settings (.text code))
      (hshort : code.length ≤ limit) (hcheck : check code = .ok report)
      (hwhole : report.toJson.IsWhole) :
      Outcome r settings limit 200 (.ofReport report)
        (startLog code ++ reportLog report)
  | failed {code : Text} {fault : Fault}
      (hoffers : r.Offers settings (.text code))
      (hshort : code.length ≤ limit) (hcheck : check code = .error fault) :
      Outcome r settings limit 500
        (.refusal "server" (faultMessage fault.message))
        (startLog code ++
          [serviceRecord .error "Ошибка при обработке запроса"])
  | unsent {code : Text} {report : Report} {message : Text}
      (hoffers : r.Offers settings (.text code))
      (hshort : code.length ≤ limit) (hcheck : check code = .ok report)
      (hcode : ¬ code.IsWhole) (hhalf : ¬ report.toJson.IsWhole)
      (hwrite : Server.writeJson settings report.toJson
        = .error (.other message)) :
      Outcome r settings limit 500
        (.refusal "server" (faultMessage message))
        (startLog code ++ reportLog report ++
          [serviceRecord .error "Ошибка при обработке запроса"])

end Outcomes

-- ============================================================= contents

/-- What the members of an answer tell together, at a status. -/
structure Envelope.Coherent (e : Envelope) (status : Nat) : Prop where
  /-- There are these five members and no others. -/
  members : e.toJson = .object [("success", .bool e.success),
    ("message", .text e.message), ("errors", .list e.errors),
    ("symbols", .list e.symbols), ("declarations", .list e.declarations)]
  success_iff : e.success = true ↔ e.errors = []
  ok_of_success : e.success = true → status = 200
  message_iff : e.message = Report.successMessage ↔ e.errors = []
  /-- An answer without a report tells one error, outside the text. -/
  refused : status ≠ 200 →
    (∃ source, e.errors = [errorEntry source ⟨-1, -1⟩ e.message source])
      ∧ e.symbols = [] ∧ e.declarations = []

theorem Envelope.coherent_refusal {message : Text}
    (hmessage : message ≠ Report.successMessage) (source : Text)
    (status : Nat) : (refusal source message).Coherent status where
  members := rfl
  success_iff := iff_of_false Bool.false_ne_true (List.cons_ne_nil _ _)
  ok_of_success h := absurd h Bool.false_ne_true
  message_iff := iff_of_false hmessage (List.cons_ne_nil _ _)
  refused _ := ⟨⟨source, rfl⟩, rfl, rfl⟩

theorem Report.headline_eq_successMessage_iff {r : Report} :
    r.headline = successMessage ↔ r.errors = [] := by
  unfold headline
  cases r.errors with
  | nil => simp
  | cons d errors =>
    refine iff_of_false (fun h => ?_) (List.cons_ne_nil _ _)
    have hfirst : some (CodePoint.char '❗') = some (CodePoint.char '✅') :=
      congrArg List.head? h
    exact absurd hfirst (by decide)

theorem Envelope.coherent_ofReport (r : Report) :
    (ofReport r).Coherent 200 where
  members := rfl
  success_iff := by
    simp only [ofReport, Report.success, List.isEmpty_iff, List.map_eq_nil_iff]
  ok_of_success _ := rfl
  message_iff := by
    simp only [ofReport, Report.headline_eq_successMessage_iff,
      List.map_eq_nil_iff]
  refused h := absurd rfl h

theorem faultMessage_ne (message : Text) :
    faultMessage message ≠ Report.successMessage := by
  intro h
  have hfirst : some (CodePoint.char 'И') = some (CodePoint.char '✅') :=
    congrArg List.head? h
  exact absurd hfirst (by decide)

theorem Refusal.tooLong_ne (limit : Text) :
    "Слишком длинный текст: больше " ++ limit ++ " символов"
      ≠ Report.successMessage := by
  intro h
  have hfirst : some (CodePoint.char 'С') = some (CodePoint.char '✅') :=
    congrArg List.head? h
  exact absurd hfirst (by decide)

theorem Raised.IsProper.coherent {what : Raised} (h : what.IsProper) :
    what.envelope.Coherent what.status := by
  cases what with
  | http status description =>
    refine Envelope.coherent_refusal ?_ _ _
    rintro rfl
    exact absurd (h.2 (.char '✅') (by decide)) (by decide)
  | other message => exact Envelope.coherent_refusal (faultMessage_ne _) _ _

theorem Request.Outcome.coherent [Server] {r : Request}
    {settings : Settings} {limit : Int} {status : Nat} {envelope : Envelope}
    {log : List LogRecord} (h : r.Outcome settings limit status envelope log) :
    envelope.Coherent status := by
  cases h with
  | noCode => exact Envelope.coherent_refusal (by decide) _ _
  | codeNotText => exact Envelope.coherent_refusal (by decide) _ _
  | tooLong => exact Envelope.coherent_refusal (Refusal.tooLong_ne _) _ _
  | unread _ hproper => exact hproper.coherent
  | sent => exact Envelope.coherent_ofReport _
  | failed => exact Envelope.coherent_refusal (faultMessage_ne _) _ _
  | unsent => exact Envelope.coherent_refusal (faultMessage_ne _) _ _

-- =============================================================== answers

section Classifying

variable [Server] {settings : Settings} {limit : Int} {r : Request}

theorem Request.Offers.unique {value other : Json}
    (h : r.Offers settings value) (hother : r.Offers settings other) :
    value = other := by
  obtain ⟨members, hmembers, hvalue⟩ := h
  obtain ⟨others, hothers, hvalue'⟩ := hother
  cases hmembers.symm.trans hothers
  exact Option.some.inj (hvalue.symm.trans hvalue')

/-- What is found under `code` in the body of a request. -/
theorem Request.offers_cases {value : Json}
    (h : Server.readJson settings r = .ok value) :
    (∃ code, r.Offers settings (.text code) ∧ codeIn value = .ok code)
    ∨ (∃ found, r.Offers settings found ∧ (∀ code, found ≠ .text code)
      ∧ codeIn value = .error .codeNotText)
    ∨ (∀ found, ¬ r.Offers settings found)
      ∧ codeIn value = .error .noCode := by
  unfold codeIn
  split
  next members =>
    cases hcode : Json.lookup? members "code" with
    | none =>
      refine .inr (.inr ⟨?_, rfl⟩)
      rintro found ⟨others, hothers, hfound⟩
      cases h.symm.trans hothers
      cases hcode.symm.trans hfound
    | some found =>
      have hoffers : r.Offers settings found := ⟨members, h, hcode⟩
      by_cases htext : ∃ code, found = .text code
      · obtain ⟨code, rfl⟩ := htext
        exact .inl ⟨code, hoffers, rfl⟩
      · have hother : ∀ code, found ≠ .text code :=
          fun code heq => htext ⟨code, heq⟩
        refine .inr (.inl ⟨found, hoffers, hother, ?_⟩)
        split
        next heq => exact absurd (Option.some.inj heq) (hother _)
        next => rfl
        next heq => cases heq
  next hobject =>
    refine .inr (.inr ⟨?_, rfl⟩)
    rintro found ⟨members, hmembers, -⟩
    exact hobject members (Except.ok.inj (h.symm.trans hmembers))

/-- What a text comes to that a request gives to be checked. -/
theorem Request.ForCheck.judge_of_code {value : Json} {code : Text}
    (h : r.ForCheck settings limit)
    (hread : Server.readJson settings r = .ok value)
    (hcode : codeIn value = .ok code) :
    r.judge settings
      = if limit < code.length then .refused (.tooLong (.int limit))
        else .checked code (check code) := by
  by_cases hlong : limit < code.length
  · simp only [judge, hread, hcode, h.limited, exceeds,
      decide_eq_true hlong, if_pos hlong]
  · simp only [judge, hread, hcode, h.limited, exceeds,
      decide_eq_false hlong, if_neg hlong]

/-- A text that is not too long is checked, and the answer tells what came
of it. -/
theorem Request.ForCheck.answered_of_short (hserver : Server.Documented)
    {code : Text} (h : r.ForCheck settings limit)
    (hoffers : r.Offers settings (.text code))
    (hshort : code.length ≤ limit)
    (hjudge : r.judge settings = .checked code (check code)) :
    ∃ status envelope log, r.Outcome settings limit status envelope log
      ∧ (respond settings r).Answers settings status envelope.toJson
      ∧ (respond settings r).log = log := by
  have hshown := shows_of_page hserver h.page
  rw [respond_of_page h.page]
  cases hcheck : check code with
  | error fault =>
    rw [hcheck] at hjudge
    exact ⟨_, _, _, .failed hoffers hshort hcheck,
      answerCheck_of_fault hserver hshown hjudge⟩
  | ok report =>
    rw [hcheck] at hjudge
    by_cases hwhole : report.toJson.IsWhole
    · exact ⟨_, _, _, .sent hoffers hshort hcheck hwhole,
        answerCheck_of_report hserver hshown hjudge hwhole⟩
    · have hcode : ¬ code.IsWhole := fun hcode =>
        hwhole (Report.isWhole_toJson (isWhole_of_check hcode hcheck))
      obtain ⟨message, hwrite, hanswers⟩ :=
        answerCheck_of_unwritten hserver hshown hjudge hwhole
      exact ⟨_, _, _, .unsent hoffers hshort hcheck hcode hwhole hwrite,
        hanswers⟩

/-- A request for a check is answered and logged as its outcome says. -/
theorem Request.ForCheck.answered (hserver : Server.Documented)
    (h : r.ForCheck settings limit) :
    ∃ status envelope log, r.Outcome settings limit status envelope log
      ∧ (respond settings r).Answers settings status envelope.toJson
      ∧ (respond settings r).log = log := by
  have hshown := shows_of_page hserver h.page
  cases hread : Server.readJson settings r with
  | error what =>
    have hproper := hserver.proper_of_readJson hread
    have hjudge : r.judge settings = .raised what := by
      simp only [judge, hread]
    rw [respond_of_page h.page]
    exact ⟨_, _, _, .unread hread hproper,
      answerCheck_of_raised hserver hshown hjudge hproper⟩
  | ok value =>
    rcases offers_cases hread with ⟨code, hoffers, hcode⟩
      | ⟨found, hoffers, hother, hcode⟩ | ⟨hnone, hcode⟩
    · have hjudge := h.judge_of_code hread hcode
      by_cases hlong : limit < code.length
      · have hwhole : (Refusal.tooLong (.int limit)).message.IsWhole := by
          simp [Refusal.message, Json.spoken, Json.shown]
        rw [if_pos hlong] at hjudge
        rw [respond_of_page h.page]
        exact ⟨_, _, _, .tooLong hoffers hlong,
          answerCheck_of_refused hserver hshown hjudge hwhole⟩
      · rw [if_neg hlong] at hjudge
        exact h.answered_of_short hserver hoffers (Int.not_lt.1 hlong) hjudge
    · have hjudge : r.judge settings = .refused .codeNotText := by
        simp only [judge, hread, hcode]
      rw [respond_of_page h.page]
      exact ⟨_, _, _, .codeNotText hoffers hother, answerCheck_of_refused
        hserver hshown hjudge (Text.isWhole_ofString _)⟩
    · have hjudge : r.judge settings = .refused .noCode := by
        simp only [judge, hread, hcode]
      rw [respond_of_page h.page]
      exact ⟨_, _, _, .noCode hread hnone, answerCheck_of_refused
        hserver hshown hjudge (Text.isWhole_ofString _)⟩

/-- A request for a check has an outcome, whatever its body, and is answered
and logged accordingly. The answer has the same members in every case, and
these agree with each other. -/
theorem respond_classified (hserver : Server.Documented)
    (h : r.ForCheck settings limit) :
    ∃ status envelope log, r.Outcome settings limit status envelope log
      ∧ envelope.Coherent status
      ∧ (respond settings r).Answers settings status envelope.toJson
      ∧ (respond settings r).log = log := by
  obtain ⟨status, envelope, log, houtcome, hanswers, hlog⟩ :=
    h.answered hserver
  exact ⟨status, envelope, log, houtcome, houtcome.coherent, hanswers, hlog⟩

end Classifying

open scoped UsualServer

/-- Settings under which a text has four characters at most. -/
def fourCharacters : Settings := [("MAX_SOURCE_LENGTH", .int 4)]

theorem respond_classified_fiveCharacters :
    Server.Documented
      ∧ (Request.posting "var a").ForCheck fourCharacters 4
      ∧ (respond fourCharacters (.posting "var a")).Answers fourCharacters 413
        (Envelope.refusal "request"
          "Слишком длинный текст: больше 4 символов").toJson := by
  have hserver : Server.Documented := standardServer_documented 480 980
  have hcheck : (Request.posting "var a").ForCheck fourCharacters 4 :=
    ⟨Request.dispatch_of_post rfl rfl _, rfl⟩
  have hread := Request.readJson_posting
    (Text.isWhole_ofString "var a") (rfl : fourCharacters.get _ = _) 979
  have hoffers : (Request.posting "var a").Offers fourCharacters
      (.text "var a") := ⟨_, hread, rfl⟩
  refine ⟨hserver, hcheck, ?_⟩
  obtain ⟨_, _, _, houtcome, -, hanswers, -⟩ :=
    respond_classified hserver hcheck
  cases houtcome with
  | noCode _ hnone => exact absurd hoffers (hnone _)
  | codeNotText hother hvalue =>
    exact absurd (hother.unique hoffers) (hvalue _)
  | tooLong =>
    have hmessage : "Слишком длинный текст: больше " ++ Text.ofInt 4 ++
        " символов" = ("Слишком длинный текст: больше 4 символов" : Text) := by
      decide +kernel
    rwa [hmessage] at hanswers
  | unread hraised => cases hread.symm.trans hraised
  | sent hother hshort
  | failed hother hshort
  | unsent hother hshort =>
    cases hoffers.unique hother
    exact absurd hshort (by decide)

/-- A request that gives half of a surrogate pair to be checked. -/
def Request.loneHalf : Request where
  method := "POST"
  path := "/check-declarations"
  contentType := "application/json"
  origin := none
  body := "\x7b\"code\": \"\\ud800\"\x7d".toUTF8

theorem Request.offers_loneHalf :
    loneHalf.Offers .usual (.text [.half 0]) := by
  have hfound : (Server.readJson .usual loneHalf).toOption.bind
      (codeIn · |>.toOption) = some [.half 0] := by
    decide +kernel
  cases hread : Server.readJson .usual loneHalf with
  | error what =>
    rw [hread] at hfound
    cases hfound
  | ok value =>
    rw [hread] at hfound
    rcases offers_cases hread with ⟨code, hoffers, hcode⟩
      | ⟨found, -, -, hcode⟩ | ⟨-, hcode⟩
    · rw [Except.toOption, Option.bind_some, hcode] at hfound
      cases hfound
      exact hoffers
    all_goals
      rw [Except.toOption, Option.bind_some, hcode] at hfound
      cases hfound

/-- Its report quotes the half. -/
theorem exists_report_of_half : ∃ report, check [.half 0] = .ok report
    ∧ ¬ report.toJson.IsWhole := by
  have hmessages : ((check [.half 0]).toOption.map fun report =>
      report.errors.map Diagnostic.message) =
        some [(Cause.unknownSymbol [.half 0]).message] := by
    decide +kernel
  cases hreport : check [.half 0] with
  | error fault =>
    rw [hreport] at hmessages
    cases hmessages
  | ok report =>
    refine ⟨report, rfl, fun hwhole => ?_⟩
    rw [hreport] at hmessages
    obtain ⟨d, hd, hmessage⟩ := List.mem_map.1
      ((Option.some.inj hmessages).symm ▸ List.mem_singleton.2 rfl)
    have hquoted := Report.messages_of_isWhole_toJson hwhole d hd
    rw [hmessage] at hquoted
    exact absurd hquoted (by
      simp [Cause.message, CodePoint.isHalf, CodePoint.char?])

/-- The text is short enough and its check makes a report, but that is not
what is answered. -/
theorem respond_loneHalf :
    Server.Documented
      ∧ Request.loneHalf.ForCheck .usual 100000
      ∧ Request.loneHalf.Offers .usual (.text [.half 0])
      ∧ (∃ report, check [.half 0] = .ok report)
      ∧ (respond .usual .loneHalf).status = 500 := by
  have hserver : Server.Documented := standardServer_documented 480 980
  have hcheck : Request.loneHalf.ForCheck .usual 100000 :=
    ⟨Request.dispatch_of_post rfl rfl _, Settings.usual_codeLimit⟩
  have hoffers := Request.offers_loneHalf
  obtain ⟨report, hreport, hhalf⟩ := exists_report_of_half
  refine ⟨hserver, hcheck, hoffers, ⟨report, hreport⟩, ?_⟩
  obtain ⟨status, _, _, houtcome, hanswers, -⟩ := hcheck.answered hserver
  rw [hanswers.status]
  cases houtcome with
  | noCode _ hnone => exact absurd hoffers (hnone _)
  | codeNotText hother hvalue =>
    exact absurd (hother.unique hoffers) (hvalue _)
  | tooLong hother hlong =>
    cases hoffers.unique hother
    exact absurd hlong (by decide)
  | unread hraised =>
    obtain ⟨_, hread, -⟩ := hoffers
    cases hread.symm.trans hraised
  | sent hother _ hsent hwhole =>
    cases hoffers.unique hother
    cases hreport.symm.trans hsent
    exact absurd hwhole hhalf
  | failed => rfl
  | unsent => rfl

end VarSection
