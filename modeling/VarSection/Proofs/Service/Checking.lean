/-
Requests for a check. Whatever text a request gives to be checked, the
answer is the report on it, with status 200, as long as there is a report
(`respond_asked`). There is none for an integer with too many digits,
leading zeros included, and for arrays that are nested too deep. Either is
answered with status 500, and there are texts of a few thousand characters
with such an integer (`respond_overlongSize`).
-/
import VarSection.Proofs.Analysis.Ending
import VarSection.Proofs.Scanner.Joining
import VarSection.Proofs.Scanner.Written
import VarSection.Proofs.Service.Standard

namespace VarSection

open Analysis

-- ========================================================= faults of a check

/-- A check fails on an integer with too many digits, which are written in
the text one after another, or on arrays that are nested too deep, each of
which begins with a word of its own. -/
theorem fault_cases_of_check [NestingLimit] {text : Text} {fault : Fault}
    (h : check text = .error fault) :
    (∃ digits, digits <:+: text ∧ digits.all isDigit = true
      ∧ integerDigitsMax < digits.length
      ∧ fault = .tooManyDigits digits.length)
    ∨ ∃ table, tokenize text = .ok table ∧ nestingMax + 1 < arrayWords table
      ∧ fault = .nestedTooDeep := by
  by_cases hscans : ∃ tokens q, Scans .start text tokens q
  · obtain ⟨tokens, q, hscans⟩ := hscans
    have hfront : (tokens ++ [Token.mark q]).take
        ((tokens ++ [Token.mark q]).findIdx (·.isEnding)) = tokens := by
      rw [findIdx_of_firstEnding
        (fun t ht => (hscans.wellCut t ht).notEnding) rfl, List.take_left]
    obtain ⟨note, hnote⟩ :=
      Option.ne_none_iff_exists'.1 (halted_of_check hscans h)
    obtain rfl : note.fault = fault :=
      Except.error.inj ((check_of_halted hscans hnote).symm.trans h)
    have hcases := fault_of_run (Token.mark_ends tokens q) hnote
    rw [hfront] at hcases
    rcases hcases with ⟨t, ht, hkind, hdigits, hfault⟩ | ⟨hwords, hfault⟩
    · exact .inl ⟨Numeral.digits t.text, hscans.digits_infix ht,
        ((hscans.wellCut t ht).digits hkind).2, hdigits, hfault⟩
    · refine .inr ⟨_, tokenize_eq_ok_iff.2 ⟨tokens, q, hscans, rfl⟩, ?_,
        hfault⟩
      exact Nat.lt_of_lt_of_le hwords
        (List.sublist_append_left tokens _).countP_le
  · obtain ⟨report, hreport, -⟩ := check_of_not_scans hscans
    rw [hreport] at h
    cases h

-- ================================================================= answers

/-- The text that a request gives to be checked, as the server reads it. -/
def Request.Offers [Server] (r : Request) (settings : Settings)
    (value : Json) : Prop :=
  ∃ members, Server.readJson settings r = .ok (.object members)
    ∧ Json.lookup? members "code" = some value

/-- A request for the check of a whole text that is not too long. -/
structure Request.Asks [Server] (r : Request) (settings : Settings)
    (code : Text) : Prop where
  page : Server.dispatch routes settings r = .page .check
  offers : r.Offers settings (.text code)
  whole : code.IsWhole
  within : ∃ limit : Int,
    settings.get "MAX_SOURCE_LENGTH" = .int limit ∧ code.length ≤ limit

section Asking

variable [Server] {settings : Settings} {r : Request} {code : Text}

theorem Request.Asks.judge (h : r.Asks settings code) :
    r.judge settings = .checked code (check code) := by
  obtain ⟨limit, hlimit, hlength⟩ := h.within
  obtain ⟨members, hread, hcode⟩ := h.offers
  have hshort : decide (limit < (code.length : Int)) = false :=
    decide_eq_false (Int.not_lt.2 hlength)
  simp only [Request.judge, hread, codeIn, hcode, hlimit, exceeds, hshort]

/-- A report is answered. -/
theorem Request.Asks.respond_of_report (hserver : Server.Documented)
    {report : Report} (h : r.Asks settings code)
    (hcheck : check code = .ok report) :
    (respond settings r).Answers settings 200 report.toJson := by
  have hjudge := h.judge
  rw [hcheck] at hjudge
  rw [respond_of_page h.page]
  exact (answerCheck_of_report hserver (shows_of_page hserver h.page) hjudge
    (Report.isWhole_toJson (isWhole_of_check h.whole hcheck))).1

/-- A fault of the check is told. -/
theorem Request.Asks.respond_of_fault (hserver : Server.Documented)
    {fault : Fault} (h : r.Asks settings code)
    (hcheck : check code = .error fault) :
    (respond settings r).Answers settings 500
      (Envelope.refusal "server" (faultMessage fault.message)).toJson := by
  have hjudge := h.judge
  rw [hcheck] at hjudge
  rw [respond_of_page h.page]
  exact (answerCheck_of_fault hserver (shows_of_page hserver h.page)
    hjudge).1

/-- Whatever text a request gives to be checked, it is answered with the
report on it, unless there is none, because an integer in the text has too
many digits or arrays are nested too deep. -/
theorem respond_asked (hserver : Server.Documented)
    (h : r.Asks settings code) :
    (∃ report, check code = .ok report
      ∧ (respond settings r).Answers settings 200 report.toJson)
    ∨ (∃ digits, digits <:+: code ∧ digits.all isDigit = true
      ∧ integerDigitsMax < digits.length
      ∧ check code = .error (.tooManyDigits digits.length)
      ∧ (respond settings r).Answers settings 500
        (Envelope.refusal "server" (faultMessage
          (Fault.tooManyDigits digits.length).message)).toJson)
    ∨ ∃ table, tokenize code = .ok table
      ∧ nestingMax + 1 < arrayWords table
      ∧ check code = .error .nestedTooDeep
      ∧ (respond settings r).Answers settings 500
        (Envelope.refusal "server" (faultMessage
          Fault.nestedTooDeep.message)).toJson := by
  cases hcheck : check code with
  | ok report => exact .inl ⟨report, rfl, h.respond_of_report hserver hcheck⟩
  | error fault =>
    rcases fault_cases_of_check hcheck with
      ⟨digits, hdigits, hall, hmany, rfl⟩ | ⟨table, htable, hwords, rfl⟩
    · exact .inr (.inl ⟨digits, hdigits, hall, hmany, rfl,
        h.respond_of_fault hserver hcheck⟩)
    · exact .inr (.inr ⟨table, htable, hwords, rfl,
        h.respond_of_fault hserver hcheck⟩)

end Asking

open scoped UsualServer

/-- A text that is posted is one that is asked for. -/
theorem Request.asks_posting {code : Text} (hwhole : code.IsWhole)
    (hlength : code.length ≤ 100000) :
    (posting code).Asks .usual code where
  page := dispatch_of_post rfl rfl _
  offers := ⟨_, readJson_posting hwhole Settings.usual_bodyLimit 979, rfl⟩
  whole := hwhole
  within := ⟨100000, Settings.usual_codeLimit, by omega⟩

theorem respond_asked_quotes :
    Server.Documented
      ∧ (Request.posting "var a: \"x\";\n").Asks .usual "var a: \"x\";\n"
      ∧ ∃ report, check "var a: \"x\";\n" = .ok report
        ∧ (respond .usual (.posting "var a: \"x\";\n")).Answers .usual 200
          report.toJson := by
  have hserver : Server.Documented := standardServer_documented 480 980
  have hasks := Request.asks_posting
    (Text.isWhole_ofString "var a: \"x\";\n") (by decide)
  refine ⟨hserver, hasks, (respond_asked hserver hasks).resolve_right ?_⟩
  rintro (⟨digits, hdigits, -, hmany, -⟩ | ⟨table, htable, hwords, -⟩)
  · have hshort : (Text.ofString "var a: \"x\";\n").length
        < integerDigitsMax := by
      decide
    exact absurd hdigits.length_le
      (Nat.not_le.2 (Nat.lt_trans hshort hmany))
  · have hnone : (tokenize "var a: \"x\";\n").toOption.map arrayWords
        = some 0 := by
      decide +kernel
    rw [htable] at hnone
    rw [Option.some.inj hnone] at hwords
    exact absurd hwords (Nat.not_lt_zero _)

-- ========================================================= too many digits

/-- Digits are read as a size. -/
theorem scans_size {digits : Text} (hne : digits ≠ [])
    (h : ∀ c ∈ digits, isDigit c = true) (p : Position) :
    Scans p (digits ++ "];")
      [⟨.number, digits, p⟩, ⟨.symbol, "]", p.right digits.length⟩,
        ⟨.symbol, ";", (p.right digits.length).right 1⟩]
      (((p.right digits.length).right 1).right 1) := by
  obtain ⟨c, more, rfl⟩ := List.exists_cons_of_ne_nil hne
  have hplace : p.behind (c :: more) "];" = p.right (c :: more).length :=
    Position.behind_of_oneLine
      (fun d hd => isLineBreak_eq_false_of_isDigit (h d hd)) p _
  have hcloser : Lead.read ']' ([] ++ [.char ';']) = .lexeme .symbol [] :=
    Lead.read_solitary (by decide) _
  have hend : Lead.read ';' ([] ++ []) = .lexeme .symbol [] :=
    Lead.read_solitary (by decide) _
  refine .lexeme (Lead.read_digits (h c List.mem_cons_self)
    (fun d hd => h d (List.mem_cons_of_mem c hd)) rfl) ?_
  rw [hplace]
  exact .lexeme hcloser (.lexeme hend (.done _))

/-- A number with more digits than an integer may have, whose value is one
all the same. -/
def overlongOne : Text := Text.repeated integerDigitsMax '0' ++ "1"

theorem length_overlongOne : overlongOne.length = 4301 := by
  unfold overlongOne Text.repeated
  rw [List.length_append, List.length_replicate]
  rfl

theorem all_isDigit_overlongOne : ∀ c ∈ overlongOne, isDigit c = true := by
  intro c hc
  rcases List.mem_append.1 hc with hc | hc
  · rw [List.eq_of_mem_replicate hc]
    rfl
  · rw [List.mem_singleton.1 hc]
    rfl

/-- The lexemes in front of a size. -/
def sizeFront : List Token :=
  [⟨.keyword, "var", ⟨1, 1⟩⟩, ⟨.identifier, "a", ⟨1, 5⟩⟩,
    ⟨.symbol, ":", ⟨1, 6⟩⟩, ⟨.keyword, "string", ⟨1, 8⟩⟩,
    ⟨.symbol, "[", ⟨1, 14⟩⟩]

theorem scans_sizeFront :
    Scans .start "var a: string[" sizeFront ⟨1, 15⟩ := by
  have hfront : tokenize "var a: string[" =
      .ok (sizeFront ++ [.mark ⟨1, 15⟩]) := by
    decide +kernel
  obtain ⟨tokens, q, hscans, htable⟩ := tokenize_eq_ok_iff.1 hfront
  obtain ⟨rfl, hmark⟩ := List.append_inj' htable rfl
  obtain rfl : (⟨1, 15⟩ : Position) = q :=
    congrArg Token.pos (List.singleton_inj.1 hmark)
  exact hscans

/-- A text whose only number is `overlongOne`. -/
def overlongSize : Text :=
  "var a: string[" ++ lineFeed :: (overlongOne ++ "];")

theorem check_overlongSize :
    check overlongSize = .error (.tooManyDigits 4301) := by
  have hscans := scans_sizeFront.append (by decide)
    (scans_size (by decide) all_isDigit_overlongOne _)
  rw [length_overlongOne] at hscans
  have hrun : (ofTable (sizeFront ++
      [⟨.number, overlongOne, ⟨2, 1⟩⟩, ⟨.symbol, "]", ⟨2, 4302⟩⟩,
        ⟨.symbol, ";", ⟨2, 4303⟩⟩, .mark ⟨2, 4304⟩])).run.halt?.map
      Halt.fault = some (.tooManyDigits 4301) := by
    decide +kernel
  obtain ⟨note, hnote, hfault⟩ := Option.map_eq_some_iff.1 hrun
  rw [← hfault]
  refine (check_of_scans hscans).trans ?_
  unfold Analysis.report?
  split
  next found hfound =>
    rw [Option.some.inj (hnote.symm.trans hfound)]
  next hnone => cases hnote.symm.trans hnone

/-- A text far below the limit, and the fault it is answered with. -/
theorem respond_overlongSize :
    Server.Documented
      ∧ (Request.posting overlongSize).Asks .usual overlongSize
      ∧ (respond .usual (.posting overlongSize)).status = 500 := by
  have hserver : Server.Documented := standardServer_documented 480 980
  have hlength : overlongSize.length ≤ 100000 := by
    unfold overlongSize
    rw [List.length_append, List.length_cons, List.length_append,
      length_overlongOne]
    decide
  have hwhole : overlongSize.IsWhole := by
    simp [overlongSize, overlongOne, lineFeed]
  have hasks := Request.asks_posting hwhole hlength
  exact ⟨hserver, hasks,
    (hasks.respond_of_fault hserver check_overlongSize).status⟩

end VarSection
