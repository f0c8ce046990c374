/-
Findings and the text they speak of. A finding cites the table that was
analysed (`Analysis.cites_of_mem_errors`), and the table maps the text, so
what a finding quotes is written in the text at the place of the finding
(`check_pointsInto`).

A name can be glued together from many lexemes. They are still written
without a gap, because lexemes that stand right behind each other are
(`Scans.runsOn_gluedRun`).
-/
import VarSection.Proofs.Analysis.Accounting
import VarSection.Proofs.Analysis.Spelling
import VarSection.Proofs.Scanner.Comments
import VarSection.Proofs.Scanner.Lines

namespace VarSection

open Analysis

/-- Every finding of an analysis cites its table. -/
theorem Analysis.cites_of_mem_errors [NestingLimit] {table : List Token}
    (hlexed : Lexed table) (hends : ∃ t ∈ table, t.isEnding = true)
    {d : Diagnostic} (hd : d ∈ (ofTable table).run.errors) :
    Cites table d := by
  have haccounts := Accounts.run hlexed hends
  rcases d.cause.trichotomy with hat | hbehind | hredeclared
  · obtain ⟨behind, hfinds⟩ := haccounts.finds
    obtain ⟨notes, hnoted, hlist⟩ := hfinds.notes
    have hmem : d ∈ (ofTable table).run.atLexemes :=
      List.mem_filter.2 ⟨hd, hat⟩
    rw [hlist] at hmem
    rcases List.mem_append.1 hmem with hmem | hmem
    · obtain ⟨n, hn, rfl⟩ := List.mem_map.1 hmem
      exact (hnoted.sound n hn).cites
    · exact absurd hmem List.not_mem_nil
  · exact haccounts.cites d (List.mem_filter.2 ⟨hd, hbehind⟩)
  · exact cites_of_mem_redeclared hends
      (List.mem_filter.2 ⟨List.mem_reverse.2 hd, hredeclared⟩)

-- ======================================================= what is quoted

/-- What a finding quotes stands in its wording. -/
theorem Cause.infix_message_of_quoted? {cause : Cause} {w : Text}
    (h : cause.quoted? = some w) : w <:+: cause.message := by
  have hstands : ∀ before after : Text, w <:+: before ++ w ++ after :=
    fun before after => ⟨before, after, rfl⟩
  cases cause with
  | unknownSymbol text => cases h; exact hstands ..
  | unexpectedToken text => cases h; exact hstands ..
  | invalidName text => cases h; exact hstands ..
  | invalidType text => cases h; exact hstands ..
  | remark text => cases h; exact List.infix_rfl
  | redeclared name first =>
    cases h
    rw [message]
    simp only [List.append_assoc]
    rw [← List.append_assoc]
    exact hstands ..
  | _ => cases h

/-- A name of the table is written in the text where it begins. -/
theorem Scans.holdsAt_of_named {text : Text} {tokens : List Token}
    {q : Position} (h : Scans .start text tokens q) {n : Identifier}
    (hn : Named (tokens ++ [.mark q]) n) :
    n.name ≠ [] ∧ text.HoldsAt n.pos n.name := by
  obtain ⟨before, first, rest, htable, hend, rfl⟩ := hn
  obtain ⟨rest, rfl, htokens⟩ := Token.exists_append_mark htable hend
  have hcut := h.wellCut first (by rw [htokens]; simp)
  obtain ⟨front, text', htext, hpos, hrest⟩ := h.written htokens
  obtain ⟨-, behind, -, htext', -⟩ :=
    hrest.runsOn_gluedRun (hcut.endPos_eq hpos)
  refine ⟨List.append_ne_nil_of_left_ne_nil hcut.nonempty _, front, behind, ?_,
    hcut.pos_eq hpos⟩
  rw [htext, htext']
  exact congrArg (front ++ ·) (List.append_assoc ..).symm

-- ================================================================= reports

/-- A finding points into a text of which a table was made. It is made at a
lexeme, or right behind one if a separator is missing there, and in any case
at a place of the text. What it quotes in its wording is written there, and
where it tells of a name that was declared before, that name, in upper or
lower case, is written at the place that it refers to. -/
structure Diagnostic.PointsInto (text : Text) (table : List Token)
    (d : Diagnostic) : Prop where
  place : (∃ t ∈ table, d.pos = t.pos)
    ∨ (d.cause = .colonExpected ∨ d.cause = .semicolonExpected)
      ∧ ∃ t ∈ table, d.pos = t.endPos
  within : d.pos.Within text
  quoted : ∀ w, d.cause.quoted? = some w →
    w ≠ [] ∧ w <:+: d.message ∧ text.HoldsAt d.pos w
  first : ∀ name first, d.cause = .redeclared name first →
    ∃ other, other ≠ [] ∧ text.HoldsAt first other
      ∧ Text.lower other = Text.lower name

/-- What is made at a lexeme points into the text, if what it quotes is
written there. -/
theorem Scans.pointsInto {text : Text} {tokens : List Token} {q : Position}
    (h : Scans .start text tokens q) {t : Token} {d : Diagnostic}
    (ht : t ∈ tokens ++ [.mark q]) (hpos : d.pos = t.pos)
    (hquoted : ∀ w, d.cause.quoted? = some w →
      w ≠ [] ∧ text.HoldsAt d.pos w)
    (hfirst : ∀ name first, d.cause = .redeclared name first →
      ∃ other, other ≠ [] ∧ text.HoldsAt first other
        ∧ Text.lower other = Text.lower name) :
    d.PointsInto text (tokens ++ [.mark q]) where
  place := .inl ⟨t, ht, hpos⟩
  within := hpos ▸ (h.within ht).1
  quoted w hw := ⟨(hquoted w hw).1, Cause.infix_message_of_quoted? hw,
    (hquoted w hw).2⟩
  first := hfirst

/-- What cites the table of a text points into the text. -/
theorem Cites.pointsInto {text : Text} {tokens : List Token} {q : Position}
    (h : Scans .start text tokens q) {d : Diagnostic}
    (hcites : Cites (tokens ++ [.mark q]) d) :
    d.PointsInto text (tokens ++ [.mark q]) := by
  have hlexeme : ∀ t ∈ tokens ++ [.mark q], t.isEnding = false →
      t.text ≠ [] ∧ text.HoldsAt t.pos t.text := by
    intro t ht hend
    rcases List.mem_append.1 ht with ht | ht
    · exact ⟨(h.wellCut t ht).nonempty, h.holdsAt ht⟩
    · rw [List.mem_singleton.1 ht] at hend
      cases hend
  have hname : ∀ n, Named (tokens ++ [.mark q]) n →
      ∃ t ∈ tokens ++ [.mark q], n.pos = t.pos := by
    rintro n ⟨before, first, rest, htable, -, rfl⟩
    exact ⟨first, by rw [htable]; simp, rfl⟩
  cases hcites with
  | @lexeme t cause ht hend hcause =>
    refine h.pointsInto ht rfl (fun w hw => ?_) fun name first hfirst => ?_
    · have hquoted : cause.quoted? = some t.text := by
        simp only [List.mem_cons, List.not_mem_nil, or_false] at hcause
        rcases hcause with rfl | rfl | rfl <;> rfl
      cases hquoted.symm.trans hw
      exact hlexeme t ht hend
    · change cause = _ at hfirst
      simp [hfirst] at hcause
  | @name n hn =>
    obtain ⟨t, ht, hpos⟩ := hname n hn
    refine h.pointsInto ht hpos (fun w hw => ?_) fun _ _ hfirst => ?_
    · cases hw
      exact h.holdsAt_of_named hn
    · cases hfirst
  | @again n first hn hfirst hsame =>
    obtain ⟨t, ht, hpos⟩ := hname n hn
    refine h.pointsInto ht hpos (fun w hw => ?_) fun name place hplace => ?_
    · cases hw
      exact h.holdsAt_of_named hn
    · cases hplace
      obtain ⟨hne, hholds⟩ := h.holdsAt_of_named hfirst
      exact ⟨first.name, hne, hholds, hsame⟩
  | @place t cause ht hcause =>
    refine h.pointsInto ht rfl (fun w hw => ?_) fun name first hfirst => ?_
    · cases hcause.symm.trans hw
    · change cause = _ at hfirst
      rw [hfirst] at hcause
      cases hcause
  | @behind t cause ht hcause =>
    refine ⟨.inr ⟨hcause, t, ht, rfl⟩, (h.within ht).2, fun w hw => ?_,
      fun name first hfirst => ?_⟩
    · rcases hcause with rfl | rfl <;> cases hw
    · rcases hcause with rfl | rfl <;> cases hfirst

/-- Every finding of the analysis points into the text that was checked. -/
theorem check_pointsInto [NestingLimit] {text : Text} {report : Report}
    (h : check text = .ok report) {d : Diagnostic} (hd : d ∈ report.errors)
    (hsyntactic : d.severity = .syntactic) :
    ∃ table, tokenize text = .ok table ∧ d.PointsInto text table := by
  obtain ⟨tokens, q, hscans, rfl⟩ | ⟨pos, rfl⟩ := check_cases h
  · refine ⟨_, tokenize_eq_ok_iff.2 ⟨tokens, q, hscans, rfl⟩, ?_⟩
    exact Cites.pointsInto hscans (cites_of_mem_errors hscans.lexed
      (Token.mark_ends tokens q)
      (List.mem_reverse.1 (Report.mem_errors_ofFindings.1 hd)))
  · rw [List.mem_singleton.1 hd] at hsyntactic
    cases hsyntactic

open scoped UsualNesting

/-- A name glued together from a character that begins no lexeme and a
number, declared once more in upper case in the second line: the finding
quotes it as it is written there, and refers to the first one. -/
theorem check_pointsInto_gluedName :
    let text : Text := "var a,\r\nю1, Ю1: char;"
    let found : Diagnostic := ⟨.syntactic, ⟨2, 5⟩, .redeclared "Ю1" ⟨2, 1⟩⟩
    ∃ report, check text = .ok report ∧ found ∈ report.errors
      ∧ found.severity = .syntactic
      ∧ ∃ table, tokenize text = .ok table
        ∧ found.PointsInto text table := by
  intro text found
  let table : List Token :=
    [⟨.keyword, "var", ⟨1, 1⟩⟩, ⟨.identifier, "a", ⟨1, 5⟩⟩,
      ⟨.symbol, ",", ⟨1, 6⟩⟩, ⟨.unknown, "ю", ⟨2, 1⟩⟩,
      ⟨.number, "1", ⟨2, 2⟩⟩, ⟨.symbol, ",", ⟨2, 3⟩⟩,
      ⟨.unknown, "Ю", ⟨2, 5⟩⟩, ⟨.number, "1", ⟨2, 6⟩⟩,
      ⟨.symbol, ":", ⟨2, 7⟩⟩, ⟨.keyword, "char", ⟨2, 9⟩⟩,
      ⟨.symbol, ";", ⟨2, 13⟩⟩, .mark ⟨2, 14⟩]
  have htable : tokenize text = .ok table := by decide +kernel
  have hreadable : Readable table := by
    unfold Readable
    decide +kernel
  have hfound : found ∈ (ofTable table).run.findings := by decide +kernel
  obtain ⟨report, hcheck, hmem⟩ : ∃ report, check text = .ok report
      ∧ found ∈ report.errors :=
    ⟨_, check_of_readable htable hreadable (by decide +kernel),
      Report.mem_errors_ofFindings.2 hfound⟩
  exact ⟨report, hcheck, hmem, rfl, check_pointsInto hcheck hmem rfl⟩

end VarSection
