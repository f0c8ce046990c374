/-
The reports of the service. What a report tells of a text in words of its
own holds no half of a surrogate pair, and neither do types, so whatever a
report holds of such halves it quotes from the text, in a finding or as a
declared name. A whole text therefore has a report that can be sent
(`isWhole_of_check`, `Report.isWhole_toJson`).
-/
import VarSection.Proofs.Analysis.Pointing
import VarSection.Proofs.Analysis.Typed
import VarSection.Proofs.Json.Whole
import VarSection.Service.Envelope

namespace VarSection

open Analysis Grammar

-- ================================================================ as JSON

theorem isWhole_errorEntry {severity message source : Text}
    (hseverity : severity.IsWhole) (hmessage : message.IsWhole)
    (hsource : source.IsWhole) (pos : Position) :
    (errorEntry severity pos message source).IsWhole := by
  refine .object (by simp) ?_
  simp only [List.forall_mem_cons]
  exact ⟨.text (Text.isWhole_ofString _), .text hseverity, .int _, .int _,
    .text hmessage, .text hsource, fun _ h => absurd h List.not_mem_nil⟩

theorem Symbol.isWhole_toJson {s : Symbol Position} (hname : s.name.IsWhole)
    (htype : s.type.Known) :
    (s.toJson (fun p => .int p.line) fun p => .int p.col).IsWhole := by
  refine .object (by simp) ?_
  simp only [List.forall_mem_cons]
  exact ⟨.text hname, .text (VarType.isWhole_shown htype), .int _, .int _,
    fun _ h => absurd h List.not_mem_nil⟩

theorem Declaration.isWhole_toJson {d : Declaration}
    (hnames : ∀ n ∈ d.names, n.name.IsWhole) (htype : d.type.Known) :
    d.toJson.IsWhole := by
  refine .object (by simp) ?_
  simp only [List.forall_mem_cons]
  refine ⟨.list fun item hitem => ?_,
    .text (VarType.isWhole_written htype), .int _, .int _,
    fun _ h => absurd h List.not_mem_nil⟩
  obtain ⟨n, hn, rfl⟩ := List.mem_map.1 hitem
  exact .text (hnames n hn)

theorem Envelope.isWhole_toJson {e : Envelope} (hmessage : e.message.IsWhole)
    (herrors : ∀ entry ∈ e.errors, entry.IsWhole)
    (hsymbols : ∀ entry ∈ e.symbols, entry.IsWhole)
    (hdeclarations : ∀ entry ∈ e.declarations, entry.IsWhole) :
    e.toJson.IsWhole := by
  refine .object (by simp) ?_
  simp only [List.forall_mem_cons]
  exact ⟨.bool _, .text hmessage, .list herrors, .list hsymbols,
    .list hdeclarations, fun _ h => absurd h List.not_mem_nil⟩

theorem Envelope.isWhole_refusal {source message : Text}
    (hsource : source.IsWhole) (hmessage : message.IsWhole) :
    (refusal source message).toJson.IsWhole := by
  refine isWhole_toJson hmessage (fun entry hentry => ?_)
    (fun _ h => absurd h List.not_mem_nil)
    fun _ h => absurd h List.not_mem_nil
  rw [List.mem_singleton.1 hentry]
  exact isWhole_errorEntry hsource hmessage hsource _

-- ================================================================ reports

/-- A finding is worded as a whole text, if what it quotes is one. -/
theorem Cause.isWhole_message {cause : Cause}
    (h : ∀ w, cause.quoted? = some w → w.IsWhole) : cause.message.IsWhole := by
  cases cause with
  | unknownSymbol text => simp [message, h text rfl]
  | unexpectedToken text => simp [message, h text rfl]
  | invalidName text => simp [message, h text rfl]
  | invalidType text => simp [message, h text rfl]
  | redeclared name first => simp [message, h name rfl]
  | remark text => exact h text rfl
  | _ => simp [message]

/-- A report whose findings, names and types are worded as whole texts. -/
structure Report.IsWhole (r : Report) : Prop where
  severities : ∀ d ∈ r.errors, d.severity = .lexical ∨ d.severity = .syntactic
  messages : ∀ d ∈ r.errors, d.message.IsWhole
  symbols : ∀ s ∈ r.symbols.toList, s.name.IsWhole ∧ s.type.Known
  declarations : ∀ d ∈ r.declarations,
    (∀ n ∈ d.names, n.name.IsWhole) ∧ d.type.Known

theorem Report.isWhole_headline {r : Report} (h : r.IsWhole) :
    r.headline.IsWhole := by
  unfold headline
  split
  next => exact Text.isWhole_ofString _
  next d errors herrors =>
    have hd : d ∈ r.errors := by rw [herrors]; exact List.mem_cons_self
    unfold headlineOf
    rcases h.severities d hd with hseverity | hseverity
    all_goals simp [hseverity, Severity.title, h.messages d hd]

theorem Report.isWhole_toJson {r : Report} (h : r.IsWhole) :
    r.toJson.IsWhole := by
  refine Envelope.isWhole_toJson (isWhole_headline h) (fun entry hentry => ?_)
    (fun entry hentry => ?_) fun entry hentry => ?_
  · obtain ⟨d, hd, rfl⟩ := List.mem_map.1 hentry
    have hsource : d.severity.source.IsWhole := by
      unfold Severity.source
      split <;> exact Text.isWhole_ofString _
    refine isWhole_errorEntry ?_ (h.messages d hd) hsource _
    rcases h.severities d hd with hseverity | hseverity
    all_goals simp [hseverity, Severity.name]
  · obtain ⟨s, hs, rfl⟩ := List.mem_map.1 hentry
    exact Symbol.isWhole_toJson (h.symbols s hs).1 (h.symbols s hs).2
  · obtain ⟨d, hd, rfl⟩ := List.mem_map.1 hentry
    exact Declaration.isWhole_toJson (h.declarations d hd).1
      (h.declarations d hd).2

/-- The findings of a report without halves are worded without them. -/
theorem Report.messages_of_isWhole_toJson {r : Report}
    (h : r.toJson.IsWhole) : ∀ d ∈ r.errors, d.message.IsWhole := by
  intro d hd
  cases h with
  | object _ hmembers =>
    cases hmembers ("errors", .list (r.errors.map Diagnostic.toJson))
      (by simp [Envelope.ofReport]) with
    | list hentries =>
      cases hentries _ (List.mem_map_of_mem hd) with
      | object _ hentry =>
        cases hentry ("message", .text d.message) (by simp) with
        | text hmessage => exact hmessage

/-- What is told of a whole text is whole. -/
theorem Scans.isWhole_report [NestingLimit] {text : Text}
    {tokens : List Token} {q : Position} {report : Report}
    (hscans : Scans .start text tokens q) (hwhole : text.IsWhole)
    (h : check text = .ok report) :
    report.IsWhole := by
  have hends := Token.mark_ends tokens q
  have hwritten : ∀ {pos w}, text.HoldsAt pos w → w.IsWhole := by
    rintro pos w ⟨before, after, rfl, -⟩
    exact hwhole.of_infix ⟨before, after, List.append_assoc ..⟩
  have hnamed : ∀ n, Named (tokens ++ [.mark q]) n → n.name.IsWhole :=
    fun n hn => hwritten (hscans.holdsAt_of_named hn).2
  have hsyntactic := syntactic_of_scans hscans h
  rw [report_of_scans hscans h] at hsyntactic ⊢
  refine ⟨fun d hd => .inr (hsyntactic d hd), fun d hd => ?_, fun s hs => ?_,
    fun d hd => ?_⟩
  · have hcites := cites_of_mem_errors hscans.lexed hends
      (List.mem_reverse.1 (Report.mem_errors_ofFindings.1 hd))
    exact Cause.isWhole_message fun w hw =>
      hwritten ((hcites.pointsInto hscans).quoted w hw).2.2
  · change s ∈ (ofTable _).run.symbols.toList at hs
    rw [(Tallies.run hends).toList_symbols] at hs
    have hoffered := (firstSymbols_sublist _ _).subset hs
    refine ⟨hnamed _ ((Written.run hends).named_offered hoffered), ?_⟩
    obtain ⟨d, hd, hs⟩ := List.mem_flatMap.1 hoffered
    obtain ⟨n, -, rfl⟩ := List.mem_map.1 hs
    exact (Typed.run hends).known d (List.mem_reverse.1 hd)
  · have hd := List.mem_reverse.1 hd
    exact ⟨fun n hn => hnamed n ((Written.run hends).named d hd n hn),
      (Typed.run hends).known d hd⟩

theorem isWhole_of_check [NestingLimit] {text : Text} {report : Report}
    (hwhole : text.IsWhole) (h : check text = .ok report) :
    report.IsWhole := by
  obtain ⟨tokens, q, hscans, -⟩ | ⟨pos, rfl⟩ := check_cases h
  · exact hscans.isWhole_report hwhole h
  · refine ⟨fun d hd => ?_, fun d hd => ?_,
      fun _ hs => absurd hs List.not_mem_nil,
      fun _ hd => absurd hd List.not_mem_nil⟩
    · rw [List.mem_singleton.1 hd]
      exact .inl rfl
    · rw [List.mem_singleton.1 hd]
      exact Text.isWhole_ofString _

end VarSection
