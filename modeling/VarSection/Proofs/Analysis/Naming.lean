/-
Names and what is found on them. Every name that a run declares was read in one
of its states (`Analysis.exists_readAt`), and it is judged when it is read, and
only then. The findings at lexemes are made in the order of stages, and a
finding on a name is the last that can be made at its place. So none was made
there before the name was read, and what is found later lies further on
(`Analysis.ReadAt.misnamed`).

A declared name is literal (`Identifier.SpelledBy`), and only a single
identifier is a valid one.
-/
import VarSection.Proofs.Analysis.Accounting
import VarSection.Proofs.Analysis.Spelling
import VarSection.Proofs.Analysis.Turns
import VarSection.Proofs.Scanner.Comments

namespace VarSection

open Analysis

-- ==================================================== findings on names

/-- Whether a finding is that a name is not valid. -/
def Cause.isInvalidName : Cause → Bool
  | .invalidName _ => true
  | _ => false

/-- Whether a finding is that the name at a place is not valid. -/
def Diagnostic.misnames (p : Position) (d : Diagnostic) : Bool :=
  d.pos == p && d.cause.isInvalidName

/-- What is found when a name is read: that it is not valid, unless it is. -/
def Identifier.findings (n : Identifier) : List Diagnostic :=
  if isValidName n.name then []
  else [⟨.syntactic, n.pos, .invalidName n.name⟩]

/-- A finding on a name is made last of all at its place. -/
theorem Note.stage_of_misnames {table : List Token} {x : Note} {p : Position}
    (hsound : x.Sound table) (h : x.finding.misnames p = true) :
    x.stage = ⟨p, 7⟩ := by
  unfold Diagnostic.misnames at h
  rw [Bool.and_eq_true, beq_iff_eq] at h
  obtain ⟨hpos, hname⟩ := h
  have hcause : ∃ name, x.finding.cause = .invalidName name := by
    cases hcause : x.finding.cause with
    | invalidName name => exact ⟨name, rfl⟩
    | _ =>
      rw [hcause] at hname
      cases hname
  obtain ⟨name, hcause⟩ := hcause
  have hleft : x.left = false := by
    by_contra hleft
    obtain ⟨_, _, u, _, -, -, -, hfinding⟩ :=
      hsound.left (eq_true_of_ne_false hleft)
    rw [hfinding] at hcause
    cases hcause
  unfold Note.stage Note.rank
  rw [hleft, hcause, hpos]
  rfl

/-- A turn makes its findings on the way to the next one. -/
theorem Turn.Due.finds [NestingLimit] {t : Turn} (h : t.Due)
    (ha : t.before.Settled) :
    ∃ behind, Finds 7 7 behind t.before t.after := by
  cases t with
  | opening a => exact ⟨[], ha.finds_next h.isEnding 7 7⟩
  | declaration a =>
    obtain ⟨behind, hfinds, -⟩ := ha.finds_readDeclaration h.isEnding
    exact ⟨behind, hfinds⟩
  | stray a => exact ⟨[], ha.finds_passStray h.isEnding⟩

namespace Analysis

variable {a b : Analysis} {ts : List Turn} {n : Identifier} {p : Position}
  {table : List Token} {l m : Nat} {behind : List Diagnostic}

theorem filter_misnames (a : Analysis) (p : Position) :
    a.errors.filter (·.misnames p) = a.atLexemes.filter (·.misnames p) := by
  unfold atLexemes
  rw [List.filter_filter]
  apply List.filter_congr
  intro d _
  unfold Diagnostic.misnames
  cases d.cause <;> simp [Cause.isInvalidName, Cause.isAtLexeme]

/-- On the way between two places a finding is made neither on a name in front
of the first, nor on one that does not stand in front of the second. -/
theorem Finds.misnamed_eq [NestingLimit] (h : Finds l m behind a b)
    (hp : p.Before a.current.pos ∨ b.stage m ≤ ⟨p, 7⟩) :
    b.errors.filter (·.misnames p) = a.errors.filter (·.misnames p) := by
  obtain ⟨notes, hnoted, hlist⟩ := h.notes
  have hnone : (notes.map (·.finding)).filter (·.misnames p) = [] := by
    rw [List.filter_eq_nil_iff]
    intro d hd hmisnames
    obtain ⟨x, hx, rfl⟩ := List.mem_map.1 hd
    have hstage := Note.stage_of_misnames (hnoted.sound x hx) hmisnames
    have hlower := hnoted.lower x hx
    have hupper := hnoted.upper x hx
    rw [hstage] at hlower hupper
    rcases hp with hbefore | hle
    · exact lt_irrefl _ ((Stage.lt_of_before hbefore).trans_le hlower)
    · exact lt_irrefl _ (hupper.trans_le hle)
  rw [filter_misnames, filter_misnames, hlist, List.filter_append, hnone,
    List.nil_append]

/-- A name is read from the current lexeme on, with all that is glued to
it. -/
theorem passes_readName {first : Token} {rest : List Token} (ha : a.Inside)
    (h : a.cursor.ahead = first :: rest) (hend : first.isEnding = false) :
    a.readName.1 = first.nameWith rest
      ∧ Passes a (first :: gluedRun first rest)
          (first.nameWith rest).findings a.readName.2 := by
  have hnext := passes_next h hend
  have hbehind := hnext.ahead_tail h
  have hupcoming : a.next.upcoming = rest := by
    rw [(hnext.inside ha).upcoming, hbehind]
  obtain ⟨left, hleft⟩ := gluedRun_isPrefix first rest
  have hpass : Passes a (first :: gluedRun first rest) []
      (nextBy (gluedRun first rest).length a.next) :=
    hnext.trans (passes_nextBy (hbehind.trans hleft.symm)
      fun t ht => notEnding_of_mem_gluedRun ht)
  unfold readName Identifier.findings Token.nameWith
  simp only [current_of_ahead h, hupcoming]
  refine ⟨trivial, ?_⟩
  by_cases hvalid : isValidName (Text.join
      ((first :: gluedRun first rest).map (·.text))) = true
  · rw [if_pos hvalid, if_pos hvalid]
    exact hpass
  · rw [if_neg hvalid, if_neg hvalid]
    have hreport := hpass.trans (passes_report _ first.pos
      (.invalidName (Text.join ((first :: gluedRun first rest).map (·.text)))))
    rw [List.append_nil] at hreport
    exact hreport

-- ==================================================== when a name is read

/-- The state in which the analysis of a table reads a name, between what is
found before and what is found later. -/
structure ReadAt [NestingLimit] (table : List Token) (n : Identifier)
    (a : Analysis) :
    Prop where
  settled : a.Settled
  part : a.current.kind.isNamePart = true
  name : a.readName.1 = n
  before : ∃ behind, Finds 7 7 behind (ofTable table) a
  after : ∃ behind, Finds 1 7 behind a.readName.2 (ofTable table).run

theorem isNamePart_of_atNameAfter {comma : Token}
    (h : a.atNameAfter comma = true) :
    a.current.kind.isNamePart = true := by
  unfold atNameAfter at h
  cases hkind : a.current.kind <;> rw [hkind] at h
  case symbol | ending => cases h
  all_goals rfl

/-- Each name behind a comma is read on the way along the list. -/
theorem Settled.exists_of_mem_readMoreNames [NestingLimit] (ha : a.Settled)
    (hn : n ∈ a.readMoreNames.1) :
    ∃ b : Analysis, b.Settled ∧ b.current.kind.isNamePart = true
      ∧ b.readName.1 = n ∧ Finds 1 7 [] a b
      ∧ Finds 1 1 [] b.readName.2 a.readMoreNames.2 := by
  fun_induction readMoreNames a with
  | case1 a hcomma hname name more ih =>
    have hnext := ha.finds_next (isEnding_of_atSymbol hcomma) 1 7
    have hstart := hnext.settled ha
    have hread := hstart.finds_readName (isEnding_of_atNameAfter hname) 1
    have hbehind := hread.settled hstart
    rcases List.mem_cons.1 hn with rfl | hn
    · exact ⟨a.next, hstart, isNamePart_of_atNameAfter hname, rfl, hnext,
        hbehind.finds_readMoreNames⟩
    · obtain ⟨b, hb, hpart, hnamed, hbefore, hafter⟩ := ih hbehind hn
      exact ⟨b, hb, hpart, hnamed, (hnext.trans hread).trans hbefore, hafter⟩
  | case2 a hcomma hname => cases hn
  | case3 a hcomma => cases hn

/-- Each name of a declaration is read on the way through the declaration. -/
theorem Settled.exists_of_mem_readNames [NestingLimit] (ha : a.Settled)
    (hname : a.unreadName = true) (hn : n ∈ a.unmarked.readNames.1) :
    ∃ b : Analysis, b.Settled ∧ b.current.kind.isNamePart = true
      ∧ b.readName.1 = n ∧ Finds 7 7 [] a b
      ∧ ∃ behind, Finds 1 7 behind b.readName.2 a.readDeclaration := by
  have hend := isEnding_of_unreadName hname
  have hstart : Finds 7 7 [] a a.unmarked :=
    .still (.single (.setRecovering a false)) rfl rfl rfl 7
  have ha' := hstart.settled ha
  have hread := ha'.finds_readName hend 1
  have hbehind := hread.settled ha'
  obtain ⟨behind, hrest, -⟩ := ha.finds_behindNames hend
  rcases List.mem_cons.1 hn with rfl | hn
  · refine ⟨a.unmarked, ha', ?_, rfl, hstart, _,
      hbehind.finds_readMoreNames.trans hrest⟩
    obtain ⟨rest, hahead⟩ := ha.inside.exists_ahead
    rw [unreadName_of_ahead hahead, beq_iff_eq] at hname
    show a.current.kind.isNamePart = true
    rw [hname]
    rfl
  · obtain ⟨b, hb, hpart, hnamed, hbefore, hafter⟩ :=
      hbehind.exists_of_mem_readMoreNames hn
    exact ⟨b, hb, hpart, hnamed, (hstart.trans hread).trans hbefore, _,
      hafter.trans hrest⟩

/-- So do turns in a row. -/
theorem Leads.finds [NestingLimit] (h : Leads a ts b)
    (hts : ∀ t ∈ ts, t.before.Settled ∧ t.Due) :
    ∃ behind, Finds 7 7 behind a b := by
  induction h with
  | nil a => exact ⟨[], .refl a 7⟩
  | cons t _ ih =>
    obtain ⟨hsettled, hdue⟩ := hts t List.mem_cons_self
    obtain ⟨behind, hturn⟩ := hdue.finds hsettled
    obtain ⟨more, hrest⟩ := ih fun u hu => hts u (List.mem_cons_of_mem t hu)
    exact ⟨more ++ behind, hturn.trans hrest⟩

/-- What follows a turn among others leads to their end. -/
theorem Leads.of_mem [NestingLimit] (h : Leads a ts b) {t : Turn}
    (ht : t ∈ ts) :
    ∃ us, (∀ u ∈ us, u ∈ ts) ∧ Leads t.after us b := by
  induction h with
  | nil => cases ht
  | @cons u ts b hrest ih =>
    rcases List.mem_cons.1 ht with rfl | ht
    · exact ⟨ts, fun u hu => List.mem_cons_of_mem _ hu, hrest⟩
    · obtain ⟨us, hus, hleads⟩ := ih ht
      exact ⟨us, fun v hv => List.mem_cons_of_mem _ (hus v hv), hleads⟩

/-- Every name that an analysis declares was read in one of its states. -/
theorem exists_readAt [NestingLimit] (hlexed : Lexed table)
    (hends : ∃ t ∈ table, t.isEnding = true) {d : Declaration}
    (hd : d ∈ (ofTable table).run.declared) (hn : n ∈ d.names) :
    ∃ a, ReadAt table n a := by
  have haccounts := (lasts_accounts table).turns (.ofTable hlexed hends)
  have hleads := leads_turns (Inside.ofTable hends)
  rw [← run_ofTable] at hleads
  rw [(run_eq_turns hends).2.2] at hd
  obtain ⟨t, ht, hd⟩ := List.mem_flatMap.1 hd
  obtain ⟨haccount, hdue⟩ := haccounts t ht
  obtain ⟨us, hus, hrest⟩ := hleads.of_mem ht
  obtain ⟨later, hlater⟩ := hrest.finds fun u hu =>
    ⟨(haccounts u (hus u hu)).1.settled, (haccounts u (hus u hu)).2⟩
  cases t with
  | opening a =>
    rw [Turn.declared, Turn.added_eq_nil (Turn.declared_next a)] at hd
    cases hd
  | stray a =>
    rw [Turn.declared, Turn.added_eq_nil (Turn.declared_next a)] at hd
    cases hd
  | declaration a =>
    rw [Turn.declared, Turn.added_eq
      (Turn.declared_declaration hdue haccount.settled.inside)] at hd
    rw [List.mem_singleton.1 hd] at hn
    obtain ⟨b, hb, hpart, hname, hbefore, behind, hafter⟩ :=
      haccount.settled.exists_of_mem_readNames hdue hn
    obtain ⟨earlier, hearlier⟩ := haccount.finds
    exact ⟨b, hb, hpart, hname, ⟨_, hearlier.trans hbefore⟩,
      ⟨_, hafter.trans hlater⟩⟩

theorem ReadAt.isEnding [NestingLimit] (h : ReadAt table n a) :
    a.current.isEnding = false :=
  Token.isEnding_of_isNamePart h.part

/-- A name that an analysis declares is written in its table, from a lexeme on
that can be part of a name. -/
theorem ReadAt.exists_first [NestingLimit] (h : ReadAt table n a) :
    ∃ before first rest, table = before ++ first :: rest
      ∧ first.kind.isNamePart = true ∧ n = first.nameWith rest := by
  obtain ⟨rest, hrest, htable⟩ := h.settled.inside.toList_eq
  obtain ⟨hname, -⟩ := passes_readName h.settled.inside hrest h.isEnding
  obtain ⟨_, hbefore⟩ := h.before
  refine ⟨a.cursor.behind.reverse, a.current, rest, ?_, h.part,
    h.name.symm.trans hname⟩
  rw [← htable]
  exact hbefore.steps.toList.symm

/-- In all findings of an analysis a name that it declares is found not to be
valid just as often as when it was read. -/
theorem ReadAt.misnamed [NestingLimit] (h : ReadAt table n a) :
    (ofTable table).run.errors.filter (·.misnames n.pos) = n.findings := by
  obtain ⟨rest, hrest⟩ := h.settled.inside.exists_ahead
  obtain ⟨hname, hpass⟩ := passes_readName h.settled.inside hrest h.isEnding
  rw [← hname, h.name] at hpass
  obtain ⟨_, hbefore⟩ := h.before
  obtain ⟨_, hafter⟩ := h.after
  have hpos : n.pos = a.current.pos := by
    rw [← h.name]
    rfl
  have hbehind := h.settled.before_readName h.isEnding
  rw [h.name] at hbehind
  have hearlier := hbefore.misnamed_eq (p := n.pos)
    (.inr (by rw [hpos]; exact le_refl _))
  rw [hafter.misnamed_eq (.inl hbehind), hpass.errors, List.filter_append,
    hearlier]
  show n.findings.reverse.filter _ ++ [] = n.findings
  rw [List.append_nil]
  unfold Identifier.findings
  split
  · rfl
  · apply List.filter_eq_self.2
    intro d hd
    rw [List.mem_singleton.1 hd]
    simp [Diagnostic.misnames, Cause.isInvalidName]

end Analysis

-- ================================================================= reports

/-- What is found on a name is at most one finding, so order does not
matter. -/
theorem Identifier.eq_findings_of_perm {n : Identifier}
    {found : List Diagnostic} (h : found.Perm n.findings) :
    found = n.findings := by
  unfold findings at h ⊢
  split at h
  next hvalid =>
    rw [if_pos hvalid]
    exact h.eq_nil
  next hvalid =>
    rw [if_neg hvalid]
    exact List.perm_singleton.1 h

/-- A report tells of a name what the analysis has found. -/
theorem Analysis.ReadAt.reported [NestingLimit] {table : List Token}
    {n : Identifier} {a : Analysis} (h : ReadAt table n a) :
    (Report.arrange (ofTable table).run.findings).filter
      (·.misnames n.pos) = n.findings := by
  apply Identifier.eq_findings_of_perm
  have hperm := (List.mergeSort_perm (ofTable table).run.findings
    fun d e => d.pos.le e.pos).trans (List.reverse_perm _)
  have hfilter := hperm.filter (·.misnames n.pos)
  rw [h.misnamed] at hfilter
  exact hfilter

/-- A declared name is literal. Where a check returns a report, each name of
each declaration is written in the text at its place. It is spelled by as many
lexemes as are written there with nothing between them and can be parts of a
name. The report says exactly once that the name is not valid if it is no ASCII
identifier or, in upper or lower case, a keyword, and otherwise never. A name
of two or more lexemes is never valid, so a valid one is a single identifier
lexeme. -/
theorem declared_names_literal [NestingLimit] {text : Text} {report : Report}
    (h : check text = .ok report) {d : Declaration}
    (hd : d ∈ report.declarations) {n : Identifier} (hn : n ∈ d.names) :
    ∃ table lexemes, tokenize text = .ok table
      ∧ n.SpelledBy text table lexemes
      ∧ (n.IsValid → report.errors.filter (·.misnames n.pos) = [])
      ∧ (¬ n.IsValid → report.errors.filter (·.misnames n.pos)
          = [⟨.syntactic, n.pos, .invalidName n.name⟩])
      ∧ (2 ≤ lexemes.length → ¬ n.IsValid)
      ∧ (n.IsValid → ∃ t, lexemes = [t] ∧ t.kind = .identifier
          ∧ t.text = n.name) := by
  obtain ⟨tokens, q, hscans, rfl⟩ | ⟨_, rfl⟩ := check_cases h
  case inr => cases hd
  have hlexed := hscans.lexed
  obtain ⟨a, hread⟩ := exists_readAt hlexed (Token.mark_ends tokens q) hd hn
  obtain ⟨before, first, rest, htable, hpart, rfl⟩ := hread.exists_first
  have hspelled := hscans.spelledBy_nameWith htable hpart
  have hvalid := Identifier.isValid_iff (hspelled.oneLine hlexed)
  have hreported := hread.reported
  have hsingle : (first.nameWith rest).IsValid →
      first.kind = .identifier ∧ gluedRun first rest = [] := by
    intro hname
    rw [htable] at hlexed
    exact gluedRun_of_valid hlexed.right_of_append
      (Token.isEnding_of_isNamePart hpart) (hvalid.1 hname)
  refine ⟨_, first :: gluedRun first rest,
    tokenize_eq_ok_iff.2 ⟨tokens, q, hscans, rfl⟩, hspelled, ?_, ?_, ?_, ?_⟩
  · intro hname
    rw [Identifier.findings, if_pos (hvalid.1 hname)] at hreported
    exact hreported
  · intro hname
    rw [Identifier.findings, if_neg (mt hvalid.2 hname)] at hreported
    exact hreported
  · intro hlength hname
    rw [(hsingle hname).2] at hlength
    simp at hlength
  · intro hname
    obtain ⟨hkind, hglued⟩ := hsingle hname
    refine ⟨first, by rw [hglued], hkind, ?_⟩
    unfold Token.nameWith
    rw [hglued]
    exact (List.append_nil _).symm

open scoped UsualNesting

/-- A name of two lexemes at the beginning of a line. The name behind the
comment could go on with it, if nothing were written between them. -/
theorem declared_names_literal_glued :
    let text : Text := "var a,\r\n7ю \x7bx\x7d y: char;"
    let n : Identifier := ⟨"7ю", ⟨2, 1⟩⟩
    ∃ report, check text = .ok report
      ∧ (∃ d ∈ report.declarations, n ∈ d.names)
      ∧ ∃ table lexemes, tokenize text = .ok table
        ∧ n.SpelledBy text table lexemes ∧ ¬ n.IsValid
        ∧ report.errors.filter (·.misnames n.pos)
          = [⟨.syntactic, n.pos, .invalidName n.name⟩] := by
  intro text n
  let table : List Token :=
    [⟨.keyword, "var", ⟨1, 1⟩⟩, ⟨.identifier, "a", ⟨1, 5⟩⟩,
      ⟨.symbol, ",", ⟨1, 6⟩⟩, ⟨.number, "7", ⟨2, 1⟩⟩,
      ⟨.unknown, "ю", ⟨2, 2⟩⟩, ⟨.identifier, "y", ⟨2, 8⟩⟩,
      ⟨.symbol, ":", ⟨2, 9⟩⟩, ⟨.keyword, "char", ⟨2, 11⟩⟩,
      ⟨.symbol, ";", ⟨2, 15⟩⟩, .mark ⟨2, 16⟩]
  let d : Declaration := ⟨[⟨"a", ⟨1, 5⟩⟩, n], .unknown, ⟨1, 5⟩⟩
  have htable : tokenize text = .ok table := by decide +kernel
  have hreadable : Readable table := by
    unfold Readable
    decide +kernel
  have hd : d ∈ (ofTable table).run.declared := by decide +kernel
  have hn : n ∈ d.names := by decide
  have hvalid : ¬ n.IsValid := by
    intro hvalid
    exact absurd hvalid.1.1 (by decide)
  have hcheck := check_of_readable htable hreadable (by decide +kernel)
  obtain ⟨table', lexemes, htable', hspelled, -, hinvalid, -⟩ :=
    declared_names_literal hcheck hd hn
  exact ⟨_, hcheck, ⟨d, hd, hn⟩, table', lexemes, htable', hspelled, hvalid,
    hinvalid hvalid⟩

end VarSection
