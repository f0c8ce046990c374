/-
Identifiers that begin a line. Outside of arrays recovery never loses one: it
becomes the first lexeme of a declared name, or it is reported as unexpected
(`LineStart.kept_run`).

The proof follows one such identifier (`LineStart`). As long as it lies ahead
of the place (`LineStart.Ahead`), there are only two readers that can pass it:
the reader of names, which begins a name with it, and the section, which
reports it as stray. All others leave it ahead. What they pass is no identifier
at all, or it stands on the line of what they have passed last, and so does not
begin one. This holds of a whole run of lexemes at once
(`LineStart.Ahead.passes_of_line`), and with it of all that is read behind the
names of a declaration (`LineStart.Ahead.endures`).

Only the index ranges of arrays are passed without a look at lines.
-/
import VarSection.Proofs.Analysis.Naming
import VarSection.Proofs.Analysis.Walking

namespace VarSection

open Analysis

-- ======================================================== runs on a line

theorem line_of_mem_brokenRun {line : Int} {t : Token} {unread : List Token}
    (h : t ∈ brokenRun line unread) : t.line = line := by
  induction unread with
  | nil => cases h
  | cons u rest ih =>
    unfold brokenRun at h
    split at h
    next => cases h
    next hstop =>
      simp only [Bool.or_eq_true, not_or, bne_iff_ne, ne_eq,
        not_not] at hstop
      split at h
      · rw [List.mem_singleton.1 h]
        exact hstop.1.2
      · rcases List.mem_cons.1 h with rfl | h
        · exact hstop.1.2
        · exact ih h

theorem line_of_mem_synchronizedRun {line : Int} {t : Token}
    {unread : List Token} (h : t ∈ synchronizedRun line unread) :
    t.line = line := by
  unfold synchronizedRun at h
  simp only at h
  split at h
  next last hlast =>
    split at h
    · rcases List.mem_append.1 h with h | h
      · exact line_of_mem_brokenRun h
      · rw [(notEnding_of_mem_unknownRun h).2.1]
        exact line_of_mem_brokenRun (List.mem_of_getLast? hlast)
    · exact line_of_mem_brokenRun h
  next => exact line_of_mem_brokenRun h

/-- The lexeme that an analysis has passed last. -/
theorem Analysis.getLast?_passed (a : Analysis) :
    a.passed.getLast? = a.cursor.behind.head? :=
  List.getLast?_reverse

-- ============================================================ line starts

/-- An identifier in a table, with what stands on both sides of it. It begins
a line: what stands in front of it, if there is anything, is on another
one. -/
structure LineStart where
  front : List Token
  word : Token
  rest : List Token
  kind : word.kind = .identifier
  line : ∀ t ∈ front.getLast?, t.line ≠ word.line

namespace LineStart

/-- The table that an identifier stands in. -/
def table (s : LineStart) : List Token := s.front ++ s.word :: s.rest

/-- The name that begins with an identifier. -/
def name (s : LineStart) : Identifier := s.word.nameWith s.rest

/-- The identifier lies ahead of the place of an analysis. -/
structure Ahead (s : LineStart) (a : Analysis) : Prop where
  inside : a.Inside
  toList : a.cursor.toList = s.table
  passed : a.passed <+: s.front

variable {s : LineStart} {a b : Analysis} {t : Token} {ts : List Token}
  {found : List Diagnostic} {line : Int}

namespace Ahead

theorem congr (h : s.Ahead a) (hcursor : b.cursor = a.cursor) : s.Ahead b :=
  ⟨h.inside.congr hcursor, hcursor ▸ h.toList, passed_congr hcursor ▸ h.passed⟩

theorem mem_table (h : s.Ahead a) : a.current ∈ s.table :=
  h.toList ▸ h.inside.current_mem

/-- What lies ahead is what is left of the front, and then the identifier. -/
theorem exists_between (h : s.Ahead a) :
    ∃ between, a.passed ++ between = s.front
      ∧ a.cursor.ahead = between ++ s.word :: s.rest := by
  obtain ⟨between, hbetween⟩ := h.passed
  have htable : a.passed ++ a.cursor.ahead = s.front ++ s.word :: s.rest :=
    h.toList
  rw [← hbetween, List.append_assoc] at htable
  exact ⟨between, hbetween, List.append_cancel_left htable⟩

/-- Where all that stands in front of the identifier has been passed, it is
next. -/
theorem ahead_eq (h : s.Ahead a) (hfront : a.passed = s.front) :
    a.cursor.ahead = s.word :: s.rest := by
  obtain ⟨between, hbetween, hahead⟩ := h.exists_between
  rw [← hfront, List.append_right_eq_self] at hbetween
  rw [hahead, hbetween, List.nil_append]

/-- In front of the identifier the place is not at the end. -/
theorem isEnding_current (h : s.Ahead a)
    (hfront : ∀ t ∈ s.front, t.isEnding = false) :
    a.current.isEnding = false := by
  obtain ⟨between, hbetween, hahead⟩ := h.exists_between
  cases between with
  | nil =>
    rw [current_of_ahead hahead]
    apply Token.isEnding_eq_false_of_kind
    rw [s.kind]
    simp
  | cons t between =>
    rw [current_of_ahead hahead]
    apply hfront
    rw [← hbetween]
    simp

-- ============================================================ what is passed

/-- The identifier stays ahead of all that is passed without it. -/
theorem passes (h : s.Ahead a) (hpass : Passes a ts found b)
    (hts : ∀ xs ys, ts = xs ++ s.word :: ys → a.passed ++ xs ≠ s.front) :
    s.Ahead b := by
  obtain ⟨between, hbetween, hahead⟩ := h.exists_between
  rw [hpass.ahead] at hahead
  refine ⟨hpass.inside h.inside, hpass.toList.trans h.toList, ?_⟩
  rw [hpass.passed, ← hbetween, List.prefix_append_right_inj]
  rcases List.append_eq_append_iff.1 hahead with
    ⟨left, hleft, -⟩ | ⟨left, hts', hrest⟩
  · exact ⟨left, hleft.symm⟩
  · cases left with
    | nil =>
      rw [List.append_nil] at hts'
      exact hts' ▸ List.prefix_rfl
    | cons u left =>
      obtain ⟨rfl, -⟩ := List.cons.inj hrest
      exact absurd hbetween (hts between left hts')

/-- Where no identifier is passed it stays ahead. -/
theorem passes_of_kind (h : s.Ahead a) (hpass : Passes a ts found b)
    (hts : ∀ t ∈ ts, t.kind ≠ .identifier) : s.Ahead b := by
  apply h.passes hpass
  rintro xs ys rfl
  exact absurd s.kind (hts s.word (by simp))

/-- Where lexemes of one line are passed it stays ahead, because it begins a
line. It only must not be the first of them, unless what has been passed last
is on that line as well. -/
theorem passes_of_line (h : s.Ahead a) (hpass : Passes a ts found b)
    (hts : ∀ t ∈ ts, t.line = line)
    (hfirst : a.passed ≠ s.front ∨ ∃ t ∈ a.passed.getLast?, t.line = line) :
    s.Ahead b := by
  apply h.passes hpass
  rintro xs ys rfl hfront
  have hline := hts s.word (by simp)
  rcases List.eq_nil_or_concat xs with rfl | ⟨xs, t, rfl⟩
  · rw [List.append_nil] at hfront
    rcases hfirst with hne | ⟨t, ht, hprevious⟩
    · exact hne hfront
    · rw [hfront] at ht
      exact s.line t ht (hprevious.trans hline.symm)
  · have ht : t ∈ s.front.getLast? := by
      rw [← hfront, List.concat_eq_append, ← List.append_assoc,
        List.getLast?_concat]
      rfl
    have hprevious := hts t (by simp)
    exact s.line t ht (hprevious.trans hline.symm)

theorem next_of_kind (h : s.Ahead a) (hkind : a.current.kind ≠ .identifier) :
    s.Ahead a.next := by
  by_cases hend : a.current.isEnding = true
  · rw [next_of_ending hend]
    exact h
  · apply h.passes_of_kind
      (passes_current h.inside (eq_false_of_ne_true hend))
    intro t ht
    rw [List.mem_singleton.1 ht]
    exact hkind

theorem next_of_symbol {w : Text} (h : s.Ahead a)
    (hsymbol : a.atSymbol w = true) : s.Ahead a.next := by
  apply h.next_of_kind
  rw [Token.kind_of_isSymbol hsymbol]
  simp

theorem next_of_keyword {w : Text} (h : s.Ahead a)
    (hkeyword : a.atKeyword w = true) : s.Ahead a.next := by
  apply h.next_of_kind
  rw [Token.kind_of_isKeyword hkeyword]
  simp

theorem reportUnknown (h : s.Ahead a) (line : Int) :
    s.Ahead (a.reportUnknown line).2 := by
  apply h.passes_of_kind (passes_reportUnknown h.inside line)
  intro t ht
  rw [(notEnding_of_mem_unknownRun ht).1]
  simp

/-- A lexeme is passed on the line of the one in front of it only. -/
theorem passOnLine (h : s.Ahead a) (hbehind : a.cursor.behind ≠ []) :
    s.Ahead a.passOnLine := by
  unfold Analysis.passOnLine
  simp only [h.inside.lookBack]
  split
  next hline =>
    by_cases hend : a.current.isEnding = true
    · rw [next_of_ending hend]
      exact h
    · apply h.passes_of_line
        (passes_current h.inside (eq_false_of_ne_true hend))
      · intro t ht
        rw [List.mem_singleton.1 ht]
      · right
        obtain ⟨previous, more, hmore⟩ := List.exists_cons_of_ne_nil hbehind
        unfold onLineOfPrevious at hline
        rw [h.inside.previous?, hmore] at hline
        refine ⟨previous, ?_, beq_iff_eq.1 hline⟩
        rw [getLast?_passed, hmore]
        rfl
  next => exact h

/-- What is left of a broken declaration is passed up to the end of the line
that the lexeme in front of the place stands on. -/
theorem synchronizeHere (h : s.Ahead a) : s.Ahead a.synchronizeHere := by
  cases hhead : a.cursor.behind.head? with
  | none =>
    rw [synchronizeHere_of_front h.inside hhead]
    exact h.congr (cursor_halt ..)
  | some t =>
    rw [synchronizeHere_of_behind h.inside hhead]
    apply h.passes_of_line (passes_synchronize h.inside t.line)
    · exact fun u hu => line_of_mem_synchronizedRun hu
    · right
      refine ⟨t, ?_, rfl⟩
      rw [getLast?_passed, hhead]
      rfl

/-- Behind the names of a declaration the identifier stays ahead. -/
theorem endures (hplain : Arrayless s.table) : Endures s.Ahead where
  inside h := h.inside
  plain h := hplain _ h.mem_table
  still h hcursor _ := h.congr hcursor
  next h hkind _ := h.next_of_kind hkind
  passOnLine h hbehind _ := h.passOnLine hbehind
  reportUnknown h line := h.reportUnknown line
  synchronizeHere h := h.synchronizeHere

-- ================================================================== names

/-- A name that is read begins with the identifier, or leaves it ahead. -/
theorem readName (h : s.Ahead a) (hend : a.current.isEnding = false) :
    a.readName.1 = s.name ∨ s.Ahead a.readName.2 := by
  obtain ⟨rest, hrest⟩ := h.inside.exists_ahead
  obtain ⟨hname, hpass⟩ := passes_readName h.inside hrest hend
  by_cases hfront : a.passed = s.front
  · left
    obtain ⟨hword, hbehind⟩ := List.cons.inj (hrest.symm.trans
      (h.ahead_eq hfront))
    rw [hname, hword, hbehind]
    rfl
  · right
    apply h.passes_of_line hpass _ (.inl hfront)
    · exact a.current.line
    · intro t ht
      rcases List.mem_cons.1 ht with rfl | ht
      · rfl
      · exact (mem_gluedRun ht).2

theorem abandonNames (h : s.Ahead a) (comma : Token) :
    s.Ahead (a.abandonNames comma) := by
  have hfault : s.Ahead (a.report a.current.pos .nameExpected).recover :=
    h.congr rfl
  unfold Analysis.abandonNames
  simp only
  split
  next hsymbol =>
    simp only [Bool.and_eq_true, beq_iff_eq] at hsymbol
    apply hfault.next_of_kind
    show a.current.kind ≠ .identifier
    rw [hsymbol.1.1]
    simp
  next => exact hfault

theorem readMoreNames (h : s.Ahead a) :
    s.name ∈ a.readMoreNames.1 ∨ s.Ahead a.readMoreNames.2 := by
  fun_induction Analysis.readMoreNames a with
  | case1 a hcomma hname name more ih =>
    rcases (h.next_of_symbol hcomma).readName
      (isEnding_of_atNameAfter hname) with hread | hread
    · left
      rw [← hread]
      exact List.mem_cons_self
    · rcases ih hread with hmore | hmore
      · exact .inl (List.mem_cons_of_mem _ hmore)
      · exact .inr hmore
  | case2 a hcomma hname =>
    exact .inr ((h.next_of_symbol hcomma).abandonNames a.current)
  | case3 a hcomma => exact .inr h

theorem readNames (h : s.Ahead a) (hend : a.current.isEnding = false) :
    s.name ∈ a.readNames.1 ∨ s.Ahead a.readNames.2 := by
  rcases h.readName hend with hread | hread
  · left
    rw [← hread]
    exact List.mem_cons_self
  · rcases hread.readMoreNames with hmore | hmore
    · exact .inl (List.mem_cons_of_mem _ hmore)
    · exact .inr hmore

/-- A declaration that is read declares a name which begins with the
identifier, or leaves it ahead. -/
theorem readDeclaration [NestingLimit] (h : s.Ahead a)
    (hend : a.current.isEnding = false) (hplain : Arrayless s.table) :
    (∃ d ∈ a.readDeclaration.declared, s.name ∈ d.names)
      ∨ s.Ahead a.readDeclaration := by
  have hstart : s.Ahead a.unmarked := h.congr rfl
  rcases hstart.readNames hend with hname | hnames
  · left
    unfold declared
    rw [declarations_readDeclaration h.inside hend]
    exact ⟨_, List.mem_reverse.2 List.mem_cons_self, hname⟩
  · right
    have hbehind := List.ne_nil_of_mem
      (current_mem_behind_readNames hstart.inside hend)
    have hendures := endures hplain
    have htype := hendures.readTypePart hnames hbehind
    apply (hendures.endDeclaration htype).congr
    rw [readDeclaration_eq, cursor_declare]
    rfl

end Ahead

-- ============================================================== whole runs

/-- An identifier that begins a line is not lost: it lies ahead, or a declared
name begins with it, or it has been reported as unexpected. -/
def Kept (s : LineStart) (a : Analysis) : Prop :=
  s.Ahead a ∨ (∃ d ∈ a.declared, s.name ∈ d.names)
    ∨ ⟨.syntactic, s.word.pos, .unexpectedToken s.word.text⟩ ∈ a.findings

/-- Outside of all blocks the identifier is reported when it is passed. -/
theorem Ahead.passStray (h : s.Ahead a) (hend : a.current.isEnding = false) :
    s.Kept a.passStray := by
  have hpass := passes_current h.inside hend
  by_cases hfront : a.passed = s.front
  · right; right
    have hword := current_of_ahead (h.ahead_eq hfront)
    unfold Analysis.passStray findings
    simp only [hword, s.kind]
    exact List.mem_reverse.2 List.mem_cons_self
  · left
    have hnext : s.Ahead a.next := by
      apply h.passes_of_line hpass _ (.inl hfront)
      · exact a.current.line
      · intro t ht
        rw [List.mem_singleton.1 ht]
    exact hnext.congr rfl

theorem Kept.turn [NestingLimit] {t : Turn} (h : s.Kept t.before)
    (ha : t.before.Inside) (hdue : t.Due) (hplain : Arrayless s.table) :
    s.Kept t.after := by
  rcases h with hahead | ⟨d, hd, hname⟩ | hfound
  · cases t with
    | opening a => exact .inl (hahead.next_of_keyword hdue)
    | declaration a =>
      rcases hahead.readDeclaration hdue.isEnding hplain with hname | hahead
      · exact .inr (.inl hname)
      · exact .inl hahead
    | stray a => exact hahead.passStray hdue.isEnding
  · exact .inr (.inl ⟨d, (hdue.isPrefix_declared ha).mem hd, hname⟩)
  · exact .inr (.inr ((hdue.isPrefix_findings ha).mem hfound))

/-- In the analysis of a table without arrays an identifier that begins a line
in front of the end is not lost: a declared name begins with it, or it is
reported as unexpected. -/
theorem kept_run [NestingLimit] (s : LineStart)
    (hends : ∃ t ∈ s.table, t.isEnding = true)
    (hfront : ∀ t ∈ s.front, t.isEnding = false)
    (hplain : Arrayless s.table) :
    (∃ d ∈ (ofTable s.table).run.declared, s.name ∈ d.names)
      ∨ ⟨.syntactic, s.word.pos, .unexpectedToken s.word.text⟩
        ∈ (ofTable s.table).run.findings := by
  have hinside := Inside.ofTable hends
  have hstart : s.Kept (ofTable s.table) :=
    .inl ⟨hinside, rfl, List.nil_prefix⟩
  rcases run_of_turns hends hstart
    (fun t ha hdue h => h.turn ha hdue hplain) with hahead | hkept
  · -- the analysis ends at the mark of the end, which lies further on
    have hend := current_readSection hinside
    rw [← run_ofTable, hahead.isEnding_current hfront] at hend
    cases hend
  · exact hkept

end LineStart

/-- Outside of arrays recovery loses no declaration that begins a line. Of a
text with a table, in which no number is too long and no array is declared, a
report is made; and every identifier that comes first on its line, in front of
a colon or a comma, is a name of a declaration of the report, or the report
says that it is unexpected where it stands. -/
theorem line_starts_kept [NestingLimit] {text : Text} {table : List Token}
    (htable : tokenize text = .ok table) (hreadable : Readable table)
    (hplain : Arrayless table) :
    ∃ report, check text = .ok report
      ∧ ∀ before t u after, table = before ++ t :: u :: after →
        t.kind = .identifier →
        (∀ previous ∈ before.getLast?, previous.line ≠ t.line) →
        u.isSymbol ":" = true ∨ u.isSymbol "," = true →
          (∃ d ∈ report.declarations, ⟨t.text, t.pos⟩ ∈ d.names)
            ∨ ⟨.syntactic, t.pos, .unexpectedToken t.text⟩
              ∈ report.errors := by
  refine ⟨_, check_of_readable htable hreadable hplain.arrayWords_le, ?_⟩
  intro before t u after hsplit hkind hline hseparator
  let s : LineStart := ⟨before, t, u :: after, hkind, hline⟩
  have hs : s.table = table := hsplit.symm
  have hname : s.name = ⟨t.text, t.pos⟩ := by
    have hglued : gluedRun t (u :: after) = [] := by
      rw [gluedRun, if_neg]
      intro hpart
      have hsymbol : u.kind = .symbol :=
        hseparator.elim Token.kind_of_isSymbol Token.kind_of_isSymbol
      rw [hsymbol] at hpart
      exact Bool.false_ne_true hpart.2
    show t.nameWith (u :: after) = _
    unfold Token.nameWith
    rw [hglued]
    exact congrArg (Identifier.mk · t.pos) (List.append_nil t.text)
  obtain ⟨tokens, q, hscans, rfl⟩ := tokenize_eq_ok_iff.1 htable
  have hend : t.isEnding = false := Token.isEnding_eq_false_of_kind
    (by rw [hkind]; simp)
  obtain ⟨more, -, htokens⟩ := Token.exists_append_mark hsplit hend
  have hfront : ∀ v ∈ s.front, v.isEnding = false := by
    intro v hv
    apply (hscans.wellCut v _).notEnding
    rw [htokens]
    exact List.mem_append_left _ hv
  have hkept := s.kept_run (hs ▸ Token.mark_ends tokens q) hfront
    (hs ▸ hplain)
  rw [hs, hname] at hkept
  rcases hkept with hdeclared | hfound
  · exact .inl hdeclared
  · exact .inr (Report.mem_errors_ofFindings.2 hfound)

open scoped UsualNesting

/-- An identifier in front of all blocks, and one behind a size that breaks off
at the end of its line. -/
theorem line_starts_kept_brokenSize :
    let text : Text := "q: char;\nvar x: string[(\ny, z: real;"
    ∃ report, check text = .ok report
      ∧ ((∃ d ∈ report.declarations, ⟨"q", ⟨1, 1⟩⟩ ∈ d.names)
        ∨ ⟨.syntactic, ⟨1, 1⟩, .unexpectedToken "q"⟩ ∈ report.errors)
      ∧ ((∃ d ∈ report.declarations, ⟨"y", ⟨3, 1⟩⟩ ∈ d.names)
        ∨ ⟨.syntactic, ⟨3, 1⟩, .unexpectedToken "y"⟩ ∈ report.errors) := by
  intro text
  let q : Token := ⟨.identifier, "q", ⟨1, 1⟩⟩
  let y : Token := ⟨.identifier, "y", ⟨3, 1⟩⟩
  let colon : Token := ⟨.symbol, ":", ⟨1, 2⟩⟩
  let comma : Token := ⟨.symbol, ",", ⟨3, 2⟩⟩
  let between : List Token :=
    [⟨.keyword, "char", ⟨1, 4⟩⟩, ⟨.symbol, ";", ⟨1, 8⟩⟩,
      ⟨.keyword, "var", ⟨2, 1⟩⟩, ⟨.identifier, "x", ⟨2, 5⟩⟩,
      ⟨.symbol, ":", ⟨2, 6⟩⟩, ⟨.keyword, "string", ⟨2, 8⟩⟩,
      ⟨.symbol, "[", ⟨2, 14⟩⟩, ⟨.symbol, "(", ⟨2, 15⟩⟩]
  let after : List Token :=
    [⟨.identifier, "z", ⟨3, 4⟩⟩, ⟨.symbol, ":", ⟨3, 5⟩⟩,
      ⟨.keyword, "real", ⟨3, 7⟩⟩, ⟨.symbol, ";", ⟨3, 11⟩⟩, .mark ⟨3, 12⟩]
  let table := q :: colon :: (between ++ y :: comma :: after)
  have htable : tokenize text = .ok table := by decide +kernel
  have hreadable : Readable table := by
    unfold Readable
    decide +kernel
  have hplain : Arrayless table := by
    unfold Arrayless
    decide +kernel
  obtain ⟨report, hcheck, hkept⟩ := line_starts_kept htable hreadable hplain
  refine ⟨report, hcheck, ?_, ?_⟩
  · exact hkept [] q colon _ rfl rfl (by simp) (.inl rfl)
  · exact hkept (q :: colon :: between) y comma after rfl rfl (by decide)
      (.inr rfl)

end VarSection
