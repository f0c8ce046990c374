/-
Unknown symbols. Outside of arrays none is passed without a trace: it is
reported itself, or a size is expected in its place, or it is part of a name
that is reported (`Traced`).

What has been passed is traced at every time (`Traces`). A run of lexemes that
is skipped tells of each unknown symbol in it (`Traces.passes_skipped`). A name
is valid only if it is a single identifier, so one with an unknown symbol in it
is reported (`Traces.readName`). All that is left are the lexemes that are
refused as a type or as a size, and these are reported before they are passed.

Only the index ranges of arrays are passed without a word.
-/
import VarSection.Proofs.Analysis.Naming
import VarSection.Proofs.Analysis.Walking

namespace VarSection

open Analysis

/-- What findings tell of an unknown symbol of a table. -/
inductive Traced (table : List Token) (errors : List Diagnostic)
    (t : Token) : Prop
  /-- it is reported itself -/
  | symbol (h : ⟨.syntactic, t.pos, .unknownSymbol t.text⟩ ∈ errors)
  /-- a size is expected in its place -/
  | size (h : ⟨.syntactic, t.pos, .sizeExpected⟩ ∈ errors)
  /-- it is part of a name that is reported -/
  | name {before : List Token} {first : Token} {rest : List Token}
      (hsplit : table = before ++ first :: rest)
      (hpart : t ∈ first :: gluedRun first rest)
      (h : ⟨.syntactic, first.pos, .invalidName (first.nameWith rest).name⟩
        ∈ errors)

/-- More findings tell no less. -/
theorem Traced.mono {table : List Token} {errors more : List Diagnostic}
    {t : Token} (h : Traced table errors t)
    (hmore : ∀ d ∈ errors, d ∈ more) : Traced table more t := by
  cases h with
  | symbol h => exact .symbol (hmore _ h)
  | size h => exact .size (hmore _ h)
  | name hsplit hpart h => exact .name hsplit hpart (hmore _ h)

namespace Analysis

variable {table ts : List Token} {found : List Diagnostic} {a b : Analysis}
  {t : Token}

/-- Every unknown symbol of a table that has been passed is traced by what has
been found. -/
structure Traces (table : List Token) (a : Analysis) : Prop where
  inside : a.Inside
  toList : a.cursor.toList = table
  traced : ∀ t ∈ a.cursor.behind, t.kind = .unknown → Traced table a.errors t

namespace Traces

theorem still (h : Traces table a) (hcursor : b.cursor = a.cursor)
    (herrors : a.errors <:+ b.errors) : Traces table b := by
  refine ⟨h.inside.congr hcursor, hcursor ▸ h.toList, fun t ht hkind => ?_⟩
  rw [hcursor] at ht
  exact (h.traced t ht hkind).mono fun d hd => herrors.mem hd

-- ============================================================ what is passed

/-- What is passed is to be traced afterwards. -/
theorem passes (h : Traces table a) (hpass : Passes a ts found b)
    (hts : ∀ t ∈ ts, t.kind = .unknown → Traced table b.errors t) :
    Traces table b := by
  refine ⟨hpass.inside h.inside, hpass.toList.trans h.toList,
    fun t ht hkind => ?_⟩
  rw [hpass.behind] at ht
  rcases List.mem_append.1 ht with ht | ht
  · exact hts t (List.mem_reverse.1 ht) hkind
  · apply (h.traced t ht hkind).mono
    rw [hpass.errors]
    exact fun d hd => List.mem_append_right _ hd

/-- What is skipped after a fault tells of its unknown symbols. -/
theorem passes_skipped (h : Traces table a)
    (hpass : Passes a ts (unknownFindings ts) b) : Traces table b := by
  apply h.passes hpass
  intro t ht hkind
  apply Traced.symbol
  rw [hpass.errors]
  apply List.mem_append_left
  unfold unknownFindings
  rw [List.mem_reverse, List.mem_map]
  exact ⟨t, List.mem_filter.2 ⟨ht, beq_iff_eq.2 hkind⟩, rfl⟩

/-- The current lexeme is passed, if it is traced already. -/
theorem next (h : Traces table a)
    (htraced : a.current.kind = .unknown → Traced table a.errors a.current) :
    Traces table a.next := by
  by_cases hend : a.current.isEnding = true
  · rw [next_of_ending hend]
    exact h
  · apply h.passes (passes_current h.inside (eq_false_of_ne_true hend))
    intro t ht hkind
    rw [List.mem_singleton.1 ht] at hkind ⊢
    rw [errors_next]
    exact htraced hkind

theorem next_of_kind (h : Traces table a) (hkind : a.current.kind ≠ .unknown) :
    Traces table a.next :=
  h.next fun hunknown => absurd hunknown hkind

theorem reportUnknown (h : Traces table a) (line : Int) :
    Traces table (a.reportUnknown line).2 :=
  h.passes_skipped (passes_reportUnknown h.inside line)

theorem passOnLine (h : Traces table a) (hrefused : a.Refused) :
    Traces table a.passOnLine := by
  unfold Analysis.passOnLine
  simp only [h.inside.lookBack]
  split
  · apply h.next
    intro hkind
    rcases hrefused hkind with hsymbol | hsize
    · exact .symbol hsymbol
    · exact .size hsize
  · exact h

theorem synchronizeHere (h : Traces table a) :
    Traces table a.synchronizeHere := by
  cases hhead : a.cursor.behind.head? with
  | none =>
    rw [synchronizeHere_of_front h.inside hhead]
    exact h.still (cursor_halt ..) (by simp)
  | some t =>
    rw [synchronizeHere_of_behind h.inside hhead]
    exact h.passes_skipped (passes_synchronize h.inside t.line)

/-- Behind the names of a declaration nothing is passed without a trace. -/
theorem endures (hplain : Arrayless table) : Endures (Traces table) where
  inside h := h.inside
  plain h := hplain _ (h.toList ▸ h.inside.current_mem)
  still h hcursor herrors := h.still hcursor herrors
  next h _ hkind := h.next_of_kind hkind
  passOnLine h _ hrefused := h.passOnLine hrefused
  reportUnknown h line := h.reportUnknown line
  synchronizeHere h := h.synchronizeHere

-- ================================================================== names

/-- A name with an unknown symbol in it is not valid, and so it is
reported. -/
theorem readName (h : Traces table a) (hlexed : Lexed table)
    (hend : a.current.isEnding = false) : Traces table a.readName.2 := by
  obtain ⟨rest, hrest, htable⟩ := h.inside.toList_eq
  have hsplit := h.toList.symm.trans htable
  obtain ⟨-, hpass⟩ := passes_readName h.inside hrest hend
  apply h.passes hpass
  intro t ht hkind
  by_cases hvalid : isValidName (a.current.nameWith rest).name = true
  · rw [hsplit] at hlexed
    obtain ⟨hsingle, hglued⟩ :=
      gluedRun_of_valid hlexed.right_of_append hend hvalid
    rw [hglued] at ht
    rw [List.mem_singleton.1 ht, hsingle] at hkind
    cases hkind
  · apply Traced.name hsplit ht
    rw [hpass.errors]
    apply List.mem_append_left
    unfold Identifier.findings
    rw [if_neg hvalid]
    exact List.mem_cons_self

theorem abandonNames (h : Traces table a) (comma : Token) :
    Traces table (a.abandonNames comma) := by
  have hfault : Traces table (a.report a.current.pos .nameExpected).recover :=
    h.still rfl (List.suffix_cons ..)
  unfold Analysis.abandonNames
  simp only
  split
  next hsymbol =>
    simp only [Bool.and_eq_true, beq_iff_eq] at hsymbol
    apply hfault.next_of_kind
    show a.current.kind ≠ .unknown
    rw [hsymbol.1.1]
    simp
  next => exact hfault

theorem readMoreNames (h : Traces table a) (hlexed : Lexed table) :
    Traces table a.readMoreNames.2 := by
  fun_induction Analysis.readMoreNames a with
  | case1 a hcomma hname name more ih =>
    have hnext : Traces table a.next :=
      h.next_of_kind (by rw [Token.kind_of_isSymbol hcomma]; simp)
    exact ih (hnext.readName hlexed (isEnding_of_atNameAfter hname))
  | case2 a hcomma hname =>
    have hnext : Traces table a.next :=
      h.next_of_kind (by rw [Token.kind_of_isSymbol hcomma]; simp)
    exact hnext.abandonNames a.current
  | case3 a hcomma => exact h

-- ============================================================== whole runs

theorem readDeclaration [NestingLimit] (h : Traces table a)
    (hlexed : Lexed table) (hplain : Arrayless table)
    (hend : a.current.isEnding = false) :
    Traces table a.readDeclaration := by
  have hstart : Traces table a.unmarked := h.still rfl List.suffix_rfl
  have hnames : Traces table a.unmarked.readNames.2 :=
    (hstart.readName hlexed hend).readMoreNames hlexed
  have hbehind := List.ne_nil_of_mem
    (current_mem_behind_readNames hstart.inside hend)
  have hendures := endures hplain
  have hdone := hendures.endDeclaration (hendures.readTypePart hnames hbehind)
  have hparts : Traces table a.readParts := hdone.still rfl List.suffix_rfl
  apply hparts.still
  · rw [readDeclaration_eq, cursor_declare]
  · exact (steps_declareParts h.inside hend).errors_suffix

/-- Outside of all blocks a lexeme is reported when it is passed. -/
theorem passStray (h : Traces table a) (hend : a.current.isEnding = false) :
    Traces table a.passStray := by
  apply h.passes ((passes_current h.inside hend).trans (passes_report ..))
  intro t ht hkind
  rw [List.append_nil, List.mem_singleton] at ht
  rw [ht] at hkind ⊢
  apply Traced.symbol
  simp only [hkind, beq_self_eq_true, if_true]
  exact List.mem_cons_self

theorem turn [NestingLimit] {t : Turn} (h : Traces table t.before)
    (hdue : t.Due) (hlexed : Lexed table) (hplain : Arrayless table) :
    Traces table t.after := by
  cases t with
  | opening a => exact (endures hplain).next_of_keyword h hdue
  | declaration a => exact h.readDeclaration hlexed hplain hdue.isEnding
  | stray a => exact h.passStray hdue.isEnding

theorem run [NestingLimit] (hends : ∃ t ∈ table, t.isEnding = true)
    (hlexed : Lexed table) (hplain : Arrayless table) :
    Traces table (ofTable table).run := by
  refine run_of_turns hends ⟨.ofTable hends, rfl, ?_⟩ ?_
  · exact fun t ht => absurd ht List.not_mem_nil
  · exact fun t _ hdue h => h.turn hdue hlexed hplain

end Traces

end Analysis

/-- Outside of arrays no unknown symbol goes unreported. Of a text with a
table, in which no number is too long and no array is declared, a report is
made; and every unknown symbol of the table is reported where it stands, as
such or as what stands in place of a size, or it is part of a name that the
report says is not valid, at the place of its first lexeme. -/
theorem unknown_symbols_traced [NestingLimit] {text : Text}
    {table : List Token} (htable : tokenize text = .ok table)
    (hreadable : Readable table) (hplain : Arrayless table) :
    ∃ report, check text = .ok report
      ∧ ∀ t ∈ table, t.kind = .unknown → Traced table report.errors t := by
  refine ⟨_, check_of_readable htable hreadable hplain.arrayWords_le,
    fun t ht hkind => ?_⟩
  obtain ⟨tokens, q, hscans, rfl⟩ := tokenize_eq_ok_iff.1 htable
  have hends := Token.mark_ends tokens q
  have htraces := Traces.run hends hscans.lexed hplain
  have hbehind := behind_run hends
  rw [findIdx_of_firstEnding (fun u hu => (hscans.wellCut u hu).notEnding) rfl,
    List.take_left] at hbehind
  have hpassed : t ∈ (ofTable (tokens ++ [.mark q])).run.cursor.behind := by
    rw [← List.mem_reverse, hbehind]
    rcases List.mem_append.1 ht with ht | ht
    · exact ht
    · rw [List.mem_singleton.1 ht] at hkind
      cases hkind
  apply (htraces.traced t hpassed hkind).mono
  intro d hd
  exact Report.mem_errors_ofFindings.2 (List.mem_reverse.2 hd)

open scoped UsualNesting

/-- An unknown symbol in a name, one in place of a size, and one in front of a
semicolon. -/
theorem unknown_symbols_traced_thrice :
    let text : Text := "var aё, b: string[$] %;"
    let name : Token := ⟨.unknown, "ё", ⟨1, 6⟩⟩
    let size : Token := ⟨.unknown, "$", ⟨1, 19⟩⟩
    let stray : Token := ⟨.unknown, "%", ⟨1, 22⟩⟩
    ∃ table report, tokenize text = .ok table
      ∧ table.filter (·.kind == .unknown) = [name, size, stray]
      ∧ check text = .ok report
      ∧ ∀ t ∈ [name, size, stray], Traced table report.errors t := by
  intro text name size stray
  let table : List Token :=
    [⟨.keyword, "var", ⟨1, 1⟩⟩, ⟨.identifier, "a", ⟨1, 5⟩⟩, name,
      ⟨.symbol, ",", ⟨1, 7⟩⟩, ⟨.identifier, "b", ⟨1, 9⟩⟩,
      ⟨.symbol, ":", ⟨1, 10⟩⟩, ⟨.keyword, "string", ⟨1, 12⟩⟩,
      ⟨.symbol, "[", ⟨1, 18⟩⟩, size, ⟨.symbol, "]", ⟨1, 20⟩⟩, stray,
      ⟨.symbol, ";", ⟨1, 23⟩⟩, .mark ⟨1, 24⟩]
  have htable : tokenize text = .ok table := by decide +kernel
  have hreadable : Readable table := by
    unfold Readable
    decide +kernel
  have hplain : Arrayless table := by
    unfold Arrayless
    decide +kernel
  have hunknown : table.filter (·.kind == .unknown) = [name, size, stray] := by
    decide
  obtain ⟨report, hcheck, htraced⟩ :=
    unknown_symbols_traced htable hreadable hplain
  refine ⟨table, report, htable, hunknown, hcheck, fun t ht => ?_⟩
  rw [← hunknown, List.mem_filter, beq_iff_eq] at ht
  exact htraced t ht.1 ht.2

end VarSection
