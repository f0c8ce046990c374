/-
Every lexeme is accounted for. The turns of an analysis cut the lexemes in
front of the mark of the end into the words that open blocks, stray lexemes
with one finding each, and one slice for each declaration
(`run_accounted`).

What there is to prove is that no slice runs over a semicolon. No reader of
names or types passes one: two tables that part behind a semicolon keep an
analysis of the one beside an analysis of the other, so the semicolon is
still ahead of both (`clear_of_beside`). A semicolon is thus passed at the
end of a declaration or nowhere, either as the one that is expected there or
as the last lexeme that recovery skips, and behind it only unknown symbols on
its line are passed (`Closed`).
-/
import VarSection.Proofs.Analysis.Parting
import VarSection.Proofs.Analysis.Turns

namespace VarSection

open Analysis

-- ============================================================= semicolons

/-- Behind a semicolon of some lexemes stand only unknown symbols on its
line. -/
def Closed (ts : List Token) : Prop :=
  ∀ xs s ys, ts = xs ++ s :: ys → s.isSymbol ";" = true →
    ∀ u ∈ ys, u.kind = .unknown ∧ u.line = s.line

section Closed

variable {xs ys ts : List Token} {s : Token}

/-- Lexemes without a semicolon leave nothing to close. -/
theorem closed_of_clear (h : ∀ t ∈ ts, t.isSymbol ";" = false) :
    Closed ts := by
  rintro xs s ys rfl hs
  rw [h s (List.mem_append_right _ List.mem_cons_self)] at hs
  cases hs

/-- Lexemes without a semicolon may stand in front. -/
theorem Closed.append (h : Closed ys)
    (hxs : ∀ t ∈ xs, t.isSymbol ";" = false) : Closed (xs ++ ys) := by
  intro us s vs hsplit hs
  rcases List.append_eq_append_iff.1 hsplit with ⟨w, rfl, hw⟩ |
    ⟨w, rfl, hw⟩
  · exact h w s vs hw hs
  · cases w with
    | nil => exact h [] s vs hw.symm hs
    | cons t w =>
      have ht := hxs s (List.mem_append_right _ (by
        rw [(List.cons.inj hw).1]
        exact List.mem_cons_self))
      rw [ht] at hs
      cases hs

/-- A semicolon with the unknown symbols behind it on its line. -/
theorem closed_unknownRun (s : Token) (unread : List Token) :
    Closed (s :: unknownRun s.line unread) := by
  have hrun : ∀ u ∈ unknownRun s.line unread,
      u.kind = .unknown ∧ u.line = s.line := fun u hu =>
    ⟨(notEnding_of_mem_unknownRun hu).1, (notEnding_of_mem_unknownRun hu).2.1⟩
  intro xs v ys hsplit hv
  cases xs with
  | nil =>
    obtain ⟨rfl, rfl⟩ := List.cons.inj hsplit
    exact hrun
  | cons x xs =>
    have hmem : v ∈ unknownRun s.line unread := by
      rw [(List.cons.inj hsplit).2]
      exact List.mem_append_right _ List.mem_cons_self
    rw [Token.isSymbol_eq_false_of_kind (by rw [(hrun v hmem).1]; decide)]
      at hv
    cases hv

theorem Closed.tail {t : Token} (h : Closed (t :: ts)) : Closed ts :=
  fun xs s ys hsplit hs => h (t :: xs) s ys (congrArg (t :: ·) hsplit) hs

/-- Closed lexemes have no second semicolon. -/
theorem Closed.count_le (h : Closed ts) :
    ts.countP (·.isSymbol ";") ≤ 1 := by
  induction ts with
  | nil => exact Nat.zero_le 1
  | cons t ts ih =>
    by_cases ht : t.isSymbol ";" = true
    · have hrest : ts.countP (·.isSymbol ";") = 0 := by
        apply List.countP_eq_zero.2
        intro u hu
        rw [Token.isSymbol_eq_false_of_kind]
        · exact Bool.false_ne_true
        · rw [(h [] t ts rfl ht u hu).1]
          decide
      rw [List.countP_cons, if_pos ht, hrest]
    · rw [List.countP_cons, if_neg ht]
      exact ih h.tail

end Closed

-- ========================================== what is left of a declaration

/-- What is left of a broken declaration has a semicolon at its end or
none. -/
theorem brokenRun_cases (line : Int) (unread : List Token) :
    (∀ t ∈ brokenRun line unread, t.isSymbol ";" = false)
      ∨ ∃ xs s, brokenRun line unread = xs ++ [s]
        ∧ (∀ t ∈ xs, t.isSymbol ";" = false) ∧ s.isSymbol ";" = true := by
  induction unread with
  | nil => exact .inl fun t ht => absurd ht List.not_mem_nil
  | cons t rest ih =>
    unfold brokenRun
    split
    · exact .inl fun t ht => absurd ht List.not_mem_nil
    · split
      next hs =>
        exact .inr ⟨[], t, rfl, fun t ht => absurd ht List.not_mem_nil, hs⟩
      next hs =>
        rw [Bool.not_eq_true] at hs
        rcases ih with hclear | ⟨xs, s, hrun, hclear, hsemicolon⟩
        · exact .inl (List.forall_mem_cons.2 ⟨hs, hclear⟩)
        · rw [hrun]
          exact .inr ⟨t :: xs, s, rfl, List.forall_mem_cons.2 ⟨hs, hclear⟩,
            hsemicolon⟩

/-- What recovery skips is closed. -/
theorem closed_synchronizedRun (line : Int) (unread : List Token) :
    Closed (synchronizedRun line unread) := by
  unfold synchronizedRun
  simp only
  rcases brokenRun_cases line unread with hclear | ⟨xs, s, hrun, hclear, hs⟩
  · split
    next t hlast =>
      rw [if_neg (by
        rw [hclear t (List.mem_of_getLast? hlast)]
        exact Bool.false_ne_true)]
      exact closed_of_clear hclear
    next => exact closed_of_clear hclear
  · rw [hrun, List.getLast?_concat]
    simp only
    rw [if_pos hs, List.append_assoc]
    exact (closed_unknownRun s _).append hclear

namespace Analysis

variable {a : Analysis} {ts : List Token}

-- ============================================ in front of the semicolon

/-- A reader that keeps analyses beside each other, wherever their tables
part, passes no semicolon. -/
theorem clear_of_beside [NestingLimit] {f : Analysis → Analysis}
    (ha : a.Inside) (hsteps : Steps a (f a))
    (hbeside : ∀ (p : Parting) (b : Analysis), p.Beside b a →
      p.Beside (f b) (f a))
    (hpassed : (f a).passed = a.passed ++ ts) :
    ∀ t ∈ ts, t.isSymbol ";" = false := by
  have hahead := hsteps.ahead_of_passed hpassed
  cases hfind : a.cursor.ahead.find? (·.isSymbol ";") with
  | none =>
    intro t ht
    have hclear := List.find?_eq_none.1 hfind t (by
      rw [hahead]
      exact List.mem_append_left _ ht)
    rwa [Bool.not_eq_true] at hclear
  | some semi =>
    -- the tables part behind the first semicolon that lies ahead
    obtain ⟨hsemi, xs, rest, hsplit, hclear⟩ :=
      List.find?_eq_some_iff_append.1 hfind
    let p : Parting := ⟨semi, .emptyEnding, rest, hsemi, rfl⟩
    let b : Analysis := { a with
      cursor := ⟨a.cursor.behind, xs ++ [semi, .emptyEnding],
        a.cursor.overrun⟩ }
    have hinside : b.Inside := by
      refine ⟨ha.overrun, ha.behind, .emptyEnding, ?_, rfl⟩
      exact List.mem_append_right _ (List.mem_cons_of_mem _
        List.mem_cons_self)
    have hstart : p.Beside b a :=
      ⟨⟨xs, rfl, hsplit⟩, rfl, hinside, ha, ⟨rfl, rfl, rfl, rfl, rfl⟩⟩
    obtain ⟨ys, -, hahead'⟩ := (hbeside p b hstart).ahead
    have hxs : xs = ts ++ ys := by
      refine List.append_cancel_right (?_ : xs ++ semi :: rest = _)
      rw [List.append_assoc, ← hahead', ← hahead, hsplit]
    intro t ht
    have ht' := hclear t (by
      rw [hxs]
      exact List.mem_append_left _ ht)
    rwa [Bool.not_eq_true'] at ht'

/-- The names and the type of a declaration are read without passing a
semicolon. -/
theorem clear_readTypePart [NestingLimit] (ha : a.Inside)
    (hkind : a.current.kind ≠ .symbol)
    (hpassed : a.readNames.2.readTypePart.2.passed = a.passed ++ ts) :
    ∀ t ∈ ts, t.isSymbol ";" = false := by
  have hnames := steps_readNames ha
  apply clear_of_beside (f := fun a => a.readNames.2.readTypePart.2) ha
    (hnames.trans (steps_readTypePart (hnames.inside ha))) ?_ hpassed
  intro p b hb
  exact (hb.readNames (by rw [← hb.current]; exact hkind)).2.readTypePart.2

-- ================================================= behind the semicolon

/-- What recovery passes at the end of a declaration is closed. -/
theorem closed_synchronizeHere (ha : a.Inside)
    (hbehind : a.cursor.behind ≠ []) :
    ∃ ts, a.synchronizeHere.passed = a.passed ++ ts ∧ Closed ts := by
  cases hhead : a.cursor.behind.head? with
  | none => exact absurd (List.head?_eq_none_iff.1 hhead) hbehind
  | some t =>
    rw [synchronizeHere_of_behind ha hhead]
    exact ⟨_, (passes_synchronize ha t.line).passed,
      closed_synchronizedRun _ _⟩

theorem closed_closeDeclaration (ha : a.Inside)
    (hbehind : a.cursor.behind ≠ []) (found : Bool) :
    ∃ ts, (a.closeDeclaration found).passed = a.passed ++ ts
      ∧ Closed ts := by
  have hcursor := cursor_reportAfterPrevious a .semicolonExpected
  unfold closeDeclaration
  split
  next hsemicolon =>
    have hpass := passes_current ha (isEnding_of_atSymbol hsemicolon)
    have hrun := passes_reportUnknown (hpass.inside ha) a.current.line
    exact ⟨_, (hpass.trans hrun).passed, closed_unknownRun _ _⟩
  next =>
    split
    · exact closed_synchronizeHere ha hbehind
    · split
      · refine ⟨[], ?_, closed_of_clear fun t ht =>
          absurd ht List.not_mem_nil⟩
        rw [List.append_nil]
        exact passed_congr hcursor
      · rw [← passed_congr hcursor]
        exact closed_synchronizeHere (ha.congr hcursor)
          (by rw [hcursor]; exact hbehind)

/-- What is passed at the end of a declaration is closed. -/
theorem closed_endDeclaration [NestingLimit] (ha : a.Inside)
    (hbehind : a.cursor.behind ≠ []) :
    ∃ ts, a.endDeclaration.passed = a.passed ++ ts ∧ Closed ts := by
  have hread := passes_reportUnknown ha a.current.line
  have hsteps := steps_reportUnknown ha a.current.line
  obtain ⟨ts, hpassed, hclosed⟩ := closed_closeDeclaration
    (hread.inside ha) (hsteps.behind_ne_nil ha hbehind)
    (a.reportUnknown a.current.line).1
  rw [endDeclaration_eq]
  refine ⟨unknownRun a.current.line a.cursor.ahead ++ ts, ?_,
    hclosed.append fun t ht => ?_⟩
  · rw [hpassed, hread.passed, List.append_assoc]
  · apply Token.isSymbol_eq_false_of_kind
    rw [(notEnding_of_mem_unknownRun ht).1]
    decide

/-- What a declaration passes is closed. -/
theorem closed_readDeclaration [NestingLimit] (ha : a.Inside)
    (hkind : a.current.kind = .identifier) :
    ∃ ts, a.readDeclaration.passed = a.passed ++ ts ∧ Closed ts := by
  have hend : a.current.isEnding = false :=
    Token.isEnding_eq_false_of_kind (by rw [hkind]; decide)
  have hstart : a.unmarked.Inside := ha.of_recovering false
  have hnames := steps_readNames hstart
  have hnamed := hnames.inside hstart
  have htype := steps_readTypePart hnamed
  have hbehind := htype.behind_ne_nil hnamed (List.ne_nil_of_mem
    (current_mem_behind_readNames hstart hend))
  obtain ⟨xs, hxs⟩ := (hnames.trans htype).isPrefix_passed
  obtain ⟨ys, hys, hclosed⟩ := closed_endDeclaration
    (htype.inside hnamed) hbehind
  have hclear := clear_readTypePart hstart
    (by rw [show a.unmarked.current = a.current from rfl, hkind]; decide)
    hxs.symm
  refine ⟨xs ++ ys, ?_, hclosed.append hclear⟩
  have hcursor : a.readDeclaration.cursor
      = a.unmarked.readNames.2.readTypePart.2.endDeclaration.cursor :=
    cursor_declare ..
  rw [passed_congr hcursor, hys, ← hxs, List.append_assoc]
  rfl

end Analysis

-- ================================================================ slices

/-- The lexemes of a declaration: they begin with a name, where the
declaration begins, they hold at most one semicolon, and behind it only
unknown symbols on its line. -/
structure Declaration.Slice (d : Declaration) (ts : List Token) : Prop where
  begins : ∃ first more, ts = first :: more ∧ first.kind = .identifier
    ∧ first.pos = d.pos
  once : ts.countP (·.isSymbol ";") ≤ 1
  closed : Closed ts

/-- What there is to say of the lexemes, the findings and the declarations
of a turn. The word that opens a block is passed without a finding; a stray
lexeme is passed with one finding, which is made at it; and a declaration is
entered with the slice of its lexemes. -/
def Turn.Accounted [NestingLimit] (t : Turn) : Prop :=
  match t with
  | .opening a =>
    a.current.isKeyword "var" = true ∧ t.lexemes = [a.current]
      ∧ t.found = [] ∧ t.declared = []
  | .stray a =>
    a.current.isKeyword "var" = false ∧ t.lexemes = [a.current]
      ∧ t.found = [⟨.syntactic, a.current.pos,
          if a.current.kind == .unknown then .unknownSymbol a.current.text
          else .unexpectedToken a.current.text⟩]
      ∧ t.declared = []
  | .declaration _ =>
    ∃ d : Declaration, t.declared = [d] ∧ d.Slice t.lexemes

namespace Turn

variable {a : Analysis}

theorem accounted_opening [NestingLimit] (ha : a.Inside)
    (h : a.current.isKeyword "var" = true) : (Turn.opening a).Accounted := by
  have hpass := passes_current ha (Token.isEnding_of_isKeyword h)
  refine ⟨h, added_eq hpass.passed, added_eq_nil ?_, added_eq_nil ?_⟩
  · show a.next.findings = a.findings
    unfold Analysis.findings
    rw [errors_next]
  · exact declared_next a

theorem accounted_stray [NestingLimit] (ha : a.Inside)
    (hend : a.current.isEnding = false)
    (h : a.current.isKeyword "var" = false) : (Turn.stray a).Accounted := by
  have hpass := passes_current ha hend
  have hreport := hpass.trans (passes_report a.next a.current.pos
    (if a.current.kind == .unknown then .unknownSymbol a.current.text
      else .unexpectedToken a.current.text))
  refine ⟨h, added_eq hreport.passed, added_eq ?_, added_eq_nil ?_⟩
  · show a.passStray.errors.reverse = a.errors.reverse ++ _
    rw [show a.passStray.errors = _ from hreport.errors,
      List.reverse_append, List.reverse_reverse]
    rfl
  · exact declared_next a

theorem accounted_declaration [NestingLimit] (ha : a.Inside)
    (h : a.unreadName = true) :
    (Turn.declaration a).Accounted := by
  have hkind : a.current.kind = .identifier := by
    obtain ⟨rest, hrest⟩ := ha.exists_ahead
    rwa [unreadName_of_ahead hrest, beq_iff_eq] at h
  obtain ⟨more, hmore⟩ := Due.lexemes_eq (t := .declaration a) h ha
  obtain ⟨ts, hpassed, hclosed⟩ := closed_readDeclaration ha hkind
  have hlexemes : (Turn.declaration a).lexemes = ts := added_eq hpassed
  refine ⟨_, added_eq (declared_declaration h ha), ?_⟩
  exact ⟨⟨a.current, more, hmore, hkind, rfl⟩,
    hlexemes ▸ hclosed.count_le, hlexemes ▸ hclosed⟩

theorem Due.accounted [NestingLimit] {t : Turn} (h : t.Due)
    (ha : t.before.Inside) :
    t.Accounted := by
  cases t with
  | opening a => exact accounted_opening ha h
  | declaration a => exact accounted_declaration ha h
  | stray a => exact accounted_stray ha h.1 h.2

end Turn

-- ============================================================= whole runs

/-- The analysis of any table with a mark of the end goes by its turns, each
from where the one before it has led. In their order, without gap or overlap,
their lexemes are those in front of the mark, their findings all findings and
their declarations all declarations of the run. Each turn passes the word of
a block, or it passes a stray lexeme with one finding at it, or it enters one
declaration with its slice: lexemes that begin with a name where the
declaration begins, and hold at most one semicolon, with only unknown symbols
on its line behind it. -/
theorem run_accounted [NestingLimit] (table : List Token)
    (h : ∃ t ∈ table, t.isEnding = true) :
    let a := ofTable table
    Leads a a.turns a.run
      ∧ table.take (table.findIdx (·.isEnding))
        = a.turns.flatMap Turn.lexemes
      ∧ a.run.findings = a.turns.flatMap Turn.found
      ∧ a.run.declared = a.turns.flatMap Turn.declared
      ∧ ∀ t ∈ a.turns, t.Accounted := by
  intro a
  obtain ⟨hlexemes, hfound, hdeclared⟩ := run_eq_turns h
  refine ⟨leads_turns (.ofTable h), hlexemes, hfound, hdeclared, ?_⟩
  intro t ht
  exact (due_of_mem_turns h t ht).2.accounted (inside_of_mem_turns h t ht)

/-- The lexemes of `] var a: real; # b char`. -/
def strayBracket : List Token :=
  [⟨.symbol, "]", ⟨1, 1⟩⟩, ⟨.keyword, "var", ⟨1, 3⟩⟩,
    ⟨.identifier, "a", ⟨1, 7⟩⟩, ⟨.symbol, ":", ⟨1, 8⟩⟩,
    ⟨.keyword, "real", ⟨1, 10⟩⟩, ⟨.symbol, ";", ⟨1, 14⟩⟩,
    ⟨.unknown, "#", ⟨1, 16⟩⟩, ⟨.identifier, "b", ⟨1, 18⟩⟩,
    ⟨.keyword, "char", ⟨1, 20⟩⟩, .mark ⟨1, 24⟩]

open scoped UsualNesting

/-- It is cut behind the bracket, the word of the block and the unknown
symbol. -/
theorem run_accounted_strayBracket :
    let a := ofTable strayBracket
    (∃ t ∈ strayBracket, t.isEnding = true)
      ∧ a.turns.map (fun t => t.lexemes.map (·.text))
        = ([["]"], ["var"], ["a", ":", "real", ";", "#"], ["b", "char"]]
          : List (List Text))
      ∧ strayBracket.take 9 = a.turns.flatMap Turn.lexemes
      ∧ a.run.findings = a.turns.flatMap Turn.found
      ∧ a.run.findings.length = 4
      ∧ ∀ t ∈ a.turns, t.Accounted := by
  intro a
  have hends : ∃ t ∈ strayBracket, t.isEnding = true :=
    ⟨.mark ⟨1, 24⟩, by decide, rfl⟩
  obtain ⟨-, hlexemes, hfound, -, haccounted⟩ :=
    run_accounted strayBracket hends
  exact ⟨hends, by decide +kernel, hlexemes, hfound, by decide +kernel,
    haccounted⟩

end VarSection
