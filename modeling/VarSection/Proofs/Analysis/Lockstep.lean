/-
Two analyses in lockstep. Along a fork every reader does the same in both
tables: it gives the same answer, passes the same common lexemes and makes
the same findings, each at the lexeme or right behind the lexeme that
corresponds (`Paired`). A finding at the stop of the one is a finding at the
stop of the other.

`Along a₀ b₀ a b` says that two analyses, since they were at `a₀` and `b₀`,
went in lockstep and entered nothing. That is enough wherever findings are
made outright. Where a finding is made only if the latest one lies
elsewhere, the latest ones have to be compared too: `Ready` says that at
whatever still lies ahead both would decide alike. It is lost only when a
missing colon or semicolon is found at the stop itself, and there nothing
more is decided in this way before the declaration ends.

In one place a mark of the end and a `var` are told apart. Where a type
should stand, nothing is reported at the end if something was found there
already, and a word is always reported. So a reader of types has to know
that nothing has been found at the stop when it comes there (`hfresh`), and
it does, because a type is only sought behind a lexeme just passed.
-/
import VarSection.Proofs.Analysis.Fork

namespace VarSection

-- ================================================================ findings

/-- Whether a finding is made at a lexeme, on its own account. The others
are made right behind a lexeme, or tell of another declaration. -/
def Cause.isAtLexeme : Cause → Bool
  | .redeclared .. => false
  | .colonExpected => false
  | .semicolonExpected => false
  | _ => true

namespace Fork

/-- Two findings, one on each table, that correspond to each other. Only at
the stops may they differ in what they say. -/
inductive Paired (p : Fork) : Diagnostic → Diagnostic → Prop
  | lexeme {t : Token} {cause : Cause} (ht : t ∈ p.common)
      (hcause : cause.isAtLexeme = true) :
      Paired p ⟨.syntactic, t.pos, cause⟩ ⟨.syntactic, (p.move t).pos, cause⟩
  | behind {t : Token} {cause : Cause} (ht : t ∈ p.common)
      (hcause : cause = .colonExpected ∨ cause = .semicolonExpected) :
      Paired p ⟨.syntactic, t.endPos, cause⟩
        ⟨.syntactic, (p.move t).endPos, cause⟩
  | stop {cause cause' : Cause} (hcause : cause.isAtLexeme = true)
      (hcause' : cause'.isAtLexeme = true)
      (hsame : cause' = cause ∨ p.GoesOn) :
      Paired p ⟨.syntactic, p.stop.pos, cause⟩
        ⟨.syntactic, p.stop'.pos, cause'⟩

/-- Corresponding findings were added to two lists of findings. -/
inductive Grown (p : Fork) (found found' : List Diagnostic) :
    List Diagnostic → List Diagnostic → Prop
  | refl : Grown p found found' found found'
  | cons {d d' : Diagnostic} {all all' : List Diagnostic}
      (hd : p.Paired d d') (hall : Grown p found found' all all') :
      Grown p found found' (d :: all) (d' :: all')

variable {p : Fork} {t t' : Token} {cause : Cause}

theorem Matches.paired (h : p.Matches t t')
    (hcause : cause.isAtLexeme = true) :
    p.Paired ⟨.syntactic, t.pos, cause⟩ ⟨.syntactic, t'.pos, cause⟩ := by
  cases h with
  | lexeme ht => exact .lexeme ht hcause
  | stop => exact .stop hcause hcause (.inl rfl)

end Fork

-- ============================================================== the two runs

namespace Analysis

/-- The note of the first fault of an analysis that enters nothing: an old
note, or a new one. -/
def noted (a : Analysis) (fault? : Option Fault) : Option Halt :=
  a.halt?.or (fault?.map fun fault => ⟨fault, a.symbols, a.declarations⟩)

theorem noted_eq_none {a : Analysis} {fault? : Option Fault} :
    a.noted fault? = none ↔ a.halt? = none ∧ fault? = none := by
  unfold noted
  rw [Option.or_eq_none_iff, Option.map_eq_none_iff]

end Analysis

namespace Fork

variable {p : Fork} {a₀ b₀ a b c d : Analysis} {t t' : Token}
  {cause cause' : Cause}

/-- Two analyses went in lockstep and entered nothing, and they have passed
a lexeme of their tables. -/
structure Along (p : Fork) (a₀ b₀ a b : Analysis) : Prop where
  alike : p.Alike a b
  recovering : b.recovering = a.recovering
  started : a.cursor.behind ≠ []
  grown : p.Grown a₀.errors b₀.errors a.errors b.errors
  symbols : a.symbols = a₀.symbols
  symbols' : b.symbols = b₀.symbols
  declarations : a.declarations = a₀.declarations
  declarations' : b.declarations = b₀.declarations
  halts : ∃ fault?, a.halt? = a₀.noted fault? ∧ b.halt? = b₀.noted fault?

namespace Along

theorem inside (h : p.Along a₀ b₀ a b) : a.Inside := h.alike.inside

/-- A common lexeme is passed by both. -/
theorem next [NestingLimit] (h : p.Along a₀ b₀ a b)
    (hend : a.current.isEnding = false) :
    p.Along a₀ b₀ a.next b.next where
  alike := h.alike.next hend
  recovering := by
    rw [Analysis.recovering_next, Analysis.recovering_next]
    exact h.recovering
  started := List.ne_nil_of_mem
    (Analysis.current_mem_behind_next h.inside hend)
  grown := by
    rw [Analysis.errors_next, Analysis.errors_next]
    exact h.grown
  symbols := (Analysis.symbols_next a).trans h.symbols
  symbols' := (Analysis.symbols_next b).trans h.symbols'
  declarations := (Analysis.declarations_next a).trans h.declarations
  declarations' := (Analysis.declarations_next b).trans h.declarations'
  halts := by
    rw [Analysis.halt?_next, Analysis.halt?_next]
    exact h.halts

/-- Corresponding findings are made by both. -/
theorem report (h : p.Along a₀ b₀ a b) {pos pos' : Position}
    {cause cause' : Cause}
    (hpaired : p.Paired ⟨.syntactic, pos, cause⟩
      ⟨.syntactic, pos', cause'⟩) :
    p.Along a₀ b₀ (a.report pos cause) (b.report pos' cause') where
  alike := h.alike.congr rfl rfl
  recovering := h.recovering
  started := h.started
  grown := .cons hpaired h.grown
  symbols := h.symbols
  symbols' := h.symbols'
  declarations := h.declarations
  declarations' := h.declarations'
  halts := h.halts

theorem recover (h : p.Along a₀ b₀ a b) :
    p.Along a₀ b₀ a.recover b.recover where
  alike := h.alike.congr rfl rfl
  recovering := rfl
  started := h.started
  grown := h.grown
  symbols := h.symbols
  symbols' := h.symbols'
  declarations := h.declarations
  declarations' := h.declarations'
  halts := h.halts

/-- The same fault is noted by both, unless one is noted already. -/
theorem halt (h : p.Along a₀ b₀ a b) (fault : Fault) :
    p.Along a₀ b₀ (a.halt fault) (b.halt fault) := by
  have hnoted : ∀ {c c₀ : Analysis} {fault? : Option Fault},
      c.halt? = c₀.noted fault? → c.symbols = c₀.symbols →
      c.declarations = c₀.declarations →
      (c.halt fault).halt? = c₀.noted (fault?.or (some fault)) := by
    intro c c₀ fault? hhalt hsymbols hdeclarations
    unfold Analysis.halt
    cases hold : c.halt? with
    | some note =>
      rw [hold] at hhalt
      simp only [hold]
      rw [hhalt]
      unfold Analysis.noted at hhalt ⊢
      cases hbase : c₀.halt? with
      | some note₀ => rfl
      | none =>
        rw [hbase] at hhalt
        cases fault? with
        | none => cases hhalt
        | some => rfl
    | none =>
      rw [hold] at hhalt
      unfold Analysis.noted at hhalt ⊢
      obtain ⟨hbase, hnew⟩ := Option.or_eq_none_iff.1 hhalt.symm
      rw [Option.map_eq_none_iff] at hnew
      rw [hbase, hnew, hsymbols, hdeclarations]
      rfl
  have hframe : ∀ c : Analysis, (c.halt fault).errors = c.errors
      ∧ (c.halt fault).recovering = c.recovering
      ∧ (c.halt fault).symbols = c.symbols
      ∧ (c.halt fault).declarations = c.declarations := by
    intro c
    unfold Analysis.halt
    split <;> exact ⟨rfl, rfl, rfl, rfl⟩
  obtain ⟨herrors, hrecovering, hsymbols, hdeclarations⟩ := hframe a
  obtain ⟨herrors', hrecovering', hsymbols', hdeclarations'⟩ := hframe b
  refine ⟨h.alike.congr (Analysis.cursor_halt ..) (Analysis.cursor_halt ..),
    ?_, ?_, ?_, hsymbols.trans h.symbols, hsymbols'.trans h.symbols',
    hdeclarations.trans h.declarations,
    hdeclarations'.trans h.declarations', ?_⟩
  · rw [hrecovering, hrecovering', h.recovering]
  · rw [Analysis.cursor_halt]
    exact h.started
  · rw [herrors, herrors']
    exact h.grown
  · obtain ⟨fault?, hhalt, hhalt'⟩ := h.halts
    exact ⟨_, hnoted hhalt h.symbols h.declarations,
      hnoted hhalt' h.symbols' h.declarations'⟩

/-- A lexeme that both have passed. -/
theorem mem_common (h : p.Along a₀ b₀ a b) (ht : t ∈ a.cursor.behind) :
    t ∈ p.common :=
  h.alike.mem_common_of_behind ht

/-- Both look back at a common lexeme. -/
theorem exists_previous (h : p.Along a₀ b₀ a b) :
    ∃ t ∈ p.common, a.previous? = some t
      ∧ b.previous? = some (p.move t) := by
  have hprevious := h.inside.previous?
  cases hhead : a.cursor.behind with
  | nil => exact absurd hhead h.started
  | cons t behind =>
    rw [hhead] at hprevious
    refine ⟨t, h.mem_common ?_, hprevious, ?_⟩
    · rw [hhead]
      exact List.mem_cons_self
    · rw [h.alike.previous?, hprevious]
      rfl

/-- A separator is missed by both, right behind the lexeme that they have
passed last. -/
theorem reportAfterPrevious (h : p.Along a₀ b₀ a b) (cause : Cause)
    (hcause : cause = .colonExpected ∨ cause = .semicolonExpected) :
    p.Along a₀ b₀ (a.reportAfterPrevious cause)
      (b.reportAfterPrevious cause) := by
  obtain ⟨t, ht, hprevious, hprevious'⟩ := h.exists_previous
  unfold Analysis.reportAfterPrevious
  simp only [h.inside.lookBack, h.alike.lookBack', hprevious, hprevious']
  exact h.report (.behind ht hcause)

end Along

-- ================================================== the latest findings

/-- At whatever still lies ahead both analyses find alike whether the latest
finding lies there; and in front of a stop at which only the second table
goes on, the latest finding of the first does not lie at the stop. -/
structure Ready (p : Fork) (a b : Analysis) : Prop where
  hits : ∀ {t t' : Token}, p.Matches t t' → t ∈ a.cursor.ahead →
    b.hits t'.pos = a.hits t.pos
  clear : p.GoesOn → a.current.isEnding = false →
    a.hits p.stop.pos = false

namespace Ready

/-- What keeps both places and all findings. -/
theorem congr (h : p.Ready a b) (hcursor : c.cursor = a.cursor)
    (herrors : c.errors = a.errors) (herrors' : d.errors = b.errors) :
    p.Ready c d where
  hits hmatches hmem := by
    rw [hcursor] at hmem
    rw [Analysis.hits_congr herrors, Analysis.hits_congr herrors']
    exact h.hits hmatches hmem
  clear hgoes hend := by
    rw [Analysis.current_congr hcursor] at hend
    rw [Analysis.hits_congr herrors]
    exact h.clear hgoes hend

theorem next (h : p.Ready a b) (ha : a.Inside)
    (hend : a.current.isEnding = false) : p.Ready a.next b.next where
  hits hmatches hmem := by
    rw [Analysis.hits_congr (Analysis.errors_next a),
      Analysis.hits_congr (Analysis.errors_next b)]
    refine h.hits hmatches ?_
    rw [(Analysis.passes_current ha hend).ahead]
    exact List.mem_append_right _ hmem
  clear hgoes _ := by
    rw [Analysis.hits_congr (Analysis.errors_next a)]
    exact h.clear hgoes hend

/-- A finding at corresponding lexemes, which are the stops only when the
analyses have come there. -/
theorem report (hmatches : p.Matches t t')
    (hend : a.current.isEnding = false → t ∈ p.common) :
    p.Ready (a.report t.pos cause) (b.report t'.pos cause') where
  hits {u u'} hmatches' _ := by
    rw [Analysis.hits_report, Analysis.hits_report, Bool.eq_iff_iff,
      beq_iff_eq, beq_iff_eq]
    exact hmatches.pos_iff hmatches'
  clear hgoes hcurrent := by
    rw [Analysis.hits_report]
    exact beq_eq_false_iff_ne.2 (hgoes.apart t (hend hcurrent))

/-- A finding right behind the lexeme passed last, in front of the stop. -/
theorem reportBehind (halike : p.Alike a b)
    (hbehind : a.cursor.behind.head? = some t)
    (hend : a.current.isEnding = false) :
    p.Ready (a.report t.endPos cause) (b.report (p.move t).endPos cause) := by
  have ht : t ∈ p.common :=
    halike.mem_common_of_behind (List.mem_of_mem_head? hbehind)
  have hclear : p.GoesOn → t.endPos ≠ p.stop.pos := by
    intro hgoes
    obtain ⟨xs, hcommon, hahead, -⟩ := halike.tables
    cases hxs : xs with
    | nil =>
      rw [hxs] at hahead
      rw [Analysis.current_of_ahead hahead, p.ending] at hend
      cases hend
    | cons u after =>
      cases hlist : a.cursor.behind with
      | nil =>
        rw [hlist] at hbehind
        cases hbehind
      | cons t₁ before =>
        rw [hlist] at hbehind hcommon
        rw [Option.some.inj hbehind, hxs, List.reverse_cons,
          List.append_assoc] at hcommon
        exact hgoes.ends _ t u after hcommon
  refine ⟨fun {u u'} hmatches _ => ?_, fun hgoes _ => ?_⟩
  · rw [Analysis.hits_report, Analysis.hits_report, Bool.eq_iff_iff,
      beq_iff_eq, beq_iff_eq]
    cases hmatches with
    | @lexeme u hu => exact @Position.shift_inj p.lines t.endPos u.pos
    | stop =>
      rcases p.stops with htwin | hopens
      · rw [htwin]
        exact @Position.shift_inj p.lines t.endPos p.stop.pos
      · refine ⟨fun heq => ?_, fun heq => absurd heq (hclear hopens)⟩
        exact absurd (congrArg Position.line heq) (hopens.line t ht)
  · rw [Analysis.hits_report]
    exact beq_eq_false_iff_ne.2 (hclear hgoes)

end Ready

/-- Two analyses went in lockstep, and are ready to decide alike whether
there is something to report once more. -/
structure Track (p : Fork) (a₀ b₀ a b : Analysis) : Prop where
  along : p.Along a₀ b₀ a b
  ready : p.Ready a b

-- ====================================================== whatever is kept

/-- A relation between two analyses that is kept wherever both pass a common
lexeme, make the same finding at corresponding lexemes, set the recovery
mark or note the same fault. -/
structure Lockstep (p : Fork) (R : Analysis → Analysis → Prop) : Prop where
  alike : ∀ {a b}, R a b → p.Alike a b
  next : ∀ {a b}, R a b → a.current.isEnding = false → R a.next b.next
  report : ∀ {a b t t' cause}, R a b → p.Matches t t' →
    (a.current.isEnding = false → t ∈ p.common) →
    cause.isAtLexeme = true →
    R (a.report t.pos cause) (b.report t'.pos cause)
  recover : ∀ {a b}, R a b → R a.recover b.recover
  halt : ∀ {a b}, R a b → ∀ fault, R (a.halt fault) (b.halt fault)

theorem lockstep_along [NestingLimit] : p.Lockstep (p.Along a₀ b₀) where
  alike h := h.alike
  next h hend := h.next hend
  report h hmatches _ hcause := h.report (hmatches.paired hcause)
  recover h := h.recover
  halt h fault := h.halt fault

theorem lockstep_track [NestingLimit] : p.Lockstep (p.Track a₀ b₀) where
  alike h := h.along.alike
  next h hend := ⟨h.along.next hend, h.ready.next h.along.inside hend⟩
  report h hmatches hend hcause :=
    ⟨h.along.report (hmatches.paired hcause), .report hmatches hend⟩
  recover h := ⟨h.along.recover, h.ready.congr rfl rfl rfl⟩
  halt h fault := ⟨h.along.halt fault, h.ready.congr
    (Analysis.cursor_halt ..) (Analysis.errors_halt ..)
    (Analysis.errors_halt ..)⟩

namespace Track

theorem alike (h : p.Track a₀ b₀ a b) : p.Alike a b := h.along.alike

theorem inside (h : p.Track a₀ b₀ a b) : a.Inside := h.alike.inside

/-- Both find that there is something to report where they are, or both
that the latest finding lies there. -/
theorem expect [NestingLimit] (h : p.Track a₀ b₀ a b) (cause : Cause)
    (hcause : cause.isAtLexeme = true) :
    p.Track a₀ b₀ (a.expect a.current.pos cause)
      (b.expect b.current.pos cause) := by
  obtain ⟨rest, hrest⟩ := h.inside.exists_ahead
  have hmem : a.current ∈ a.cursor.ahead := by
    rw [hrest]
    exact List.mem_cons_self
  rw [Analysis.expect_eq, Analysis.expect_eq,
    h.ready.hits h.alike.current hmem]
  by_cases hhit : a.hits a.current.pos = true
  · rw [if_pos hhit, if_pos hhit]
    exact h
  · rw [if_neg hhit, if_neg hhit]
    exact lockstep_track.report h h.alike.current
      (fun hend => (h.alike.current_of_notEnding hend).1) hcause

/-- In front of the stop a missing separator leaves them ready. -/
theorem reportAfterPrevious (h : p.Track a₀ b₀ a b) (cause : Cause)
    (hcause : cause = .colonExpected ∨ cause = .semicolonExpected)
    (hend : a.current.isEnding = false) :
    p.Track a₀ b₀ (a.reportAfterPrevious cause)
      (b.reportAfterPrevious cause) := by
  refine ⟨h.along.reportAfterPrevious cause hcause, ?_⟩
  obtain ⟨t, -, hprevious, hprevious'⟩ := h.along.exists_previous
  have hbehind : a.cursor.behind.head? = some t :=
    h.inside.previous?.symm.trans hprevious
  unfold Analysis.reportAfterPrevious
  simp only [h.inside.lookBack, h.alike.lookBack', hprevious, hprevious']
  exact .reportBehind h.alike hbehind hend

end Track

end Fork

end VarSection
