/-
What findings speak of. A finding is made at a lexeme of the table or, where
a colon or a semicolon is missing, right behind one; and what it quotes is
that lexeme, or the name that is written from it on (`Cites`).

A name is one or more lexemes glued together, whatever recovery made of
them (`Named`). All names that the declarations of an analysis offer are
written in its table, so a finding on a name that was declared before cites
two of them.
-/
import VarSection.Proofs.Analysis.Declaring

namespace VarSection

open Analysis Grammar

/-- What a finding quotes from a text; words of its own count as quoted. -/
def Cause.quoted? : Cause → Option Text
  | .unknownSymbol text => some text
  | .unexpectedToken text => some text
  | .invalidName text => some text
  | .invalidType text => some text
  | .redeclared name _ => some name
  | .remark text => some text
  | _ => none

/-- The name that is written from a lexeme on, where `rest` follows it. -/
def Token.nameWith (first : Token) (rest : List Token) : Identifier :=
  ⟨Text.join ((first :: gluedRun first rest).map (·.text)), first.pos⟩

/-- A name is written in a table. -/
def Named (table : List Token) (n : Identifier) : Prop :=
  ∃ before first rest, table = before ++ first :: rest
    ∧ first.isEnding = false ∧ n = first.nameWith rest

/-- A finding is made where the table has something to point at, and what it
quotes is written there. -/
inductive Cites (table : List Token) : Diagnostic → Prop
  | lexeme {t : Token} {cause : Cause} (ht : t ∈ table)
      (hend : t.isEnding = false)
      (hcause : cause ∈ [.unknownSymbol t.text, .unexpectedToken t.text,
        .invalidType t.text]) :
      Cites table ⟨.syntactic, t.pos, cause⟩
  | name {n : Identifier} (hn : Named table n) :
      Cites table ⟨.syntactic, n.pos, .invalidName n.name⟩
  | again {n first : Identifier} (hn : Named table n)
      (hfirst : Named table first)
      (hsame : Text.lower first.name = Text.lower n.name) :
      Cites table ⟨.syntactic, n.pos, .redeclared n.name first.pos⟩
  | place {t : Token} {cause : Cause} (ht : t ∈ table)
      (hcause : cause.quoted? = none) :
      Cites table ⟨.syntactic, t.pos, cause⟩
  | behind {t : Token} {cause : Cause} (ht : t ∈ table)
      (hcause : cause = .colonExpected ∨ cause = .semicolonExpected) :
      Cites table ⟨.syntactic, t.endPos, cause⟩

namespace Analysis

variable {a b : Analysis} {t : Token}

-- ==================================================================== names

/-- What is read as a name is written in the table. -/
theorem named_readName (ha : a.Inside) (hend : a.current.isEnding = false) :
    Named a.cursor.toList a.readName.1 := by
  obtain ⟨rest, hrest, htable⟩ := ha.toList_eq
  have hnext := passes_next hrest hend
  refine ⟨a.cursor.behind.reverse, a.current, rest, htable, hend, ?_⟩
  show a.current.nameWith a.next.upcoming = _
  rw [(hnext.inside ha).upcoming, hnext.ahead_tail hrest]

theorem named_readMoreNames [NestingLimit] (ha : a.Inside) :
    ∀ n ∈ a.readMoreNames.1, Named a.cursor.toList n := by
  fun_induction readMoreNames a with
  | case1 a hcomma hname name more ih =>
    have hnext := steps_next a
    have hread := hnext.trans (steps_readName (hnext.inside ha))
    intro n hn
    rcases List.mem_cons.1 hn with rfl | hn
    · rw [← hnext.toList]
      exact named_readName (hnext.inside ha) (isEnding_of_atNameAfter hname)
    · rw [← hread.toList]
      exact ih (hread.inside ha) n hn
  | case2 a hcomma hname => exact fun n hn => absurd hn List.not_mem_nil
  | case3 a hcomma => exact fun n hn => absurd hn List.not_mem_nil

theorem named_readNames [NestingLimit] (ha : a.Inside)
    (hend : a.current.isEnding = false) :
    ∀ n ∈ a.readNames.1, Named a.cursor.toList n := by
  have hname := steps_readName ha
  intro n hn
  rcases List.mem_cons.1 hn with rfl | hn
  · exact named_readName ha hend
  · rw [← hname.toList]
    exact named_readMoreNames (hname.inside ha) n hn

/-- All names that an analysis has declared are written in a table, which is
its own. -/
structure Written (table : List Token) (a : Analysis) : Prop where
  inside : a.Inside
  toList : a.cursor.toList = table
  named : ∀ d ∈ a.declarations, ∀ n ∈ d.names, Named table n

/-- Steps that enter no declaration. -/
theorem Written.steps [NestingLimit] {table : List Token}
    (h : Written table a) (hsteps : Steps a b)
    (hdeclarations : b.declarations = a.declarations) :
    Written table b :=
  ⟨hsteps.inside h.inside, hsteps.toList.trans h.toList,
    hdeclarations ▸ h.named⟩

theorem Written.readDeclaration [NestingLimit] {table : List Token}
    (h : Written table a) (hend : a.current.isEnding = false) :
    Written table a.readDeclaration := by
  have hsteps := steps_readDeclaration h.inside hend
  refine ⟨hsteps.inside h.inside, hsteps.toList.trans h.toList, ?_⟩
  rw [declarations_readDeclaration h.inside hend]
  refine List.forall_mem_cons.2 ⟨?_, h.named⟩
  rw [← h.toList]
  exact named_readNames (a := a.unmarked) (h.inside.of_recovering false) hend

theorem Written.named_offered {table : List Token} (h : Written table a)
    {s : Symbol Position} (hs : s ∈ a.offered) :
    Named table ⟨s.name, s.place⟩ := by
  obtain ⟨d, hd, hs⟩ := List.mem_flatMap.1 hs
  obtain ⟨n, hn, rfl⟩ := List.mem_map.1 hs
  exact h.named d (List.mem_reverse.1 hd) n hn

theorem lasts_written [NestingLimit] (table : List Token) :
    Lasts (Written table) where
  inside h := h.inside
  next h _ := h.steps (steps_next _) (declarations_next _)
  stray h _ := h.steps (steps_passStray h.inside) (declarations_next _)
  declaration h hend := h.readDeclaration hend

theorem Written.run [NestingLimit] {table : List Token}
    (h : ∃ t ∈ table, t.isEnding = true) :
    Written table (ofTable table).run :=
  (lasts_written table).readSection
    ⟨.ofTable h, rfl, fun _ hd => absurd hd List.not_mem_nil⟩

/-- What is found on names that were declared before cites the name and the
first one like it. -/
theorem cites_of_mem_redeclared [NestingLimit] {table : List Token}
    (h : ∃ t ∈ table, t.isEnding = true) {d : Diagnostic}
    (hd : d ∈ (ofTable table).run.redeclared) : Cites table d := by
  have hwritten := Written.run h
  rw [(Tallies.run h).redeclared] at hd
  obtain ⟨before, s, after, first, hsplit, hfirst, rfl⟩ :=
    exists_of_mem_redeclarations hd
  have hs : s ∈ (ofTable table).run.offered := by
    rw [hsplit]
    exact List.mem_append_right _ List.mem_cons_self
  have hmem : first ∈ (ofTable table).run.offered := by
    rw [hsplit]
    exact List.mem_append_left _ (List.mem_of_find?_eq_some hfirst)
  have hsame : Text.lower first.name = Text.lower s.name :=
    beq_iff_eq.1 (List.find?_some (p := fun u : Symbol Position =>
      Text.lower u.name == Text.lower s.name) hfirst)
  exact .again (hwritten.named_offered hs) (hwritten.named_offered hmem) hsame

end Analysis

end VarSection
