/-
What follows a semicolon. A text that ends with a semicolon may go on in any
way, and what was found and declared in it stays: its declarations and its
symbols are the first ones of the longer text, and its findings are among
those of the longer text (`check_continued`).

The tables of the two texts part behind the semicolon. Both analyses come to
it beside each other, and one of three passes it: the end of a declaration,
the recovery from a broken one, or the top of a section. From there on the
first analysis does nothing more, except that the declaration may still have
to be entered. The second one may find unknown symbols on the line of the
semicolon before it enters the same declaration, so its findings are more,
and not only later ones (`Gains`). What it does after that are elementary
steps, and these take nothing back (`Keeps.steps`).
-/
import VarSection.Proofs.Analysis.OfText
import VarSection.Proofs.Analysis.Parting
import VarSection.Proofs.Grammar.Nesting
import VarSection.Proofs.Scanner.Continuing
import Mathlib.Data.List.Perm.Subperm

namespace VarSection

open Analysis Grammar

-- ============================================================ what is kept

/-- A symbol is entered behind those of a table, or not at all. -/
theorem SymbolTable.suffix_define (t : SymbolTable Position)
    (s : Symbol Position) : t.entries <:+ (t.define s).2.entries := by
  unfold define
  simp only
  split
  · exact List.suffix_rfl
  · exact List.suffix_cons ..

namespace Analysis

variable {a b c : Analysis}

/-- Whatever one analysis has recorded another has recorded, too: the same
declarations and symbols first, among its findings the same, and a fault
where it has noted one. -/
structure Keeps (a b : Analysis) : Prop where
  declarations : a.declarations <:+ b.declarations
  symbols : a.symbols.entries <:+ b.symbols.entries
  errors : a.errors.Subperm b.errors
  unhalted : b.halt? = none → a.halt? = none

/-- Two analyses have recorded the same, except that the second one may have
made more findings. -/
structure Gains (a b : Analysis) : Prop where
  declarations : b.declarations = a.declarations
  symbols : b.symbols = a.symbols
  errors : a.errors.Subperm b.errors
  halt? : b.halt? = a.halt?

theorem RecordsAlike.gains (h : a.RecordsAlike b) : Gains a b :=
  ⟨h.declarations, h.symbols, by rw [h.errors], h.halt?⟩

namespace Gains

theorem keeps (h : Gains a b) : Keeps a b where
  declarations := h.declarations ▸ List.suffix_rfl
  symbols := h.symbols ▸ List.suffix_rfl
  errors := h.errors
  unhalted := h.halt?.symm.trans

theorem report (h : Gains a b) (pos : Position) (cause : Cause) :
    Gains (a.report pos cause) (b.report pos cause) :=
  ⟨h.declarations, h.symbols, (List.subperm_cons _).2 h.errors, h.halt?⟩

theorem enter (h : Gains a b) (d : Declaration) :
    Gains (a.enter d) (b.enter d) :=
  ⟨congrArg (d :: ·) h.declarations, h.symbols, h.errors, h.halt?⟩

/-- Names are entered alike, because the symbols are the same. -/
theorem declare (h : Gains a b) (names : List Identifier) (type : VarType) :
    Gains (a.declare names type) (b.declare names type) := by
  induction names generalizing a b with
  | nil => exact h
  | cons n names ih =>
    rw [declare_cons, declare_cons]
    refine ih ?_
    unfold declareName
    rw [h.symbols]
    split
    · exact h.report _ _
    · exact ⟨h.declarations, rfl, h.errors, h.halt?⟩

end Gains

/-- A step only ever adds to what is recorded. -/
theorem Step.keeps [NestingLimit] (h : Step a b) : Keeps a b := by
  have herrors := h.errors_suffix.sublist.subperm
  have hunhalted := h.unhalted
  cases h with
  | next =>
    refine ⟨?_, ?_, herrors, hunhalted⟩ <;> unfold Analysis.next <;>
      split <;> exact List.suffix_rfl
  | report => exact ⟨List.suffix_rfl, List.suffix_rfl, herrors, hunhalted⟩
  | reportBehind =>
    exact ⟨List.suffix_rfl, List.suffix_rfl, herrors, hunhalted⟩
  | setRecovering =>
    exact ⟨List.suffix_rfl, List.suffix_rfl, herrors, hunhalted⟩
  | halt =>
    refine ⟨?_, ?_, herrors, hunhalted⟩ <;> unfold Analysis.halt <;>
      split <;> exact List.suffix_rfl
  | enter =>
    exact ⟨List.suffix_cons .., List.suffix_rfl, herrors, hunhalted⟩
  | define =>
    exact ⟨List.suffix_rfl, SymbolTable.suffix_define .., herrors,
      hunhalted⟩

/-- Steps take back nothing that is kept. -/
theorem Keeps.steps [NestingLimit] (h : Keeps a b) (hsteps : Steps b c) :
    Keeps a c := by
  induction hsteps with
  | refl => exact h
  | tail _ hstep ih =>
    have hkeeps := hstep.keeps
    exact ⟨ih.declarations.trans hkeeps.declarations,
      ih.symbols.trans hkeeps.symbols, ih.errors.trans hkeeps.errors,
      ih.unhalted ∘ hkeeps.unhalted⟩

end Analysis

-- ==================================================== past the semicolon

namespace Parting

variable {p : Parting} {R : Analysis → Analysis → Prop} {a b c d : Analysis}

/-- Two analyses that have passed the semicolon. The first one has come to
its end. -/
structure Parted (p : Parting) (R : Analysis → Analysis → Prop)
    (a b : Analysis) : Prop where
  ahead : a.cursor.ahead = [p.last]
  inside : b.Inside
  recorded : R a b

/-- The semicolon is passed by both. -/
theorem Beside.part [NestingLimit] (h : p.Beside a b)
    (hahead : a.cursor.ahead = [p.semi, p.last]) :
    p.Parted Gains a.next b.next where
  ahead := (passes_next hahead
    (Token.isEnding_of_isSymbol p.isSemicolon)).ahead_tail hahead
  inside := (steps_next b).inside h.inside'
  recorded := h.records.next.gains

namespace Parted

/-- Behind the semicolon only the second analysis finds unknown symbols. -/
theorem reportUnknown (h : p.Parted Gains a b) (line : Int) :
    p.Parted Gains (a.reportUnknown line).2 (b.reportUnknown line).2 := by
  have hpass := passes_reportUnknown h.inside line
  rw [reportUnknown_of_head h.ahead
    (by rw [Token.kind_of_isEnding p.ending]; decide)]
  refine ⟨h.ahead, hpass.inside h.inside,
    hpass.declarations.trans h.recorded.declarations,
    hpass.symbols.trans h.recorded.symbols, ?_,
    hpass.halt?.trans h.recorded.halt?⟩
  rw [hpass.errors]
  exact h.recorded.errors.trans
    (List.suffix_append ..).sublist.subperm

theorem enter (h : p.Parted Gains a b) (d : Declaration) :
    p.Parted Gains (a.enter d) (b.enter d) :=
  ⟨h.ahead, h.inside.congr rfl, h.recorded.enter d⟩

theorem declare (h : p.Parted Gains a b) (names : List Identifier)
    (type : VarType) :
    p.Parted Gains (a.declare names type) (b.declare names type) :=
  ⟨by rw [cursor_declare]; exact h.ahead,
    h.inside.congr (cursor_declare ..), h.recorded.declare names type⟩

theorem keeps (h : p.Parted Gains a b) : p.Parted Keeps a b :=
  ⟨h.ahead, h.inside, h.recorded.keeps⟩

/-- Steps of the second analysis take nothing back. -/
theorem steps [NestingLimit] (h : p.Parted Keeps a b) (hsteps : Steps b c) :
    p.Parted Keeps a c :=
  ⟨h.ahead, hsteps.inside h.inside, h.recorded.steps hsteps⟩

/-- No declaration begins where the first analysis ends. -/
theorem readBlock [NestingLimit] (h : p.Parted Keeps a b) :
    p.Parted Keeps a.readBlock b.readBlock := by
  have hnone : ¬a.unreadName = true := by
    rw [unreadName_of_ahead h.ahead, Token.kind_of_isEnding p.ending]
    decide
  rw [Analysis.readBlock.eq_def a, dif_neg hnone]
  exact h.steps (steps_readBlock h.inside)

theorem readSection [NestingLimit] (h : p.Parted Keeps a b) :
    Keeps a.readSection b.readSection := by
  rw [readSection_of_ending h.ahead (Token.kind_of_isEnding p.ending)]
  exact h.recorded.steps (steps_readSection h.inside)

end Parted

-- ============================================== the end of a declaration

/-- Two analyses that are beside each other, or have passed the semicolon
already. -/
def Along (p : Parting) (R : Analysis → Analysis → Prop) (a b : Analysis) :
    Prop :=
  p.Beside a b ∨ p.Parted R a b

theorem Along.reportUnknown [NestingLimit] (h : p.Along Gains a b)
    (line : Int) :
    p.Along Gains (a.reportUnknown line).2 (b.reportUnknown line).2 := by
  rcases h with hbeside | hparted
  · exact .inl (hbeside.reportUnknown line).2
  · exact .inr (hparted.reportUnknown line)

/-- What follows the semicolon does not change what is left of a broken
declaration up to it. -/
theorem brokenRun_semi (line : Int) (xs rest : List Token) :
    brokenRun line (xs ++ p.semi :: rest)
      = brokenRun line (xs ++ [p.semi]) := by
  induction xs with
  | nil =>
    have hstarts : ∀ u, p.semi.startsDeclaration u = false := by
      intro u
      unfold Token.startsDeclaration
      rw [kind_semi]
      rfl
    show brokenRun line (p.semi :: rest) = brokenRun line [p.semi]
    unfold brokenRun
    rw [hstarts, hstarts, p.isSemicolon]
    rfl
  | cons t xs ih =>
    have hnext : (xs ++ p.semi :: rest).headD t = (xs ++ [p.semi]).headD t := by
      cases xs <;> rfl
    rw [List.cons_append, List.cons_append]
    unfold brokenRun
    rw [hnext, ih]

namespace Beside

theorem next_or_part [NestingLimit] (h : p.Beside a b) :
    p.Along Gains a.next b.next := by
  obtain ⟨xs, hahead, -⟩ := h.ahead
  cases xs with
  | nil => exact .inr (h.part hahead)
  | cons t xs => exact .inl (h.next_of_ahead hahead)

/-- The run that is left of a broken declaration lies in front of the
semicolon, or ends with it. -/
theorem synchronize [NestingLimit] (h : p.Beside a b) (line : Int) :
    p.Along Gains (a.synchronize line) (b.synchronize line) := by
  obtain ⟨xs, hahead, hahead'⟩ := h.ahead
  have hrun := brokenRun_prefix line (xs ++ [p.semi])
  have hnotEnding : ∀ t ∈ brokenRun line (xs ++ [p.semi]),
      t.isEnding = false := fun t ht => notEnding_of_mem_brokenRun ht
  unfold Analysis.synchronize
  rw [h.inside.upcoming, h.inside'.upcoming, hahead, hahead',
    brokenRun_semi line xs [p.last], brokenRun_semi line xs p.rest]
  revert hrun hnotEnding
  generalize brokenRun line (xs ++ [p.semi]) = run
  intro hrun hnotEnding
  rcases List.prefix_concat_iff.1 hrun with rfl | ⟨ys, rfl⟩
  · have hsplit : a.cursor.ahead = xs ++ ([] ++ [p.semi, p.last]) := hahead
    have hbefore := h.pass hsplit fun t ht =>
      hnotEnding t (List.mem_append_left _ ht)
    have hleft : (a.pass xs).cursor.ahead = [p.semi, p.last] :=
      (passes_pass hahead fun t ht =>
        hnotEnding t (List.mem_append_left _ ht)).ahead_eq hahead
    have hpass : ∀ c : Analysis,
        c.pass (xs ++ [p.semi]) = (c.pass xs).next := by
      intro c
      unfold Analysis.pass
      rw [List.foldl_append]
      show passToken _ p.semi = _
      unfold passToken
      rw [kind_semi]
      rfl
    simp only [List.getLast?_concat, p.isSemicolon, if_true, hpass]
    exact .inr ((hbefore.part hleft).reportUnknown _)
  · have hsplit : a.cursor.ahead = run ++ (ys ++ [p.semi, p.last]) := by
      rw [hahead, List.append_assoc]
    have hpass := h.pass hsplit hnotEnding
    simp only
    cases run.getLast? with
    | none => exact .inl hpass
    | some t =>
      simp only
      split
      · exact .inl (hpass.reportUnknown t.line).2
      · exact .inl hpass

theorem synchronizeHere [NestingLimit] (h : p.Beside a b) :
    p.Along Gains a.synchronizeHere b.synchronizeHere := by
  unfold Analysis.synchronizeHere
  simp only [h.inside.lookBack, h.inside'.lookBack, h.previous?]
  split
  · exact h.synchronize _
  · exact .inl (h.keep (cursor_halt ..) (cursor_halt ..) (h.records.halt _))

/-- Both end a declaration in the same way; it may end with the
semicolon. -/
theorem closeDeclaration [NestingLimit] (h : p.Beside a b) (found : Bool) :
    p.Along Gains (a.closeDeclaration found) (b.closeDeclaration found) := by
  have hmissing := h.reportAfterPrevious .semicolonExpected
  unfold Analysis.closeDeclaration
  rw [h.atSymbol, h.records.recovering, h.atKind, h.atKind, h.current]
  split
  · exact h.next_or_part.reportUnknown _
  · split
    · exact h.synchronizeHere
    · split
      · exact .inl hmissing
      · exact hmissing.synchronizeHere

theorem endDeclaration [NestingLimit] (h : p.Beside a b) :
    p.Along Gains a.endDeclaration b.endDeclaration := by
  obtain ⟨hflag, hread⟩ := h.reportUnknown a.current.line
  rw [endDeclaration_eq, endDeclaration_eq, h.current, hflag]
  exact hread.closeDeclaration _

-- =================================================== blocks and sections

/-- Both read and enter the same declaration. -/
theorem readDeclaration [NestingLimit] (h : p.Beside a b)
    (hname : a.unreadName = true) :
    p.Along Gains a.readDeclaration b.readDeclaration := by
  have hkind : a.current.kind ≠ .symbol := by
    obtain ⟨rest, hrest⟩ := h.inside.exists_ahead
    rw [unreadName_of_ahead hrest, beq_iff_eq] at hname
    rw [hname]
    decide
  have hstart : p.Beside a.unmarked b.unmarked := h.keep rfl rfl
    ⟨h.records.errors, rfl, h.records.symbols, h.records.declarations,
      h.records.halt?⟩
  obtain ⟨hnames, hnamed⟩ := hstart.readNames hkind
  obtain ⟨htype, htyped⟩ := hnamed.readTypePart
  rw [readDeclaration_eq, readDeclaration_eq, hnames, htype]
  unfold readParts
  simp only [hnames, htype, h.current]
  rcases htyped.endDeclaration with hdone | hparted
  · exact .inl (hdone.keep (cursor_declare ..) (cursor_declare ..)
      ((hdone.records.enter _).declare ..))
  · exact .inr ((hparted.enter _).declare ..)

theorem readBlock [NestingLimit] (h : p.Beside a b) :
    p.Along Keeps a.readBlock b.readBlock := by
  revert b
  refine readBlock.induct (fun a => ∀ {b}, p.Beside a b →
    p.Along Keeps a.readBlock b.readBlock) ?name ?none a
  case name =>
    intro a hname ih b h
    rw [Analysis.readBlock.eq_def a, dif_pos hname,
      Analysis.readBlock.eq_def b,
      dif_pos (by rw [h.unreadName]; exact hname)]
    rcases h.readDeclaration hname with hread | hparted
    · exact ih hread
    · exact .inr hparted.keeps.readBlock
  case none =>
    intro a hname b h
    rw [Analysis.readBlock.eq_def a, dif_neg hname,
      Analysis.readBlock.eq_def b,
      dif_neg (by rw [h.unreadName]; exact hname)]
    exact .inl h

/-- A stray lexeme is reported by both; it may be the semicolon. -/
theorem passStray [NestingLimit] (h : p.Beside a b) :
    p.Along Gains a.passStray b.passStray := by
  unfold Analysis.passStray
  rw [h.current]
  rcases h.next_or_part with hnext | hparted
  · exact .inl (hnext.report _ _)
  · exact .inr ⟨hparted.ahead, hparted.inside.congr rfl,
      hparted.recorded.report _ _⟩

/-- What the first section records the second one records, too. -/
theorem readSection [NestingLimit] (h : p.Beside a b) :
    Keeps a.readSection b.readSection := by
  induction hn : a.left using Nat.strongRecOn generalizing a b with
  | ind n ih =>
    obtain ⟨rest, hahead⟩ := h.inside.exists_ahead
    obtain ⟨rest', hahead'⟩ := h.inside'.exists_ahead
    rw [h.current] at hahead'
    have hless : ∀ {c : Analysis}, a.current.kind ≠ .ending →
        c.left ≤ a.next.left → c.left < n := by
      intro c hkind hle
      have hlt := left_next_lt (a := a) (t := a.current)
        (by rw [hahead]; rfl) hkind
      omega
    by_cases hend : a.current.kind = .ending
    · rw [readSection_of_ending hahead hend,
        readSection_of_ending hahead' hend]
      exact h.records.gains.keeps
    · by_cases hvar : a.current.isKeyword "var" = true
      · rw [readSection_of_var hahead hvar, readSection_of_var hahead' hvar]
        rcases (h.nextKeyword hvar).readBlock with hread | hparted
        · exact ih _ (hless hend (left_readBlock_le _)) hread rfl
        · exact hparted.readSection
      · rw [Bool.not_eq_true] at hvar
        rw [readSection_of_stray hahead hend hvar,
          readSection_of_stray hahead' hend hvar]
        rcases h.passStray with hpass | hparted
        · exact ih _ (hless hend (Nat.le_of_eq (left_congr rfl))) hpass rfl
        · exact hparted.keeps.readSection

end Beside

/-- What is recorded of the first table is recorded of the second one,
too. -/
theorem keeps_run [NestingLimit] (p : Parting) (xs : List Token)
    (hends : ∃ t ∈ p.rest, t.isEnding = true) :
    Keeps (ofTable (xs ++ [p.semi, p.last])).run
      (ofTable (xs ++ p.semi :: p.rest)).run := by
  have hstart : p.Beside (ofTable (xs ++ [p.semi, p.last]))
      (ofTable (xs ++ p.semi :: p.rest)) := by
    refine ⟨⟨xs, rfl, rfl⟩, rfl, .ofTable ⟨p.last, ?_, p.ending⟩,
      .ofTable ?_, rfl, rfl, rfl, rfl, rfl⟩
    · exact List.mem_append_right _
        (List.mem_cons_of_mem _ (List.mem_singleton_self _))
    · obtain ⟨t, ht, hend⟩ := hends
      exact ⟨t, List.mem_append_right _ (List.mem_cons_of_mem _ ht), hend⟩
  rw [run_ofTable, run_ofTable]
  exact hstart.readSection

end Parting

-- ============================================================= whole texts

/-- Of a text that ends with a semicolon nothing is taken back when it goes
on and has a report: its declarations and symbols are the first of the longer
text, and each of its findings is made in the longer text as often as in
itself. The longer text has no report only if arrays are nested too deep in
it, and always if they are in front of the semicolon. -/
theorem check_continued [NestingLimit] {s t : Text}
    {tokens table : List Token} {semi last : Token}
    (hs : tokenize s = .ok (tokens ++ [semi, last]))
    (hsemi : semi.isSymbol ";" = true) (ht : tokenize (s ++ t) = .ok table)
    (hreadable : Readable table) :
    (∀ report', check (s ++ t) = .ok report' →
      ∃ report, check s = .ok report
        ∧ report.declarations <+: report'.declarations
        ∧ report.symbols.toList <+: report'.symbols.toList
        ∧ report.errors.Subperm report'.errors)
      ∧ (∀ fault, check (s ++ t) = .error fault → fault = .nestedTooDeep)
      ∧ ∀ fault, check s = .error fault →
          check (s ++ t) = .error .nestedTooDeep := by
  obtain ⟨front, q, hscans, hfront⟩ := tokenize_eq_ok_iff.1 hs
  obtain ⟨tokens', q', hscans', rfl⟩ := tokenize_eq_ok_iff.1 ht
  rw [List.append_cons] at hfront
  obtain ⟨rfl, -⟩ := List.append_inj' hfront rfl
  obtain ⟨more, rfl⟩ := hscans.continued rfl hsemi hscans'
  have hkeeps := Parting.keeps_run
    ⟨semi, .mark q, more ++ [.mark q'], hsemi, rfl⟩ tokens
    ⟨.mark q', List.mem_append_right _ (List.mem_singleton_self _), rfl⟩
  rw [show tokens ++ [semi, .mark q] = tokens ++ [semi] ++ [.mark q] from
    List.append_cons .., show tokens ++ semi :: (more ++ [.mark q'])
      = tokens ++ semi :: more ++ [.mark q'] from
    (List.append_assoc tokens (semi :: more) _).symm] at hkeeps
  refine ⟨fun report' hreport' => ?_,
    fun fault hfault => (fault_of_check ht hreadable hfault).1,
    fun fault hfault => ?_⟩
  · have hunhalted := hkeeps.unhalted (unhalted_of_check hscans' hreport')
    refine ⟨_, check_of_unhalted hscans hunhalted, ?_⟩
    rw [report_of_scans hscans' hreport']
    refine ⟨List.reverse_prefix.2 hkeeps.declarations,
      List.reverse_prefix.2 (hkeeps.symbols.map (·.2)), ?_⟩
    exact (List.mergeSort_perm ..).subperm.trans
      (((List.reverse_perm _).subperm.trans
        (hkeeps.errors.trans (List.reverse_perm _).symm.subperm)).trans
        (List.mergeSort_perm ..).symm.subperm)
  · exact nestedTooDeep_of_halted hscans' hreadable fun hnone =>
      halted_of_check hscans hfault (hkeeps.unhalted hnone)

open scoped UsualNesting

/-- Behind its semicolon a text goes on with an unknown symbol, which is found
before the name that is declared twice in front of it. -/
theorem check_continued_unknownSymbol :
    let s : Text := "var a, A: real;"
    let t : Text := "$ b: char;"
    let tokens : List Token :=
      [⟨.keyword, "var", ⟨1, 1⟩⟩, ⟨.identifier, "a", ⟨1, 5⟩⟩,
        ⟨.symbol, ",", ⟨1, 6⟩⟩, ⟨.identifier, "A", ⟨1, 8⟩⟩,
        ⟨.symbol, ":", ⟨1, 9⟩⟩, ⟨.keyword, "real", ⟨1, 11⟩⟩]
    let semi : Token := ⟨.symbol, ";", ⟨1, 15⟩⟩
    let last : Token := .mark ⟨1, 16⟩
    tokenize s = .ok (tokens ++ [semi, last])
      ∧ (ofTable (tokens ++ [semi, last])).run.findings
        = [⟨.syntactic, ⟨1, 8⟩, .redeclared "A" ⟨1, 5⟩⟩]
      ∧ ∃ report report', check s = .ok report ∧ check (s ++ t) = .ok report'
        ∧ report.declarations <+: report'.declarations
        ∧ report.symbols.toList <+: report'.symbols.toList
        ∧ report.errors.Subperm report'.errors := by
  intro s t tokens semi last
  let table : List Token := tokens
    ++ [⟨.symbol, ";", ⟨1, 15⟩⟩, ⟨.unknown, "$", ⟨1, 16⟩⟩,
      ⟨.identifier, "b", ⟨1, 18⟩⟩, ⟨.symbol, ":", ⟨1, 19⟩⟩,
      ⟨.keyword, "char", ⟨1, 21⟩⟩, ⟨.symbol, ";", ⟨1, 25⟩⟩,
      .mark ⟨1, 26⟩]
  have hs : tokenize s = .ok (tokens ++ [semi, last]) := by decide +kernel
  have ht : tokenize (s ++ t) = .ok table := by decide +kernel
  have hreadable : Readable table := by
    unfold Readable
    decide +kernel
  have hreport' := check_of_readable ht hreadable (by decide +kernel)
  obtain ⟨report, hreport, hkept⟩ :=
    (check_continued hs (by decide) ht hreadable).1 _ hreport'
  exact ⟨hs, by decide +kernel, report, _, hreport, hreport', hkept⟩

/-- A text with a report goes on with arrays that are nested too deep, and
has none any more. -/
theorem continued_without_report :
    let s : Text := "var a: char;"
    let tokens : List Token :=
      [⟨.keyword, "var", ⟨1, 1⟩⟩, ⟨.identifier, "a", ⟨1, 5⟩⟩,
        ⟨.symbol, ":", ⟨1, 6⟩⟩, ⟨.keyword, "char", ⟨1, 8⟩⟩]
    tokenize s = .ok (tokens ++ [⟨.symbol, ";", ⟨1, 12⟩⟩, .mark ⟨1, 13⟩])
      ∧ (∃ table, tokenize (s ++ nestedText 600) = .ok table
        ∧ Readable table)
      ∧ (∃ report, check s = .ok report ∧ report.declarations
        = [⟨[⟨"a", ⟨1, 5⟩⟩], .scalar "char", ⟨1, 5⟩⟩])
      ∧ ∀ report, check (s ++ nestedText 600) ≠ .ok report := by
  intro s tokens
  have hs : tokenize s
      = .ok (tokens ++ [⟨.symbol, ";", ⟨1, 12⟩⟩, .mark ⟨1, 13⟩]) := by
    decide +kernel
  have hreadable : Readable
      (tokens ++ [⟨.symbol, ";", ⟨1, 12⟩⟩, .mark ⟨1, 13⟩]) := by
    unfold Readable
    decide +kernel
  obtain ⟨block, -, p, -, -, hread⟩ :=
    readAs_nestedText 0 .start (nestedText 600)
  obtain ⟨block', d, q, hblock, harrays, hread'⟩ :=
    readAs_nestedText 600 p []
  have hscans' := hread'.scans (.done q)
  rw [List.append_nil, List.append_nil] at hscans'
  have hscans := hread.scans hscans'
  have htokens : SectionTree.tokens ⟨[block, block']⟩
      = block.tokens ++ block'.tokens := by
    rw [SectionTree.tokens, List.flatMap_cons, List.flatMap_singleton]
  have hall : Readable (SectionTree.tokens ⟨[block, block']⟩) := by
    rw [htokens]
    exact hread.readable.append hread'.readable
  rw [← htokens] at hscans
  have htable : tokenize (s ++ nestedText 600)
      = .ok (SectionTree.tokens ⟨[block, block']⟩ ++ [.mark q]) :=
    tokenize_eq_ok_iff.2 ⟨_, q, hscans, rfl⟩
  refine ⟨hs, ⟨_, htable, hall.append (readable_mark q)⟩,
    ⟨_, check_of_readable hs hreadable (by decide +kernel),
      by decide +kernel⟩, fun report hreport => ?_⟩
  rw [check_of_fullTree _ htable hall fun hroom => ?_] at hreport
  · cases hreport
  · have hle : d.type.arrays ≤ nestingMax + 1 := hroom d
      (List.mem_flatMap.2 ⟨block', List.mem_cons_of_mem _
        (List.mem_singleton_self _), hblock ▸ List.mem_singleton_self d⟩)
    rw [harrays] at hle
    exact absurd hle (by decide)

end VarSection
