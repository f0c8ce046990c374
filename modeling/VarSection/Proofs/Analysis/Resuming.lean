/-
A block that begins on a line of its own. However broken a text is, if
another text that begins with the word of a block follows behind a line
feed, the second is analysed as if it stood alone, only further down; and
the first is analysed as if it ended there (`check_join`). Only names that
both declare are found in addition.

The proof runs the analysis of the joined text beside that of the first
text, up to the mark of its end, and then beside that of the second
(`walk_follows`). In the first part both tables are a fork at which the
joined one goes on with a block; what is found at the mark of the end is
found at the word of the block instead. In the second part they have all
lexemes in common, a number of lines apart.

A finding that is made only if the latest one lies elsewhere could depend
on what was found before. It does not, because in a table made from a text
no finding lies ahead of the place (`Settled`), so behind the first lexeme
of a declaration the latest finding is always out of the way.
-/
import Mathlib.Data.List.Forall2
import VarSection.Proofs.Analysis.OfText
import VarSection.Proofs.Analysis.Sections
import VarSection.Proofs.Grammar.Nesting
import VarSection.Proofs.Scanner.Joining

namespace VarSection

-- ======================================================== one after another

/-- Findings without those on names that were declared before. -/
def withoutRedeclared (found : List Diagnostic) : List Diagnostic :=
  found.filter fun d => !d.cause.isRedeclared

/-- The findings of an analysis in the order in which they were made,
without those on names that were declared before. -/
def Analysis.ownFindings (a : Analysis) : List Diagnostic :=
  withoutRedeclared a.findings

theorem Cause.isRedeclared_of_isAtLexeme {cause : Cause}
    (h : cause.isAtLexeme = true) : cause.isRedeclared = false := by
  cases cause with
  | redeclared => cases h
  | _ => rfl

namespace Fork

variable {p : Fork} {front a b : Analysis} {d d' : Diagnostic}
  {found found' all all' base base' : List Diagnostic}

/-- Corresponding findings are not on names that were declared before. -/
theorem Paired.isRedeclared (h : p.Paired d d') :
    d.cause.isRedeclared = false ∧ d'.cause.isRedeclared = false := by
  cases h with
  | lexeme ht hcause =>
    exact ⟨Cause.isRedeclared_of_isAtLexeme hcause,
      Cause.isRedeclared_of_isAtLexeme hcause⟩
  | behind ht hcause =>
    rcases hcause with rfl | rfl
    · exact ⟨rfl, rfl⟩
    · exact ⟨rfl, rfl⟩
  | stop hcause hcause' hsame =>
    exact ⟨Cause.isRedeclared_of_isAtLexeme hcause,
      Cause.isRedeclared_of_isAtLexeme hcause'⟩

theorem Grown.trans (h : p.Grown base base' found found')
    (h' : p.Grown found found' all all') : p.Grown base base' all all' := by
  induction h' with
  | refl => exact h
  | cons hd _ ih => exact .cons hd ih

theorem Grown.withoutRedeclared (h : p.Grown found found' all all') :
    p.Grown (withoutRedeclared found) (withoutRedeclared found')
      (withoutRedeclared all) (withoutRedeclared all') := by
  induction h with
  | refl => exact .refl
  | cons hd _ ih =>
    obtain ⟨hkeep, hkeep'⟩ := hd.isRedeclared
    unfold VarSection.withoutRedeclared at ih ⊢
    rw [List.filter_cons_of_pos (by rw [hkeep]; rfl),
      List.filter_cons_of_pos (by rw [hkeep']; rfl)]
    exact .cons hd ih

/-- What was added to both lists corresponds entry by entry. -/
theorem Grown.exists_forall₂ (h : p.Grown found found' all all') :
    ∃ new new', all = new ++ found ∧ all' = new' ++ found'
      ∧ List.Forall₂ p.Paired new new' := by
  induction h with
  | refl => exact ⟨[], [], rfl, rfl, .nil⟩
  | @cons d d' all all' hd hall ih =>
    obtain ⟨new, new', rfl, rfl, hnew⟩ := ih
    exact ⟨d :: new, d' :: new', rfl, rfl, .cons hd hnew⟩

/-- Entering names adds nothing but redeclarations. -/
theorem withoutRedeclared_declare (names : List Identifier) (type : VarType)
    (a : Analysis) :
    withoutRedeclared (a.declare names type).errors
      = withoutRedeclared a.errors := by
  obtain ⟨found, hfound, hall⟩ := a.errors_declare names type
  have hnone : withoutRedeclared found = [] := by
    unfold withoutRedeclared
    rw [List.filter_eq_nil_iff]
    intro d hd
    rw [hall d hd]
    decide
  rw [hfound]
  unfold withoutRedeclared at hnone ⊢
  rw [List.filter_append, hnone, List.nil_append]

/-- An analysis of a text follows an analysis of a part of it, behind what
was recorded in front of that part. -/
structure Follows (p : Fork) (front a b : Analysis) : Prop where
  alike : p.Alike a b
  grown : p.Grown [] (withoutRedeclared front.errors)
    (withoutRedeclared a.errors) (withoutRedeclared b.errors)
  declarations : b.declarations
    = a.declarations.map (·.shift p.lines) ++ front.declarations
  unhalted : b.halt? = none ↔ front.halt? = none ∧ a.halt? = none
  settled : a.Settled
  settled' : b.Settled

namespace Follows

/-- Behind a lexeme both decide alike, because no finding lies ahead. -/
theorem ready (h : p.Follows front a b)
    (hend : a.current.isEnding = false) : p.Ready a.next b.next := by
  obtain ⟨xs, hcommon, hahead, hahead'⟩ := h.alike.tables
  obtain ⟨-, hcurrent⟩ := h.alike.current_of_notEnding hend
  cases hxs : xs with
  | nil =>
    rw [hxs] at hahead
    rw [Analysis.current_of_ahead hahead, p.ending] at hend
    cases hend
  | cons t xs =>
    rw [hxs] at hahead hahead'
    have hnext : a.next.cursor.ahead = xs ++ p.stop :: p.rest :=
      (Analysis.passes_next hahead
        (by rw [← Analysis.current_of_ahead hahead]; exact hend)).ahead_tail
        hahead
    have hend' : b.current.isEnding = false := by
      rw [hcurrent]
      exact hend
    have hnext' : b.next.cursor.ahead
        = xs.map p.move ++ p.stop' :: p.rest' :=
      (Analysis.passes_next hahead'
        (by rw [← Analysis.current_of_ahead hahead']; exact hend')).ahead_tail
        hahead'
    have hclear : ∀ u ∈ a.next.cursor.ahead, a.next.hits u.pos = false := by
      intro u hu
      rw [Analysis.hits_congr (Analysis.errors_next a)]
      exact h.settled.hits_eq_false (h.settled.before hend hu)
    refine ⟨fun {u u'} hmatches hu => ?_, fun _ _ => ?_⟩
    · rw [hclear u hu, Analysis.hits_congr (Analysis.errors_next b)]
      refine h.settled'.hits_eq_false ?_
      cases hmatches with
      | lexeme =>
        rw [hcurrent]
        exact (h.settled.before hend hu).shift p.lines
      | stop =>
        refine h.settled'.before hend' ?_
        rw [hnext']
        exact List.mem_append_right _ List.mem_cons_self
    · refine hclear p.stop ?_
      rw [hnext]
      exact List.mem_append_right _ List.mem_cons_self

end Follows

/-- In front of the stop the one analysis follows the other. -/
theorem walk_follows [NestingLimit] (front : Analysis) :
    p.Walk (p.Follows front) where
  alike h := h.alike
  next := by
    intro a b h hend
    refine ⟨h.alike.next hend, ?_, ?_, ?_, (Analysis.steps_next a).settled
      h.settled, (Analysis.steps_next b).settled h.settled'⟩
    · rw [Analysis.errors_next, Analysis.errors_next]
      exact h.grown
    · rw [Analysis.declarations_next, Analysis.declarations_next]
      exact h.declarations
    · rw [Analysis.halt?_next, Analysis.halt?_next]
      exact h.unhalted
  stray := by
    intro a b h hend
    obtain ⟨hcommon, hcurrent⟩ := h.alike.current_of_notEnding hend
    refine ⟨h.alike.passStray hend, ?_, ?_, ?_,
      (Analysis.steps_passStray h.settled.inside).settled h.settled,
      (Analysis.steps_passStray h.settled'.inside).settled h.settled'⟩
    · refine h.grown.trans (Grown.withoutRedeclared ?_)
      unfold Analysis.passStray
      rw [hcurrent]
      show p.Grown a.errors b.errors
        (⟨.syntactic, a.current.pos, _⟩ :: a.next.errors)
        (⟨.syntactic, (p.move a.current).pos, _⟩ :: b.next.errors)
      rw [Analysis.errors_next, Analysis.errors_next]
      refine .cons (.lexeme hcommon ?_) .refl
      split <;> rfl
    · show b.next.declarations
        = a.next.declarations.map (·.shift p.lines) ++ front.declarations
      rw [Analysis.declarations_next, Analysis.declarations_next]
      exact h.declarations
    · show b.next.halt? = none ↔ front.halt? = none ∧ a.next.halt? = none
      rw [Analysis.halt?_next, Analysis.halt?_next]
      exact h.unhalted
  declaration := by
    intro a b h hend
    have hend' : b.current.isEnding = false := by
      rw [(h.alike.current_of_notEnding hend).2]
      exact hend
    obtain ⟨names, type, c, d, hnames, hnames', htype, htype', halong, hparts,
      hparts'⟩ := h.alike.readParts hend (h.ready hend)
    refine ⟨?_, ?_, ?_, ?_,
      (Analysis.steps_readDeclaration h.settled.inside hend).settled
        h.settled,
      (Analysis.steps_readDeclaration h.settled'.inside hend').settled
        h.settled'⟩
    · rw [Analysis.readDeclaration_eq, Analysis.readDeclaration_eq, hparts,
        hparts']
      exact halong.alike.declare ..
    · rw [Analysis.readDeclaration_eq, Analysis.readDeclaration_eq,
        withoutRedeclared_declare, withoutRedeclared_declare, hparts, hparts']
      exact h.grown.trans halong.grown.withoutRedeclared
    · rw [Analysis.readDeclaration_eq, Analysis.readDeclaration_eq,
        Analysis.declarations_declare, Analysis.declarations_declare, hparts,
        hparts']
      show _ :: d.declarations
        = (_ :: c.declarations).map (·.shift p.lines) ++ front.declarations
      rw [halong.declarations, halong.declarations', List.map_cons]
      exact congrArg (_ :: ·) h.declarations
    · rw [Analysis.readDeclaration_eq, Analysis.readDeclaration_eq,
        Analysis.halt?_declare, Analysis.halt?_declare, hparts, hparts']
      show d.halt? = none ↔ front.halt? = none ∧ c.halt? = none
      obtain ⟨fault?, hhalt, hhalt'⟩ := halong.halts
      rw [hhalt, hhalt', Analysis.noted_eq_none, Analysis.noted_eq_none,
        ← and_assoc]
      exact and_congr_left fun _ => h.unhalted

/-- What is found and declared in front, and then entry by entry what the
followed analysis finds and declares. -/
theorem Follows.outcome (h : p.Follows front a b) :
    (∃ new, b.ownFindings = front.ownFindings ++ new
        ∧ List.Forall₂ p.Paired a.ownFindings new)
      ∧ b.declared = front.declared ++ a.declared.map (·.shift p.lines) := by
  obtain ⟨new, new', hnew, hnew', hpaired⟩ := h.grown.exists_forall₂
  have hown : ∀ c : Analysis,
      c.ownFindings = (withoutRedeclared c.errors).reverse := fun c =>
    List.filter_reverse
  refine ⟨⟨new'.reverse, ?_, ?_⟩, ?_⟩
  · rw [hown, hown, hnew', List.reverse_append]
  · rw [hown, hnew, List.append_nil]
    exact List.rel_reverse hpaired
  · unfold Analysis.declared
    rw [h.declarations, List.reverse_append, List.map_reverse]

end Fork

/-- A finding at a mark of the end is made at another place instead, perhaps
in other words; any other finding stays what it is. A missing colon or
semicolon is not found at the mark of the end but behind the lexeme in front
of it, even if nothing lies between the two. -/
def Diagnostic.MovedTo (eof place : Position) (d d' : Diagnostic) : Prop :=
  if d.pos = eof ∧ d.cause.isAtLexeme = true then d'.pos = place else d' = d

namespace Fork

variable {p : Fork} {d d' : Diagnostic}

/-- Where the second table goes on, only findings at the stop are moved. -/
theorem Paired.movedTo (h : p.Paired d d') (hgoes : p.GoesOn)
    (hlines : p.lines = 0) : d.MovedTo p.stop.pos p.stop'.pos d' := by
  have hmove : ∀ t, p.move t = t := by
    intro t
    unfold move
    rw [hlines, Token.shift_zero]
  unfold Diagnostic.MovedTo
  cases h with
  | lexeme ht hcause =>
    rw [if_neg fun hstop => hgoes.apart _ ht hstop.1, hmove]
  | behind ht hcause =>
    rw [if_neg, hmove]
    rintro ⟨-, hlexeme⟩
    rcases hcause with rfl | rfl
    · cases hlexeme
    · cases hlexeme
  | stop hcause hcause' hsame => rw [if_pos ⟨rfl, hcause⟩]

/-- Where both tables end at the stop, every finding is further down. -/
theorem Paired.eq_shift (h : p.Paired d d')
    (htwin : p.stop' = p.stop.shift p.lines) : d' = d.shift p.lines := by
  cases h with
  | lexeme => rfl
  | behind => rfl
  | stop hcause hcause' hsame =>
    rw [hsame.resolve_right (not_goesOn htwin), htwin]
    rfl

theorem forall₂_eq_shift {found found' : List Diagnostic}
    (h : List.Forall₂ p.Paired found found')
    (htwin : p.stop' = p.stop.shift p.lines) :
    found' = found.map (·.shift p.lines) := by
  induction h with
  | nil => rfl
  | cons hd _ ih => rw [hd.eq_shift htwin, ih, List.map_cons]

end Fork

-- ============================================================ two tables

section

variable {tokens rest : List Token} {eof var : Token}

/-- The fork at which one table ends and the other goes on with a block. -/
def Fork.atBlock (rest : List Token) (hopens : Opens 0 tokens eof var)
    (htokens : ∀ t ∈ tokens, t.isEnding = false)
    (heof : eof.isEnding = true) : Fork :=
  ⟨0, tokens, eof, [], var, rest, htokens, heof, .inr hopens⟩

/-- The fork at which two tables end, one of them further down. -/
def Fork.further (n : Int) (htokens : ∀ t ∈ tokens, t.isEnding = false)
    (heof : eof.isEnding = true) : Fork :=
  ⟨n, tokens, eof, [], eof.shift n, [], htokens, heof, .inl rfl⟩

namespace Analysis

variable {n : Int} {c : Analysis}

/-- In front of a block on a line of its own everything is analysed as if
the table ended there. -/
theorem run_of_opens [NestingLimit] (hopens : Opens 0 tokens eof var)
    (hlexed : Lexed (tokens ++ [eof]))
    (hlexed' : Lexed (tokens ++ var :: rest))
    (htokens : ∀ t ∈ tokens, t.isEnding = false) (heof : eof.isEnding = true)
    (hends : ∃ t ∈ rest, t.isEnding = true) :
    ∃ c : Analysis, (ofTable (tokens ++ var :: rest)).run = c.readSection
      ∧ c.cursor.ahead = var :: rest ∧ c.Settled
      ∧ List.Forall₂ (Diagnostic.MovedTo eof.pos var.pos)
          (ofTable (tokens ++ [eof])).run.ownFindings c.ownFindings
      ∧ c.declared = (ofTable (tokens ++ [eof])).run.declared
      ∧ (c.halt? = none
          ↔ (ofTable (tokens ++ [eof])).run.halt? = none) := by
  obtain ⟨t, ht, htend⟩ := hends
  have hstart : (Fork.atBlock rest hopens htokens heof).Follows
      (ofTable (tokens ++ [eof])) (ofTable (tokens ++ [eof]))
      (ofTable (tokens ++ var :: rest)) := by
    refine ⟨⟨⟨tokens, rfl, rfl, ?_⟩, rfl, rfl, rfl⟩, .refl, rfl,
      ⟨fun _ => ⟨rfl, rfl⟩, fun _ => rfl⟩,
      .ofTable hlexed ⟨eof, ?_, heof⟩, .ofTable hlexed' ⟨t, ?_, htend⟩⟩
    · show _ = tokens.map (·.shift 0) ++ var :: rest
      rw [List.map_id'' Token.shift_zero]
      rfl
    · exact List.mem_append_right _ (List.mem_singleton_self eof)
    · exact List.mem_append_right _ (List.mem_cons_of_mem var ht)
  obtain ⟨c, hc, hread, -, hahead⟩ :=
    (Fork.walk_follows _).readSection hstart
  obtain ⟨⟨new, hown, hpaired⟩, hdeclared⟩ := hc.outcome
  refine ⟨c, hread, hahead, hc.settled', ?_, ?_,
    hc.unhalted.trans (and_iff_right rfl)⟩
  · rw [hown]
    exact hpaired.imp fun d d' hd => hd.movedTo hopens rfl
  · rw [hdeclared]
    exact List.map_id'' Declaration.shift_zero _

/-- From a block on, what follows up to the end of a table is analysed as if
it stood alone, whatever lies in front. -/
theorem run_of_block [NestingLimit] (hvar : var.isKeyword "var" = true)
    (hlexed : Lexed (var :: tokens ++ [eof]))
    (htokens : ∀ t ∈ var :: tokens, t.isEnding = false)
    (heof : eof.isEnding = true) (hc : c.Settled)
    (hahead : c.cursor.ahead
      = (var :: tokens).map (·.shift n) ++ [eof.shift n]) :
    c.readSection.ownFindings = c.ownFindings
        ++ (ofTable (var :: tokens ++ [eof])).run.ownFindings.map (·.shift n)
      ∧ c.readSection.declared = c.declared
        ++ (ofTable (var :: tokens ++ [eof])).run.declared.map (·.shift n)
      ∧ (c.readSection.halt? = none ↔ c.halt? = none
          ∧ (ofTable (var :: tokens ++ [eof])).run.halt? = none) := by
  have hends : ∃ t ∈ var :: tokens ++ [eof], t.isEnding = true :=
    ⟨eof, List.mem_append_right _ (List.mem_singleton_self eof), heof⟩
  have hword : var.isEnding = false := htokens var List.mem_cons_self
  have hfirst : (ofTable (var :: tokens ++ [eof])).cursor.ahead
      = var :: (tokens ++ [eof]) := rfl
  have hpass := passes_next hfirst hword
  have hpass' := passes_next (t := var.shift n) hahead hword
  have hstart : (Fork.further n htokens heof).Follows c
      (ofTable (var :: tokens ++ [eof])).next c.next := by
    refine ⟨⟨⟨tokens, ?_, hpass.ahead_tail hfirst, hpass'.ahead_tail hahead⟩,
      ?_, hpass.overrun, hpass'.overrun.trans hc.inside.overrun⟩, ?_, ?_, ?_,
      (steps_next _).settled (.ofTable hlexed hends),
      (steps_next c).settled hc⟩
    · rw [hpass.behind]
      rfl
    · rw [hpass.behind, hpass'.behind]
      rfl
    · rw [errors_next, errors_next]
      exact .refl
    · rw [declarations_next, declarations_next]
      rfl
    · rw [halt?_next, halt?_next]
      exact (and_iff_left rfl).symm
  obtain ⟨d, hd, hread, -, hstop⟩ :=
    (Fork.walk_follows c).readSection
      ((Fork.walk_follows c).readBlock hstart)
  rw [readSection_of_ending hstop (Token.kind_of_isEnding heof)] at hread
  obtain ⟨⟨new, hown, hpaired⟩, hdeclared⟩ := hd.outcome
  rw [run_ofTable, readSection_of_var hfirst hvar,
    readSection_of_var (t := var.shift n) hahead hvar, hread]
  refine ⟨?_, hdeclared, hd.unhalted⟩
  rw [hown, Fork.forall₂_eq_shift hpaired rfl]
  rfl

end Analysis

end

-- ============================================================== two texts

/-- Behind the lexemes of a text and a line feed a block is on a line of its
own. -/
theorem Scans.opens {text : Text} {tokens : List Token} {q : Position}
    {var : Token} (h : Scans .start text tokens q)
    (hvar : var.isKeyword "var" = true)
    (hplace : q.newLine.le var.pos = true) :
    Opens 0 tokens (.mark q) var := by
  have hends : ∀ t ∈ tokens, t.endPos.le q = true := fun t ht =>
    (List.pairwise_append.1 h.order.1).2.2 t ht (.mark q)
      (List.mem_singleton_self _)
  have hbefore : ∀ t ∈ tokens, t.pos.Before t.endPos := fun t ht =>
    Position.before_right t.pos fun hzero =>
      (h.wellCut t ht).nonempty (List.length_eq_zero_iff.1 hzero)
  refine ⟨hvar, fun t ht => ?_, fun t ht => ?_, fun before t u after hsplit =>
    ?_⟩
  · have hend := hends t ht
    rw [Position.le_iff] at hend hplace
    change t.pos.line < q.line ∨ t.pos.line = q.line ∧ _ at hend
    change q.line + 1 < var.pos.line ∨ q.line + 1 = var.pos.line ∧ _ at hplace
    show t.pos.line + 0 ≠ var.pos.line
    omega
  · exact ((hbefore t ht).trans_le (hends t ht)).ne
  · have horder := h.order.1
    rw [hsplit, List.append_assoc] at horder
    have htu : t.endPos.le u.pos = true :=
      List.rel_of_pairwise_cons (List.pairwise_append.1 horder).2.1
        List.mem_cons_self
    have hu : u ∈ tokens := by
      rw [hsplit]
      exact List.mem_append_right _ (List.mem_cons_of_mem t List.mem_cons_self)
    exact (Position.Before.of_le htu
      ((hbefore u hu).trans_le (hends u hu))).ne

theorem Readable.shift {tokens : List Token} (h : Readable tokens) (n : Int) :
    Readable (tokens.map (·.shift n)) := by
  intro t ht hkind
  obtain ⟨u, hu, rfl⟩ := List.mem_map.1 ht
  exact h u hu hkind

/-- What a check of a joined text gives, in terms of checks of its two parts:
the declarations of both, and the findings of both but for those on names
declared before. Of the first part, findings at the mark of its end are made
at the first word of the second instead. -/
structure Joins (n : Int) (eof place : Position) (a a' b : Analysis) :
    Prop where
  declared : b.declared = a.declared ++ a'.declared.map (·.shift n)
  found : ∃ moved,
    b.ownFindings = moved ++ a'.ownFindings.map (·.shift n)
      ∧ List.Forall₂ (Diagnostic.MovedTo eof place) a.ownFindings moved

/-- The analysis of two texts with a line feed between them, the second of
which begins with the word of a block, in terms of the analyses of both. A
fault is noted in it just when one is noted in one of them. -/
theorem Scans.joins [NestingLimit] {text text' : Text}
    {table table' : List Token} {var : Token} {q r : Position}
    (hscans : Scans .start text table q)
    (hscans' : Scans .start text' (var :: table') r)
    (hreturn : text.getLast? ≠ some (CodePoint.char '\r'))
    (hvar : var.isKeyword "var" = true) :
    let n : Int := Text.breaks (text ++ [lineFeed])
    let joined := table ++ (var :: table').map (·.shift n)
    let a := (Analysis.ofTable (table ++ [.mark q])).run
    let a' := (Analysis.ofTable (var :: table' ++ [.mark r])).run
    let b := (Analysis.ofTable (joined ++ [.mark (r.shift n)])).run
    Scans .start (text ++ lineFeed :: text') joined (r.shift n)
      ∧ Joins n q (var.shift n).pos a a' b
      ∧ (b.halt? = none ↔ a.halt? = none ∧ a'.halt? = none) := by
  intro n joined a a' b
  obtain ⟨hstart, hjoined⟩ := hscans.join hreturn hscans'
  have hplace : q.newLine.le (var.shift n).pos = true := by
    have horder := (hscans'.shift n).order.2 (var.shift n) List.mem_cons_self
    rw [← hstart] at horder
    exact horder
  have hsplit : joined ++ [.mark (r.shift n)] = table ++ var.shift n
      :: (table'.map (·.shift n) ++ [.mark (r.shift n)]) :=
    List.append_assoc ..
  have hlexed := hjoined.lexed
  rw [hsplit] at hlexed
  have hopens : Opens 0 table (.mark q) (var.shift n) :=
    hscans.opens hvar hplace
  obtain ⟨c, hrun, hahead, hsettled, hmoved, hdeclared, hfront⟩ :=
    Analysis.run_of_opens hopens hscans.lexed hlexed
      (fun t ht => (hscans.wellCut t ht).notEnding) rfl
      ⟨.mark (r.shift n), List.mem_append_right _
        (List.mem_singleton_self _), rfl⟩
  change c.cursor.ahead
    = (var :: table').map (·.shift n) ++ [(Token.mark r).shift n] at hahead
  obtain ⟨hown, hdeclared', hunhalted⟩ := Analysis.run_of_block hvar
    hscans'.lexed (fun t ht => (hscans'.wellCut t ht).notEnding) rfl
    hsettled hahead
  have hb : b = c.readSection := by
    rw [← hrun, ← hsplit]
  refine ⟨hjoined, ⟨?_, c.ownFindings, ?_, hmoved⟩, ?_⟩
  · rw [hb, hdeclared', hdeclared]
  · rw [hb, hown]
  · rw [hb, hunhalted, hfront]

/-- A check of a text, a line feed and a text that begins with the word of a
block is a check of the first and a check of the second as many lines
further down, if both have a report. Otherwise there is no report on the
joined text either: arrays are nested too deep in it. -/
theorem check_join [NestingLimit] {text text' : Text}
    {table table' : List Token} {eof var : Token}
    (htable : tokenize text = .ok (table ++ [eof]))
    (htable' : tokenize text' = .ok (var :: table'))
    (hreturn : text.getLast? ≠ some (CodePoint.char '\r'))
    (hvar : var.isKeyword "var" = true) (hshort : Readable table)
    (hshort' : Readable table') :
    let n : Int := Text.breaks (text ++ [lineFeed])
    let a := (Analysis.ofTable (table ++ [eof])).run
    let a' := (Analysis.ofTable (var :: table')).run
    ∃ joined, tokenize (text ++ lineFeed :: text') = .ok joined
      ∧ (∀ report report', check text = .ok report →
        check text' = .ok report' →
          let b := (Analysis.ofTable joined).run
          report = .ofFindings a.findings a.symbols a.declared
            ∧ report' = .ofFindings a'.findings a'.symbols a'.declared
            ∧ check (text ++ lineFeed :: text')
              = .ok (.ofFindings b.findings b.symbols b.declared)
            ∧ Joins n eof.pos (var.shift n).pos a a' b)
      ∧ ∀ fault, check text = .error fault ∨ check text' = .error fault →
        fault = .nestedTooDeep
          ∧ check (text ++ lineFeed :: text') = .error .nestedTooDeep := by
  intro n a a'
  obtain ⟨tokens, q, hscans, heq⟩ := tokenize_eq_ok_iff.1 htable
  obtain ⟨rfl, heof⟩ := List.append_inj' heq rfl
  obtain rfl := List.singleton_inj.1 heof
  obtain ⟨tokens', r, hscans', heq'⟩ := tokenize_eq_ok_iff.1 htable'
  cases hcons : tokens' with
  | nil =>
    rw [hcons] at heq'
    rw [(List.cons.inj heq').1] at hvar
    cases hvar
  | cons var' more =>
    rw [hcons] at heq' hscans'
    obtain ⟨rfl, rfl⟩ := List.cons.inj heq'
    obtain ⟨hjoined, hjoins, hunhalted⟩ := hscans.joins hscans' hreturn hvar
    refine ⟨_, tokenize_eq_ok_iff.2 ⟨_, _, hjoined, rfl⟩,
      fun report report' hreport hreport' => ?_, fun fault hfault => ?_⟩
    · exact ⟨report_of_scans hscans hreport,
        report_of_scans hscans' hreport',
        check_of_unhalted hjoined (hunhalted.2
          ⟨unhalted_of_check hscans hreport,
            unhalted_of_check hscans' hreport'⟩), hjoins⟩
    · have hwords : Readable (var :: more) :=
        Readable.append
          (readable_singleton (by rw [Token.kind_of_isKeyword hvar]; decide))
          fun t ht => hshort' t (List.mem_append_left _ ht)
      have hfault' := nestedTooDeep_of_halted hjoined
        ((hshort.append (hwords.shift n)).append
          (readable_mark (r.shift n)))
      rcases hfault with hfault | hfault
      · exact ⟨(fault_of_check htable (hshort.append (readable_mark q))
          hfault).1, hfault' fun hnone =>
            halted_of_check hscans hfault (hunhalted.1 hnone).1⟩
      · exact ⟨(fault_of_check htable' (hwords.append (readable_mark r))
          hfault).1, hfault' fun hnone =>
            halted_of_check hscans' hfault (hunhalted.1 hnone).2⟩

open scoped UsualNesting

/-- A text that breaks off where a type should stand, and a text with a
fault of its own: the first finding is made at the word of the second text,
and the second finding two lines further down. -/
theorem check_join_brokenOff :
    let text : Text := "var a, b:\n "
    let text' : Text := "var\nA: string[0];"
    let table : List Token :=
      [⟨.keyword, "var", ⟨1, 1⟩⟩, ⟨.identifier, "a", ⟨1, 5⟩⟩,
        ⟨.symbol, ",", ⟨1, 6⟩⟩, ⟨.identifier, "b", ⟨1, 8⟩⟩,
        ⟨.symbol, ":", ⟨1, 9⟩⟩]
    let table' : List Token :=
      [⟨.identifier, "A", ⟨2, 1⟩⟩, ⟨.symbol, ":", ⟨2, 2⟩⟩,
        ⟨.keyword, "string", ⟨2, 4⟩⟩, ⟨.symbol, "[", ⟨2, 10⟩⟩,
        ⟨.number, "0", ⟨2, 11⟩⟩, ⟨.symbol, "]", ⟨2, 12⟩⟩,
        ⟨.symbol, ";", ⟨2, 13⟩⟩, .mark ⟨2, 14⟩]
    tokenize text = .ok (table ++ [.mark ⟨2, 2⟩])
      ∧ tokenize text' = .ok (⟨.keyword, "var", ⟨1, 1⟩⟩ :: table')
      ∧ (Analysis.ofTable (table ++ [.mark ⟨2, 2⟩])).run.ownFindings
          = [⟨.syntactic, ⟨2, 2⟩, .typeExpected⟩]
      ∧ ∃ joined, tokenize (text ++ lineFeed :: text') = .ok joined
        ∧ Joins 2 ⟨2, 2⟩ ⟨3, 1⟩
            (Analysis.ofTable (table ++ [.mark ⟨2, 2⟩])).run
            (Analysis.ofTable (⟨.keyword, "var", ⟨1, 1⟩⟩ :: table')).run
            (Analysis.ofTable joined).run := by
  intro text text' table table'
  have htable : tokenize text = .ok (table ++ [.mark ⟨2, 2⟩]) := by
    decide +kernel
  have htable' : tokenize text'
      = .ok (⟨.keyword, "var", ⟨1, 1⟩⟩ :: table') := by
    decide +kernel
  have hreadable : Readable (table ++ [.mark ⟨2, 2⟩]) := by
    unfold Readable
    decide +kernel
  have hreadable' : Readable (⟨.keyword, "var", ⟨1, 1⟩⟩ :: table') := by
    unfold Readable
    decide +kernel
  obtain ⟨joined, hjoined, hreports, -⟩ :=
    check_join htable htable' (by decide +kernel) rfl
      (fun t ht => hreadable t (List.mem_append_left _ ht))
      fun t ht => hreadable' t (List.mem_cons_of_mem _ ht)
  obtain ⟨-, -, -, hjoins⟩ := hreports _ _
    (check_of_readable htable hreadable (by decide +kernel))
    (check_of_readable htable' hreadable' (by decide +kernel))
  exact ⟨htable, htable', by decide +kernel, joined, hjoined, hjoins⟩

/-- Behind arrays that are nested too deep nothing is found: a text with a
report of its own has none when it follows them. -/
theorem join_without_report :
    let text' : Text := "var b: foo;"
    let table' : List Token :=
      [⟨.identifier, "b", ⟨1, 5⟩⟩, ⟨.symbol, ":", ⟨1, 6⟩⟩,
        ⟨.identifier, "foo", ⟨1, 8⟩⟩, ⟨.symbol, ";", ⟨1, 11⟩⟩,
        .mark ⟨1, 12⟩]
    (∃ table eof, tokenize (nestedText 600) = .ok (table ++ [eof])
        ∧ Readable table)
      ∧ (nestedText 600).getLast? ≠ some (CodePoint.char '\r')
      ∧ tokenize text' = .ok (⟨.keyword, "var", ⟨1, 1⟩⟩ :: table')
      ∧ Readable table'
      ∧ (∃ report, check text' = .ok report
        ∧ ⟨.syntactic, ⟨1, 8⟩, .invalidType "foo"⟩ ∈ report.errors)
      ∧ ∀ report, check (nestedText 600 ++ lineFeed :: text')
          ≠ .ok report := by
  intro text' table'
  obtain ⟨s, last, htable, hreadable, -⟩ := exists_tree_of_nestedText 600
  have htable' : tokenize text'
      = .ok (⟨.keyword, "var", ⟨1, 1⟩⟩ :: table') := by
    decide +kernel
  have hreadable' : Readable (⟨.keyword, "var", ⟨1, 1⟩⟩ :: table') := by
    unfold Readable
    decide +kernel
  have hshort : Readable table' := fun t ht =>
    hreadable' t (List.mem_cons_of_mem _ ht)
  have hreturn : (nestedText 600).getLast? ≠ some (CodePoint.char '\r') := by
    unfold nestedText
    rw [← List.append_assoc, List.getLast?_append]
    decide
  refine ⟨⟨s.tokens, last, htable, hreadable⟩, hreturn, htable', hshort,
    ⟨_, check_of_readable htable' hreadable' (by decide +kernel),
      by decide +kernel⟩, fun report hreport => ?_⟩
  obtain ⟨tokens, q, hscans, -⟩ := tokenize_eq_ok_iff.1 htable
  obtain ⟨tokens', r, hscans', heq⟩ := tokenize_eq_ok_iff.1 htable'
  cases htokens : tokens' with
  | nil =>
    rw [htokens] at heq
    cases heq
  | cons var more =>
    rw [htokens] at heq hscans'
    obtain ⟨rfl, -⟩ := List.cons.inj heq
    obtain ⟨hjoined, -, hunhalted⟩ := hscans.joins hscans' hreturn rfl
    exact halted_of_check hscans (check_nestedText (by decide))
      (hunhalted.1 (unhalted_of_check hjoined hreport)).1

end VarSection
