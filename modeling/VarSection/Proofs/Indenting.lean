/-
A check does not see how lines are indented or how far apart they stand. At
the beginning of a line blanks, whole lines and comments can be put in front
of what stands there: lexemes in front of the place are on lines further up
and stay, those on its line move down and out, those behind it only down. So
the table is the old one laid out anew (`Piece.Fitting.table_inserted`), in a
layout that keeps the order of lines, and the report is the old one laid out
anew as well: findings are arranged by their places, and places keep their
order (`Position.le_relaid`).
-/
import VarSection.Proofs.Analysis.OfText
import VarSection.Proofs.Analysis.Relaying
import VarSection.Proofs.Scanner.Separating

namespace VarSection

-- ================================================== reports laid out anew

/-- Whether a layout keeps the order of lines. -/
def Relayout.Ascending (r : Relayout) : Prop :=
  ∀ l m : Int, l < m → r.line l < r.line m

theorem Position.le_relaid {r : Relayout} (hr : r.Ascending)
    (p q : Position) : (p.relaid r).le (q.relaid r) = p.le q := by
  have hline : r.line p.line < r.line q.line ↔ p.line < q.line := by
    refine ⟨fun hlt => ?_, hr p.line q.line⟩
    rcases Int.lt_trichotomy p.line q.line with h | h | h
    · exact h
    · rw [h] at hlt
      omega
    · have := hr q.line p.line h
      omega
  have hsame : r.line p.line = r.line q.line ↔ p.line = q.line :=
    ⟨r.injective, congrArg r.line⟩
  rw [Bool.eq_iff_iff, le_iff, le_iff]
  show r.line p.line < r.line q.line ∨ r.line p.line = r.line q.line
    ∧ p.col + r.indent p.line ≤ q.col + r.indent q.line ↔ _
  rw [hline, hsame]
  -- on one line both columns move by the same
  refine or_congr_right (and_congr_right fun heq => ?_)
  rw [heq]
  omega

namespace Report

/-- A report of which all places move with their lines. -/
def relaid (r : Relayout) (report : Report) : Report :=
  ⟨report.errors.map (Diagnostic.relaid r), report.symbols.relaid r,
    report.declarations.map (Declaration.relaid r)⟩

theorem arrange_relaid {r : Relayout} (hr : r.Ascending)
    (errors : List Diagnostic) :
    arrange (errors.map (Diagnostic.relaid r))
      = (arrange errors).map (Diagnostic.relaid r) := by
  unfold arrange
  rw [List.map_mergeSort]
  exact fun d _ e _ => (Position.le_relaid hr d.pos e.pos).symm

end Report

/-- The outcome of an analysis laid out anew: the same fault, or the report
laid out anew. -/
theorem Analysis.report?_relaid {r : Relayout} (hr : r.Ascending)
    (a : Analysis) :
    (a.relaid r).report? = a.report?.map (Report.relaid r) := by
  have hfindings : (a.relaid r).findings
      = a.findings.map (Diagnostic.relaid r) := List.map_reverse.symm
  have hdeclared : (a.relaid r).declared
      = a.declared.map (Declaration.relaid r) := List.map_reverse.symm
  have hhalt : (a.relaid r).halt? = a.halt?.map (Halt.relaid r) := rfl
  unfold report?
  rw [hfindings, hdeclared, hhalt]
  cases a.halt? with
  | some note => rfl
  | none =>
    show Except.ok (Report.ofFindings _ _ _) = Except.ok _
    unfold Report.ofFindings
    rw [Report.arrange_relaid hr]
    rfl

-- ==================================================== at a line's beginning

/-- The layout where something is put in front of a line: the line and all
behind it stand `down` lines further down, and the line itself stands `out`
columns further out. -/
def Relayout.opening (line : Int) (down out : Nat) : Relayout where
  line l := if l < line then l else l + down
  indent l := if l = line then out else 0
  injective := by
    intro l m h
    split at h <;> split at h <;> omega

theorem Relayout.ascending_opening (line : Int) (down out : Nat) :
    (opening line down out).Ascending := by
  intro l m h
  show (if l < line then l else l + down) < if m < line then m else m + down
  split <;> split <;> omega

section Opening

variable {line : Int} {down out : Nat} {p : Position}

/-- What stands further up stays. -/
theorem Position.relaid_opening_of_lt (h : p.line < line) :
    p.relaid (.opening line down out) = p := by
  show Position.mk (if p.line < line then p.line else p.line + down)
    (p.col + if p.line = line then (out : Int) else 0) = p
  rw [if_pos h, if_neg (by omega), Int.add_zero]

/-- What stands behind the place moves like a text that is put behind a
longer one. -/
theorem Position.relaid_opening_displace (hp : 1 ≤ p.line) :
    (p.displace ⟨line, 1⟩).relaid (.opening line down out)
      = p.displace ⟨line + down, 1 + out⟩ := by
  unfold displace
  show Position.mk (if p.line + (line - 1) < line then p.line + (line - 1)
      else p.line + (line - 1) + down)
    ((if p.line = 1 then p.col + (1 - 1) else p.col)
      + if p.line + (line - 1) = line then (out : Int) else 0)
    = ⟨p.line + (line + down - 1),
      if p.line = 1 then p.col + (1 + out - 1) else p.col⟩
  rw [if_neg (by omega), mk.injEq]
  refine ⟨by omega, ?_⟩
  by_cases hfirst : p.line = 1
  · rw [if_pos hfirst, if_pos (by omega), if_pos hfirst]
    omega
  · rw [if_neg hfirst, if_neg (by omega), if_neg hfirst]
    omega

end Opening

namespace Text

variable {v w : Text}

/-- A text that ends a line, but begins on one, has a line break. -/
theorem breaks_ne_zero_of_lastLine (h : (v ++ w).lastLine = [])
    (hne : w ≠ []) : w.breaks ≠ 0 := by
  apply breaks_ne_zero
  by_contra hnone
  have hone : ∀ c ∈ w, isLineBreak c = false := fun c hc =>
    Bool.eq_false_iff.2 fun hbreak => hnone ⟨c, hc, hbreak⟩
  rw [lastLine_append_of_oneLine hone, List.append_eq_nil_iff] at h
  exact hne h.2

end Text

/-- Behind a text that ends a line the line and the column are told by what
follows alone. -/
theorem Position.reference_append_of_lastLine {v w : Text}
    (hline : v.lastLine = []) (hw : v.BreaksApart w) :
    reference (v ++ w)
      = ⟨(reference v).line + w.breaks, 1 + w.lastLine.length⟩ := by
  have hcol : (reference v).col = 1 := by
    unfold reference
    rw [hline]
    rfl
  rw [reference_append hw]
  unfold displace
  rw [hcol, mk.injEq]
  constructor
  · show 1 + (w.breaks : Int) + ((reference v).line - 1) = _
    omega
  · show (if _ then (reference w).col + (1 - 1) else (reference w).col) = _
    rw [Int.sub_self, Int.add_zero, ite_self]
    rfl

/-- The layout of a text of which the part `v` ends a line, where `w` is put
in behind that part. -/
def Relayout.inserting (v w : Text) : Relayout :=
  .opening (Position.reference v).line w.breaks w.lastLine.length

/-- What follows the part is moved as far as what is put in reaches. -/
theorem Position.relaid_inserting {v w : Text} (hline : v.lastLine = [])
    (hw : v.BreaksApart w) {p : Position} (hp : 1 ≤ p.line) :
    (p.displace (reference v)).relaid (.inserting v w)
      = p.displace (reference (v ++ w)) := by
  have hplace : reference v = ⟨(reference v).line, 1⟩ := by
    rw [mk.injEq]
    refine ⟨rfl, ?_⟩
    unfold reference
    rw [hline]
    rfl
  rw [reference_append_of_lastLine hline hw, hplace]
  exact relaid_opening_displace hp

namespace Piece

/-- The places of lexemes are counted from line one. -/
theorem one_le_line_of_mem_tokens {before : Text} {pieces : List Piece} :
    ∀ t ∈ tokens before pieces, 1 ≤ t.pos.line := by
  induction pieces generalizing before with
  | nil => exact fun t ht => absurd ht List.not_mem_nil
  | cons piece pieces ih =>
    cases piece with
    | blank c => exact ih
    | comment style w => exact ih
    | lexeme kind w =>
      intro t ht
      rcases List.mem_cons.1 ht with rfl | ht
      · show (1 : Int) ≤ 1 + (before.breaks : Int)
        omega
      · exact ih t ht

/-- The lexemes of pieces that end a line stand on lines further up than
what follows. -/
theorem Fitting.line_lt {before : Text} {front behind : List Piece}
    (h : Fitting (front ++ behind))
    (hline : (before ++ join front).lastLine = []) :
    ∀ t ∈ tokens before front,
      t.pos.line < (Position.reference (before ++ join front)).line := by
  induction front generalizing before with
  | nil => exact fun t ht => absurd ht List.not_mem_nil
  | cons piece front ih =>
    have htext : before ++ join (piece :: front)
        = before ++ piece.text ++ join front := by
      rw [List.append_assoc]
      rfl
    have hrest := @ih (before ++ piece.text) h.2
      (by rw [← htext]; exact hline)
    rw [← htext] at hrest
    cases piece with
    | blank c => exact hrest
    | comment style w => exact hrest
    | lexeme kind w =>
      intro t ht
      rcases List.mem_cons.1 ht with rfl | ht
      · obtain ⟨-, hleads⟩ : _
            ∧ kind.Leads w (w ++ join (front ++ behind)) := by
          cases h.1 with
          | lexeme hopening hleads => exact ⟨hopening, hleads⟩
        obtain ⟨c, more, rfl, hblank⟩ := hleads.writes.exists_cons
        have happart : before.BreaksApart (join (.lexeme kind (c :: more)
            :: front)) := by
          rintro ⟨-, hhead⟩
          rw [Option.some.inj hhead] at hblank
          exact absurd hblank (by decide)
        have hbreaks := Text.breaks_ne_zero_of_lastLine hline
          (List.cons_ne_nil c (more ++ join front))
        have hcount := Text.breaks_append_of_apart happart
        have hlt : before.breaks
            < (before ++ join (.lexeme kind (c :: more) :: front)).breaks :=
          Nat.lt_of_lt_of_eq (Nat.lt_add_of_pos_right
            (Nat.pos_of_ne_zero hbreaks)) hcount.symm
        show 1 + (before.breaks : Int)
          < 1 + ((before ++ join (.lexeme kind (c :: more) :: front)).breaks
            : Int)
        omega
      · exact hrest t ht

section Inserted

variable {front behind : List Piece} {w : Text}

/-- What stands in front of the place is not moved. -/
theorem Fitting.relaid_front (h : Fitting (front ++ behind))
    (hline : (join front).lastLine = []) (w : Text) :
    (tokens [] front).map (Token.relaid (.inserting (join front) w))
      = tokens [] front := by
  refine (List.map_congr_left fun t ht => ?_).trans (List.map_id _)
  have hlt : t.pos.line < (Position.reference (join front)).line :=
    h.line_lt hline t ht
  show Token.mk t.kind t.text (t.pos.relaid _) = t
  rw [Relayout.inserting, Position.relaid_opening_of_lt hlt]

/-- What stands behind the place is moved by what is put in. -/
theorem relaid_behind (hline : (join front).lastLine = [])
    (hw : (join front).BreaksApart w)
    (happart : (join front).BreaksApart (join behind))
    (hbehind : (join front ++ w).BreaksApart (join behind)) :
    (tokens (join front) behind).map
        (Token.relaid (.inserting (join front) w))
      = tokens (join front ++ w) behind := by
  have hold : tokens (join front ++ []) behind
      = (tokens [] behind).map (·.displace (.reference (join front))) :=
    tokens_behind happart
  have hnew : tokens (join front ++ w ++ []) behind
      = (tokens [] behind).map (·.displace (.reference (join front ++ w))) :=
    tokens_behind hbehind
  rw [List.append_nil] at hold hnew
  rw [hold, hnew, List.map_map]
  refine List.map_congr_left fun t ht => ?_
  show Token.mk t.kind t.text ((t.pos.displace _).relaid _) = _
  rw [Position.relaid_inserting hline hw (one_le_line_of_mem_tokens t ht)]
  rfl

/-- Where something that separates lexemes is put in front of a line, the
table is laid out anew. -/
theorem Fitting.table_inserted (h : Fitting (front ++ behind)) (hgap : Gap w)
    (hne : w ≠ []) (hline : (join front).lastLine = [])
    (hw : (join front).BreaksApart w)
    (happart : (join front).BreaksApart (join behind))
    (hbehind : (join front ++ w).BreaksApart (join behind)) :
    ∃ all, join all = join front ++ (w ++ join behind) ∧ Fitting all
      ∧ table all = (table (front ++ behind)).map
        (Token.relaid (.inserting (join front) w)) := by
  obtain ⟨all, hjoin, hall, htokens⟩ :=
    h.separated hgap hne h.right_of_append
  have hend : (Position.reference (join (front ++ behind))).relaid
      (.inserting (join front) w) = .reference (join all) := by
    rw [join_append, hjoin, ← List.append_assoc,
      Position.reference_append happart, Position.reference_append hbehind]
    apply Position.relaid_inserting hline hw
    show (1 : Int) ≤ 1 + ((join behind).breaks : Int)
    omega
  refine ⟨all, hjoin, hall, ?_⟩
  unfold table
  rw [htokens, tokens_append, List.nil_append, List.map_append,
    List.map_append, h.relaid_front hline, relaid_behind hline hw happart
      hbehind, ← hend]
  rfl

end Inserted

end Piece

-- ============================================================= whole texts

/-- A text with something in front of one of its lines is checked like the
text. -/
theorem Piece.Fitting.check_inserted [NestingLimit]
    {front behind : List Piece} {w : Text} (h : Fitting (front ++ behind))
    (hgap : Gap w) (hne : w ≠ []) (hline : (join front).lastLine = [])
    (hw : (join front).BreaksApart w)
    (happart : (join front).BreaksApart (join behind))
    (hbehind : (join front ++ w).BreaksApart (join behind)) :
    check (join front ++ (w ++ join behind))
      = (check (join (front ++ behind))).map
        (Report.relaid (.inserting (join front) w)) := by
  obtain ⟨all, hjoin, hall, htable⟩ :=
    h.table_inserted hgap hne hline hw happart hbehind
  have hold : check (join (front ++ behind))
      = (Analysis.ofTable (table (front ++ behind))).run.report? :=
    check_of_scans (h.scans [])
  have hnew : check (join all) = (Analysis.ofTable (table all)).run.report? :=
    check_of_scans (hall.scans [])
  have hends : ∃ t ∈ table (front ++ behind), t.isEnding = true :=
    Token.mark_ends _ _
  have hascending : (Relayout.inserting (join front) w).Ascending :=
    Relayout.ascending_opening _ _ _
  rw [← hjoin, hnew, htable, hold, Analysis.run_relaid hends,
    Analysis.report?_relaid hascending]

/-- What an analysis does depends on the layout of its table only as far as
the lines are told apart and the columns within a line. Where the lines are
put elsewhere, different lines to different places, and each is moved by a
number of columns of its own, an analysis makes the same findings in the same
order, enters the same declarations and symbols, and comes to the same fault,
all at the places that theirs have moved to. So whatever separates lexemes,
blanks and empty lines above all, can be put in front of any line of a text,
or taken away there, and the report only moves. -/
theorem layout_equivariant [NestingLimit] :
    (∀ (r : Relayout) {table : List Token},
        (∃ t ∈ table, t.isEnding = true) →
        let run := (Analysis.ofTable table).run
        let moved := (Analysis.ofTable (table.map (Token.relaid r))).run
        moved.findings = run.findings.map (Diagnostic.relaid r)
          ∧ moved.declared = run.declared.map (Declaration.relaid r)
          ∧ moved.symbols = run.symbols.relaid r
          ∧ moved.symbols.toList = run.symbols.toList.map (Symbol.relaid r)
          ∧ moved.halt? = run.halt?.map (Halt.relaid r)
          ∧ moved.isClean = run.isClean ∧ moved.recovering = run.recovering
          ∧ moved.cursor = run.cursor.map (Token.relaid r))
      ∧ ∀ {front behind : List Piece} {w : Text},
        Piece.Fitting (front ++ behind) → Gap w → w ≠ [] →
        (Piece.join front).lastLine = [] →
        (Piece.join front).BreaksApart w →
        (Piece.join front).BreaksApart (Piece.join behind) →
        (Piece.join front ++ w).BreaksApart (Piece.join behind) →
        check (Piece.join front ++ (w ++ Piece.join behind))
          = (check (Piece.join (front ++ behind))).map
            (Report.relaid (.inserting (Piece.join front) w)) := by
  constructor
  · intro r table hends run moved
    have hrun : moved = run.relaid r := Analysis.run_relaid hends
    have hclean : (run.errors.map (Diagnostic.relaid r)).isEmpty
        = run.errors.isEmpty := List.isEmpty_map
    rw [hrun]
    exact ⟨List.map_reverse.symm, List.map_reverse.symm, rfl,
      run.symbols.toList_relaid, rfl, hclean, rfl, rfl⟩
  · intro front behind w h hgap hne hline hw happart hbehind
    exact h.check_inserted hgap hne hline hw happart hbehind

open scoped UsualNesting

/-- Two declarations of one name without a colon, with their lines turned
around and moved apart, and the same declarations in a text, indented and
with an empty line in front of them. What is cited in the redeclaration moves
as well. -/
theorem layout_equivariant_turned :
    let r : Relayout := ⟨fun l => -l, fun l => 3 * l, fun h => by omega⟩
    let table : List Token :=
      [⟨.keyword, "var", ⟨1, 1⟩⟩, ⟨.identifier, "a", ⟨2, 1⟩⟩,
        ⟨.keyword, "real", ⟨2, 3⟩⟩, ⟨.symbol, ";", ⟨2, 7⟩⟩,
        ⟨.identifier, "A", ⟨2, 8⟩⟩, ⟨.symbol, ":", ⟨2, 9⟩⟩,
        ⟨.keyword, "real", ⟨2, 10⟩⟩, ⟨.symbol, ";", ⟨2, 14⟩⟩,
        .mark ⟨2, 15⟩]
    (Analysis.ofTable (table.map (Token.relaid r))).run.findings
        = [⟨.syntactic, ⟨-2, 8⟩, .colonExpected⟩,
          ⟨.syntactic, ⟨-2, 14⟩, .redeclared "A" ⟨-2, 7⟩⟩]
      ∧ ∃ report, check "var\n\n  a real;A:real;" = .ok report
        ∧ ⟨.syntactic, ⟨3, 4⟩, .colonExpected⟩ ∈ report.errors
        ∧ ⟨.syntactic, ⟨3, 10⟩, .redeclared "A" ⟨3, 3⟩⟩ ∈ report.errors := by
  intro r table
  have hends : ∃ t ∈ table, t.isEnding = true :=
    ⟨.mark ⟨2, 15⟩, by decide, rfl⟩
  have hfound := (layout_equivariant.1 r hends).1
  let front : List Piece := [.lexeme .keyword "var", .blank '\n']
  let behind : List Piece :=
    [.lexeme .identifier "a", .blank ' ', .lexeme .keyword "real",
      .lexeme .symbol ";", .lexeme .identifier "A", .lexeme .symbol ":",
      .lexeme .keyword "real", .lexeme .symbol ";"]
  have hfitting : Piece.Fitting (front ++ behind) := by
    refine ⟨?_, .blank (by decide) _, ?_, .blank (by decide) _, ?_, ?_, ?_, ?_,
      ?_, ?_, trivial⟩ <;> exact Piece.fits_lexeme_iff.2 (by decide +kernel)
  have hgap : Gap "\n  " :=
    .blank (by decide) (.blank (by decide) (.blank (by decide) .nil))
  have hcheck := layout_equivariant.2 hfitting hgap (by decide) (by decide)
    (fun h => absurd h.1 (by decide)) (fun h => absurd h.1 (by decide))
    (fun h => absurd h.1 (by decide))
  have htable : tokenize (Piece.join (front ++ behind)) = .ok table := by
    decide +kernel
  have hreadable : Readable table := by
    unfold Readable
    decide +kernel
  rw [check_of_readable htable hreadable (by decide +kernel)] at hcheck
  refine ⟨hfound.trans (by decide +kernel), _, hcheck, ?_, ?_⟩
  · refine List.mem_map.2 ⟨⟨.syntactic, ⟨2, 2⟩, .colonExpected⟩,
      Report.mem_errors_ofFindings.2 (by decide +kernel), by decide +kernel⟩
  · refine List.mem_map.2 ⟨⟨.syntactic, ⟨2, 8⟩, .redeclared "A" ⟨2, 1⟩⟩,
      Report.mem_errors_ofFindings.2 (by decide +kernel), by decide +kernel⟩

end VarSection
