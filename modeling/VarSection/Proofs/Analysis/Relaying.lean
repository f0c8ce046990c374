/-
Analysis of a table that is laid out anew. Every line is put somewhere else
and moved to the right or to the left, different lines stay different
(`Relayout`), and the lexemes move with their lines. An analysis asks of
places only whether two lie on one line, whether two are the same, and
whether one is right behind a lexeme, and none of these answers changes
(`Position.relaid_inj`, `Token.endPos_relaid`). So every operation does on
the state laid out anew what it does on the state itself
(`Analysis.next_relaid` and its companions), and each reader follows from
those of the operations it is made of.

Unlike the case of letters, a place is not kept where there is none: in front
of an empty table an analysis makes up the mark of an end. So the equations
are those of an analysis inside its table (`Analysis.Inside`), which it never
leaves.
-/
import VarSection.Proofs.Analysis.Step
import VarSection.Proofs.Scanner.Folding

namespace VarSection

-- ============================================================ lines anew

/-- Where each line is put, and how far it is moved to the right. Different
lines are put in different places. -/
structure Relayout where
  line : Int → Int
  indent : Int → Int
  injective : ∀ {l m : Int}, line l = line m → l = m

/-- A place that moves with its line. -/
def Position.relaid (r : Relayout) (p : Position) : Position :=
  ⟨r.line p.line, p.col + r.indent p.line⟩

/-- A lexeme that moves with its line. -/
def Token.relaid (r : Relayout) (t : Token) : Token :=
  { t with pos := t.pos.relaid r }

/-- A declared name that moves with its line. -/
def Identifier.relaid (r : Relayout) (n : Identifier) : Identifier :=
  { n with pos := n.pos.relaid r }

/-- A declaration whose names move with their lines. -/
def Declaration.relaid (r : Relayout) (d : Declaration) : Declaration :=
  ⟨d.names.map (Identifier.relaid r), d.type, d.pos.relaid r⟩

/-- A symbol that moves with its line. -/
def Symbol.relaid (r : Relayout) (s : Symbol Position) : Symbol Position :=
  { s with place := s.place.relaid r }

/-- A cause, where the place that it refers to moves with its line. -/
def Cause.relaid (r : Relayout) : Cause → Cause
  | .redeclared name first => .redeclared name (first.relaid r)
  | cause => cause

/-- A finding that moves with its line, and so does what it refers to. -/
def Diagnostic.relaid (r : Relayout) (d : Diagnostic) : Diagnostic :=
  ⟨d.severity, d.pos.relaid r, d.cause.relaid r⟩

/-- A table of symbols that move with their lines, under the same keys. -/
def SymbolTable.relaid (r : Relayout) (t : SymbolTable Position) :
    SymbolTable Position :=
  ⟨t.entries.map fun entry => (entry.1, entry.2.relaid r)⟩

/-- The note of a fault, where what was recorded moves with its lines. -/
def Halt.relaid (r : Relayout) (h : Halt) : Halt :=
  ⟨h.fault, h.symbols.relaid r, h.declarations.map (Declaration.relaid r)⟩

variable {r : Relayout}

/-- Two places are one place just when they are one in the new layout. -/
theorem Position.relaid_inj {p q : Position} :
    p.relaid r = q.relaid r ↔ p = q := by
  constructor
  · intro h
    obtain ⟨line, col⟩ := p
    obtain ⟨line', col'⟩ := q
    obtain ⟨hline, hcol⟩ := Position.mk.inj h
    obtain rfl := r.injective hline
    rw [Position.mk.injEq]
    refine ⟨rfl, ?_⟩
    change col + r.indent line = col' + r.indent line at hcol
    omega
  · rintro rfl
    rfl

theorem Position.relaid_beq (p q : Position) :
    (p.relaid r == q.relaid r) = (p == q) := by
  rw [Bool.eq_iff_iff, beq_iff_eq, beq_iff_eq]
  exact relaid_inj

/-- Two lines are one line just when they are put in one place. -/
theorem Relayout.line_beq (l m : Int) : (r.line l == r.line m) = (l == m) := by
  rw [Bool.eq_iff_iff, beq_iff_eq, beq_iff_eq]
  exact ⟨r.injective, congrArg r.line⟩

-- ================================================================== lexemes

namespace Token

theorem pos_relaid (t : Token) : (t.relaid r).pos = t.pos.relaid r := rfl

theorem line_relaid (t : Token) : (t.relaid r).line = r.line t.line := rfl

theorem kind_relaid (t : Token) : (t.relaid r).kind = t.kind := rfl

theorem text_relaid (t : Token) : (t.relaid r).text = t.text := rfl

theorem isSymbol_relaid (t : Token) (symbol : Text) :
    (t.relaid r).isSymbol symbol = t.isSymbol symbol := rfl

theorem isKeyword_relaid (t : Token) (word : Text) :
    (t.relaid r).isKeyword word = t.isKeyword word := rfl

theorem isEnding_relaid (t : Token) : (t.relaid r).isEnding = t.isEnding := rfl

/-- What is right behind a lexeme stays right behind it. -/
theorem endPos_relaid (t : Token) :
    (t.relaid r).endPos = t.endPos.relaid r := by
  show Position.mk _ (t.pos.col + r.indent t.pos.line + t.text.length)
    = Position.mk _ (t.pos.col + t.text.length + r.indent t.pos.line)
  rw [Int.add_right_comm]
  rfl

end Token

-- ====================================================== the table of symbols

namespace SymbolTable

theorem toList_relaid (t : SymbolTable Position) :
    (t.relaid r).toList = t.toList.map (Symbol.relaid r) := by
  unfold toList relaid
  rw [List.map_map, List.map_reverse, List.map_map]
  rfl

theorem get?_relaid (t : SymbolTable Position) (key : Text) :
    (t.relaid r).get? key = (t.get? key).map (Symbol.relaid r) := by
  unfold get? relaid
  rw [List.find?_map, Option.map_map, Option.map_map]
  rfl

/-- A symbol is entered under its name alone. -/
theorem define_relaid (t : SymbolTable Position) (s : Symbol Position) :
    (t.relaid r).define (s.relaid r)
      = ((t.define s).1.map (Symbol.relaid r), (t.define s).2.relaid r) := by
  have hkey : Text.lower (s.relaid r).name = Text.lower s.name := rfl
  unfold define
  simp only [hkey, get?_relaid]
  cases t.get? (Text.lower s.name) <;> rfl

end SymbolTable

-- ================================================================ the state

namespace Analysis

/-- The state of an analysis of which all places move with their lines. -/
def relaid (r : Relayout) (a : Analysis) : Analysis where
  cursor := a.cursor.map (Token.relaid r)
  errors := a.errors.map (Diagnostic.relaid r)
  recovering := a.recovering
  symbols := a.symbols.relaid r
  declarations := a.declarations.map (Declaration.relaid r)
  halt? := a.halt?.map (Halt.relaid r)

variable {a : Analysis} {cause : Cause}

theorem ofTable_relaid (table : List Token) :
    ofTable (table.map (Token.relaid r)) = (ofTable table).relaid r := rfl

theorem recovering_relaid (a : Analysis) :
    (a.relaid r).recovering = a.recovering := rfl

-- what keeps an analysis inside its table

theorem Inside.next [NestingLimit] (ha : a.Inside) : a.next.Inside :=
  (steps_next a).inside ha

theorem Inside.nextBy [NestingLimit] (ha : a.Inside) (n : Nat) :
    (nextBy n a).Inside :=
  (steps_nextBy n a).inside ha

theorem Inside.report (ha : a.Inside) (pos : Position) (cause : Cause) :
    (a.report pos cause).Inside := ha.congr rfl

theorem Inside.recover (ha : a.Inside) : a.recover.Inside := ha.congr rfl

-- ========================================================== looking around

theorem current_relaid (ha : a.Inside) :
    (a.relaid r).current = a.current.relaid r := by
  obtain ⟨rest, hrest⟩ := ha.exists_ahead
  exact current_of_ahead (congrArg (List.map (Token.relaid r)) hrest)

theorem upcoming_relaid (ha : a.Inside) :
    (a.relaid r).upcoming = a.upcoming.map (Token.relaid r) := by
  obtain ⟨rest, hrest⟩ := ha.exists_ahead
  rw [upcoming_of_ahead hrest]
  exact upcoming_of_ahead (congrArg (List.map (Token.relaid r)) hrest)

theorem previous?_relaid (a : Analysis) :
    (a.relaid r).previous? = a.previous?.map (Token.relaid r) := by
  unfold previous?
  show (if a.cursor.overrun = 0 then
    (a.cursor.behind.map (Token.relaid r)).head? else none) = _
  rw [List.head?_map]
  split <;> rfl

theorem atKind_relaid (ha : a.Inside) (kind : Kind) :
    (a.relaid r).atKind kind = a.atKind kind := by
  unfold atKind
  rw [current_relaid ha, Token.kind_relaid]

theorem atSymbol_relaid (ha : a.Inside) (symbol : Text) :
    (a.relaid r).atSymbol symbol = a.atSymbol symbol := by
  unfold atSymbol
  rw [current_relaid ha, Token.isSymbol_relaid]

theorem atKeyword_relaid (ha : a.Inside) (word : Text) :
    (a.relaid r).atKeyword word = a.atKeyword word := by
  unfold atKeyword
  rw [current_relaid ha, Token.isKeyword_relaid]

theorem atInteger_relaid (ha : a.Inside) :
    (a.relaid r).atInteger = a.atInteger := by
  unfold atInteger
  rw [atKind_relaid ha, current_relaid ha, Token.text_relaid]

/-- What is asked of the unread lexeme at the place. -/
theorem any_unread_relaid {p : Token → Bool}
    (hp : ∀ t : Token, p (t.relaid r) = p t) (a : Analysis) :
    (a.relaid r).cursor.ahead.head?.any p = a.cursor.ahead.head?.any p := by
  show (a.cursor.ahead.map (Token.relaid r)).head?.any p = _
  cases a.cursor.ahead with
  | nil => rfl
  | cons t rest => exact hp t

theorem unreadSymbol_relaid (a : Analysis) (symbol : Text) :
    (a.relaid r).unreadSymbol symbol = a.unreadSymbol symbol :=
  any_unread_relaid (fun t => t.isSymbol_relaid symbol) a

theorem unreadKeyword_relaid (a : Analysis) (word : Text) :
    (a.relaid r).unreadKeyword word = a.unreadKeyword word :=
  any_unread_relaid (fun t => t.isKeyword_relaid word) a

theorem unreadName_relaid (a : Analysis) :
    (a.relaid r).unreadName = a.unreadName :=
  any_unread_relaid (fun _ => rfl) a

theorem onLineOfPrevious_relaid (a : Analysis) (t : Token) :
    (a.relaid r).onLineOfPrevious (t.relaid r) = a.onLineOfPrevious t := by
  unfold onLineOfPrevious
  rw [previous?_relaid]
  cases a.previous? with
  | none => rfl
  | some previous => exact Relayout.line_beq previous.line t.line

theorem startsType_relaid (ha : a.Inside) :
    (a.relaid r).startsType = a.startsType := by
  unfold startsType
  rw [atKind_relaid ha, current_relaid ha, Token.text_relaid]

-- ===================================================== moving and recording

theorem next_relaid (ha : a.Inside) :
    (a.relaid r).next = a.next.relaid r := by
  unfold next
  rw [current_relaid ha, Token.isEnding_relaid]
  split
  · rfl
  · unfold relaid
    rw [Cursor.map_advance]

theorem nextBy_relaid [NestingLimit] (ha : a.Inside) (n : Nat) :
    nextBy n (a.relaid r) = (nextBy n a).relaid r := by
  induction n generalizing a with
  | zero => rfl
  | succ n ih => rw [nextBy, next_relaid ha, ih ha.next, nextBy]

theorem report_relaid (a : Analysis) (pos : Position) (cause : Cause) :
    (a.relaid r).report (pos.relaid r) (cause.relaid r)
      = (a.report pos cause).relaid r := rfl

/-- A finding that refers to no other place only moves itself. -/
theorem report_relaid_of_eq (cause : Cause) (h : cause.relaid r = cause)
    (a : Analysis) (pos : Position) :
    (a.relaid r).report (pos.relaid r) cause
      = (a.report pos cause).relaid r := by
  rw [← report_relaid, h]

theorem expect_relaid (cause : Cause) (h : cause.relaid r = cause)
    (a : Analysis) (pos : Position) :
    (a.relaid r).expect (pos.relaid r) cause
      = (a.expect pos cause).relaid r := by
  have hlatest : (a.relaid r).errors.head?.any (·.pos == pos.relaid r)
      = a.errors.head?.any (·.pos == pos) := by
    show (a.errors.map (Diagnostic.relaid r)).head?.any _ = _
    cases a.errors with
    | nil => rfl
    | cons d errors => exact Position.relaid_beq d.pos pos
  unfold expect
  rw [hlatest, report_relaid_of_eq cause h]
  split <;> rfl

theorem recover_relaid (a : Analysis) :
    (a.relaid r).recover = a.recover.relaid r := rfl

theorem halt_relaid (a : Analysis) (fault : Fault) :
    (a.relaid r).halt fault = (a.halt fault).relaid r := by
  obtain ⟨cursor, errors, recovering, symbols, declarations, halt?⟩ := a
  cases halt? <;> rfl

theorem lookBack_relaid (a : Analysis) :
    (a.relaid r).lookBack = a.lookBack.relaid r := by
  unfold lookBack
  rw [halt_relaid]
  show (if a.cursor.overrun = 0 then _ else _) = _
  split <;> rfl

theorem reportAfterPrevious_relaid (ha : a.Inside) (cause : Cause)
    (h : cause.relaid r = cause) :
    (a.relaid r).reportAfterPrevious cause
      = (a.reportAfterPrevious cause).relaid r := by
  unfold reportAfterPrevious
  simp only [lookBack_relaid, ha.lookBack, previous?_relaid, current_relaid ha]
  cases a.previous? with
  | none => exact report_relaid_of_eq cause h a a.current.pos
  | some t =>
    show (a.relaid r).report (t.relaid r).endPos cause = _
    rw [Token.endPos_relaid]
    exact report_relaid_of_eq cause h a t.endPos

theorem readInteger_relaid (a : Analysis) (t : Token) :
    (a.relaid r).readInteger (t.relaid r)
      = ((a.readInteger t).1, (a.readInteger t).2.relaid r) := by
  unfold readInteger
  simp only [Token.text_relaid, halt_relaid]
  split <;> rfl

-- ================================================================ recovery

theorem unknownRun_relaid (line : Int) (unread : List Token) :
    unknownRun (r.line line) (unread.map (Token.relaid r))
      = (unknownRun line unread).map (Token.relaid r) := by
  unfold unknownRun
  rw [List.takeWhile_map]
  congr 2
  funext t
  exact congrArg (t.kind == .unknown && ·) (Relayout.line_beq t.line line)

theorem brokenRun_relaid (line : Int) (unread : List Token) :
    brokenRun (r.line line) (unread.map (Token.relaid r))
      = (brokenRun line unread).map (Token.relaid r) := by
  induction unread with
  | nil => rfl
  | cons t rest ih =>
    have hnext : ((rest.map (Token.relaid r)).headD (t.relaid r))
        = (rest.headD t).relaid r := by
      cases rest <;> rfl
    have hline : ((t.relaid r).line != r.line line) = (t.line != line) :=
      congrArg not (Relayout.line_beq t.line line)
    rw [List.map_cons, brokenRun, brokenRun, hnext, ih, hline]
    show (if t.isEnding || t.isKeyword "var" || t.line != line
      || t.startsDeclaration (rest.headD t) then _ else
        if t.isSymbol ";" then _ else _) = _
    split
    · rfl
    · split <;> rfl

theorem passToken_relaid (ha : a.Inside) (t : Token) :
    (a.relaid r).passToken (t.relaid r) = (a.passToken t).relaid r := by
  unfold passToken
  rw [next_relaid ha, Token.kind_relaid]
  split <;> rfl

theorem Inside.passToken [NestingLimit] (ha : a.Inside) (t : Token) :
    (a.passToken t).Inside := by
  unfold Analysis.passToken
  split
  · exact ha.next.report _ _
  · exact ha.next

theorem pass_relaid [NestingLimit] (ha : a.Inside) (run : List Token) :
    (a.relaid r).pass (run.map (Token.relaid r)) = (a.pass run).relaid r := by
  unfold pass
  induction run generalizing a with
  | nil => rfl
  | cons t run ih =>
    rw [List.map_cons, List.foldl_cons, List.foldl_cons, passToken_relaid ha,
      ih (ha.passToken t)]

theorem reportUnknown_relaid [NestingLimit] (ha : a.Inside) (line : Int) :
    (a.relaid r).reportUnknown (r.line line)
      = Prod.map id (relaid r) (a.reportUnknown line) := by
  unfold reportUnknown
  simp only [upcoming_relaid ha, unknownRun_relaid, pass_relaid ha,
    List.isEmpty_map]
  rfl

theorem Inside.reportUnknown [NestingLimit] (ha : a.Inside) (line : Int) :
    (a.reportUnknown line).2.Inside :=
  (steps_reportUnknown ha line).inside ha

theorem Inside.pass [NestingLimit] (ha : a.Inside) (run : List Token) :
    (a.pass run).Inside := by
  unfold Analysis.pass
  induction run generalizing a with
  | nil => exact ha
  | cons t run ih => exact ih (ha.passToken t)

theorem synchronize_relaid [NestingLimit] (ha : a.Inside) (line : Int) :
    (a.relaid r).synchronize (r.line line) = (a.synchronize line).relaid r := by
  unfold synchronize
  simp only [upcoming_relaid ha, brokenRun_relaid, pass_relaid ha,
    List.getLast?_map]
  cases (brokenRun line a.upcoming).getLast? with
  | none => rfl
  | some t =>
    show (if t.isSymbol ";" then
      (Analysis.reportUnknown (r.line t.line) _).2 else _) = _
    rw [reportUnknown_relaid (ha.pass _)]
    simp only
    split <;> rfl

theorem skipToRangeBoundary_relaid [NestingLimit] (ha : a.Inside) :
    (a.relaid r).skipToRangeBoundary = a.skipToRangeBoundary.relaid r := by
  unfold skipToRangeBoundary
  rw [upcoming_relaid ha, List.takeWhile_map, List.length_map,
    nextBy_relaid ha]
  rfl

-- ==================================================================== names

theorem gluedRun_relaid (last : Token) (unread : List Token) :
    gluedRun (last.relaid r) (unread.map (Token.relaid r))
      = (gluedRun last unread).map (Token.relaid r) := by
  induction unread generalizing last with
  | nil => rfl
  | cons t rest ih =>
    rw [List.map_cons, gluedRun, gluedRun]
    simp only [Token.endPos_relaid, Token.pos_relaid, Position.relaid_inj,
      Token.kind_relaid, ih]
    split <;> rfl

/-- A name is glued together from the same lexemes. -/
theorem readName_relaid [NestingLimit] (ha : a.Inside) :
    (a.relaid r).readName
      = Prod.map (Identifier.relaid r) (relaid r) a.readName := by
  have htexts : ∀ first more,
      ((Token.relaid r first :: List.map (Token.relaid r) more).map (·.text))
        = (first :: more).map (·.text) := by
    intro first more
    rw [← List.map_cons, List.map_map]
    rfl
  unfold readName
  simp only [current_relaid ha, next_relaid ha, upcoming_relaid ha.next,
    gluedRun_relaid, List.length_map, nextBy_relaid ha.next, htexts]
  split <;> rfl

theorem atNameAfter_relaid (ha : a.Inside) (comma : Token) :
    (a.relaid r).atNameAfter (comma.relaid r) = a.atNameAfter comma := by
  unfold atNameAfter
  rw [current_relaid ha, atKeyword_relaid ha, Token.kind_relaid,
    Token.line_relaid, Token.line_relaid, Relayout.line_beq]

theorem abandonNames_relaid (ha : a.Inside) (comma : Token) :
    (a.relaid r).abandonNames (comma.relaid r)
      = (a.abandonNames comma).relaid r := by
  have hreported := (ha.report a.current.pos .nameExpected).recover
  unfold abandonNames
  simp only [current_relaid ha, Token.pos_relaid, Token.kind_relaid,
    Token.text_relaid, Token.line_relaid, Relayout.line_beq,
    report_relaid_of_eq .nameExpected rfl, recover_relaid,
    next_relaid hreported]
  split <;> rfl

theorem Inside.readName [NestingLimit] (ha : a.Inside) :
    a.readName.2.Inside :=
  (steps_readName ha).inside ha

theorem readMoreNames_relaid [NestingLimit] (ha : a.Inside) :
    (a.relaid r).readMoreNames
      = Prod.map (List.map (Identifier.relaid r)) (relaid r)
        a.readMoreNames := by
  have hafter {a : Analysis} (ha : a.Inside) :
      (a.relaid r).next.atNameAfter (a.relaid r).current
        = a.next.atNameAfter a.current := by
    rw [next_relaid ha, current_relaid ha, atNameAfter_relaid ha.next]
  fun_induction readMoreNames a with
  | case1 a hcomma hname name more ih =>
    rw [readMoreNames, dif_pos ((atSymbol_relaid ha ",").trans hcomma),
      dif_pos ((hafter ha).trans hname)]
    simp only [next_relaid ha, readName_relaid ha.next, Prod.map_fst,
      Prod.map_snd]
    rw [ih ha.next.readName]
    rfl
  | case2 a hcomma hname =>
    rw [readMoreNames, dif_pos ((atSymbol_relaid ha ",").trans hcomma),
      dif_neg (by rw [hafter ha]; exact hname), next_relaid ha,
      current_relaid ha, abandonNames_relaid ha.next]
    rfl
  | case3 a hcomma =>
    rw [readMoreNames,
      dif_neg (by rw [atSymbol_relaid ha]; exact hcomma)]
    rfl

theorem readNames_relaid [NestingLimit] (ha : a.Inside) :
    (a.relaid r).readNames
      = Prod.map (List.map (Identifier.relaid r)) (relaid r) a.readNames := by
  unfold readNames
  simp only [readName_relaid ha, Prod.map_fst, Prod.map_snd,
    readMoreNames_relaid ha.readName]
  rfl

-- ==================================================================== types

theorem closeSize_relaid (size : Option Int) (ha : a.Inside) :
    closeSize size (a.relaid r)
      = Prod.map id (relaid r) (closeSize size a) := by
  unfold closeSize
  simp only [atSymbol_relaid ha, next_relaid ha, current_relaid ha]
  split
  · rfl
  · exact Prod.ext rfl (congrArg recover (expect_relaid _ rfl a _))

theorem passOnLine_relaid (ha : a.Inside) :
    (a.relaid r).passOnLine = a.passOnLine.relaid r := by
  unfold passOnLine
  simp only [lookBack_relaid, ha.lookBack, current_relaid ha,
    onLineOfPrevious_relaid, next_relaid ha]
  split <;> rfl

/-- The size of a string. The state at the closing bracket is inside the
table however the size was read. -/
theorem readStringType_relaid [NestingLimit] (ha : a.Inside) :
    (a.relaid r).readStringType
      = Prod.map id (relaid r) a.readStringType := by
  have hnext := ha.next
  have hsize : (a.next.report a.next.current.pos
      .sizeExpected).recover.Inside :=
    (hnext.report ..).recover
  unfold readStringType
  simp only [atSymbol_relaid ha, next_relaid ha, current_relaid hnext,
    atInteger_relaid hnext, next_relaid hnext, readInteger_relaid,
    Token.pos_relaid, Token.isEnding_relaid, Token.isSymbol_relaid,
    report_relaid_of_eq .sizeExpected rfl, recover_relaid,
    passOnLine_relaid hsize]
  split
  · rfl
  · split
    next hsized =>
      have hread : (a.next.next.readInteger a.next.current).2.Inside :=
        hnext.next.congr (cursor_readInteger ..)
      rw [report_relaid_of_eq (.sizeOutOfRange _) rfl,
        ← apply_ite (relaid r)]
      apply closeSize_relaid
      split
      · exact hread
      · exact hread.report _ _
    · -- what is asked next is asked of the state behind the choice
      rw [← apply_ite (relaid r)]
      have hbehind : (if a.next.current.isEnding
            || a.next.current.isSymbol "]" || a.next.current.isSymbol ";"
          then (a.next.report a.next.current.pos .sizeExpected).recover
          else (a.next.report a.next.current.pos
            .sizeExpected).recover.passOnLine).Inside := by
        split
        · exact hsize
        · exact (steps_passOnLine hsize).inside hsize
      rw [atSymbol_relaid hbehind, closeSize_relaid _ hbehind,
        apply_ite (Prod.map id (relaid r))]
      rfl

theorem refuseType_relaid (ha : a.Inside) :
    (a.relaid r).refuseType = Prod.map id (relaid r) a.refuseType := by
  have hcause : (if a.current.kind == .unknown then
        Cause.unknownSymbol a.current.text
      else .invalidType a.current.text).relaid r
      = if a.current.kind == .unknown then
        Cause.unknownSymbol a.current.text
      else .invalidType a.current.text := by
    split <;> rfl
  unfold refuseType
  simp only [current_relaid ha, Token.isEnding_relaid, Token.isSymbol_relaid,
    Token.kind_relaid, Token.text_relaid, Token.pos_relaid,
    report_relaid_of_eq _ hcause, passOnLine_relaid (ha.report _ _),
    expect_relaid .typeExpected rfl]
  rw [← apply_ite (relaid r)]
  rfl

theorem readSimpleType_relaid [NestingLimit] (ha : a.Inside) :
    (a.relaid r).readSimpleType
      = Prod.map id (relaid r) a.readSimpleType := by
  unfold readSimpleType
  simp only [current_relaid ha, Token.text_relaid, atKind_relaid ha,
    atKeyword_relaid ha, next_relaid ha, readStringType_relaid ha.next,
    refuseType_relaid ha]
  split
  · rfl
  · split <;> rfl

theorem readRange_relaid [NestingLimit] (ha : a.Inside) :
    (a.relaid r).readRange = Prod.map id (relaid r) a.readRange := by
  unfold readRange
  simp only [atInteger_relaid ha, current_relaid ha, next_relaid ha,
    atSymbol_relaid ha.next, current_relaid ha.next, next_relaid ha.next,
    atInteger_relaid ha.next.next, current_relaid ha.next.next,
    next_relaid ha.next.next, readInteger_relaid, Token.pos_relaid]
  split
  · rfl
  · split
    · rfl
    · split
      · rfl
      · rw [report_relaid_of_eq (.boundsInverted _ _) rfl,
          ← apply_ite (relaid r)]
        rfl

theorem skipAfterRange_relaid [NestingLimit] (ha : a.Inside) :
    (a.relaid r).skipAfterRange = a.skipAfterRange.relaid r := by
  have hreported : (a.expect a.current.pos
      .commaOrBracketExpected).recover.Inside :=
    ((steps_expect a _).inside ha).recover
  unfold skipAfterRange
  rw [current_relaid ha, Token.pos_relaid, expect_relaid _ rfl, recover_relaid,
    skipToRangeBoundary_relaid hreported]

theorem readRangeOrSkip_relaid [NestingLimit] (ha : a.Inside) :
    (a.relaid r).readRangeOrSkip
      = Prod.map id (relaid r) a.readRangeOrSkip := by
  unfold readRangeOrSkip
  simp only [readRange_relaid ha, Prod.map_fst, Prod.map_snd, id_eq,
    skipToRangeBoundary_relaid ((steps_readRange ha).inside ha)]
  rw [← apply_ite (relaid r)]
  rfl

theorem passBracket_relaid (ha : a.Inside) :
    (a.relaid r).passBracket = a.passBracket.relaid r := by
  unfold passBracket
  rw [atSymbol_relaid ha, next_relaid ha]
  split <;> rfl

/-- Index ranges are read alike. Each branch is taken for the same reason in
both layouts. -/
theorem readRanges_relaid [NestingLimit] (ha : a.Inside) :
    (a.relaid r).readRanges = Prod.map id (relaid r) a.readRanges := by
  have hread {a : Analysis} (ha : a.Inside) :
      (a.relaid r).readRangeOrSkip.1 = a.readRangeOrSkip.1
      ∧ (a.relaid r).readRangeOrSkip.2 = a.readRangeOrSkip.2.relaid r := by
    rw [readRangeOrSkip_relaid ha]
    exact ⟨rfl, rfl⟩
  have hcomma (a : Analysis) (ha : a.Inside) :
      (a.relaid r).readRangeOrSkip.2.unreadSymbol ","
        = a.readRangeOrSkip.2.unreadSymbol "," := by
    rw [(hread ha).2, unreadSymbol_relaid]
  have hlast (a : Analysis) (ha : a.Inside) :
      ((a.relaid r).readRangeOrSkip.2.atSymbol "]"
          || (a.relaid r).readRangeOrSkip.1.isNone)
        = (a.readRangeOrSkip.2.atSymbol "]"
          || a.readRangeOrSkip.1.isNone) := by
    rw [(hread ha).1, (hread ha).2,
      atSymbol_relaid ((steps_readRangeOrSkip ha).inside ha)]
  have hskip (a : Analysis) (ha : a.Inside) :
      (a.relaid r).readRangeOrSkip.2.skipAfterRange
        = a.readRangeOrSkip.2.skipAfterRange.relaid r := by
    rw [(hread ha).2,
      skipAfterRange_relaid ((steps_readRangeOrSkip ha).inside ha)]
  fun_induction readRanges a with
  | case1 a read a' hmore more ih =>
    have ha' : a'.Inside := (steps_readRangeOrSkip ha).inside ha
    rw [readRanges_of_comma ((hcomma a ha).trans hmore), (hread ha).1,
      (hread ha).2, next_relaid ha', ih ha'.next]
    rfl
  | case2 a read a' hmore hend =>
    have ha' : a'.Inside := (steps_readRangeOrSkip ha).inside ha
    rw [readRanges_of_last (by rw [hcomma a ha]; exact hmore)
      ((hlast a ha).trans hend), (hread ha).1, (hread ha).2,
      passBracket_relaid ha']
    rfl
  | case3 a read a' hmore hend a'' hmore' more ih =>
    have ha' : a'.Inside := (steps_readRangeOrSkip ha).inside ha
    have ha'' : a''.Inside := (steps_skipAfterRange a').inside ha'
    rw [readRanges_of_resumed (by rw [hcomma a ha]; exact hmore)
      (by rw [hlast a ha]; exact hend)
      (by rw [hskip a ha, unreadSymbol_relaid]; exact hmore'),
      (hread ha).1, hskip a ha, next_relaid ha'', ih ha''.next]
    rfl
  | case4 a read a' hmore hend a'' hmore' =>
    have ha' : a'.Inside := (steps_readRangeOrSkip ha).inside ha
    have ha'' : a''.Inside := (steps_skipAfterRange a').inside ha'
    rw [readRanges_of_broken (by rw [hcomma a ha]; exact hmore)
      (by rw [hlast a ha]; exact hend)
      (by rw [hskip a ha, unreadSymbol_relaid]; exact hmore'),
      (hread ha).1, hskip a ha, passBracket_relaid ha'']
    rfl

theorem readArrayRanges_relaid [NestingLimit] (ha : a.Inside) :
    (a.relaid r).readArrayRanges
      = Prod.map id (relaid r) a.readArrayRanges := by
  have hnext := ha.next
  have hreported : (a.next.report a.next.current.pos
      .arrayBracketExpected).recover.Inside := (hnext.report ..).recover
  unfold readArrayRanges
  simp only [next_relaid ha, atSymbol_relaid hnext, next_relaid hnext,
    readRanges_relaid hnext.next, current_relaid hnext, Token.pos_relaid,
    report_relaid_of_eq .arrayBracketExpected rfl, recover_relaid,
    atInteger_relaid hreported, readRanges_relaid hreported,
    skipToRangeBoundary_relaid hreported,
    passBracket_relaid ((steps_skipToRangeBoundary _).inside hreported)]
  split
  · rfl
  · rw [apply_ite (Prod.map id (relaid r))]
    rfl

theorem missingOf_relaid (ha : a.Inside) :
    (a.relaid r).missingOf = a.missingOf.relaid r := by
  unfold missingOf
  rw [current_relaid ha, Token.pos_relaid, expect_relaid _ rfl]
  rfl

theorem descend_relaid [NestingLimit] (depth : Nat) :
    (a.relaid r).descend depth = (a.descend depth).relaid r := by
  unfold descend
  split
  · exact halt_relaid a _
  · rfl

/-- Types are read alike. The induction is along both functions that read
them. -/
theorem readType_relaid [NestingLimit] (depth : Nat) (ha : a.Inside) :
    (a.relaid r).readType depth
      = Prod.map id (relaid r) (a.readType depth) := by
  revert ha
  refine readType.induct
    (fun depth a => a.Inside → readType depth (a.relaid r)
      = Prod.map id (relaid r) (readType depth a))
    (fun depth ranges a => a.Inside → readElements depth ranges (a.relaid r)
      = Prod.map id (relaid r) (readElements depth ranges a))
    ?array ?array' ?simple ?of ?missing ?none depth a
  case array =>
    intro depth a harray ranges hnested ih ha
    have harray' := (unreadKeyword_relaid (r := r) a "array").trans harray
    have hentered := ha.descend depth
    rw [readType_of_nested hnested harray,
      readType_of_nested hnested harray', descend_relaid,
      readArrayRanges_relaid hentered]
    simp only [Prod.map_fst, Prod.map_snd, id_eq, current_relaid ha]
    rw [ih ((steps_readArrayRanges hentered).inside hentered)]
    rfl
  case array' =>
    intro depth a harray ranges hnested ih ha
    have harray' := (unreadKeyword_relaid (r := r) a "array").trans harray
    have hentered := ha.descend 0
    obtain rfl := Nat.eq_zero_of_not_pos hnested
    rw [readType_of_array harray, readType_of_array harray', descend_relaid,
      readArrayRanges_relaid hentered]
    exact ih ((steps_readArrayRanges hentered).inside hentered)
  case simple =>
    intro depth a harray ha
    rw [readType_of_simple depth harray, readSimpleType_relaid ha |>.symm,
      readType_of_simple depth (by rw [unreadKeyword_relaid]; exact harray)]
  case of =>
    intro depth ranges a hof ih ha
    rw [readElements_of_of depth ranges hof, readElements_of_of depth ranges
      ((atKeyword_relaid ha "of").trans hof), next_relaid ha, ih ha.next]
    rfl
  case missing =>
    intro depth ranges a hof hstarts ih ha
    rw [readElements_of_missing depth ranges hof hstarts,
      readElements_of_missing depth ranges
        (by rw [atKeyword_relaid ha]; exact hof)
        ((startsType_relaid ha).trans hstarts),
      missingOf_relaid ha, ih ((steps_missingOf a).inside ha)]
    rfl
  case none =>
    intro depth ranges a hof hstarts ha
    rw [readElements_of_none depth ranges hof hstarts,
      readElements_of_none depth ranges
        (by rw [atKeyword_relaid ha]; exact hof)
        (by rw [startsType_relaid ha]; exact hstarts),
      missingOf_relaid ha]
    rfl

-- ================================================= declarations and sections

/-- A name is a redeclaration in both layouts, and then of the symbol at
the place that the first one has moved to. -/
theorem declareName_relaid (type : VarType) (a : Analysis) (n : Identifier) :
    (a.relaid r).declareName type (n.relaid r)
      = (a.declareName type n).relaid r := by
  have hdefine : (a.relaid r).symbols.define ⟨n.name, type, n.pos.relaid r⟩
      = ((a.symbols.define ⟨n.name, type, n.pos⟩).1.map (Symbol.relaid r),
        (a.symbols.define ⟨n.name, type, n.pos⟩).2.relaid r) :=
    a.symbols.define_relaid ⟨n.name, type, n.pos⟩
  unfold declareName
  simp only [Identifier.relaid]
  rw [hdefine]
  rcases a.symbols.define ⟨n.name, type, n.pos⟩ with ⟨_ | first, symbols⟩ <;>
    rfl

theorem declare_relaid (names : List Identifier) (type : VarType)
    (a : Analysis) :
    (a.relaid r).declare (names.map (Identifier.relaid r)) type
      = (a.declare names type).relaid r := by
  induction names generalizing a with
  | nil => rfl
  | cons n names ih =>
    rw [List.map_cons, declare_cons, declareName_relaid, ih, declare_cons]

theorem synchronizeHere_relaid [NestingLimit] (ha : a.Inside) :
    (a.relaid r).synchronizeHere = a.synchronizeHere.relaid r := by
  unfold synchronizeHere
  simp only [lookBack_relaid, ha.lookBack, previous?_relaid, halt_relaid]
  cases a.previous? with
  | none => rfl
  | some t => exact synchronize_relaid ha t.line

theorem endDeclaration_relaid [NestingLimit] (ha : a.Inside) :
    (a.relaid r).endDeclaration = a.endDeclaration.relaid r := by
  have hread := ha.reportUnknown a.current.line
  have hreported : ((a.reportUnknown a.current.line).2.reportAfterPrevious
      .semicolonExpected).Inside :=
    (steps_reportAfterPrevious hread (.inr rfl)).inside hread
  unfold endDeclaration
  simp only [current_relaid ha, Token.line_relaid, reportUnknown_relaid ha,
    Prod.map_fst, Prod.map_snd, id_eq, recovering_relaid,
    atSymbol_relaid hread, next_relaid hread, current_relaid hread,
    reportUnknown_relaid hread.next, synchronizeHere_relaid hread,
    reportAfterPrevious_relaid hread .semicolonExpected rfl,
    atKind_relaid hreported, synchronizeHere_relaid hreported,
    ← apply_ite (relaid r)]

theorem readTypePart_relaid [NestingLimit] (ha : a.Inside) :
    (a.relaid r).readTypePart = Prod.map id (relaid r) a.readTypePart := by
  have hread := ha.reportUnknown a.current.line
  have hbehind : (if (a.reportUnknown a.current.line).1
        || (a.reportUnknown a.current.line).2.recovering then
      (a.reportUnknown a.current.line).2
      else (a.reportUnknown a.current.line).2.reportAfterPrevious
        .colonExpected).Inside := by
    split
    · exact hread
    · exact (steps_reportAfterPrevious hread (.inl rfl)).inside hread
  unfold readTypePart
  simp only [current_relaid ha, Token.line_relaid, reportUnknown_relaid ha,
    Prod.map_fst, Prod.map_snd, id_eq, recovering_relaid,
    atSymbol_relaid hread, next_relaid hread,
    reportAfterPrevious_relaid hread .colonExpected rfl,
    ← apply_ite (relaid r), startsType_relaid hbehind,
    readType_relaid _ hbehind, readType_relaid _ hread.next, recover_relaid]
  split
  · rfl
  · rw [apply_ite (Prod.map id (relaid r))]
    rfl

theorem readDeclaration_relaid [NestingLimit] (ha : a.Inside) :
    (a.relaid r).readDeclaration = a.readDeclaration.relaid r := by
  have hstart : a.unmarked.Inside := ha.of_recovering false
  have hnamed := (steps_readNames hstart).inside hstart
  have htyped := (steps_readTypePart hnamed).inside hnamed
  have hnames : (a.relaid r).unmarked.readNames
      = Prod.map (List.map (Identifier.relaid r)) (relaid r)
        a.unmarked.readNames := readNames_relaid hstart
  have hparts : (a.relaid r).readParts = a.readParts.relaid r := by
    unfold readParts
    simp only [hnames, Prod.map_fst, Prod.map_snd, readTypePart_relaid hnamed,
      endDeclaration_relaid htyped, current_relaid ha]
    rfl
  rw [readDeclaration_eq, readDeclaration_eq, hparts, hnames, Prod.map_fst,
    Prod.map_snd, readTypePart_relaid hnamed, Prod.map_fst, declare_relaid]
  rfl

theorem readBlock_relaid [NestingLimit] (ha : a.Inside) :
    (a.relaid r).readBlock = a.readBlock.relaid r := by
  fun_induction readBlock a with
  | case1 a hname ih =>
    have hread := steps_readDeclaration ha (isEnding_of_unreadName hname)
    rw [readBlock, dif_pos (by rw [unreadName_relaid]; exact hname),
      readDeclaration_relaid ha, ih (hread.inside ha)]
  | case2 a hname =>
    rw [readBlock, dif_neg (by rw [unreadName_relaid]; exact hname)]

theorem passStray_relaid (ha : a.Inside) :
    (a.relaid r).passStray = a.passStray.relaid r := by
  unfold passStray
  simp only [current_relaid ha, next_relaid ha, Token.kind_relaid,
    Token.text_relaid, Token.pos_relaid]
  apply report_relaid_of_eq
  split <;> rfl

theorem readSection_relaid [NestingLimit] (ha : a.Inside) :
    (a.relaid r).readSection = a.readSection.relaid r := by
  fun_induction readSection a with
  | case1 a hhead =>
    obtain ⟨rest, hrest⟩ := ha.exists_ahead
    rw [hrest] at hhead
    cases hhead
  | case2 a t hhead hend =>
    obtain ⟨rest, hahead⟩ := List.head?_eq_some_iff.1 hhead
    have hahead' : (a.relaid r).cursor.ahead
        = t.relaid r :: rest.map (Token.relaid r) :=
      congrArg (List.map (Token.relaid r)) hahead
    exact readSection_of_ending hahead' hend
  | case3 a t hhead hend hvar ih =>
    obtain ⟨rest, hahead⟩ := List.head?_eq_some_iff.1 hhead
    have hahead' : (a.relaid r).cursor.ahead
        = t.relaid r :: rest.map (Token.relaid r) :=
      congrArg (List.map (Token.relaid r)) hahead
    have hblock := (steps_readBlock ha.next).inside ha.next
    rw [readSection_of_var hahead' hvar, next_relaid ha,
      readBlock_relaid ha.next, ih hblock]
  | case4 a t hhead hend hvar ih =>
    obtain ⟨rest, hahead⟩ := List.head?_eq_some_iff.1 hhead
    have hahead' : (a.relaid r).cursor.ahead
        = t.relaid r :: rest.map (Token.relaid r) :=
      congrArg (List.map (Token.relaid r)) hahead
    rw [readSection_of_stray hahead' hend (Bool.eq_false_iff.2 hvar),
      passStray_relaid ha, ih ((steps_passStray ha).inside ha)]

/-- A table laid out anew is analysed like the table. -/
theorem run_relaid [NestingLimit] {table : List Token}
    (hends : ∃ t ∈ table, t.isEnding = true) :
    (ofTable (table.map (Token.relaid r))).run
      = (ofTable table).run.relaid r := by
  rw [run_ofTable, run_ofTable, ofTable_relaid]
  exact readSection_relaid (Inside.ofTable hends)

end Analysis

end VarSection
