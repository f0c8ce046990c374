/-
Analysis up to the case of ASCII letters. Every operation of an analysis does
on the folded state what it does on the state itself
(`Analysis.next_foldCase` and its companions), because nothing that is asked
of a lexeme depends on the case of its letters: classes and places are kept,
symbols have no letters, keywords and types are compared by their lower case,
and a name is entered and looked up under its lower case. So the equations
need no assumption on the state, and each reader follows from those of the
operations it is made of.

What is folded of a finished analysis is what it cites: the names of
symbols and declarations and the texts in findings. Types, places and keys
stay as they are.
-/
import VarSection.Proofs.Analysis.Passage
import VarSection.Proofs.Scanner.Folding

namespace VarSection

-- ================================================================== lexemes

namespace Token

variable {w : Text}

theorem line_foldCase (t : Token) : t.foldCase.line = t.line := rfl

theorem isKeyword_foldCase (t : Token) (word : Text) :
    t.foldCase.isKeyword word = t.isKeyword word := by
  unfold isKeyword foldCase
  rw [Text.lower_foldCase]

theorem isSymbol_foldCase (hw : w.Caseless) (t : Token) :
    t.foldCase.isSymbol w = t.isSymbol w := by
  unfold isSymbol foldCase
  rw [Text.foldCase_beq hw]

theorem endPos_foldCase (t : Token) : t.foldCase.endPos = t.endPos := by
  unfold endPos endCol foldCase
  rw [Text.length_foldCase]

theorem startsDeclaration_foldCase (t next : Token) :
    t.foldCase.startsDeclaration next.foldCase = t.startsDeclaration next := by
  unfold startsDeclaration
  rw [isSymbol_foldCase (by decide), isSymbol_foldCase (by decide)]
  rfl

theorem isRangeBoundary_foldCase (t : Token) :
    t.foldCase.isRangeBoundary = t.isRangeBoundary := by
  unfold isRangeBoundary
  rw [isSymbol_foldCase (by decide), isSymbol_foldCase (by decide),
    isSymbol_foldCase (by decide), isKeyword_foldCase, isKeyword_foldCase]
  rfl

end Token

-- ================================================= names and declarations

/-- A declared name, folded. -/
def Identifier.foldCase (n : Identifier) : Identifier :=
  { n with name := Text.foldCase n.name }

/-- A declaration with its names folded. -/
def Declaration.foldCase (d : Declaration) : Declaration :=
  { d with names := d.names.map Identifier.foldCase }

/-- A symbol with its name folded. -/
def Symbol.foldCase {Place : Type} (s : Symbol Place) : Symbol Place :=
  { s with name := Text.foldCase s.name }

namespace SymbolTable

variable {Place : Type}

/-- A table of symbols with their names folded, under the same keys. -/
def foldCase (t : SymbolTable Place) : SymbolTable Place :=
  ⟨t.entries.map fun entry => (entry.1, entry.2.foldCase)⟩

theorem toList_foldCase (t : SymbolTable Place) :
    t.foldCase.toList = t.toList.map Symbol.foldCase := by
  unfold toList foldCase
  rw [List.map_map, List.map_reverse, List.map_map]
  rfl

theorem get?_foldCase (t : SymbolTable Place) (key : Text) :
    t.foldCase.get? key = (t.get? key).map Symbol.foldCase := by
  unfold get? foldCase
  rw [List.find?_map, Option.map_map, Option.map_map]
  rfl

/-- A name is entered under its lower case, so it is found under the same
keys. -/
theorem define_foldCase (t : SymbolTable Place) (symbol : Symbol Place) :
    t.foldCase.define symbol.foldCase
      = ((t.define symbol).1.map Symbol.foldCase,
        (t.define symbol).2.foldCase) := by
  have hkey : Text.lower symbol.foldCase.name = Text.lower symbol.name :=
    Text.lower_foldCase _
  unfold define
  simp only [hkey, get?_foldCase]
  cases t.get? (Text.lower symbol.name) <;> rfl

end SymbolTable

-- ================================================================ the state

/-- The note of a fault, with what was recorded folded. -/
def Halt.foldCase (h : Halt) : Halt :=
  ⟨h.fault, h.symbols.foldCase, h.declarations.map Declaration.foldCase⟩

namespace Analysis

/-- The state of an analysis with all texts in it folded. -/
def foldCase (a : Analysis) : Analysis where
  cursor := a.cursor.map Token.foldCase
  errors := a.errors.map Diagnostic.foldCase
  recovering := a.recovering
  symbols := a.symbols.foldCase
  declarations := a.declarations.map Declaration.foldCase
  halt? := a.halt?.map Halt.foldCase

variable {w : Text} {cause : Cause} (a : Analysis)

theorem ofTable_foldCase (table : List Token) :
    ofTable (table.map Token.foldCase) = (ofTable table).foldCase := rfl

theorem recovering_foldCase : a.foldCase.recovering = a.recovering := rfl

-- ========================================================== looking around

theorem current_foldCase : a.foldCase.current = a.current.foldCase := by
  obtain ⟨⟨behind, ahead, overrun⟩, errors, recovering, symbols,
    declarations, halt?⟩ := a
  cases ahead with
  | cons t rest => rfl
  | nil => cases behind <;> rfl

theorem upcoming_foldCase :
    a.foldCase.upcoming = a.upcoming.map Token.foldCase := by
  obtain ⟨⟨behind, ahead, overrun⟩, errors, recovering, symbols,
    declarations, halt?⟩ := a
  cases ahead with
  | cons t rest => rfl
  | nil => cases behind <;> rfl

theorem previous?_foldCase :
    a.foldCase.previous? = a.previous?.map Token.foldCase := by
  unfold previous?
  show (if a.cursor.overrun = 0 then
    (a.cursor.behind.map Token.foldCase).head? else none) = _
  rw [List.head?_map]
  split <;> rfl

theorem atKind_foldCase (kind : Kind) :
    a.foldCase.atKind kind = a.atKind kind := by
  unfold atKind
  rw [current_foldCase]
  rfl

theorem atSymbol_foldCase (hw : w.Caseless) :
    a.foldCase.atSymbol w = a.atSymbol w := by
  unfold atSymbol
  rw [current_foldCase, Token.isSymbol_foldCase hw]

theorem atKeyword_foldCase (word : Text) :
    a.foldCase.atKeyword word = a.atKeyword word := by
  unfold atKeyword
  rw [current_foldCase, Token.isKeyword_foldCase]

theorem atInteger_foldCase : a.foldCase.atInteger = a.atInteger := by
  unfold atInteger
  rw [atKind_foldCase, current_foldCase]
  exact congrArg _ (Numeral.isInteger_foldCase _)

/-- What is asked of the unread lexeme at the place. -/
theorem any_unread_foldCase {p : Token → Bool}
    (hp : ∀ t : Token, p t.foldCase = p t) :
    a.foldCase.cursor.ahead.head?.any p = a.cursor.ahead.head?.any p := by
  show (a.cursor.ahead.map Token.foldCase).head?.any p = _
  cases a.cursor.ahead with
  | nil => rfl
  | cons t rest => exact hp t

theorem unreadSymbol_foldCase (hw : w.Caseless) :
    a.foldCase.unreadSymbol w = a.unreadSymbol w :=
  a.any_unread_foldCase (Token.isSymbol_foldCase hw)

theorem unreadKeyword_foldCase (word : Text) :
    a.foldCase.unreadKeyword word = a.unreadKeyword word :=
  a.any_unread_foldCase fun t => t.isKeyword_foldCase word

theorem unreadName_foldCase : a.foldCase.unreadName = a.unreadName :=
  a.any_unread_foldCase fun _ => rfl

theorem onLineOfPrevious_foldCase (t : Token) :
    a.foldCase.onLineOfPrevious t.foldCase = a.onLineOfPrevious t := by
  unfold onLineOfPrevious
  rw [previous?_foldCase]
  cases a.previous? <;> rfl

theorem startsType_foldCase : a.foldCase.startsType = a.startsType := by
  unfold startsType
  rw [atKind_foldCase, current_foldCase]
  show (_ && typeKeywords.contains (Text.lower (Text.foldCase _))) = _
  rw [Text.lower_foldCase]

-- ===================================================== moving and recording

theorem next_foldCase : a.foldCase.next = a.next.foldCase := by
  unfold next
  rw [current_foldCase]
  show (if a.current.isEnding then _ else _) = _
  split
  · rfl
  · unfold foldCase
    rw [Cursor.map_advance]

theorem nextBy_foldCase (n : Nat) :
    nextBy n a.foldCase = (nextBy n a).foldCase := by
  induction n generalizing a with
  | zero => rfl
  | succ n ih => rw [nextBy, next_foldCase, ih, nextBy]

theorem report_foldCase (pos : Position) (cause : Cause) :
    a.foldCase.report pos cause.foldCase = (a.report pos cause).foldCase :=
  rfl

/-- A finding that cites nothing is made as it is. -/
theorem report_foldCase_of_eq (cause : Cause) (h : cause.foldCase = cause)
    (pos : Position) :
    a.foldCase.report pos cause = (a.report pos cause).foldCase := by
  rw [← report_foldCase, h]

theorem expect_foldCase (h : cause.foldCase = cause) (pos : Position) :
    a.foldCase.expect pos cause = (a.expect pos cause).foldCase := by
  have hlatest : a.foldCase.errors.head?.any (·.pos == pos)
      = a.errors.head?.any (·.pos == pos) := by
    show (a.errors.map Diagnostic.foldCase).head?.any _ = _
    cases a.errors <;> rfl
  unfold expect
  rw [hlatest, a.report_foldCase_of_eq cause h]
  split <;> rfl

theorem recover_foldCase : a.foldCase.recover = a.recover.foldCase := rfl

theorem halt_foldCase (fault : Fault) :
    a.foldCase.halt fault = (a.halt fault).foldCase := by
  obtain ⟨cursor, errors, recovering, symbols, declarations, halt?⟩ := a
  cases halt? <;> rfl

theorem lookBack_foldCase : a.foldCase.lookBack = a.lookBack.foldCase := by
  unfold lookBack
  rw [halt_foldCase]
  show (if a.cursor.overrun = 0 then _ else _) = _
  split <;> rfl

theorem reportAfterPrevious_foldCase (h : cause.foldCase = cause) :
    a.foldCase.reportAfterPrevious cause
      = (a.reportAfterPrevious cause).foldCase := by
  unfold reportAfterPrevious
  simp only [lookBack_foldCase, previous?_foldCase, current_foldCase]
  cases a.lookBack.previous? with
  | none => exact report_foldCase_of_eq _ cause h _
  | some t =>
    show a.lookBack.foldCase.report t.foldCase.endPos cause = _
    rw [Token.endPos_foldCase]
    exact report_foldCase_of_eq _ cause h _

theorem readInteger_foldCase (t : Token) :
    a.foldCase.readInteger t.foldCase
      = ((a.readInteger t).1, (a.readInteger t).2.foldCase) := by
  unfold readInteger
  show (Numeral.value (Text.foldCase t.text),
    if _ < Numeral.digitCount (Text.foldCase t.text) then
      a.foldCase.halt (.tooManyDigits
        (Numeral.digitCount (Text.foldCase t.text)))
    else _) = _
  rw [Numeral.value_foldCase, Numeral.digitCount_foldCase, halt_foldCase]
  simp only
  split <;> rfl

-- ================================================================ recovery

theorem unknownRun_foldCase (line : Int) (unread : List Token) :
    unknownRun line (unread.map Token.foldCase)
      = (unknownRun line unread).map Token.foldCase := List.takeWhile_map ..

theorem brokenRun_foldCase (line : Int) (unread : List Token) :
    brokenRun line (unread.map Token.foldCase)
      = (brokenRun line unread).map Token.foldCase := by
  induction unread with
  | nil => rfl
  | cons t rest ih =>
    have hnext : (rest.map Token.foldCase).headD t.foldCase
        = (rest.headD t).foldCase := by
      cases rest <;> rfl
    rw [List.map_cons, brokenRun, brokenRun, hnext, ih,
      Token.isKeyword_foldCase, Token.startsDeclaration_foldCase,
      Token.isSymbol_foldCase (by decide)]
    show (if t.isEnding || _ || t.line != line || _ then _ else _) = _
    split
    · rfl
    · split <;> rfl

theorem passToken_foldCase (t : Token) :
    a.foldCase.passToken t.foldCase = (a.passToken t).foldCase := by
  unfold passToken
  rw [next_foldCase]
  show (if t.kind == .unknown then _ else _) = _
  split <;> rfl

theorem pass_foldCase (run : List Token) :
    a.foldCase.pass (run.map Token.foldCase) = (a.pass run).foldCase := by
  unfold pass
  induction run generalizing a with
  | nil => rfl
  | cons t run ih =>
    rw [List.map_cons, List.foldl_cons, List.foldl_cons, passToken_foldCase,
      ih]

theorem reportUnknown_foldCase (line : Int) :
    a.foldCase.reportUnknown line
      = Prod.map id foldCase (a.reportUnknown line) := by
  unfold reportUnknown
  simp only [upcoming_foldCase, unknownRun_foldCase, pass_foldCase,
    List.isEmpty_map]
  rfl

theorem synchronize_foldCase (line : Int) :
    a.foldCase.synchronize line = (a.synchronize line).foldCase := by
  unfold synchronize
  simp only [upcoming_foldCase, brokenRun_foldCase, pass_foldCase,
    List.getLast?_map]
  cases (brokenRun line a.upcoming).getLast? with
  | none => rfl
  | some t =>
    show (if t.foldCase.isSymbol ";" then
      (Analysis.reportUnknown t.line _).2 else _) = _
    rw [Token.isSymbol_foldCase (by decide), reportUnknown_foldCase]
    simp only
    split <;> rfl

theorem skipToRangeBoundary_foldCase :
    a.foldCase.skipToRangeBoundary = a.skipToRangeBoundary.foldCase := by
  unfold skipToRangeBoundary
  rw [upcoming_foldCase, List.takeWhile_map, List.length_map, nextBy_foldCase]
  have hsame : ((fun t : Token => !t.isRangeBoundary) ∘ Token.foldCase)
      = fun t => !t.isRangeBoundary :=
    funext fun t => congrArg not t.isRangeBoundary_foldCase
  rw [hsame]

-- ==================================================================== names

theorem gluedRun_foldCase (last : Token) (unread : List Token) :
    gluedRun last.foldCase (unread.map Token.foldCase)
      = (gluedRun last unread).map Token.foldCase := by
  induction unread generalizing last with
  | nil => rfl
  | cons t rest ih =>
    rw [List.map_cons, gluedRun, gluedRun, Token.endPos_foldCase, ih]
    show (if t.pos = last.endPos ∧ t.kind.isNamePart then _ else _) = _
    split <;> rfl

/-- A name is glued together from the same lexemes and judged alike. -/
theorem readName_foldCase :
    a.foldCase.readName = Prod.map Identifier.foldCase foldCase a.readName := by
  have hname : ∀ first more, Text.join
      ((first.foldCase :: List.map Token.foldCase more).map (·.text))
        = Text.foldCase (Text.join ((first :: more).map (·.text))) := by
    intro first more
    rw [← Text.join_foldCase, List.map_map, ← List.map_cons, List.map_map]
    rfl
  unfold readName
  simp only [current_foldCase, next_foldCase, upcoming_foldCase,
    gluedRun_foldCase, List.length_map, nextBy_foldCase, hname,
    isValidName_foldCase]
  split <;> rfl

theorem atNameAfter_foldCase (comma : Token) :
    a.foldCase.atNameAfter comma.foldCase = a.atNameAfter comma := by
  unfold atNameAfter
  rw [current_foldCase, atKeyword_foldCase]
  rfl

theorem abandonNames_foldCase (comma : Token) :
    a.foldCase.abandonNames comma.foldCase
      = (a.abandonNames comma).foldCase := by
  have hsign : ∀ w : Text, w.Caseless →
      (a.current.foldCase.text == w) = (a.current.text == w) :=
    fun w hw => Text.foldCase_beq hw _
  unfold abandonNames
  simp only [current_foldCase, hsign ":" (by decide), hsign ";" (by decide),
    report_foldCase_of_eq a .nameExpected rfl, recover_foldCase,
    next_foldCase]
  show (if a.current.kind == .symbol && _ && a.current.line == comma.line then
    _ else _) = _
  split <;> rfl

theorem readMoreNames_foldCase :
    a.foldCase.readMoreNames
      = Prod.map (List.map Identifier.foldCase) foldCase a.readMoreNames := by
  have hafter (a : Analysis) :
      a.foldCase.next.atNameAfter a.foldCase.current
        = a.next.atNameAfter a.current := by
    rw [next_foldCase, current_foldCase, atNameAfter_foldCase]
  fun_induction readMoreNames a with
  | case1 a hcomma hname name more ih =>
    rw [readMoreNames,
      dif_pos ((a.atSymbol_foldCase (by decide)).trans hcomma),
      dif_pos ((hafter a).trans hname)]
    simp only [next_foldCase, readName_foldCase, Prod.map_fst, Prod.map_snd]
    rw [ih]
    rfl
  | case2 a hcomma hname =>
    rw [readMoreNames,
      dif_pos ((a.atSymbol_foldCase (by decide)).trans hcomma),
      dif_neg (by rw [hafter]; exact hname), next_foldCase, current_foldCase,
      abandonNames_foldCase]
    rfl
  | case3 a hcomma =>
    rw [readMoreNames,
      dif_neg (by rw [atSymbol_foldCase a (by decide)]; exact hcomma)]
    rfl

theorem readNames_foldCase :
    a.foldCase.readNames
      = Prod.map (List.map Identifier.foldCase) foldCase a.readNames := by
  unfold readNames
  simp only [readName_foldCase, Prod.map_fst, Prod.map_snd,
    readMoreNames_foldCase]
  rfl

-- ==================================================================== types

theorem closeSize_foldCase (size : Option Int) :
    closeSize size a.foldCase = Prod.map id foldCase (closeSize size a) := by
  unfold closeSize
  simp (disch := decide) only [atSymbol_foldCase, next_foldCase,
    current_foldCase]
  split
  · rfl
  · exact Prod.ext rfl (congrArg recover (expect_foldCase a rfl _))

theorem passOnLine_foldCase :
    a.foldCase.passOnLine = a.passOnLine.foldCase := by
  unfold passOnLine
  simp only [lookBack_foldCase, current_foldCase, onLineOfPrevious_foldCase,
    next_foldCase]
  split <;> rfl

theorem readStringType_foldCase :
    a.foldCase.readStringType = Prod.map id foldCase a.readStringType := by
  unfold readStringType
  simp (disch := decide) only [atSymbol_foldCase, next_foldCase,
    current_foldCase, atInteger_foldCase, readInteger_foldCase,
    report_foldCase_of_eq, recover_foldCase, Token.isSymbol_foldCase,
    passOnLine_foldCase]
  split
  · rfl
  · split
    · rw [report_foldCase_of_eq _ (.sizeOutOfRange _) rfl,
        ← apply_ite foldCase, closeSize_foldCase]
      rfl
    · -- what is asked next is asked of the state behind the choice
      rw [← apply_ite foldCase]
      simp (disch := decide) only [atSymbol_foldCase, closeSize_foldCase]
      rw [apply_ite (Prod.map id foldCase)]
      rfl

theorem refuseType_foldCase :
    a.foldCase.refuseType = Prod.map id foldCase a.refuseType := by
  have hcause : (if a.current.foldCase.kind == .unknown then
        Cause.unknownSymbol a.current.foldCase.text
      else .invalidType a.current.foldCase.text)
      = Cause.foldCase (if a.current.kind == .unknown then
        .unknownSymbol a.current.text else .invalidType a.current.text) := by
    rw [apply_ite Cause.foldCase]
    rfl
  unfold refuseType
  simp (disch := decide) only [current_foldCase, Token.isSymbol_foldCase,
    hcause, report_foldCase, passOnLine_foldCase, expect_foldCase]
  rw [← apply_ite foldCase]
  rfl

theorem readSimpleType_foldCase :
    a.foldCase.readSimpleType = Prod.map id foldCase a.readSimpleType := by
  have hword : Text.lower a.current.foldCase.text
      = Text.lower a.current.text := Text.lower_foldCase _
  unfold readSimpleType
  simp only [current_foldCase, hword, atKind_foldCase, atKeyword_foldCase,
    next_foldCase, readStringType_foldCase, refuseType_foldCase]
  split
  · rfl
  · split <;> rfl

theorem readRange_foldCase :
    a.foldCase.readRange = Prod.map id foldCase a.readRange := by
  unfold readRange
  simp (disch := decide) only [atInteger_foldCase, atSymbol_foldCase,
    next_foldCase, current_foldCase, readInteger_foldCase]
  split
  · rfl
  · split
    · rfl
    · split
      · rfl
      · rw [report_foldCase_of_eq _ (.boundsInverted _ _) rfl,
          ← apply_ite foldCase]
        rfl

theorem skipAfterRange_foldCase :
    a.foldCase.skipAfterRange = a.skipAfterRange.foldCase := by
  unfold skipAfterRange
  rw [current_foldCase, expect_foldCase a rfl, recover_foldCase,
    skipToRangeBoundary_foldCase]
  rfl

theorem readRangeOrSkip_foldCase :
    a.foldCase.readRangeOrSkip = Prod.map id foldCase a.readRangeOrSkip := by
  unfold readRangeOrSkip
  simp only [readRange_foldCase, Prod.map_fst, Prod.map_snd, id_eq,
    skipToRangeBoundary_foldCase]
  rw [← apply_ite foldCase]
  rfl

theorem passBracket_foldCase :
    a.foldCase.passBracket = a.passBracket.foldCase := by
  unfold passBracket
  rw [atSymbol_foldCase a (by decide), next_foldCase]
  split <;> rfl

theorem readRanges_foldCase :
    a.foldCase.readRanges = Prod.map id foldCase a.readRanges := by
  have hread (a : Analysis) : a.foldCase.readRangeOrSkip.1
        = a.readRangeOrSkip.1
      ∧ a.foldCase.readRangeOrSkip.2 = a.readRangeOrSkip.2.foldCase := by
    rw [readRangeOrSkip_foldCase]
    exact ⟨rfl, rfl⟩
  fun_induction readRanges a with
  | case1 a read a' hcomma more ih =>
    rw [readRanges]
    simp (disch := decide) only [hread, unreadSymbol_foldCase]
    rw [dif_pos hcomma, next_foldCase, ih]
    rfl
  | case2 a read a' hcomma hend =>
    rw [readRanges]
    simp (disch := decide) only [hread, unreadSymbol_foldCase,
      atSymbol_foldCase]
    rw [dif_neg hcomma, if_pos hend, passBracket_foldCase]
    rfl
  | case3 a read a' hcomma hend a'' hcomma' more ih =>
    rw [readRanges]
    simp (disch := decide) only [hread, unreadSymbol_foldCase,
      atSymbol_foldCase, skipAfterRange_foldCase]
    rw [dif_neg hcomma, if_neg hend, dif_pos hcomma', next_foldCase, ih]
    rfl
  | case4 a read a' hcomma hend a'' hcomma' =>
    rw [readRanges]
    simp (disch := decide) only [hread, unreadSymbol_foldCase,
      atSymbol_foldCase, skipAfterRange_foldCase]
    rw [dif_neg hcomma, if_neg hend, dif_neg hcomma', passBracket_foldCase]
    rfl

theorem readArrayRanges_foldCase :
    a.foldCase.readArrayRanges
      = Prod.map id foldCase a.readArrayRanges := by
  unfold readArrayRanges
  simp (disch := decide) only [next_foldCase, atSymbol_foldCase,
    readRanges_foldCase, current_foldCase, report_foldCase_of_eq,
    recover_foldCase, atInteger_foldCase, skipToRangeBoundary_foldCase,
    passBracket_foldCase]
  split
  · rfl
  · rw [apply_ite (Prod.map id foldCase)]
    rfl

theorem missingOf_foldCase :
    a.foldCase.missingOf = a.missingOf.foldCase := by
  unfold missingOf
  rw [current_foldCase, expect_foldCase a rfl]
  rfl

theorem descend_foldCase [NestingLimit] (depth : Nat) :
    a.foldCase.descend depth = (a.descend depth).foldCase := by
  unfold descend
  split
  · exact halt_foldCase a _
  · rfl

/-- Types are read alike. The induction is along both functions that read
them. -/
theorem readType_foldCase [NestingLimit] (depth : Nat) :
    a.foldCase.readType depth = Prod.map id foldCase (a.readType depth) := by
  refine readType.induct
    (fun depth a => readType depth a.foldCase
      = Prod.map id foldCase (readType depth a))
    (fun depth ranges a => readElements depth ranges a.foldCase
      = Prod.map id foldCase (readElements depth ranges a))
    ?array ?array' ?simple ?of ?missing ?none depth a
  case array =>
    intro depth a harray ranges hnested ih
    have harray' := (a.unreadKeyword_foldCase "array").trans harray
    rw [readType, readType, dif_pos harray', dif_pos harray,
      descend_foldCase, readArrayRanges_foldCase]
    simp only [hnested, Prod.map_fst, Prod.map_snd, id_eq, current_foldCase]
    rw [ih]
    rfl
  case array' =>
    intro depth a harray ranges hnested ih
    have harray' := (a.unreadKeyword_foldCase "array").trans harray
    rw [readType, readType, dif_pos harray', dif_pos harray,
      descend_foldCase, readArrayRanges_foldCase]
    simp only [hnested, Prod.map_fst, Prod.map_snd, id_eq]
    exact ih
  case simple =>
    intro depth a harray
    rw [readType, readType, dif_neg harray, readSimpleType_foldCase,
      dif_neg (by rw [unreadKeyword_foldCase]; exact harray)]
  case of =>
    intro depth ranges a hof ih
    rw [readElements, readElements, atKeyword_foldCase, if_pos hof,
      if_pos hof, next_foldCase, ih]
    rfl
  case missing =>
    intro depth ranges a hof hstarts ih
    rw [readElements, readElements, atKeyword_foldCase, startsType_foldCase,
      if_neg hof, if_neg hof, if_pos hstarts, if_pos hstarts,
      missingOf_foldCase, ih]
    rfl
  case none =>
    intro depth ranges a hof hstarts
    rw [readElements, readElements, atKeyword_foldCase, startsType_foldCase,
      if_neg hof, if_neg hof, if_neg hstarts, if_neg hstarts,
      missingOf_foldCase]
    rfl

-- ================================================= declarations and sections

/-- A name is a redeclaration for both, or new to both. -/
theorem declareName_foldCase (type : VarType) (n : Identifier) :
    a.foldCase.declareName type n.foldCase
      = (a.declareName type n).foldCase := by
  have hdefine : a.foldCase.symbols.define
      ⟨n.foldCase.name, type, n.foldCase.pos⟩
        = ((a.symbols.define ⟨n.name, type, n.pos⟩).1.map Symbol.foldCase,
          (a.symbols.define ⟨n.name, type, n.pos⟩).2.foldCase) :=
    a.symbols.define_foldCase ⟨n.name, type, n.pos⟩
  unfold declareName
  rw [hdefine]
  rcases a.symbols.define ⟨n.name, type, n.pos⟩ with ⟨_ | first, symbols⟩ <;>
    rfl

theorem declare_foldCase (names : List Identifier) (type : VarType) :
    a.foldCase.declare (names.map Identifier.foldCase) type
      = (a.declare names type).foldCase := by
  induction names generalizing a with
  | nil => rfl
  | cons n names ih =>
    rw [List.map_cons, declare_cons, declareName_foldCase, ih, declare_cons]

theorem synchronizeHere_foldCase :
    a.foldCase.synchronizeHere = a.synchronizeHere.foldCase := by
  unfold synchronizeHere
  simp only [lookBack_foldCase, previous?_foldCase, halt_foldCase]
  cases a.lookBack.previous? with
  | none => rfl
  | some t => exact a.lookBack.synchronize_foldCase t.line

theorem endDeclaration_foldCase :
    a.foldCase.endDeclaration = a.endDeclaration.foldCase := by
  unfold endDeclaration
  simp (disch := decide) only [current_foldCase, Token.line_foldCase,
    reportUnknown_foldCase, Prod.map_fst, Prod.map_snd, id_eq,
    recovering_foldCase, atSymbol_foldCase, next_foldCase,
    synchronizeHere_foldCase, reportAfterPrevious_foldCase, atKind_foldCase,
    ← apply_ite foldCase]

theorem readTypePart_foldCase [NestingLimit] :
    a.foldCase.readTypePart = Prod.map id foldCase a.readTypePart := by
  unfold readTypePart
  simp (disch := decide) only [current_foldCase, Token.line_foldCase,
    reportUnknown_foldCase, Prod.map_fst, Prod.map_snd, id_eq,
    recovering_foldCase, atSymbol_foldCase, next_foldCase,
    reportAfterPrevious_foldCase, ← apply_ite foldCase, startsType_foldCase,
    readType_foldCase, recover_foldCase]
  split
  · rfl
  · rw [apply_ite (Prod.map id foldCase)]
    rfl

theorem readDeclaration_foldCase [NestingLimit] :
    a.foldCase.readDeclaration = a.readDeclaration.foldCase := by
  have hnames : { a.foldCase with recovering := false }.readNames
      = Prod.map (List.map Identifier.foldCase) foldCase
        { a with recovering := false }.readNames :=
    readNames_foldCase { a with recovering := false }
  unfold readDeclaration
  simp only [hnames, current_foldCase, Prod.map_fst, Prod.map_snd, id_eq,
    readTypePart_foldCase, endDeclaration_foldCase]
  rw [← declare_foldCase]
  rfl

theorem readBlock_foldCase [NestingLimit] :
    a.foldCase.readBlock = a.readBlock.foldCase := by
  fun_induction readBlock a with
  | case1 a hname ih =>
    rw [readBlock, dif_pos (by rw [unreadName_foldCase]; exact hname),
      readDeclaration_foldCase, ih]
  | case2 a hname =>
    rw [readBlock, dif_neg (by rw [unreadName_foldCase]; exact hname)]

theorem passStray_foldCase :
    a.foldCase.passStray = a.passStray.foldCase := by
  unfold passStray
  simp only [current_foldCase, next_foldCase]
  show Analysis.report _ _ (if a.current.kind == .unknown then _ else _) = _
  split <;> rfl

theorem exists_ahead_foldCase {t : Token}
    (h : a.cursor.ahead.head? = some t) :
    ∃ rest, a.foldCase.cursor.ahead = t.foldCase :: rest := by
  obtain ⟨rest, hahead⟩ := List.head?_eq_some_iff.1 h
  exact ⟨rest.map Token.foldCase,
    congrArg (List.map Token.foldCase) hahead⟩

theorem readSection_foldCase [NestingLimit] :
    a.foldCase.readSection = a.readSection.foldCase := by
  fun_induction readSection a with
  | case1 a hhead =>
    have hnone : a.foldCase.cursor.ahead.head? = none := by
      rw [List.head?_eq_none_iff] at hhead ⊢
      exact congrArg (List.map Token.foldCase) hhead
    rw [readSection]
    split
    next => exact halt_foldCase a _
    next hsome =>
      rw [hnone] at hsome
      cases hsome
  | case2 a t hhead hend =>
    obtain ⟨rest, hahead⟩ := a.exists_ahead_foldCase hhead
    exact readSection_of_ending hahead hend
  | case3 a t hhead hend hvar ih =>
    obtain ⟨rest, hahead⟩ := a.exists_ahead_foldCase hhead
    rw [readSection_of_var hahead ((t.isKeyword_foldCase "var").trans hvar),
      next_foldCase, readBlock_foldCase, ih]
  | case4 a t hhead hend hvar ih =>
    obtain ⟨rest, hahead⟩ := a.exists_ahead_foldCase hhead
    have hstray := (t.isKeyword_foldCase "var").trans
      (Bool.eq_false_iff.2 hvar)
    rw [readSection_of_stray hahead hend hstray, passStray_foldCase, ih]

/-- A folded table is analysed like the table. -/
theorem run_foldCase [NestingLimit] : a.foldCase.run = a.run.foldCase := by
  unfold run
  rw [← readSection_foldCase]
  show readSection
    { ofTable (a.cursor.map Token.foldCase).toList with
      recovering := a.recovering } = _
  rw [Cursor.toList_map]
  rfl

end Analysis

end VarSection
