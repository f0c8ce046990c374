/-
Scanning up to the case of ASCII letters. A scanner in front of a folded
text does what it does in front of the text itself: it reads items of the
same classes and lengths, so it stands at the same places, and it gathers
the lexemes and findings of the text, folded (`Scanner.scan_foldCase`). Only
words can differ, and whether a word is a keyword is told by its lower
case.
-/
import VarSection.Proofs.Scanner.Reading
import VarSection.Proofs.Text.Folding

namespace VarSection

-- ===================================================== what is folded along

/-- The same place in a sequence with each item changed. -/
def Cursor.map {α β : Type} (f : α → β) (c : Cursor α) : Cursor β :=
  ⟨c.behind.map f, c.ahead.map f, c.overrun⟩

theorem Cursor.map_advance {α β : Type} (f : α → β) (c : Cursor α) :
    (c.map f).advance = c.advance.map f := by
  obtain ⟨behind, ahead, overrun⟩ := c
  cases ahead <;> rfl

theorem Cursor.toList_map {α β : Type} (f : α → β) (c : Cursor α) :
    (c.map f).toList = c.toList.map f := by
  unfold toList map
  rw [List.map_append, List.map_reverse]

/-- A lexeme with its text folded. -/
def Token.foldCase (t : Token) : Token :=
  { t with text := Text.foldCase t.text }

/-- A cause with the text it cites folded. -/
def Cause.foldCase : Cause → Cause
  | .unknownSymbol text => .unknownSymbol (Text.foldCase text)
  | .unexpectedToken text => .unexpectedToken (Text.foldCase text)
  | .invalidName text => .invalidName (Text.foldCase text)
  | .redeclared name first => .redeclared (Text.foldCase name) first
  | .invalidType text => .invalidType (Text.foldCase text)
  | .remark text => .remark (Text.foldCase text)
  | cause => cause

/-- A finding with the text it cites folded. -/
def Diagnostic.foldCase (d : Diagnostic) : Diagnostic :=
  { d with cause := d.cause.foldCase }

/-- Folding a cause changes its wording up to case only. -/
theorem Cause.message_foldCase (cause : Cause) :
    Text.Alike cause.foldCase.message cause.message := by
  unfold Text.Alike
  cases cause <;>
    simp only [foldCase, message, Text.foldCase_append,
      Text.foldCase_foldCase]

-- ========================================================= one item

namespace Lead

theorem wordKind_foldCase (w : Text) :
    wordKind (Text.foldCase w) = wordKind w := by
  unfold wordKind
  rw [isKeyword_foldCase]

theorem contains_twoCharSymbols_foldCase (w : Text) :
    twoCharSymbols.contains (Text.foldCase w) = twoCharSymbols.contains w := by
  unfold twoCharSymbols
  simp only [List.contains_cons, List.contains_nil]
  rw [Text.foldCase_beq (by decide), Text.foldCase_beq (by decide)]

theorem contains_singleCharSymbols_foldCase (c : CodePoint) :
    singleCharSymbols.contains c.foldCase = singleCharSymbols.contains c :=
  CodePoint.foldCase_class (by decide) c

theorem lexemeAt_foldCase (c : CodePoint) (rest : Text) :
    lexemeAt c.foldCase (Text.foldCase rest)
      = ((lexemeAt c rest).1, Text.foldCase (lexemeAt c rest).2) := by
  have hpair : twoCharSymbols.contains
      (c.foldCase :: (Text.foldCase rest).take 1)
        = twoCharSymbols.contains (c :: rest.take 1) := by
    have htake : (Text.foldCase rest).take 1 = Text.foldCase (rest.take 1) :=
      (List.map_take ..).symm
    rw [htake, ← Text.foldCase_cons, contains_twoCharSymbols_foldCase]
  have hminus : c.foldCase = CodePoint.char '-' ↔ c = .char '-' :=
    CodePoint.foldCase_eq_iff (by decide)
  unfold lexemeAt
  simp only [hpair, hminus, Text.any_head?_foldCase isDigit_foldCase,
    contains_singleCharSymbols_foldCase, isDigit_foldCase,
    isNameStart_foldCase, Text.takeWhile_foldCase isDigit_foldCase,
    Text.takeWhile_foldCase isNameChar_foldCase, ← Text.foldCase_cons,
    wordKind_foldCase]
  split
  · exact Prod.ext rfl (List.map_take ..).symm
  · repeat' split
    all_goals rfl

theorem opening?_foldCase (text : Text) :
    CommentStyle.opening? (Text.foldCase text)
      = CommentStyle.opening? text := by
  unfold CommentStyle.opening?
  congr 1
  funext style
  exact Text.isPrefixOf_foldCase (by cases style <;> decide) text

/-- What begins at the head of a text, folded. -/
def foldCase : Lead → Lead
  | .lexeme kind more => .lexeme kind (Text.foldCase more)
  | lead => lead

theorem read_foldCase (c : CodePoint) (rest : Text) :
    Lead.read c.foldCase (Text.foldCase rest)
      = (Lead.read c rest).foldCase := by
  unfold Lead.read
  rw [isBlank_foldCase, ← Text.foldCase_cons, opening?_foldCase,
    lexemeAt_foldCase]
  split
  · rfl
  · split <;> rfl

end Lead

-- ========================================================= the whole text

theorem Position.after_foldCase (p : Position) (c : CodePoint)
    (next : Option CodePoint) :
    p.after c.foldCase (next.map CodePoint.foldCase) = p.after c next := by
  have hfeed : c.foldCase = CodePoint.char '\n' ↔ c = .char '\n' :=
    CodePoint.foldCase_eq_iff (by decide)
  have hreturn : c.foldCase = CodePoint.char '\r' ↔ c = .char '\r' :=
    CodePoint.foldCase_eq_iff (by decide)
  have hnext : next.map CodePoint.foldCase = some (.char '\n')
      ↔ next = some (.char '\n') :=
    CodePoint.map_foldCase_eq_some_iff (by decide)
  unfold after
  simp only [hfeed, hreturn, hnext]

namespace Scanner

/-- A scanner with the text and all that is gathered from it folded. -/
def foldCase (s : Scanner) : Scanner :=
  ⟨s.cursor.map CodePoint.foldCase, s.pos, s.tokens.map Token.foldCase,
    s.errors.map Diagnostic.foldCase⟩

theorem ofText_foldCase (text : Text) :
    ofText (Text.foldCase text) = (ofText text).foldCase := rfl

theorem ahead_foldCase (s : Scanner) :
    s.foldCase.ahead = Text.foldCase s.ahead := rfl

theorem table_foldCase (s : Scanner) :
    s.foldCase.table = s.table.map Token.foldCase := List.map_reverse.symm

theorem findings_foldCase (s : Scanner) :
    s.foldCase.findings = s.findings.map Diagnostic.foldCase :=
  List.map_reverse.symm

theorem advance_foldCase (s : Scanner) :
    s.foldCase.advance = s.advance.foldCase := by
  have hpos : s.foldCase.advance.pos = s.advance.pos := by
    unfold advance
    rw [ahead_foldCase]
    cases s.ahead with
    | nil => rfl
    | cons c rest =>
      show s.pos.after c.foldCase (Text.foldCase rest).head? = _
      rw [Text.head?_foldCase, Position.after_foldCase]
  have hcursor : s.foldCase.advance.cursor
      = s.advance.cursor.map CodePoint.foldCase := Cursor.map_advance ..
  show Scanner.mk _ _ _ _ = Scanner.mk _ _ _ _
  rw [Scanner.mk.injEq]
  exact ⟨hcursor, hpos, rfl, rfl⟩

theorem advanceBy_foldCase (n : Nat) (s : Scanner) :
    advanceBy n s.foldCase = (advanceBy n s).foldCase := by
  induction n generalizing s with
  | zero => rfl
  | succ n ih => rw [advanceBy, advance_foldCase, ih, advanceBy]

theorem distanceTo?_foldCase {closer : Text} (hcloser : Text.Caseless closer)
    (text : Text) :
    distanceTo? closer (Text.foldCase text) = distanceTo? closer text := by
  induction text with
  | nil => rfl
  | cons c rest ih =>
    have hhere := Text.isPrefixOf_foldCase hcloser (c :: rest)
    rw [Text.foldCase_cons] at hhere ⊢
    rw [distanceTo?, distanceTo?, hhere, ih]

/-- A comment is closed at the same distance. -/
theorem skipComment_foldCase (opener closer : Text)
    (hcloser : Text.Caseless closer) (s : Scanner) :
    s.foldCase.skipComment opener closer
      = ((s.skipComment opener closer).1,
        (s.skipComment opener closer).2.foldCase) := by
  unfold skipComment
  simp only [advanceBy_foldCase, ahead_foldCase,
    distanceTo?_foldCase hcloser, Text.length_foldCase]
  split <;> rfl

theorem scanItems_foldCase (s : Scanner) :
    s.foldCase.scanItems = s.scanItems.foldCase := by
  induction hn : s.ahead.length using Nat.strongRecOn generalizing s with
  | ind n ih =>
    cases hahead : s.ahead with
    | nil =>
      rw [scanItems_nil hahead, scanItems_nil]
      rw [ahead_foldCase, hahead]
      rfl
    | cons c rest =>
      have hfold : s.foldCase.ahead = c.foldCase :: Text.foldCase rest := by
        rw [ahead_foldCase, hahead]
        rfl
      have hread := Lead.read_foldCase c rest
      cases hlead : Lead.read c rest with
      | blank =>
        rw [hlead] at hread
        rw [scanItems_blank hahead hlead, scanItems_blank hfold hread,
          advance_foldCase]
        refine ih _ ?_ _ rfl
        rw [ahead_advance, ← hn, hahead]
        exact Nat.lt_succ_self _
      | comment style =>
        rw [hlead] at hread
        have hskip := skipComment_foldCase style.opener style.closer
          (by cases style <;> decide) s
        rw [scanItems_comment hahead hlead, scanItems_comment hfold hread,
          hskip]
        have hshort := length_ahead_skipComment_lt style s (by
          rw [hahead]
          exact List.cons_ne_nil _ _)
        split
        · exact ih _ (hn ▸ hshort) _ rfl
        · rfl
      | lexeme kind more =>
        rw [hlead] at hread
        rw [scanItems_lexeme hahead hlead, scanItems_lexeme hfold hread,
          Text.length_foldCase, advanceBy_foldCase]
        refine ih _ ?_ ((advanceBy (more.length + 1) s).push
          ⟨kind, c :: more, s.pos⟩) rfl
        rw [ahead_push, ahead_advanceBy, List.length_drop, ← hn, hahead,
          List.length_cons]
        omega

/-- A folded text is scanned like the text, and what is gathered is
folded. -/
theorem scan_foldCase (s : Scanner) :
    s.foldCase.scan = (s.scan.1, s.scan.2.foldCase) := by
  have hempty : s.scanItems.foldCase.errors.isEmpty
      = s.scanItems.errors.isEmpty := List.isEmpty_map
  unfold scan
  simp only [scanItems_foldCase, hempty]
  split <;> rfl

end Scanner

end VarSection
