/-
What the lexemes of a text look like. `Token.WellCut` collects what the
rules of `Lead.lexemeAt` promise of one lexeme: names can be declared,
numbers are integers, and only words begin like a name. `Token.Apart`
says the same of two neighbours, that a word reaches as far as it can:
nothing that goes on with it is written right behind.

Both hold throughout a table (`Scans.wellCut`, `Scans.isChain_apart` in
`Places`), and they are all that an analysis has to know about the text
behind its lexemes.
-/
import VarSection.Analysis.Names
import VarSection.Proofs.Scanner.Reading

namespace VarSection

-- ==================================================== classes of characters

/-- A digit is no character that a name begins with. -/
theorem isNameStart_eq_false_of_isDigit {c : CodePoint}
    (h : isDigit c = true) : isNameStart c = false := by
  unfold isDigit CodePoint.within at h
  unfold isNameStart CodePoint.within
  simp only [Bool.and_eq_true, decide_eq_true_eq, Char.reduceToNat] at h
  have hunderscore : (c == CodePoint.char '_') = false := by
    rw [beq_eq_false_iff_ne]
    rintro rfl
    exact absurd h.2 (by decide)
  rw [hunderscore, Bool.or_false, Bool.or_eq_false_iff]
  simp only [Bool.and_eq_false_iff, decide_eq_false_iff_not,
    Char.reduceToNat]
  omega

/-- The digits of a source text are decimal digits. -/
theorem isDecimalDigit_of_isDigit {c : CodePoint} (h : isDigit c = true) :
    Text.isDecimalDigit c = true := by
  unfold isDigit CodePoint.within at h
  simp only [Char.reduceToNat] at h
  unfold Text.isDecimalDigit Text.digitValue?
  rw [Option.isSome_map, List.find?_isSome]
  exact ⟨0x30, List.mem_cons_self, h⟩

/-- Whether a character ends a line. -/
def isLineBreak (c : CodePoint) : Bool := lineBreaks.contains c

theorem isLineBreak_eq_false_of_isBlank {c : CodePoint}
    (h : isBlank c = false) : isLineBreak c = false :=
  (Bool.or_eq_false_iff.1 h).2

theorem isLineBreak_eq_false_of_isDigit {c : CodePoint}
    (h : isDigit c = true) : isLineBreak c = false := by
  cases hbreak : isLineBreak c with
  | false => rfl
  | true =>
    unfold isLineBreak lineBreaks at hbreak
    simp only [List.contains_cons, List.contains_nil, Bool.or_false,
      Bool.or_eq_true, beq_iff_eq] at hbreak
    rcases hbreak with rfl | rfl
    · exact absurd h (by decide)
    · exact absurd h (by decide)

theorem isLineBreak_eq_false_of_isNameChar {c : CodePoint}
    (h : isNameChar c = true) : isLineBreak c = false := by
  cases hbreak : isLineBreak c with
  | false => rfl
  | true =>
    unfold isLineBreak lineBreaks at hbreak
    simp only [List.contains_cons, List.contains_nil, Bool.or_false,
      Bool.or_eq_true, beq_iff_eq] at hbreak
    rcases hbreak with rfl | rfl
    · exact absurd h (by decide)
    · exact absurd h (by decide)

/-- A text on one line keeps its last character where a line feed would be
dropped. -/
theorem Numeral.dropFinalBreak_eq_self {text : Text}
    (h : ∀ c ∈ text, isLineBreak c = false) :
    dropFinalBreak text = text := by
  unfold dropFinalBreak
  rw [if_neg]
  intro hlast
  exact absurd (h _ (List.mem_of_getLast? hlast)) (by decide)

/-- A text that begins with a digit has no sign. -/
theorem Numeral.unsigned_of_isDigit {c : CodePoint} (h : isDigit c = true)
    (more : Text) : unsigned (c :: more) = c :: more := by
  unfold unsigned
  split
  next heq =>
    rw [(List.cons.inj heq).1] at h
    exact absurd h (by decide)
  next => rfl

-- ============================================================== one lexeme

/-- What a lexeme of a text is like: it is not empty and lies on one line,
a name can be declared, a number has digits, only words begin like a name,
and a word that is a keyword is classed as one. -/
structure Token.WellCut (t : Token) : Prop where
  notEnding : t.isEnding = false
  nonempty : t.text ≠ []
  oneLine : ∀ c ∈ t.text, isLineBreak c = false
  name : t.kind = .identifier → isValidName t.text = true
  digits : t.kind = .number → Numeral.digits t.text ≠ []
    ∧ (Numeral.digits t.text).all isDigit = true
  word : t.text.head?.any isNameStart = true →
    t.kind = .identifier ∨ t.kind = .keyword
  keyword : t.kind = .keyword → VarSection.isKeyword t.text = true

/-- A lexeme does not begin with a line feed. -/
theorem Token.WellCut.head?_append_ne {t : Token} (h : t.WellCut)
    (rest : Text) :
    (t.text ++ rest).head? ≠ some (CodePoint.char '\n') := by
  intro hhead
  cases htext : t.text with
  | nil => exact h.nonempty htext
  | cons c more =>
    rw [htext] at hhead
    have hbreak := h.oneLine c (by rw [htext]; exact List.mem_cons_self)
    rw [Option.some.inj hhead] at hbreak
    exact absurd hbreak (by decide)

theorem Token.WellCut.isInteger {t : Token} (h : t.WellCut)
    (hkind : t.kind = .number) : Numeral.isInteger t.text = true := by
  obtain ⟨hne, hdigits⟩ := h.digits hkind
  unfold Numeral.isInteger
  rw [Bool.and_eq_true, Bool.not_eq_true', List.isEmpty_eq_false_iff]
  refine ⟨hne, ?_⟩
  rw [List.all_eq_true] at hdigits ⊢
  exact fun c hc => isDecimalDigit_of_isDigit (hdigits c hc)

/-- Where a comment opens its bracket is written. -/
theorem CommentStyle.opener_isPrefix {style : CommentStyle} {text : Text}
    (h : opening? text = some style) : style.opener <+: text := by
  unfold opening? at h
  have hprefix := List.find?_some
    (p := fun style : CommentStyle => style.opener.isPrefixOf text) h
  exact List.isPrefixOf_iff_prefix.1 hprefix

namespace Lead

/-- A lexeme begins where no blank and no comment does. -/
theorem read_eq_lexeme_iff {c : CodePoint} {rest more : Text} {kind : Kind} :
    Lead.read c rest = .lexeme kind more
      ↔ isBlank c = false ∧ CommentStyle.opening? (c :: rest) = none
        ∧ lexemeAt c rest = (kind, more) := by
  unfold Lead.read
  cases hblank : isBlank c with
  | true => simp
  | false =>
    cases hopening : CommentStyle.opening? (c :: rest) with
    | some style => simp
    | none => simp [Prod.ext_iff]

theorem read_eq_blank_iff {c : CodePoint} {rest : Text} :
    Lead.read c rest = .blank ↔ isBlank c = true := by
  unfold Lead.read
  cases hblank : isBlank c with
  | true => simp
  | false =>
    cases hopening : CommentStyle.opening? (c :: rest) with
    | some style => simp
    | none => simp

/-- The rules by which a lexeme is cut off the text `c :: rest`, in the
order in which they are tried: its class and what of `rest` belongs to
it. -/
inductive Cut (c : CodePoint) (rest : Text) : Kind → Text → Prop
  | pair (hpair : twoCharSymbols.contains (c :: rest.take 1) = true) :
      Cut c rest .symbol (rest.take 1)
  | negative (hminus : c = CodePoint.char '-')
      (hdigit : rest.head?.any isDigit = true) :
      Cut c rest .number (rest.takeWhile isDigit)
  | symbol (hsymbol : singleCharSymbols.contains c = true) :
      Cut c rest .symbol []
  | number (hdigit : isDigit c = true) :
      Cut c rest .number (rest.takeWhile isDigit)
  | word (hstart : isNameStart c = true) :
      Cut c rest (wordKind (c :: rest.takeWhile isNameChar))
        (rest.takeWhile isNameChar)
  | unknown (hsymbol : singleCharSymbols.contains c = false)
      (hdigit : isDigit c = false) (hstart : isNameStart c = false) :
      Cut c rest .unknown []

theorem cut_lexemeAt (c : CodePoint) (rest : Text) :
    Cut c rest (lexemeAt c rest).1 (lexemeAt c rest).2 := by
  unfold lexemeAt
  split
  next hpair => exact .pair hpair
  next hpair =>
    split
    next hnegative =>
      rw [Bool.and_eq_true, decide_eq_true_eq] at hnegative
      exact .negative hnegative.1 hnegative.2
    next hnegative =>
      split
      next hsymbol => exact .symbol hsymbol
      next hsymbol =>
        split
        next hdigit => exact .number hdigit
        next hdigit =>
          split
          next hstart => exact .word hstart
          next hstart =>
            exact .unknown (Bool.eq_false_iff.2 hsymbol)
              (Bool.eq_false_iff.2 hdigit) (Bool.eq_false_iff.2 hstart)

theorem cut_of_read {c : CodePoint} {rest more : Text} {kind : Kind}
    (h : Lead.read c rest = .lexeme kind more) : Cut c rest kind more := by
  have hcut := cut_lexemeAt c rest
  rw [(read_eq_lexeme_iff.1 h).2.2] at hcut
  exact hcut

-- ================================================ what the rules promise

/-- A comment does not begin with a blank. -/
theorem isBlank_of_read_comment {c : CodePoint} {rest : Text}
    {style : CommentStyle} (h : Lead.read c rest = .comment style) :
    isBlank c = false := by
  unfold Lead.read at h
  split at h
  next => cases h
  next hblank => exact Bool.eq_false_iff.2 hblank

/-- Where characters of a set are taken off a text as far as they reach,
what follows is not in the set. -/
theorem head?_any_eq_false_of_takeWhile {p : CodePoint → Bool}
    {w rest : Text} (h : (w ++ rest).takeWhile p = w) :
    rest.head?.any p = false := by
  have hall : ∀ c ∈ w, p c = true := by
    rw [← h]
    exact List.all_eq_true.1 List.all_takeWhile
  rw [List.takeWhile_append_of_pos hall, List.append_right_eq_self] at h
  cases rest with
  | nil => rfl
  | cons c rest =>
    cases hc : p c with
    | false => exact hc
    | true =>
      rw [List.takeWhile_cons_of_pos hc] at h
      cases h

/-- A run of characters of a set does not reach what follows a text, if it
ends within the text or what follows is not in the set. -/
theorem takeWhile_append_of_stop {allowed : CodePoint → Bool}
    {w rest : Text}
    (h : (∃ c ∈ w, allowed c = false) ∨ rest.head?.any allowed = false) :
    (w ++ rest).takeWhile allowed = w.takeWhile allowed := by
  induction w with
  | nil =>
    rcases h with ⟨c, hc, -⟩ | hrest
    · cases hc
    · cases rest with
      | nil => rfl
      | cons c rest =>
        exact List.takeWhile_cons_of_neg (by simpa using hrest)
  | cons c w ih =>
    by_cases hc : allowed c = true
    · rw [List.cons_append, List.takeWhile_cons_of_pos hc,
        List.takeWhile_cons_of_pos hc, ih]
      rcases h with ⟨d, hd, hstop⟩ | hrest
      · rcases List.mem_cons.1 hd with rfl | hd
        · rw [hc] at hstop
          cases hstop
        · exact .inl ⟨d, hd, hstop⟩
      · exact .inr hrest
    · rw [List.cons_append, List.takeWhile_cons_of_neg hc,
        List.takeWhile_cons_of_neg hc]

/-- Where a comment is read its opening bracket was found. -/
theorem opening?_of_read {c : CodePoint} {more : Text} {style : CommentStyle}
    (h : Lead.read c more = .comment style) :
    CommentStyle.opening? (c :: more) = some style := by
  unfold Lead.read at h
  split at h
  · cases h
  · split at h
    next found hfound => cases h; exact hfound
    · cases h

/-- No comment opens with a character that no bracket begins with. -/
theorem opening?_eq_none {c : CodePoint}
    (hc : c ∉ [CodePoint.char '{', CodePoint.char '(']) (text : Text) :
    CommentStyle.opening? (c :: text) = none := by
  rw [List.mem_cons, List.mem_singleton, not_or] at hc
  unfold CommentStyle.opening?
  rw [List.find?_eq_none]
  intro style _
  rw [Bool.not_eq_true]
  cases style with
  | braces =>
    show (_ == c && _) = false
    rw [beq_eq_false_iff_ne.2 (Ne.symm hc.1), Bool.false_and]
  | stars =>
    show (_ == c && _) = false
    rw [beq_eq_false_iff_ne.2 (Ne.symm hc.2), Bool.false_and]

/-- A symbol that no other character goes on with is a lexeme in front of any
text. -/
theorem read_solitary {c : CodePoint}
    (hc : c ∈ [CodePoint.char ',', .char ';', .char '[', .char ']'])
    (text : Text) : Lead.read c text = .lexeme .symbol [] := by
  have hclass : ∀ d ∈ [CodePoint.char ',', .char ';', .char '[', .char ']'],
      isBlank d = false ∧ d ∉ [CodePoint.char '{', CodePoint.char '(']
        ∧ d ≠ CodePoint.char '-' ∧ singleCharSymbols.contains d = true
        ∧ ∀ pair ∈ twoCharSymbols, pair.head? ≠ some d := by decide
  obtain ⟨hblank, hopening, hminus, hsymbol, hpairs⟩ := hclass c hc
  have hpair : ¬ twoCharSymbols.contains (c :: text.take 1) = true := by
    intro hpair
    exact hpairs _ (List.contains_iff_mem.1 hpair) rfl
  refine read_eq_lexeme_iff.2 ⟨hblank, opening?_eq_none hopening text, ?_⟩
  unfold lexemeAt
  rw [if_neg hpair, if_neg (by simp [hminus]), if_pos hsymbol]

/-- The characters that a set admits, taken off a text, are in the set. -/
private theorem mem_takeWhile_of_class {p : CodePoint → Bool} {text : Text}
    {d : CodePoint} (h : d ∈ text.takeWhile p) : p d = true :=
  List.all_eq_true.1 (List.all_takeWhile (p := p) (l := text)) d h

/-- The characters of a two-character symbol are symbols themselves. -/
theorem mem_singleCharSymbols_of_pair {c : CodePoint} {more : Text}
    (h : twoCharSymbols.contains (c :: more) = true) :
    ∀ d ∈ c :: more, d ∈ singleCharSymbols := by
  unfold twoCharSymbols at h
  simp only [List.contains_cons, List.contains_nil, Bool.or_false,
    Bool.or_eq_true, beq_iff_eq] at h
  rcases h with h | h
  · rw [h]; decide
  · rw [h]; decide

theorem isNameStart_eq_false_of_symbol {c : CodePoint}
    (h : c ∈ singleCharSymbols) : isNameStart c = false := by
  have hall : ∀ d ∈ singleCharSymbols, isNameStart d = false := by decide
  exact hall c h

theorem isLineBreak_eq_false_of_symbol {c : CodePoint}
    (h : c ∈ singleCharSymbols) : isLineBreak c = false := by
  have hall : ∀ d ∈ singleCharSymbols, isLineBreak d = false := by decide
  exact hall c h

/-- A lexeme lies on one line. -/
theorem Cut.oneLine {c : CodePoint} {rest more : Text} {kind : Kind}
    (h : Cut c rest kind more) (hblank : isBlank c = false) :
    ∀ d ∈ c :: more, isLineBreak d = false := by
  intro d hd
  rcases List.mem_cons.1 hd with rfl | hd
  · exact isLineBreak_eq_false_of_isBlank hblank
  · cases h with
    | pair hpair =>
      exact isLineBreak_eq_false_of_symbol (mem_singleCharSymbols_of_pair
        hpair d (List.mem_cons_of_mem _ hd))
    | negative hminus hdigit =>
      exact isLineBreak_eq_false_of_isDigit (mem_takeWhile_of_class hd)
    | symbol hsymbol => cases hd
    | number hdigit =>
      exact isLineBreak_eq_false_of_isDigit (mem_takeWhile_of_class hd)
    | word hstart =>
      exact isLineBreak_eq_false_of_isNameChar (mem_takeWhile_of_class hd)
    | unknown => cases hd

/-- Only a word begins like a name. -/
theorem Cut.kind_of_isNameStart {c : CodePoint} {rest more : Text}
    {kind : Kind} (h : Cut c rest kind more)
    (hstart : isNameStart c = true) :
    kind = wordKind (c :: more) ∧ more = rest.takeWhile isNameChar := by
  cases h with
  | pair hpair =>
    rw [isNameStart_eq_false_of_symbol (mem_singleCharSymbols_of_pair
      hpair c List.mem_cons_self)] at hstart
    cases hstart
  | negative hminus hdigit =>
    rw [hminus] at hstart
    exact absurd hstart (by decide)
  | symbol hsymbol =>
    rw [isNameStart_eq_false_of_symbol
      (List.contains_iff_mem.1 hsymbol)] at hstart
    cases hstart
  | number hdigit =>
    rw [isNameStart_eq_false_of_isDigit hdigit] at hstart
    cases hstart
  | word _ => exact ⟨rfl, rfl⟩
  | unknown _ _ hno =>
    rw [hno] at hstart
    cases hstart

/-- A name or a keyword is a word. -/
theorem Cut.isNameStart_of_kind {c : CodePoint} {rest more : Text}
    {kind : Kind} (h : Cut c rest kind more)
    (hkind : kind = .identifier ∨ kind = .keyword) :
    isNameStart c = true := by
  cases h with
  | word hstart => exact hstart
  | pair => simp at hkind
  | negative => simp at hkind
  | symbol => simp at hkind
  | number => simp at hkind
  | unknown => simp at hkind

/-- The digits of a number are those that it is written with. -/
theorem Cut.digits {c : CodePoint} {rest more : Text}
    (h : Cut c rest .number more) (hblank : isBlank c = false) :
    Numeral.digits (c :: more) ≠ []
      ∧ (Numeral.digits (c :: more)).all isDigit = true := by
  unfold Numeral.digits
  rw [Numeral.dropFinalBreak_eq_self (h.oneLine hblank)]
  generalize hkind : Kind.number = kind at h
  cases h with
  | pair => cases hkind
  | symbol => cases hkind
  | unknown => cases hkind
  | word hstart =>
    unfold wordKind at hkind
    split at hkind <;> cases hkind
  | negative hminus hdigit =>
    subst hminus
    show rest.takeWhile isDigit ≠ [] ∧ _
    refine ⟨?_, List.all_takeWhile⟩
    cases rest with
    | nil => cases hdigit
    | cons d rest =>
      have hd : isDigit d = true := hdigit
      rw [List.takeWhile_cons_of_pos hd]
      exact List.cons_ne_nil _ _
  | number hdigit =>
    rw [Numeral.unsigned_of_isDigit hdigit]
    refine ⟨List.cons_ne_nil _ _, ?_⟩
    rw [List.all_cons, hdigit, Bool.true_and]
    exact List.all_takeWhile

/-- A word that is no keyword can be declared. -/
theorem isValidName_of_word {c : CodePoint} {rest : Text}
    (hstart : isNameStart c = true)
    (hkind : wordKind (c :: rest.takeWhile isNameChar) = .identifier) :
    isValidName (c :: rest.takeWhile isNameChar) = true := by
  unfold wordKind at hkind
  split at hkind
  · cases hkind
  next hkeyword =>
    unfold isValidName isName
    rw [Numeral.dropFinalBreak_eq_self, Bool.eq_false_iff.2 hkeyword]
    · show ((isNameStart c && List.all _ isNameChar) && !false) = true
      rw [hstart, List.all_takeWhile]
      rfl
    · intro d hd
      rcases List.mem_cons.1 hd with rfl | hd
      · exact isLineBreak_eq_false_of_isNameChar
          (by unfold isNameChar; rw [hstart]; rfl)
      · exact isLineBreak_eq_false_of_isNameChar (mem_takeWhile_of_class hd)

/-- What is cut off a text is well cut. -/
theorem wellCut_of_read {c : CodePoint} {rest more : Text} {kind : Kind}
    (h : Lead.read c rest = .lexeme kind more) (p : Position) :
    Token.WellCut ⟨kind, c :: more, p⟩ := by
  have hcut := cut_of_read h
  have hblank := (read_eq_lexeme_iff.1 h).1
  refine ⟨?_, List.cons_ne_nil _ _, hcut.oneLine hblank, ?_, ?_, ?_, ?_⟩
  · cases hcut with
    | word => unfold wordKind; split <;> rfl
    | _ => rfl
  · rintro (rfl : kind = .identifier)
    have hstart := hcut.isNameStart_of_kind (.inl rfl)
    obtain ⟨hkind, rfl⟩ := hcut.kind_of_isNameStart hstart
    exact isValidName_of_word hstart hkind.symm
  · rintro (rfl : kind = .number)
    exact hcut.digits hblank
  · intro hstart
    obtain ⟨hkind, -⟩ := hcut.kind_of_isNameStart hstart
    show kind = .identifier ∨ kind = .keyword
    rw [hkind]
    unfold wordKind
    split
    · exact .inr rfl
    · exact .inl rfl
  · rintro (rfl : kind = .keyword)
    obtain ⟨hkind, -⟩ := hcut.kind_of_isNameStart
      (hcut.isNameStart_of_kind (.inr rfl))
    unfold wordKind at hkind
    split at hkind
    next hkeyword => exact hkeyword
    next => cases hkind

end Lead

end VarSection
