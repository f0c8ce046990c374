/-
What is read from texts that are put together from words, integers, symbols
and blanks. `ReadAs p w rest ts q` says that the text `w` is read as the
lexemes `ts` where `rest` follows it, whatever is read from `rest`. Such
statements compose from left to right (`ReadAs.trans`), so a long text is
read piece by piece, and each piece only has to look at the character behind
it: nothing may go on with a word or with an integer there.
-/
import Mathlib.Data.List.TakeWhile
import VarSection.Proofs.Numeral
import VarSection.Proofs.Scanner.Places

namespace VarSection

-- ==================================================== what a lexeme begins

namespace Lead

theorem isBlank_eq_false_of_isNameChar {c : CodePoint}
    (h : isNameChar c = true) : isBlank c = false := by
  have hclass : ∀ d ∈ blanks ++ lineBreaks, isNameChar d = false := by decide
  rw [Bool.eq_false_iff]
  intro hblank
  unfold isBlank at hblank
  rw [Bool.or_eq_true, List.contains_iff_mem, List.contains_iff_mem,
    ← List.mem_append] at hblank
  rw [hclass c hblank] at h
  cases h

theorem opening?_of_isNameChar {c : CodePoint} (h : isNameChar c = true)
    (text : Text) : CommentStyle.opening? (c :: text) = none := by
  apply opening?_eq_none
  have hclass : ∀ d ∈ [CodePoint.char '{', CodePoint.char '('],
      isNameChar d = false := by decide
  intro hc
  rw [hclass c hc] at h
  cases h

/-- A run of characters of a set ends where what follows is not in it. -/
theorem takeWhile_append_of_all {allowed : CodePoint → Bool}
    {w rest : Text} (hw : ∀ c ∈ w, allowed c = true)
    (hrest : rest.head?.any allowed = false) :
    (w ++ rest).takeWhile allowed = w := by
  rw [takeWhile_append_of_stop (.inr hrest)]
  exact List.takeWhile_eq_self_iff.2 hw

/-- A word is read where nothing goes on with it. -/
theorem read_word {c : CodePoint} {more rest : Text}
    (hstart : isNameStart c = true) (hmore : ∀ d ∈ more, isNameChar d = true)
    (hrest : rest.head?.any isNameChar = false) :
    Lead.read c (more ++ rest) = .lexeme (wordKind (c :: more)) more := by
  have hc : isNameChar c = true := by
    unfold isNameChar
    rw [hstart, Bool.true_or]
  obtain ⟨hkind, htaken⟩ :=
    (cut_lexemeAt c (more ++ rest)).kind_of_isNameStart hstart
  rw [takeWhile_append_of_all hmore hrest] at htaken
  rw [htaken] at hkind
  exact read_eq_lexeme_iff.2 ⟨isBlank_eq_false_of_isNameChar hc,
    opening?_of_isNameChar hc _, Prod.ext hkind htaken⟩

/-- A number without a sign is cut as one. -/
theorem Cut.kind_of_isDigit {c : CodePoint} {rest more : Text} {kind : Kind}
    (h : Cut c rest kind more) (hdigit : isDigit c = true) :
    kind = .number ∧ more = rest.takeWhile isDigit := by
  have hsymbols : ∀ d ∈ singleCharSymbols, isDigit d = false := by decide
  cases h with
  | pair hpair =>
    rw [hsymbols c (mem_singleCharSymbols_of_pair hpair c
      List.mem_cons_self)] at hdigit
    cases hdigit
  | negative => exact ⟨rfl, rfl⟩
  | symbol hsymbol =>
    rw [hsymbols c (List.contains_iff_mem.1 hsymbol)] at hdigit
    cases hdigit
  | number => exact ⟨rfl, rfl⟩
  | word hstart =>
    rw [isNameStart_eq_false_of_isDigit hdigit] at hstart
    cases hstart
  | unknown _ hno _ =>
    rw [hno] at hdigit
    cases hdigit

/-- Digits are read as a number where no digit follows them. -/
theorem read_digits {c : CodePoint} {more rest : Text}
    (hc : isDigit c = true) (hmore : ∀ d ∈ more, isDigit d = true)
    (hrest : rest.head?.any isDigit = false) :
    Lead.read c (more ++ rest) = .lexeme .number more := by
  have hname : isNameChar c = true := by
    unfold isNameChar
    rw [hc, Bool.or_true]
  obtain ⟨hkind, htaken⟩ :=
    (cut_lexemeAt c (more ++ rest)).kind_of_isDigit hc
  rw [takeWhile_append_of_all hmore hrest] at htaken
  exact read_eq_lexeme_iff.2 ⟨isBlank_eq_false_of_isNameChar hname,
    opening?_of_isNameChar hname _, Prod.ext hkind htaken⟩

/-- A minus sign goes on with digits. -/
theorem read_minus {more rest : Text} (hne : more ≠ [])
    (hmore : ∀ d ∈ more, isDigit d = true)
    (hrest : rest.head?.any isDigit = false) :
    Lead.read (.char '-') (more ++ rest) = .lexeme .number more := by
  obtain ⟨c, digits, rfl⟩ := List.exists_cons_of_ne_nil hne
  have hc : isDigit c = true := hmore c List.mem_cons_self
  have hpair : ¬ twoCharSymbols.contains
      (CodePoint.char '-' :: (c :: (digits ++ rest)).take 1) = true := by
    intro hpair
    have hheads : ∀ pair ∈ twoCharSymbols,
        pair.head? ≠ some (CodePoint.char '-') := by decide
    exact hheads _ (List.contains_iff_mem.1 hpair) rfl
  refine read_eq_lexeme_iff.2
    ⟨by decide, opening?_eq_none (by decide) _, ?_⟩
  rw [List.cons_append]
  unfold lexemeAt
  rw [if_neg hpair, if_pos (by simp [hc]), ← List.cons_append,
    takeWhile_append_of_all hmore hrest]

end Lead

-- ================================================================== pieces

/-- A text that begins at a place is read as some lexemes, up to another
place, where `rest` follows it and whatever is read from there. No number of
it has too many digits. -/
structure ReadAs (p : Position) (w rest : Text) (ts : List Token)
    (q : Position) : Prop where
  scans : ∀ {tokens : List Token} {r : Position},
    Scans q rest tokens r → Scans p (w ++ rest) (ts ++ tokens) r
  readable : Readable ts

namespace ReadAs

variable {p q r : Position} {w v rest : Text} {ts us : List Token}
  {c : CodePoint}

theorem nil (p : Position) (rest : Text) : ReadAs p [] rest [] p where
  scans h := h
  readable := readable_nil

theorem trans (h : ReadAs p w (v ++ rest) ts q) (h' : ReadAs q v rest us r) :
    ReadAs p (w ++ v) rest (ts ++ us) r where
  scans hrest := by
    have hall := h.scans (h'.scans hrest)
    rw [← List.append_assoc, ← List.append_assoc] at hall
    exact hall
  readable := h.readable.append h'.readable

theorem blank (hc : isBlank c = true) (p : Position) (rest : Text) :
    ReadAs p [c] rest [] (p.after c rest.head?) where
  scans hrest := .blank (Lead.read_eq_blank_iff.2 hc) hrest
  readable := readable_nil

/-- What begins at the head of a text as a lexeme is read as one. -/
theorem lexeme {kind : Kind}
    (hlead : Lead.read c (w ++ rest) = .lexeme kind w)
    (hreadable : kind = .number →
      Numeral.digitCount (c :: w) ≤ integerDigitsMax) (p : Position) :
    ReadAs p (c :: w) rest [⟨kind, c :: w, p⟩] (p.behind (c :: w) rest) where
  scans hrest := .lexeme hlead hrest
  readable _ ht hkind := by
    obtain rfl := List.mem_singleton.1 ht
    exact hreadable hkind

theorem symbol (hlead : Lead.read c (w ++ rest) = .lexeme .symbol w)
    (p : Position) :
    ReadAs p (c :: w) rest [⟨.symbol, c :: w, p⟩] (p.behind (c :: w) rest) :=
  lexeme hlead Kind.noConfusion p

theorem solitary (hc : c ∈ [CodePoint.char ',', .char ';', .char '[',
      .char ']']) (p : Position) (rest : Text) :
    ReadAs p [c] rest [⟨.symbol, [c], p⟩] (p.behind [c] rest) :=
  symbol (Lead.read_solitary hc rest) p

end ReadAs

/-- Whether a text is a word: it begins and goes on like a name. -/
structure Text.IsWord (w : Text) : Prop where
  start : w.head?.any isNameStart = true
  chars : ∀ c ∈ w, isNameChar c = true

instance (w : Text) : Decidable w.IsWord :=
  decidable_of_iff (_ ∧ _) ⟨fun h => ⟨h.1, h.2⟩, fun h => ⟨h.start, h.chars⟩⟩

theorem ReadAs.word {w rest : Text} (hw : w.IsWord)
    (hrest : rest.head?.any isNameChar = false) (p : Position) :
    ReadAs p w rest [⟨Lead.wordKind w, w, p⟩] (p.behind w rest) := by
  obtain ⟨hstart, hchars⟩ := hw
  cases w with
  | nil => cases hstart
  | cons c more =>
    apply lexeme
    · apply Lead.read_word hstart _ hrest
      intro d hd
      exact hchars d (List.mem_cons_of_mem c hd)
    · intro hkind
      unfold Lead.wordKind at hkind
      split at hkind <;> cases hkind

/-- A written integer is read as one number where no digit follows it. -/
theorem ReadAs.integer {n : Int} {rest : Text}
    (hn : n.natAbs < 10 ^ integerDigitsMax)
    (hrest : rest.head?.any isDigit = false) (p : Position) :
    ReadAs p (Text.ofInt n) rest [⟨.number, Text.ofInt n, p⟩]
      (p.behind (Text.ofInt n) rest) := by
  have hcount : Numeral.digitCount (Text.ofInt n) ≤ integerDigitsMax :=
    (Numeral.digitCount_ofInt_le_iff n (by decide)).2 hn
  have hdigits : ∀ c ∈ Text.digitsOf n.natAbs, isDigit c = true := by
    intro c hc
    exact isDigit_of_mem_digitsOf hc
  have hne := Text.digitsOf_ne_nil n.natAbs
  rw [Text.ofInt_eq] at hcount ⊢
  by_cases hneg : n < 0
  · rw [if_pos hneg] at hcount ⊢
    apply lexeme
    · exact Lead.read_minus hne hdigits hrest
    · intro _
      exact hcount
  · rw [if_neg hneg] at hcount ⊢
    obtain ⟨c, more, hmore⟩ := List.exists_cons_of_ne_nil hne
    rw [hmore] at hcount hdigits ⊢
    apply lexeme
    · apply Lead.read_digits (hdigits c List.mem_cons_self) _ hrest
      intro d hd
      exact hdigits d (List.mem_cons_of_mem c hd)
    · intro _
      exact hcount

end VarSection
