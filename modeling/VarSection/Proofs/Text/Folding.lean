/-
Texts up to the case of their ASCII letters. `Text.foldCase` writes each of
them small, and two texts are alike when nothing else tells them apart
(`Text.Alike`).

Whatever is asked of a character has the same answer for both cases of a
letter, and for that the twenty-six capitals are all that has to be looked
at (`CodePoint.foldCase_class`). A sign that is no letter is itself and
nothing else up to case (`CodePoint.foldCase_beq`), so symbols are
recognized alike, and lower-casing forgets what folding forgets, also in
front of and behind a sigma (`Text.lower_foldCase`).
-/
import VarSection.Analysis.Names

namespace VarSection

namespace CodePoint

/-- A code point with an ASCII letter written small. -/
def foldCase : CodePoint → CodePoint
  | .char c => .char c.toLower
  | .half n => .half n

/-- The capital letters of ASCII. -/
def capitals : Text := "ABCDEFGHIJKLMNOPQRSTUVWXYZ"

/-- Nothing but the capitals is written in another way. -/
theorem foldCase_cases (c : CodePoint) : c.foldCase = c ∨ c ∈ capitals := by
  cases c with
  | half n => exact .inl rfl
  | char c =>
    by_cases hcapital : 'A'.val ≤ c.val ∧ c.val ≤ 'Z'.val
    · have hall : ∀ n ∈ List.range' 65 26,
          char (Char.ofNat n) ∈ capitals := by decide
      have hletter := hall c.toNat (List.mem_range'_1.2
        ⟨UInt32.le_iff_toNat_le.1 hcapital.1,
          Nat.lt_succ_of_le (UInt32.le_iff_toNat_le.1 hcapital.2)⟩)
      rw [Char.ofNat_toNat] at hletter
      exact .inr hletter
    · left
      show char c.toLower = _
      unfold Char.toLower
      rw [dif_neg hcapital]

/-- What is the same for the two cases of each letter is the same for every
character and its folded form. -/
theorem foldCase_class {α : Type} {f : CodePoint → α}
    (h : ∀ c ∈ capitals, f c.foldCase = f c) (c : CodePoint) :
    f c.foldCase = f c := by
  rcases foldCase_cases c with hsame | hcapital
  · rw [hsame]
  · exact h c hcapital

@[simp] theorem foldCase_foldCase (c : CodePoint) :
    c.foldCase.foldCase = c.foldCase :=
  foldCase_class (f := foldCase) (by decide) c

/-- A sign that no name begins with stands for itself alone. -/
theorem foldCase_eq_iff {d : CodePoint} (hd : isNameStart d = false)
    {c : CodePoint} : c.foldCase = d ↔ c = d := by
  rcases foldCase_cases c with hsame | hcapital
  · rw [hsame]
  · have hletter : ∀ c ∈ capitals, isNameStart c = true
        ∧ isNameStart c.foldCase = true := by decide
    obtain ⟨hc, hfold⟩ := hletter c hcapital
    constructor
    · rintro rfl
      rw [hfold] at hd
      cases hd
    · rintro rfl
      rw [hc] at hd
      cases hd

theorem foldCase_beq {d : CodePoint} (hd : isNameStart d = false)
    (c : CodePoint) : (c.foldCase == d) = (c == d) := by
  rw [Bool.eq_iff_iff, beq_iff_eq, beq_iff_eq, foldCase_eq_iff hd]

theorem map_foldCase_eq_some_iff {d : CodePoint}
    (hd : isNameStart d = false) {c? : Option CodePoint} :
    c?.map foldCase = some d ↔ c? = some d := by
  cases c? with
  | none => exact Iff.rfl
  | some c =>
    rw [Option.map_some, Option.some.injEq, Option.some.injEq,
      foldCase_eq_iff hd]

end CodePoint

-- =================================================================== texts

namespace Text

/-- A text with its ASCII letters written small. -/
def foldCase (text : Text) : Text := text.map CodePoint.foldCase

/-- Two texts agree code point by code point, up to the case of ASCII
letters. -/
def Alike (s t : Text) : Prop := foldCase s = foldCase t

instance (s t : Text) : Decidable (Alike s t) :=
  inferInstanceAs (Decidable (_ = _))

theorem foldCase_cons (c : CodePoint) (rest : Text) :
    foldCase (c :: rest) = c.foldCase :: foldCase rest := rfl

theorem foldCase_append (v w : Text) :
    foldCase (v ++ w) = foldCase v ++ foldCase w := List.map_append

@[simp] theorem foldCase_foldCase (w : Text) :
    foldCase (foldCase w) = foldCase w := by
  unfold foldCase
  rw [List.map_map]
  exact List.map_congr_left fun c _ => c.foldCase_foldCase

@[simp] theorem length_foldCase (w : Text) :
    (foldCase w).length = w.length := List.length_map _

theorem isEmpty_foldCase (w : Text) : (foldCase w).isEmpty = w.isEmpty := by
  cases w <;> rfl

theorem head?_foldCase (w : Text) :
    (foldCase w).head? = w.head?.map CodePoint.foldCase := List.head?_map

theorem join_foldCase (texts : List Text) :
    join (texts.map foldCase) = foldCase (join texts) :=
  List.map_flatten.symm

/-- Whether a character of a class is next is told alike. -/
theorem any_head?_foldCase {p : CodePoint → Bool}
    (hp : ∀ c, p c.foldCase = p c) (w : Text) :
    (foldCase w).head?.any p = w.head?.any p := by
  cases w with
  | nil => rfl
  | cons c w => exact hp c

theorem all_foldCase {p : CodePoint → Bool} (hp : ∀ c, p c.foldCase = p c)
    (w : Text) : (foldCase w).all p = w.all p := by
  induction w with
  | nil => rfl
  | cons c w ih => rw [foldCase_cons, List.all_cons, List.all_cons, hp, ih]

/-- A run of characters of a class reaches as far. -/
theorem takeWhile_foldCase {p : CodePoint → Bool}
    (hp : ∀ c, p c.foldCase = p c) (w : Text) :
    (foldCase w).takeWhile p = foldCase (w.takeWhile p) := by
  induction w with
  | nil => rfl
  | cons c w ih =>
    rw [foldCase_cons, List.takeWhile_cons, List.takeWhile_cons, hp, ih]
    split <;> rfl

theorem dropWhile_foldCase {p : CodePoint → Bool}
    (hp : ∀ c, p c.foldCase = p c) (w : Text) :
    (foldCase w).dropWhile p = foldCase (w.dropWhile p) := by
  induction w with
  | nil => rfl
  | cons c w ih =>
    rw [foldCase_cons, List.dropWhile_cons, List.dropWhile_cons, hp, ih]
    split <;> rfl

/-- Whether a text consists of signs only, none of which a name begins
with. -/
def Caseless (w : Text) : Prop := ∀ c ∈ w, isNameStart c = false

instance (w : Text) : Decidable (Caseless w) :=
  inferInstanceAs (Decidable (∀ c ∈ w, _))

/-- Such a text stands for itself alone. -/
theorem foldCase_beq {w : Text} (hw : Caseless w) (text : Text) :
    (foldCase text == w) = (text == w) := by
  induction w generalizing text with
  | nil => cases text <;> rfl
  | cons d w ih =>
    cases text with
    | nil => rfl
    | cons c text =>
      obtain ⟨hd, hw⟩ := List.forall_mem_cons.1 hw
      show (c.foldCase == d && foldCase text == w) = (c == d && text == w)
      rw [CodePoint.foldCase_beq hd, ih hw]

theorem isPrefixOf_foldCase {w : Text} (hw : Caseless w) (text : Text) :
    w.isPrefixOf (foldCase text) = w.isPrefixOf text := by
  induction w generalizing text with
  | nil => rw [List.isPrefixOf_nil_left, List.isPrefixOf_nil_left]
  | cons d w ih =>
    cases text with
    | nil => rfl
    | cons c text =>
      obtain ⟨hd, hw⟩ := List.forall_mem_cons.1 hw
      show (d == c.foldCase && w.isPrefixOf (foldCase text))
        = (d == c && w.isPrefixOf text)
      rw [BEq.comm (a := d), CodePoint.foldCase_beq hd, ih hw,
        BEq.comm (a := d)]

-- ============================================================== lower case

theorem isCaseIgnorable_foldCase (c : CodePoint) :
    isCaseIgnorable c.foldCase = isCaseIgnorable c :=
  CodePoint.foldCase_class (by decide) c

theorem isCased_foldCase (c : CodePoint) : isCased c.foldCase = isCased c :=
  CodePoint.foldCase_class (by decide) c

theorem lowerChar_foldCase (c : CodePoint) :
    lowerChar c.foldCase = lowerChar c :=
  CodePoint.foldCase_class (by decide) c

/-- Folding changes no letter into one without case, nor the other way
around. -/
theorem meetsCased_foldCase (w : Text) :
    meetsCased (foldCase w) = meetsCased w := by
  unfold meetsCased
  rw [dropWhile_foldCase isCaseIgnorable_foldCase,
    any_head?_foldCase isCased_foldCase]

theorem lowerAfter_foldCase (before text : Text) :
    lowerAfter (foldCase before) (foldCase text) = lowerAfter before text := by
  induction text generalizing before with
  | nil => rfl
  | cons c rest ih =>
    have hsigma : lowerSigma (foldCase before) (foldCase rest)
        = lowerSigma before rest := by
      unfold lowerSigma endsWord
      rw [meetsCased_foldCase, meetsCased_foldCase]
    have hsame : c.foldCase = CodePoint.char 'Σ' ↔ c = .char 'Σ' :=
      CodePoint.foldCase_eq_iff (by decide)
    rw [foldCase_cons, lowerAfter, lowerAfter, hsigma, lowerChar_foldCase,
      ← foldCase_cons, ih]
    simp only [hsame]

/-- The lower case of a text does not depend on the case of its letters. -/
theorem lower_foldCase (w : Text) : lower (foldCase w) = lower w :=
  lowerAfter_foldCase [] w

end Text

-- ======================================================= numbers and names

theorem isDigit_foldCase (c : CodePoint) : isDigit c.foldCase = isDigit c :=
  CodePoint.foldCase_class (by decide) c

theorem isNameStart_foldCase (c : CodePoint) :
    isNameStart c.foldCase = isNameStart c :=
  CodePoint.foldCase_class (by decide) c

theorem isNameChar_foldCase (c : CodePoint) :
    isNameChar c.foldCase = isNameChar c :=
  CodePoint.foldCase_class (by decide) c

theorem isBlank_foldCase (c : CodePoint) : isBlank c.foldCase = isBlank c :=
  CodePoint.foldCase_class (by decide) c

theorem isKeyword_foldCase (w : Text) :
    isKeyword (Text.foldCase w) = isKeyword w := by
  unfold isKeyword
  rw [Text.lower_foldCase]

namespace Numeral

theorem digitValue?_foldCase (c : CodePoint) :
    Text.digitValue? c.foldCase = Text.digitValue? c :=
  CodePoint.foldCase_class (by decide) c

theorem isDecimalDigit_foldCase (c : CodePoint) :
    Text.isDecimalDigit c.foldCase = Text.isDecimalDigit c := by
  unfold Text.isDecimalDigit
  rw [digitValue?_foldCase]

theorem dropFinalBreak_foldCase (w : Text) :
    dropFinalBreak (Text.foldCase w) = Text.foldCase (dropFinalBreak w) := by
  have hlast : (Text.foldCase w).getLast? = some (CodePoint.char '\n')
      ↔ w.getLast? = some (.char '\n') := by
    unfold Text.foldCase
    rw [List.getLast?_map]
    exact CodePoint.map_foldCase_eq_some_iff (by decide)
  unfold dropFinalBreak
  by_cases hbreak : w.getLast? = some (.char '\n')
  · rw [if_pos hbreak, if_pos (hlast.2 hbreak)]
    exact (List.map_dropLast ..).symm
  · rw [if_neg hbreak, if_neg (mt hlast.1 hbreak)]

theorem unsigned_of_head?_ne {w : Text}
    (h : w.head? ≠ some (CodePoint.char '-')) : unsigned w = w := by
  unfold unsigned
  split
  next => exact absurd rfl h
  next => rfl

theorem head?_foldCase_eq_minus_iff {w : Text} :
    (Text.foldCase w).head? = some (CodePoint.char '-')
      ↔ w.head? = some (.char '-') := by
  rw [Text.head?_foldCase]
  exact CodePoint.map_foldCase_eq_some_iff (by decide)

theorem unsigned_foldCase (w : Text) :
    unsigned (Text.foldCase w) = Text.foldCase (unsigned w) := by
  by_cases hminus : w.head? = some (.char '-')
  · obtain ⟨rest, rfl⟩ := List.head?_eq_some_iff.1 hminus
    rfl
  · rw [unsigned_of_head?_ne hminus,
      unsigned_of_head?_ne (mt head?_foldCase_eq_minus_iff.1 hminus)]

theorem digits_foldCase (w : Text) :
    digits (Text.foldCase w) = Text.foldCase (digits w) := by
  unfold digits
  rw [dropFinalBreak_foldCase, unsigned_foldCase]

theorem isInteger_foldCase (w : Text) :
    isInteger (Text.foldCase w) = isInteger w := by
  unfold isInteger
  rw [digits_foldCase, Text.isEmpty_foldCase,
    Text.all_foldCase isDecimalDigit_foldCase]

theorem digitCount_foldCase (w : Text) :
    digitCount (Text.foldCase w) = digitCount w := by
  unfold digitCount
  rw [digits_foldCase, Text.length_foldCase]

theorem natValue_foldCase (w : Text) :
    natValue (Text.foldCase w) = natValue w := by
  unfold natValue Text.foldCase
  rw [List.foldl_map]
  simp only [digitValue?_foldCase]

theorem value_foldCase (w : Text) : value (Text.foldCase w) = value w := by
  unfold value
  rw [digits_foldCase, natValue_foldCase]
  simp only [head?_foldCase_eq_minus_iff]

end Numeral

theorem isName_foldCase (w : Text) : isName (Text.foldCase w) = isName w := by
  unfold isName
  rw [Numeral.dropFinalBreak_foldCase]
  cases Numeral.dropFinalBreak w with
  | nil => rfl
  | cons c rest =>
    show (isNameStart c.foldCase && (Text.foldCase rest).all isNameChar) = _
    rw [isNameStart_foldCase, Text.all_foldCase isNameChar_foldCase]

theorem isValidName_foldCase (w : Text) :
    isValidName (Text.foldCase w) = isValidName w := by
  unfold isValidName
  rw [isName_foldCase, isKeyword_foldCase]

end VarSection
