/-
Where the lexemes of a text stand. A place only moves forward through a
text, and by the length of a lexeme through a lexeme, so lexemes stand in
reading order without overlap and all lie between the two ends of the text
(`Scans.order`).

Between two lexemes there may be a gap, and a gap always moves the place:
the one character that moves nothing, a carriage return in front of a line
feed, is followed by one that does. So a lexeme that stands right behind
another is written right behind it (`Scans.head_touches`), and then the
first one, if it is a word, cannot go on with it (`Scans.isChain_apart`).

`Lexed` gathers what an analysis may rely on in a table made from a text.
-/
import Mathlib.Data.List.Chain
import VarSection.Proofs.Scanner.Lexemes

namespace VarSection

-- ========================================================= reading order

namespace Position

/-- Strict reading order. -/
def Before (p q : Position) : Prop :=
  p.line < q.line ∨ (p.line = q.line ∧ p.col < q.col)

theorem le_iff {p q : Position} :
    p.le q = true ↔ p.line < q.line ∨ (p.line = q.line ∧ p.col ≤ q.col) := by
  unfold le
  simp

theorem le_refl (p : Position) : p.le p = true := by
  rw [le_iff]
  omega

theorem le_trans {p q r : Position} (h : p.le q = true)
    (h' : q.le r = true) : p.le r = true := by
  rw [le_iff] at h h' ⊢
  omega

theorem Before.le {p q : Position} (h : p.Before q) : p.le q = true := by
  rw [le_iff]
  unfold Before at h
  omega

theorem Before.trans_le {p q r : Position} (h : p.Before q)
    (h' : q.le r = true) : p.Before r := by
  rw [le_iff] at h'
  unfold Before at h ⊢
  omega

theorem Before.of_le {p q r : Position} (h : p.le q = true)
    (h' : q.Before r) : p.Before r := by
  rw [le_iff] at h
  unfold Before at h' ⊢
  omega

theorem Before.ne {p q : Position} (h : p.Before q) : p ≠ q := by
  rintro rfl
  unfold Before at h
  omega

@[simp] theorem right_zero (p : Position) : p.right 0 = p := by
  unfold right
  simp

theorem before_right {n : Nat} (p : Position) (h : n ≠ 0) :
    p.Before (p.right n) := by
  unfold Before right
  right
  exact ⟨rfl, by show p.col < p.col + n; omega⟩

theorem le_right (p : Position) (n : Nat) : p.le (p.right n) = true := by
  rw [le_iff]
  right
  exact ⟨rfl, by show p.col ≤ p.col + n; omega⟩

-- ================================================== through a text

/-- A character moves the place forward, unless it is a carriage return in
front of a line feed. -/
theorem after_cases (p : Position) (c : CodePoint)
    (next : Option CodePoint) :
    p.Before (p.after c next)
      ∨ (p.after c next = p ∧ next = some (CodePoint.char '\n')) := by
  have hline : p.Before p.newLine := by
    left
    show p.line < p.line + 1
    omega
  unfold after
  split
  · exact .inl hline
  · split
    · split
      next hnext => exact .inr ⟨rfl, hnext⟩
      next hnext => exact .inl hline
    · exact .inl (before_right p Nat.one_ne_zero)

theorem le_after (p : Position) (c : CodePoint) (next : Option CodePoint) :
    p.le (p.after c next) = true := by
  rcases after_cases p c next with h | ⟨h, -⟩
  · exact h.le
  · rw [h]; exact le_refl p

theorem behind_append (p : Position) (v w rest : Text) :
    p.behind (v ++ w) rest = (p.behind v (w ++ rest)).behind w rest := by
  induction v generalizing p with
  | nil => rfl
  | cons c v ih =>
    rw [List.cons_append, behind, behind, ih, List.append_assoc]

theorem le_behind (p : Position) (w rest : Text) :
    p.le (p.behind w rest) = true := by
  induction w generalizing p with
  | nil => exact le_refl p
  | cons c w ih => exact le_trans (le_after ..) (ih _)

/-- A character that ends no line moves the place by one column. -/
theorem after_of_not_break {c : CodePoint} (h : isLineBreak c = false)
    (p : Position) (next : Option CodePoint) :
    p.after c next = p.right 1 := by
  unfold isLineBreak lineBreaks at h
  simp only [List.contains_cons, List.contains_nil, Bool.or_false,
    Bool.or_eq_false_iff, beq_eq_false_iff_ne] at h
  unfold after
  rw [if_neg h.1, if_neg h.2]

/-- A text on one line moves the place by its length. -/
theorem behind_of_oneLine {w : Text} (h : ∀ c ∈ w, isLineBreak c = false)
    (p : Position) (rest : Text) : p.behind w rest = p.right w.length := by
  induction w generalizing p with
  | nil => exact (right_zero p).symm
  | cons c w ih =>
    rw [behind, after_of_not_break (h c List.mem_cons_self),
      ih fun d hd => h d (List.mem_cons_of_mem _ hd)]
    unfold right
    simp only [List.length_cons, mk.injEq, true_and]
    omega

end Position

/-- Whether a second lexeme, where it stands right behind a first that is a
word, does not go on with the word. -/
def Token.Apart (t u : Token) : Prop :=
  u.pos = t.endPos → t.text.head?.any isNameStart = true →
    u.text.head?.any isNameChar = false

-- ======================================================= lexemes in a text

namespace Scans

variable {p q : Position} {text : Text} {tokens : List Token}

/-- What is read from a text is well cut. -/
theorem wellCut (h : Scans p text tokens q) : ∀ t ∈ tokens, t.WellCut := by
  induction h with
  | done p => exact fun t ht => absurd ht List.not_mem_nil
  | blank hlead hrest ih => exact ih
  | comment hlead hcloser htext hlength hrest ih => exact ih
  | @lexeme p q c more rest tokens kind hlead hrest ih =>
    intro t ht
    rcases List.mem_cons.1 ht with rfl | ht
    · exact Lead.wellCut_of_read hlead p
    · exact ih t ht

/-- What is read from a text is written in it, and what follows a lexeme is
read behind it. -/
theorem written (h : Scans p text tokens q) {before after : List Token}
    {t : Token} (hsplit : tokens = before ++ t :: after) :
    ∃ w rest, text = w ++ (t.text ++ rest)
      ∧ t.pos = p.behind w (t.text ++ rest)
      ∧ Scans t.endPos rest after q := by
  induction h generalizing before with
  | done p => exact absurd hsplit.symm (List.append_ne_nil_of_right_ne_nil _
      (List.cons_ne_nil t after))
  | @blank p q c rest tokens hlead hrest ih =>
    obtain ⟨w, rest', htext, hpos, hbehind⟩ := ih hsplit
    exact ⟨c :: w, rest', by rw [htext]; rfl, by rw [hpos, htext]; rfl,
      hbehind⟩
  | @comment p q c more v rest tokens style n hlead hcloser htext hlength
      hrest ih =>
    obtain ⟨w, rest', htext', hpos, hbehind⟩ := ih hsplit
    refine ⟨v ++ w, rest', ?_, ?_, hbehind⟩
    · rw [htext, htext', List.append_assoc]
    · rw [hpos, htext', Position.behind_append]
  | @lexeme p q c more rest tokens kind hlead hrest ih =>
    cases before with
    | nil =>
      obtain ⟨rfl, rfl⟩ := List.cons.inj hsplit
      rw [Position.behind_of_oneLine
        (Lead.wellCut_of_read hlead p).oneLine] at hrest
      exact ⟨[], rest, rfl, rfl, hrest⟩
    | cons u before =>
      obtain ⟨-, hsplit⟩ := List.cons.inj hsplit
      obtain ⟨w, rest', htext, hpos, hbehind⟩ := ih hsplit
      refine ⟨c :: more ++ w, rest', ?_, ?_, hbehind⟩
      · rw [htext, List.append_assoc]
        rfl
      · rw [hpos, htext, Position.behind_append]

theorem text_infix (h : Scans p text tokens q) {t : Token}
    (ht : t ∈ tokens) : t.text <:+: text := by
  obtain ⟨before, after, hsplit⟩ := List.append_of_mem ht
  obtain ⟨w, rest, htext, -, -⟩ := h.written hsplit
  exact ⟨w, rest, by rw [htext, List.append_assoc]⟩

/-- Lexemes stand in reading order without overlap, from the beginning of
their text up to its end. -/
theorem order (h : Scans p text tokens q) :
    (tokens ++ [Token.mark q]).Pairwise
        (fun t u => t.endPos.le u.pos = true)
      ∧ ∀ t ∈ tokens ++ [Token.mark q], p.le t.pos = true := by
  induction h with
  | done p =>
    refine ⟨List.pairwise_singleton .., fun t ht => ?_⟩
    rw [List.mem_singleton.1 ht]
    exact Position.le_refl p
  | blank hlead hrest ih =>
    exact ⟨ih.1, fun t ht =>
      Position.le_trans (Position.le_after ..) (ih.2 t ht)⟩
  | comment hlead hcloser htext hlength hrest ih =>
    exact ⟨ih.1, fun t ht =>
      Position.le_trans (Position.le_behind ..) (ih.2 t ht)⟩
  | @lexeme p q c more rest tokens kind hlead hrest ih =>
    have hcut := Lead.wellCut_of_read hlead p
    rw [Position.behind_of_oneLine hcut.oneLine] at ih
    refine ⟨List.pairwise_cons.2 ⟨ih.2, ih.1⟩, fun t ht => ?_⟩
    rcases List.mem_cons.1 ht with rfl | ht
    · exact Position.le_refl p
    · exact Position.le_trans (Position.le_right p _) (ih.2 t ht)

/-- The first lexeme of a text is written at its very beginning, and the
others are read behind it, or it stands strictly behind the beginning. -/
theorem head_touches {u : Token} (h : Scans p text (u :: tokens) q) :
    (u.pos = p ∧ ∃ rest, text = u.text ++ rest
        ∧ Scans u.endPos rest tokens q) ∨ p.Before u.pos := by
  generalize hall : u :: tokens = all at h
  induction h with
  | done p => cases hall
  | @blank p q c rest tokens hlead hrest ih =>
    rcases Position.after_cases p c rest.head? with hmove | ⟨hstay, hnext⟩
    · refine .inr (hmove.trans_le (hrest.order.2 u ?_))
      rw [← hall]
      exact List.mem_append_left _ List.mem_cons_self
    · rw [hstay] at ih
      rcases ih hall with ⟨-, w, hw, -⟩ | hbefore
      · have hcut := hrest.wellCut u (by rw [← hall]; exact List.mem_cons_self)
        rw [hw] at hnext
        exact absurd hnext (hcut.head?_append_ne w)
      · exact .inr hbefore
  | @comment p q c more w rest tokens style n hlead hcloser htext hlength
      hrest ih =>
    right
    cases w with
    | nil =>
      have hopener : 0 < style.opener.length := by cases style <;> decide
      rw [List.length_nil] at hlength
      omega
    | cons d w =>
      obtain ⟨rfl, rfl⟩ := List.cons.inj htext
      have hmove := Position.before_right p Nat.one_ne_zero
      rw [← Position.after_of_not_break (isLineBreak_eq_false_of_isBlank
        (Lead.isBlank_of_read_comment hlead)) p (w ++ rest).head?] at hmove
      refine (hmove.trans_le (Position.le_behind ..)).trans_le
        (hrest.order.2 u ?_)
      rw [← hall]
      exact List.mem_append_left _ List.mem_cons_self
  | @lexeme p q c more rest tokens kind hlead hrest ih =>
    cases hall
    have hcut := Lead.wellCut_of_read hlead p
    rw [Position.behind_of_oneLine hcut.oneLine] at hrest
    exact .inl ⟨rfl, rest, rfl, hrest⟩

/-- A word reaches as far as it can: where another lexeme is written right
behind it, that one does not go on with it. -/
theorem isChain_apart (h : Scans p text tokens q) :
    (tokens ++ [Token.mark q]).IsChain Token.Apart := by
  induction h with
  | done p => exact .singleton _
  | blank hlead hrest ih => exact ih
  | comment hlead hcloser htext hlength hrest ih => exact ih
  | @lexeme p q c more rest tokens kind hlead hrest ih =>
    have hcut := Lead.wellCut_of_read hlead p
    rw [Position.behind_of_oneLine hcut.oneLine] at hrest
    cases tokens with
    | nil => exact .cons_cons (fun _ _ => rfl) ih
    | cons u tokens =>
      refine .cons_cons (fun hpos hstart => ?_) ih
      rcases hrest.head_touches with ⟨-, w, rfl, -⟩ | hbefore
      · have hreach := ((Lead.cut_of_read hlead).kind_of_isNameStart
          hstart).2
        have hnext := Lead.head?_any_eq_false_of_takeWhile hreach.symm
        cases htext : u.text with
        | nil => rfl
        | cons d w' => rw [htext] at hnext; exact hnext
      · exact absurd hpos.symm hbefore.ne

/-- The digits of a number are written in the text. -/
theorem digits_infix (h : Scans p text tokens q) {t : Token}
    (ht : t ∈ tokens) : Numeral.digits t.text <:+: text := by
  refine List.IsInfix.trans ?_ (h.text_infix ht)
  unfold Numeral.digits
  rw [Numeral.dropFinalBreak_eq_self (h.wellCut t ht).oneLine]
  unfold Numeral.unsigned
  split
  next digits heq => rw [heq]; exact (List.suffix_cons _ digits).isInfix
  next => exact List.infix_rfl

end Scans

-- ================================================================= tables

/-- What an analysis may rely on in a table made from a text: its lexemes
are well cut, neighbours keep apart, and all stand in reading order. -/
structure Lexed (table : List Token) : Prop where
  wellCut : ∀ t ∈ table, t.isEnding = false → t.WellCut
  apart : table.IsChain Token.Apart
  order : table.Pairwise fun t u => t.endPos.le u.pos = true

theorem Scans.lexed {p q : Position} {text : Text} {tokens : List Token}
    (h : Scans p text tokens q) : Lexed (tokens ++ [.mark q]) := by
  refine ⟨fun t ht hkind => ?_, h.isChain_apart, h.order.1⟩
  rcases List.mem_append.1 ht with ht | ht
  · exact h.wellCut t ht
  · rw [List.mem_singleton.1 ht] at hkind
    cases hkind

namespace Lexed

variable {table : List Token}

/-- What is left of a table is like the table. -/
theorem right_of_append {l r : List Token} (h : Lexed (l ++ r)) :
    Lexed r :=
  ⟨fun t ht => h.wellCut t (List.mem_append_right _ ht),
    h.apart.right_of_append, (List.pairwise_append.1 h.order).2.1⟩

/-- A lexeme stands strictly before all that follow it. -/
theorem before {t : Token} (h : Lexed (t :: table))
    (hkind : t.isEnding = false) : ∀ u ∈ table, t.pos.Before u.pos := by
  intro u hu
  have hlength : t.text.length ≠ 0 := fun hzero =>
    (h.wellCut t List.mem_cons_self hkind).nonempty
      (List.length_eq_zero_iff.1 hzero)
  exact (Position.before_right t.pos hlength).trans_le
    (List.rel_of_pairwise_cons h.order hu)

end Lexed

/-- Whether every number of a table has at most as many digits as an
integer may have. -/
def Readable (table : List Token) : Prop :=
  ∀ t ∈ table, t.kind = .number →
    Numeral.digitCount t.text ≤ integerDigitsMax

theorem readable_nil : Readable [] := by
  intro t ht
  cases ht

theorem Readable.append {tokens tokens' : List Token} (h : Readable tokens)
    (h' : Readable tokens') : Readable (tokens ++ tokens') := by
  intro t ht
  rcases List.mem_append.1 ht with ht | ht
  · exact h t ht
  · exact h' t ht

theorem readable_singleton {t : Token} (h : t.kind ≠ .number) :
    Readable [t] := by
  intro u hu hkind
  rw [List.mem_singleton.1 hu] at hkind
  exact absurd hkind h

theorem readable_number {t : Token}
    (h : Numeral.digitCount t.text ≤ integerDigitsMax) : Readable [t] := by
  intro u hu _
  rw [List.mem_singleton.1 hu]
  exact h

theorem readable_mark (q : Position) : Readable [.mark q] :=
  readable_singleton Kind.noConfusion

/-- Whether an analysis can take a lexeme for what its class says: a number
for an integer that is not too long, a name for one that may be
declared. -/
structure Token.Legible (t : Token) : Prop where
  integer : t.kind = .number → Numeral.isInteger t.text = true
  digits : t.kind = .number →
    Numeral.digitCount t.text ≤ integerDigitsMax
  name : t.kind = .identifier → isValidName t.text = true

/-- A lexeme of a text is legible, if it is no number with too many
digits. -/
theorem Lexed.legible_of_mem {table : List Token} (h : Lexed table)
    {t : Token} (ht : t ∈ table) (hdigits : t.kind = .number →
      Numeral.digitCount t.text ≤ integerDigitsMax) : t.Legible := by
  have hend : ∀ {k : Kind}, k ≠ .ending → t.kind = k →
      t.isEnding = false := by
    intro k hk hkind
    exact beq_eq_false_iff_ne.2 (hkind ▸ hk)
  exact ⟨fun hkind => (h.wellCut t ht (hend (by decide) hkind)).isInteger
      hkind,
    hdigits,
    fun hkind => (h.wellCut t ht (hend (by decide) hkind)).name hkind⟩

/-- The lexemes of a text with short numbers are legible. -/
theorem Lexed.legible {table : List Token} (h : Lexed table)
    (hreadable : Readable table) : ∀ t ∈ table, t.Legible :=
  fun t ht => h.legible_of_mem ht (hreadable t ht)

/-- Digits that stand next to each other in a text are at most `n`. -/
def Text.DigitRunsAtMost (n : Nat) (text : Text) : Prop :=
  ∀ run, run <:+: text → run.all isDigit = true → run.length ≤ n

/-- A text with short runs of digits has short numbers. -/
theorem Scans.readable {p q : Position} {text : Text} {tokens : List Token}
    (h : Scans p text tokens q)
    (hruns : text.DigitRunsAtMost integerDigitsMax) :
    Readable (tokens ++ [.mark q]) := by
  refine Readable.append (fun t ht hkind => ?_) (readable_mark q)
  exact hruns _ (h.digits_infix ht) ((h.wellCut t ht).digits hkind).2

end VarSection
