/-
Two texts joined by a line feed. The lexemes of the first stay what they
are, and those of the second follow, as many lines further down as the
first one has line breaks (`Scans.join`). A line feed is what makes this
so: it goes on with no lexeme and with no comment bracket, so the scanner
reads in front of it what it reads at the end of a text
(`Lead.read_append_of_beginsAnew`). Only a carriage return at the very end of
the first text would go together with it.
-/
import VarSection.Proofs.Scanner.Places
import VarSection.Proofs.Shift

namespace VarSection

-- ============================================================ line breaks

/-- Whether a line ends with a character, where `next` follows it. A
carriage return and a line feed behind it are one line break. -/
def endsLine (c : CodePoint) (next : Option CodePoint) : Bool :=
  c == CodePoint.char '\n'
    || c == CodePoint.char '\r' && next != some (CodePoint.char '\n')

/-- How many line breaks a text has. -/
def Text.breaks : Text → Nat
  | [] => 0
  | c :: rest => (endsLine c rest.head?).toNat + breaks rest

namespace Position

theorem line_after (p : Position) (c : CodePoint) (next : Option CodePoint) :
    (p.after c next).line = p.line + (endsLine c next).toNat := by
  unfold after endsLine
  by_cases hfeed : c = CodePoint.char '\n'
  · rw [if_pos hfeed, beq_iff_eq.2 hfeed]
    rfl
  · rw [if_neg hfeed, beq_eq_false_iff_ne.2 hfeed, Bool.false_or]
    by_cases hreturn : c = CodePoint.char '\r'
    · rw [if_pos hreturn, beq_iff_eq.2 hreturn, Bool.true_and]
      by_cases hnext : next = some (CodePoint.char '\n')
      · rw [if_pos hnext, hnext]
        exact (Int.add_zero p.line).symm
      · rw [if_neg hnext, bne_iff_ne.2 hnext]
        rfl
    · rw [if_neg hreturn, beq_eq_false_iff_ne.2 hreturn, Bool.false_and]
      exact (Int.add_zero p.line).symm

/-- Each line break moves the place by one line. -/
theorem line_behind (p : Position) (w rest : Text) :
    (p.behind w rest).line + rest.breaks
      = p.line + Text.breaks (w ++ rest) := by
  induction w generalizing p with
  | nil => rfl
  | cons c w ih =>
    have hrest := ih (p.after c (w ++ rest).head?)
    rw [line_after] at hrest
    rw [behind, hrest, List.cons_append, Text.breaks]
    omega

end Position

theorem Scans.line_end {p q : Position} {text : Text} {tokens : List Token}
    (h : Scans p text tokens q) : q.line = p.line + text.breaks := by
  induction h with
  | done p => exact (Int.add_zero p.line).symm
  | @blank p q c rest tokens hlead hrest ih =>
    rw [ih, Position.line_after, Text.breaks]
    omega
  | @comment p q c more w rest tokens style n hlead hcloser htext hlength
      hrest ih =>
    rw [ih, Position.line_behind, htext]
  | @lexeme p q c more rest tokens kind hlead hrest ih =>
    rw [ih, Position.line_behind]
    rfl

-- =========================================================== further down

theorem Position.Before.shift {p q : Position} (h : p.Before q) (n : Int) :
    (p.shift n).Before (q.shift n) := by
  unfold Before Position.shift at *
  show p.line + n < q.line + n ∨ p.line + n = q.line + n ∧ p.col < q.col
  omega

theorem Position.after_shift (p : Position) (n : Int) (c : CodePoint)
    (next : Option CodePoint) :
    (p.shift n).after c next = (p.after c next).shift n := by
  unfold after
  have hline : (p.shift n).newLine = p.newLine.shift n := by
    unfold newLine shift
    rw [Int.add_right_comm]
  rw [hline]
  split
  · rfl
  · split
    · split <;> rfl
    · rfl

theorem Position.behind_shift (p : Position) (n : Int) (w rest : Text) :
    (p.shift n).behind w rest = (p.behind w rest).shift n := by
  induction w generalizing p with
  | nil => rfl
  | cons c w ih => rw [behind, after_shift, ih, behind]

/-- The same text further down has the same lexemes further down. -/
theorem Scans.shift {p q : Position} {text : Text} {tokens : List Token}
    (h : Scans p text tokens q) (n : Int) :
    Scans (p.shift n) text (tokens.map (·.shift n)) (q.shift n) := by
  induction h with
  | done p => exact .done _
  | @blank p q c rest tokens hlead hrest ih =>
    rw [← Position.after_shift] at ih
    exact .blank hlead ih
  | @comment p q c more w rest tokens style k hlead hcloser htext hlength
      hrest ih =>
    rw [← Position.behind_shift] at ih
    exact .comment hlead hcloser htext hlength ih
  | @lexeme p q c more rest tokens kind hlead hrest ih =>
    rw [← Position.behind_shift] at ih
    exact .lexeme hlead ih

-- ============================================== where something new begins

/-- Whether a character goes on with no lexeme and with no bracket of a
comment, so that something new begins wherever it stands. -/
def CodePoint.BeginsAnew (d : CodePoint) : Prop :=
  isNameChar d = false ∧ (∀ pair ∈ twoCharSymbols, d ∉ pair.tail)
    ∧ ∀ style ∈ [CommentStyle.braces, .stars], d ∉ style.opener.tail

instance (d : CodePoint) : Decidable d.BeginsAnew :=
  inferInstanceAs (Decidable (_ ∧ _ ∧ _))

/-- A bracket does not reach what begins anew. -/
theorem isPrefixOf_append_of_not_mem_tail {bracket : Text} {d : CodePoint}
    (hd : d ∉ bracket.tail) (c : CodePoint) (w rest : Text) :
    bracket.isPrefixOf (c :: (w ++ d :: rest))
      = bracket.isPrefixOf (c :: w) := by
  have htail : ∀ (v : Text), d ∉ v → ∀ w : Text,
      v.isPrefixOf (w ++ d :: rest) = v.isPrefixOf w := by
    intro v
    induction v with
    | nil =>
      intro _ w
      rw [List.isPrefixOf_nil_left, List.isPrefixOf_nil_left]
    | cons e v ih =>
      intro hv w
      obtain ⟨he, hv⟩ := not_or.1 (mt List.mem_cons.2 hv)
      cases w with
      | nil =>
        show (e == d && _) = false
        rw [beq_eq_false_iff_ne.2 (Ne.symm he), Bool.false_and]
      | cons c w =>
        show (e == c && v.isPrefixOf (w ++ d :: rest)) = _
        rw [ih hv]
        rfl
  cases bracket with
  | nil => rw [List.isPrefixOf_nil_left, List.isPrefixOf_nil_left]
  | cons e bracket =>
    show (e == c && bracket.isPrefixOf (w ++ d :: rest)) = _
    rw [htail bracket hd]
    rfl

namespace Lead

variable {d : CodePoint}

theorem opening?_append_of_beginsAnew (hd : d.BeginsAnew) (c : CodePoint)
    (w rest : Text) :
    CommentStyle.opening? (c :: (w ++ d :: rest))
      = CommentStyle.opening? (c :: w) := by
  unfold CommentStyle.opening?
  congr 1
  funext style
  exact isPrefixOf_append_of_not_mem_tail
    (hd.2.2 style (by cases style <;> decide)) c w rest

/-- A symbol of two characters does not reach what begins anew. -/
theorem contains_pair_of_beginsAnew (hd : d.BeginsAnew) (c : CodePoint) :
    twoCharSymbols.contains [c, d] = false
      ∧ twoCharSymbols.contains [c] = false := by
  have hpairs : ∀ pair ∈ twoCharSymbols, pair.length = 2 := by decide
  refine ⟨Bool.eq_false_iff.2 fun hpair => ?_,
    Bool.eq_false_iff.2 fun hpair => ?_⟩
  · exact hd.2.1 _ (List.contains_iff_mem.1 hpair)
      (List.mem_singleton_self d)
  · exact absurd (hpairs _ (List.contains_iff_mem.1 hpair)) (by simp)

theorem lexemeAt_append_of_beginsAnew (hd : d.BeginsAnew) (c : CodePoint)
    (w rest : Text) : lexemeAt c (w ++ d :: rest) = lexemeAt c w := by
  have hname := hd.1
  have hdigit : isDigit d = false := by
    unfold isNameChar at hname
    exact (Bool.or_eq_false_iff.1 hname).2
  unfold lexemeAt
  have hdigits : (w ++ d :: rest).takeWhile isDigit = w.takeWhile isDigit :=
    takeWhile_append_of_stop (.inr hdigit)
  have hnames : (w ++ d :: rest).takeWhile isNameChar
      = w.takeWhile isNameChar := takeWhile_append_of_stop (.inr hname)
  rw [hdigits, hnames]
  cases w with
  | nil =>
    obtain ⟨hpair, hsingle⟩ := contains_pair_of_beginsAnew hd c
    show (if twoCharSymbols.contains [c, d] then _
        else if c = CodePoint.char '-' && isDigit d then _ else _)
      = (if twoCharSymbols.contains [c] then _
        else if c = CodePoint.char '-' && false then _ else _)
    rw [hpair, hsingle, hdigit]
    rfl
  | cons e w => rfl

/-- In front of a character that begins anew begins what begins at the end
of a text. -/
theorem read_append_of_beginsAnew (hd : d.BeginsAnew) (c : CodePoint)
    (w rest : Text) : Lead.read c (w ++ d :: rest) = Lead.read c w := by
  unfold Lead.read
  rw [opening?_append_of_beginsAnew hd, lexemeAt_append_of_beginsAnew hd]

end Lead

/-- A line feed. -/
def lineFeed : CodePoint := .char '\n'

theorem beginsAnew_lineFeed : lineFeed.BeginsAnew := by decide

/-- A character other than a carriage return moves the place by what it is
alone. -/
theorem Position.after_of_ne_return {c : CodePoint}
    (h : c ≠ CodePoint.char '\r') (p : Position)
    (next next' : Option CodePoint) : p.after c next = p.after c next' := by
  unfold after
  rw [if_neg h, if_neg h]

/-- What follows a text makes no difference to the place behind a character
of it, unless the text ends with a carriage return. -/
theorem Position.after_append_lineFeed {c : CodePoint} {w : Text}
    (h : (c :: w).getLast? ≠ some (CodePoint.char '\r')) (p : Position)
    (rest : Text) :
    p.after c (w ++ lineFeed :: rest).head? = p.after c w.head? := by
  cases w with
  | nil => exact after_of_ne_return (fun hc => h (by rw [hc]; rfl)) p _ _
  | cons d w => rfl

theorem Position.behind_append_lineFeed {w rest : Text}
    (h : (w ++ rest).getLast? ≠ some (CodePoint.char '\r')) (p : Position)
    (text : Text) :
    p.behind w (rest ++ lineFeed :: text) = p.behind w rest := by
  induction w generalizing p with
  | nil => rfl
  | cons c w ih =>
    have hafter := after_append_lineFeed (w := w ++ rest) h p text
    rw [List.append_assoc] at hafter
    rw [behind, behind, hafter]
    refine ih ?_ _
    cases hrest : w ++ rest with
    | nil => exact fun hnone => by cases hnone
    | cons d more =>
      rw [List.cons_append, hrest, List.getLast?_cons_cons] at h
      exact h

/-- A text behind a line feed is read on from the next line. -/
theorem Scans.append {p q r : Position} {text text' : Text}
    {tokens tokens' : List Token} (h : Scans p text tokens q)
    (hlast : text.getLast? ≠ some (CodePoint.char '\r'))
    (h' : Scans q.newLine text' tokens' r) :
    Scans p (text ++ lineFeed :: text') (tokens ++ tokens') r := by
  have htail : ∀ {w rest : Text}, (w ++ rest).getLast?
      ≠ some (CodePoint.char '\r') →
      rest.getLast? ≠ some (CodePoint.char '\r') := by
    intro w rest h hrest
    refine h ?_
    rw [List.getLast?_append, hrest]
    rfl
  induction h with
  | done p => exact .blank rfl h'
  | @blank p q c rest tokens hlead hrest ih =>
    have hrest' := ih (htail (w := [c]) hlast) h'
    rw [← Position.after_append_lineFeed hlast p text'] at hrest'
    have hlead' := Lead.read_append_of_beginsAnew beginsAnew_lineFeed c rest
      text'
    exact .blank (hlead'.trans hlead) hrest'
  | @comment p q c more w rest tokens style n hlead hcloser htext hlength
      hrest ih =>
    rw [htext] at hlast
    have hrest' := ih (htail hlast) h'
    rw [← Position.behind_append_lineFeed hlast p text'] at hrest'
    have hopener : style.opener.length ≤ (c :: more).length := by
      rw [htext, List.length_append, hlength]
      omega
    have hcloser' := Scanner.distanceTo?_append hcloser
      (lineFeed :: text')
    rw [← List.drop_append_of_le_length hopener] at hcloser'
    have hlead' := Lead.read_append_of_beginsAnew beginsAnew_lineFeed c more
      text'
    refine .comment (hlead'.trans hlead) hcloser' ?_ hlength hrest'
    show c :: more ++ lineFeed :: text' = _
    rw [htext, List.append_assoc]
  | @lexeme p q c more rest tokens kind hlead hrest ih =>
    have hrest' := ih (htail (w := c :: more) hlast) h'
    rw [← Position.behind_append_lineFeed (w := c :: more) hlast p text']
      at hrest'
    have hlead' := Lead.read_append_of_beginsAnew beginsAnew_lineFeed c
      (more ++ rest) text'
    rw [List.append_assoc] at hlead'
    show Scans p (c :: (more ++ rest ++ lineFeed :: text')) _ _
    rw [List.append_assoc]
    exact .lexeme (hlead'.trans hlead) hrest'

/-- Two texts joined by a line feed have the lexemes of the first, and then
those of the second as many lines further down as lie in front of it. -/
theorem Scans.join {text text' : Text} {tokens tokens' : List Token}
    {q r : Position} (h : Scans .start text tokens q)
    (hlast : text.getLast? ≠ some (CodePoint.char '\r'))
    (h' : Scans .start text' tokens' r) :
    q.newLine = Position.start.shift (Text.breaks (text ++ [lineFeed]))
      ∧ Scans .start (text ++ lineFeed :: text')
          (tokens ++ tokens'.map (·.shift (Text.breaks (text ++ [lineFeed]))))
          (r.shift (Text.breaks (text ++ [lineFeed]))) := by
  have hline := (h.append hlast (.done q.newLine)).line_end
  have hstart : q.newLine
      = Position.start.shift (Text.breaks (text ++ [lineFeed])) := by
    unfold Position.shift
    rw [← hline]
    rfl
  refine ⟨hstart, h.append hlast ?_⟩
  rw [hstart]
  exact h'.shift _

end VarSection
