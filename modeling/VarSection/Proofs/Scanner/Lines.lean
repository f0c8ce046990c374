/-
The lines of a text. A place that is told by counting (`Position.reference`)
lies on one of them: the text in front of it ends with the beginning of the
line, and the text behind it begins with the rest (`Text.getElem?_lines`).
So whatever is written at a place without a line break stays on the line,
and no place along it lies further out than right behind the last character
of the line (`Position.within_right`).
-/
import VarSection.Proofs.Scanner.Layout

namespace VarSection

namespace Text

/-- The lines of a text, without the line breaks between them. -/
def lines : Text → List Text
  | [] => [[]]
  | c :: rest =>
    if endsLine c rest.head? then [] :: lines rest
    else if isLineBreak c then lines rest
    else (lines rest).modifyHead (c :: ·)

/-- The characters of a text in front of its first line break. -/
def firstLine (w : Text) : Text := w.takeWhile fun c => !isLineBreak c

theorem firstLine_cons_of_break {c : CodePoint} (h : isLineBreak c = true)
    (w : Text) : firstLine (c :: w) = [] :=
  List.takeWhile_cons_of_neg (by rw [h]; decide)

theorem firstLine_append_of_oneLine {w : Text}
    (h : ∀ c ∈ w, isLineBreak c = false) (rest : Text) :
    firstLine (w ++ rest) = w ++ rest.firstLine :=
  List.takeWhile_append_of_pos fun c hc => by rw [h c hc]; rfl

theorem firstLine_append_of_break {w : Text}
    (h : ∃ c ∈ w, isLineBreak c = true) (rest : Text) :
    firstLine (w ++ rest) = w.firstLine := by
  unfold firstLine
  rw [List.takeWhile_append, if_neg]
  intro hlength
  have hall : (w.takeWhile fun c => !isLineBreak c) = w :=
    (List.takeWhile_prefix _).eq_of_length hlength
  have hone := List.all_takeWhile (l := w) (p := fun c => !isLineBreak c)
  obtain ⟨c, hc, hbreak⟩ := h
  rw [hall] at hone
  have hno := List.all_eq_true.1 hone c hc
  rw [hbreak] at hno
  cases hno

/-- A character that ends a line is a line break, and so is a carriage
return in front of a line feed, which ends none. -/
theorem endsLine_cases (c : CodePoint) (next : Option CodePoint) :
    (endsLine c next = true ∧ isLineBreak c = true)
      ∨ (endsLine c next = false ∧ isLineBreak c = false)
      ∨ (endsLine c next = false ∧ isLineBreak c = true
        ∧ next = some (CodePoint.char '\n')) := by
  unfold endsLine isLineBreak lineBreaks
  by_cases hfeed : c = CodePoint.char '\n'
  · rw [hfeed]
    exact .inl ⟨rfl, rfl⟩
  · by_cases hreturn : c = CodePoint.char '\r'
    · rw [hreturn]
      by_cases hnext : next = some (CodePoint.char '\n')
      · exact .inr (.inr ⟨by rw [hnext]; rfl, rfl, hnext⟩)
      · exact .inl ⟨by rw [bne_iff_ne.2 hnext]; rfl, rfl⟩
    · refine .inr (.inl ⟨?_, ?_⟩)
      · rw [beq_eq_false_iff_ne.2 hfeed, beq_eq_false_iff_ne.2 hreturn]
        rfl
      · simp [hfeed, hreturn]

theorem head?_lines (w : Text) : w.lines.head? = some w.firstLine := by
  induction w with
  | nil => rfl
  | cons c w ih =>
    unfold lines
    rcases endsLine_cases c w.head? with ⟨hend, hbreak⟩ | ⟨hend, hbreak⟩
      | ⟨hend, hbreak, hnext⟩
    · rw [if_pos hend, firstLine_cons_of_break hbreak]
      rfl
    · rw [hend, hbreak, if_neg Bool.false_ne_true, if_neg Bool.false_ne_true,
        List.head?_modifyHead, ih]
      unfold firstLine
      rw [List.takeWhile_cons_of_pos (by rw [hbreak]; rfl)]
      rfl
    · rw [hend, hbreak, if_neg Bool.false_ne_true, if_pos rfl, ih,
        firstLine_cons_of_break hbreak]
      obtain ⟨more, hw⟩ := List.head?_eq_some_iff.1 hnext
      rw [hw, firstLine_cons_of_break (by decide)]

/-- A line break ends a line, itself or with the line feed behind it. -/
theorem breaks_ne_zero {w : Text} (h : ∃ c ∈ w, isLineBreak c = true) :
    w.breaks ≠ 0 := by
  induction w with
  | nil =>
    obtain ⟨c, hc, -⟩ := h
    cases hc
  | cons c w ih =>
    obtain ⟨d, hd, hbreak⟩ := h
    have hmore : (∃ d ∈ w, isLineBreak d = true) →
        breaks (c :: w) ≠ 0 := by
      intro hw
      have := ih hw
      unfold breaks
      omega
    rcases List.mem_cons.1 hd with rfl | hd
    · rcases endsLine_cases d w.head? with ⟨hend, -⟩ | ⟨-, hno⟩
        | ⟨-, -, hnext⟩
      · unfold breaks
        rw [hend]
        show 1 + _ ≠ 0
        omega
      · rw [hbreak] at hno
        cases hno
      · exact hmore ⟨_, List.mem_of_mem_head? hnext, by decide⟩
    · exact hmore ⟨d, hd, hbreak⟩

theorem breaks_of_oneLine {w : Text} (h : ∀ c ∈ w, isLineBreak c = false) :
    w.breaks = 0 := by
  induction w with
  | nil => rfl
  | cons c w ih =>
    rw [breaks, ih fun d hd => h d (List.mem_cons_of_mem c hd)]
    rcases endsLine_cases c w.head? with ⟨-, hbreak⟩ | ⟨hend, -⟩
      | ⟨-, hbreak, -⟩
    · rw [h c List.mem_cons_self] at hbreak
      cases hbreak
    · rw [hend]
      rfl
    · rw [h c List.mem_cons_self] at hbreak
      cases hbreak

theorem lastLine_of_oneLine {w : Text}
    (h : ∀ c ∈ w, isLineBreak c = false) : w.lastLine = w := by
  have hfirst := firstLine_append_of_oneLine (w := w.reverse)
    (fun c hc => h c (List.mem_reverse.1 hc)) []
  show (firstLine w.reverse).reverse = w
  rw [List.append_nil] at hfirst
  rw [hfirst]
  show (w.reverse ++ []).reverse = w
  rw [List.append_nil, List.reverse_reverse]

/-- In front of a line break a character is not on the last line, and a line
break never is. -/
theorem lastLine_cons {c : CodePoint} {w : Text}
    (h : isLineBreak c = true ∨ ∃ d ∈ w, isLineBreak d = true) :
    lastLine (c :: w) = lastLine w := by
  show (firstLine (c :: w).reverse).reverse = (firstLine w.reverse).reverse
  rw [List.reverse_cons]
  by_cases hw : ∃ d ∈ w.reverse, isLineBreak d = true
  · rw [firstLine_append_of_break hw]
  · have hone : ∀ d ∈ w.reverse, isLineBreak d = false := fun d hd =>
      Bool.eq_false_iff.2 fun hbreak => hw ⟨d, hd, hbreak⟩
    have hbreak := h.resolve_right fun ⟨d, hd, hbreak⟩ =>
      hw ⟨d, List.mem_reverse.2 hd, hbreak⟩
    have hall := firstLine_append_of_oneLine hone []
    rw [List.append_nil] at hall
    rw [firstLine_append_of_oneLine hone, firstLine_cons_of_break hbreak, hall]
    rfl

/-- The line on which a text is parted. -/
theorem getElem?_lines (w : Text) {rest : Text}
    (h : rest.head? ≠ some (CodePoint.char '\n')) :
    (lines (w ++ rest))[w.breaks]?
      = some (w.lastLine ++ rest.firstLine) := by
  induction w with
  | nil =>
    show (lines rest)[0]? = _
    rw [← List.head?_eq_getElem?, head?_lines]
    rfl
  | cons c w ih =>
    rw [List.cons_append, lines, breaks, endsLine_append c w h]
    rcases endsLine_cases c w.head? with ⟨hend, hbreak⟩ | ⟨hend, hbreak⟩
      | ⟨hend, hbreak, -⟩
    · rw [hend, if_pos rfl, lastLine_cons (.inl hbreak), ← ih]
      show ([] :: _)[1 + _]? = _
      rw [Nat.add_comm, List.getElem?_cons_succ]
    · rw [hend, hbreak, if_neg Bool.false_ne_true, if_neg Bool.false_ne_true]
      show (List.modifyHead _ _)[0 + _]? = _
      rw [Nat.zero_add, List.getElem?_modifyHead]
      by_cases hw : ∃ d ∈ w, isLineBreak d = true
      · rw [if_neg (breaks_ne_zero hw), lastLine_cons (.inr hw), ih]
      · have hone : ∀ d ∈ w, isLineBreak d = false := fun d hd =>
          Bool.eq_false_iff.2 fun hbreak => hw ⟨d, hd, hbreak⟩
        rw [if_pos (breaks_of_oneLine hone), ih, lastLine_of_oneLine hone,
          lastLine_of_oneLine (List.forall_mem_cons.2 ⟨hbreak, hone⟩)]
        rfl
    · rw [hend, hbreak, if_neg Bool.false_ne_true, if_pos rfl,
        lastLine_cons (.inl hbreak), ← ih]
      show _[0 + _]? = _
      rw [Nat.zero_add]

end Text

-- =========================================================== places in a text

/-- Whether a place lies in a text: on one of its lines, and no further out
than right behind the last character of the line. -/
def Position.Within (p : Position) (text : Text) : Prop :=
  ∃ (i : Nat) (line : Text), text.lines[i]? = some line
    ∧ p.line = i + 1 ∧ 1 ≤ p.col ∧ p.col ≤ line.length + 1

/-- Whether a text is written in another one at a place. -/
def Text.HoldsAt (text : Text) (p : Position) (w : Text) : Prop :=
  ∃ before after, text = before ++ (w ++ after) ∧ p = .reference before

/-- The places along a text without line breaks lie within the text that it
is written in. -/
theorem Position.within_right {w : Text}
    (hline : ∀ c ∈ w, isLineBreak c = false) (before after : Text)
    (hfeed : (w ++ after).head? ≠ some (CodePoint.char '\n')) {n : Nat}
    (hn : n ≤ w.length) :
    ((Position.reference before).right n).Within
      (before ++ (w ++ after)) := by
  refine ⟨_, _, Text.getElem?_lines before hfeed, ?_, ?_, ?_⟩
  · show (1 : Int) + (before.breaks : Int) = before.breaks + 1
    omega
  · show (1 : Int) ≤ 1 + (before.lastLine.length : Int) + (n : Int)
    omega
  · rw [Text.firstLine_append_of_oneLine hline]
    show (1 : Int) + (before.lastLine.length : Int) + (n : Int) ≤ _
    rw [List.length_append, List.length_append]
    omega

namespace Scans

variable {q : Position} {text : Text} {tokens : List Token} {t : Token}

/-- A lexeme is written where it stands, and what follows it is read behind
it. -/
theorem written_start (h : Scans .start text tokens q)
    {before after : List Token} (hsplit : tokens = before ++ t :: after) :
    ∃ w rest, text = w ++ (t.text ++ rest) ∧ t.pos = .reference w
      ∧ Scans t.endPos rest after q := by
  obtain ⟨w, rest, htext, hpos, hbehind⟩ := h.written hsplit
  have hcut := h.wellCut t (by rw [hsplit]; simp)
  rw [Position.behind_start w _ (hcut.head?_append_ne rest)] at hpos
  exact ⟨w, rest, htext, hpos, hbehind⟩

theorem holdsAt (h : Scans .start text tokens q) (ht : t ∈ tokens) :
    text.HoldsAt t.pos t.text := by
  obtain ⟨before, after, hsplit⟩ := List.append_of_mem ht
  obtain ⟨w, rest, htext, hpos, -⟩ := h.written_start hsplit
  exact ⟨w, rest, htext, hpos⟩

/-- A lexeme begins and ends within its text. -/
theorem within (h : Scans .start text tokens q)
    (ht : t ∈ tokens ++ [Token.mark q]) :
    t.pos.Within text ∧ t.endPos.Within text := by
  have hplaced : ∃ before after, text = before ++ (t.text ++ after)
      ∧ t.pos = .reference before
      ∧ (∀ c ∈ t.text, isLineBreak c = false)
      ∧ (t.text ++ after).head? ≠ some (CodePoint.char '\n') := by
    rcases List.mem_append.1 ht with ht | ht
    · obtain ⟨before, after, htext, hpos⟩ := h.holdsAt ht
      exact ⟨before, after, htext, hpos, (h.wellCut t ht).oneLine,
        (h.wellCut t ht).head?_append_ne after⟩
    · rw [List.mem_singleton.1 ht]
      refine ⟨text, [], (List.append_nil _).symm, ?_,
        fun c hc => absurd hc List.not_mem_nil, by simp [Token.mark]⟩
      rw [← Position.behind_start text [] (by decide)]
      exact h.eq_behind
  obtain ⟨before, after, rfl, hpos, hline, hfeed⟩ := hplaced
  have hbegin := Position.within_right hline before after hfeed
    (Nat.zero_le t.text.length)
  have hend := Position.within_right hline before after hfeed
    (Nat.le_refl t.text.length)
  rw [← hpos] at hbegin hend
  rw [Position.right_zero] at hbegin
  exact ⟨hbegin, hend⟩

end Scans

end VarSection
