/-
A table of lexemes as a map of its text. The text is its lexemes in order,
each behind a gap, and a gap holds nothing but blanks, line breaks and
comments with both their brackets. So nothing of a text is lost, and the
place of a lexeme can be told from the text in front of it alone
(`Position.reference`): count the line breaks, and the characters behind
the last of them.

A scanner does not count in this way. It moves its place one character at a
time, and what a carriage return does depends on the character behind it.
The two agree wherever the text does not go on with a line feed
(`Position.behind_start`), and neither a lexeme nor the end of a text
begins with one.
-/
import VarSection.Proofs.Scanner.Joining

namespace VarSection

-- ====================================================== places by counting

/-- The characters of a text behind its last line break. -/
def Text.lastLine (w : Text) : Text :=
  (w.reverse.takeWhile fun c => !isLineBreak c).reverse

/-- The place behind a text, counted from the text: as many lines further
down as it has line breaks, and as many columns further on as characters
stand behind the last of them. -/
def Position.reference (w : Text) : Position :=
  ⟨1 + w.breaks, 1 + w.lastLine.length⟩

/-- Whether a character ends a line is told by the text behind it alone,
unless a line feed follows that. -/
theorem endsLine_append (c : CodePoint) (w : Text) {rest : Text}
    (h : rest.head? ≠ some (CodePoint.char '\n')) :
    endsLine c (w ++ rest).head? = endsLine c w.head? := by
  cases w with
  | cons d w => rfl
  | nil =>
    unfold endsLine
    rw [List.nil_append, bne_iff_ne.2 h]
    rfl

/-- A line break belongs to one of two texts joined, unless the second one
begins with a line feed. -/
theorem Text.breaks_append (w : Text) {rest : Text}
    (h : rest.head? ≠ some (CodePoint.char '\n')) :
    Text.breaks (w ++ rest) = w.breaks + rest.breaks := by
  induction w with
  | nil => exact (Nat.zero_add _).symm
  | cons c w ih =>
    rw [List.cons_append, breaks, breaks, endsLine_append c w h, ih,
      Nat.add_assoc]

theorem Text.length_lastLine_concat (w : Text) (c : CodePoint) :
    (lastLine (w ++ [c])).length
      = if isLineBreak c then 0 else (lastLine w).length + 1 := by
  unfold lastLine
  rw [List.reverse_append, List.reverse_singleton, List.singleton_append]
  cases hbreak : isLineBreak c with
  | true => rw [List.takeWhile_cons_of_neg (by rw [hbreak]; decide)]; rfl
  | false =>
    rw [List.takeWhile_cons_of_pos (by rw [hbreak]; rfl), List.length_reverse,
      List.length_reverse]
    rfl

namespace Position

/-- Behind a line break a line begins. -/
theorem col_after_of_break {c : CodePoint} {next : Option CodePoint}
    (hbreak : isLineBreak c = true)
    (hnext : next ≠ some (CodePoint.char '\n')) (p : Position) :
    (p.after c next).col = 1 := by
  unfold isLineBreak lineBreaks at hbreak
  simp only [List.contains_cons, List.contains_nil, Bool.or_false,
    Bool.or_eq_true, beq_iff_eq] at hbreak
  unfold after
  rcases hbreak with hfeed | hreturn
  · rw [if_pos hfeed]
    rfl
  · rw [if_neg (by rw [hreturn]; decide), if_pos hreturn, if_neg hnext]
    rfl

theorem col_behind_start (w : Text) {rest : Text}
    (h : rest.head? ≠ some (CodePoint.char '\n')) :
    (start.behind w rest).col = 1 + (Text.lastLine w).length := by
  induction w using List.reverseRecOn generalizing rest with
  | nil => rfl
  | append_singleton w c ih =>
    rw [behind_append, Text.length_lastLine_concat]
    show ((start.behind w (c :: rest)).after c rest.head?).col = _
    cases hbreak : isLineBreak c with
    | true =>
      rw [col_after_of_break hbreak h]
      rfl
    | false =>
      have hfeed : (c :: rest).head? ≠ some (CodePoint.char '\n') := by
        intro hhead
        rw [Option.some.inj hhead] at hbreak
        exact absurd hbreak (by decide)
      rw [after_of_not_break hbreak]
      show (start.behind w (c :: rest)).col + (1 : Nat) = _
      rw [ih hfeed]
      show _ = (1 : Int) + (((Text.lastLine w).length + 1 : Nat) : Int)
      omega

/-- What a scanner has counted is what the text in front of it tells. -/
theorem behind_start (w rest : Text)
    (h : rest.head? ≠ some (CodePoint.char '\n')) :
    start.behind w rest = reference w := by
  have hline := line_behind start w rest
  rw [Text.breaks_append w h] at hline
  have hcol := col_behind_start w h
  unfold reference
  generalize start.behind w rest = p at hline hcol
  cases p with
  | mk line col =>
    change line + _ = 1 + ((_ + _ : Nat) : Int) at hline
    change col = _ at hcol
    rw [mk.injEq]
    omega

end Position

-- ==================================================================== gaps

/-- A comment with both its brackets: the closing one is the first behind
the opening one. -/
def CommentStyle.Encloses (style : CommentStyle) (w : Text) : Prop :=
  ∃ inside, w = style.opener ++ (inside ++ style.closer)
    ∧ ∀ before after, inside ++ style.closer
        = before ++ (style.closer ++ after) → after = []

/-- A text of blanks, line breaks and comments with both their brackets. -/
inductive Gap : Text → Prop
  | nil : Gap []
  | blank {c : CodePoint} {w : Text} (hc : isBlank c = true) (hw : Gap w) :
      Gap (c :: w)
  | comment {style : CommentStyle} {v w : Text} (hv : style.Encloses v)
      (hw : Gap w) : Gap (v ++ w)

/-- The first closing bracket in a text: it stands there, and none stands in
front of it. -/
theorem Scanner.distanceTo?_eq_some {closer text : Text} {n : Nat}
    (h : distanceTo? closer text = some n) :
    closer <+: text.drop n ∧ ∀ m, closer <+: text.drop m →
      closer ≠ [] → n ≤ m := by
  induction text generalizing n with
  | nil => cases h
  | cons c rest ih =>
    unfold distanceTo? at h
    split at h
    next hprefix =>
      cases h
      exact ⟨List.isPrefixOf_iff_prefix.1 hprefix,
        fun m _ _ => Nat.zero_le m⟩
    next hprefix =>
      obtain ⟨k, hk, rfl⟩ := Option.map_eq_some_iff.1 h
      obtain ⟨hfirst, hleast⟩ := ih hk
      refine ⟨hfirst, fun m hm hne => ?_⟩
      cases m with
      | zero => exact absurd (List.isPrefixOf_iff_prefix.2 hm) hprefix
      | succ m => exact Nat.succ_le_succ (hleast m hm hne)

/-- What is skipped as a comment is one, with both its brackets. -/
theorem Lead.encloses_of_read {c : CodePoint} {more w rest : Text}
    {style : CommentStyle} {n : Nat}
    (hlead : Lead.read c more = .comment style)
    (hcloser : Scanner.distanceTo? style.closer
      ((c :: more).drop style.opener.length) = some n)
    (htext : c :: more = w ++ rest)
    (hlength : w.length
      = style.opener.length + (n + style.closer.length)) :
    style.Encloses w := by
  obtain ⟨behind, hbehind⟩ :=
    CommentStyle.opener_isPrefix (opening?_of_read hlead)
  obtain ⟨⟨after, hafter⟩, hleast⟩ := Scanner.distanceTo?_eq_some hcloser
  have hinside := Scanner.distanceTo?_le hcloser
  rw [← hbehind, List.drop_left] at hafter hleast hinside
  have hsplit : behind = behind.take n ++ (style.closer ++ after) := by
    rw [hafter, List.take_append_drop]
  have htake : (behind.take n).length = n := by
    rw [List.length_take]
    omega
  have hw : w = style.opener ++ (behind.take n ++ style.closer) := by
    have hwritten : w ++ rest
        = style.opener ++ (behind.take n ++ style.closer) ++ after := by
      rw [← htext, ← hbehind, List.append_assoc, List.append_assoc, ← hsplit]
    refine (List.append_inj hwritten ?_).1
    rw [hlength, List.length_append, List.length_append, htake]
  refine ⟨behind.take n, hw, fun before after' hsame => ?_⟩
  have hbefore : style.closer <+: behind.drop before.length := by
    refine ⟨after' ++ after, ?_⟩
    rw [hsplit, ← List.append_assoc (behind.take n), hsame,
      List.append_assoc before, List.drop_left, List.append_assoc]
  have hle := hleast _ hbefore (by cases style <;> decide)
  have hcount := congrArg List.length hsame
  simp only [List.length_append, htake] at hcount
  exact List.length_eq_zero_iff.1 (by omega)

-- ======================================================= lexemes with gaps

/-- A lexeme with the gap in front of it. -/
structure Spaced where
  gap : Text
  token : Token

/-- A lexeme as it is written, with the gap in front of it. -/
def Spaced.text (s : Spaced) : Text := s.gap ++ s.token.text

/-- Lexemes as they are written one after another, each behind its gap. -/
def writtenOut (items : List Spaced) : Text := items.flatMap Spaced.text

/-- Behind a text the lexemes stand where the text in front of them tells. -/
def PlacedBehind (before : Text) : List Spaced → Prop
  | [] => True
  | s :: rest =>
    s.token.pos = .reference (before ++ s.gap)
      ∧ PlacedBehind (before ++ s.text) rest

theorem PlacedBehind.pos_eq {text : Text} {before after : List Spaced}
    {s : Spaced} (h : PlacedBehind text (before ++ s :: after)) :
    s.token.pos = .reference (text ++ (writtenOut before ++ s.gap)) := by
  induction before generalizing text with
  | nil => exact h.1
  | cons t before ih =>
    rw [ih h.2, writtenOut, writtenOut, List.flatMap_cons, List.append_assoc,
      List.append_assoc]

/-- What is read from a text, with the mark of its end, is written in it
lexeme by lexeme, each behind a gap, and stands where the text in front of
it tells. The first gap takes up what is read in front of a lexeme, so it is
kept apart in the induction. -/
theorem Scans.exists_spaced {p q : Position} {text : Text}
    {tokens : List Token} (h : Scans p text tokens q) (before : Text)
    (hp : p = Position.start.behind before text) :
    ∃ (s : Spaced) (items : List Spaced),
      tokens ++ [.mark q] = s.token :: items.map (·.token)
        ∧ text = s.text ++ writtenOut items
        ∧ Gap s.gap ∧ (∀ i ∈ items, Gap i.gap)
        ∧ PlacedBehind before (s :: items) := by
  induction h generalizing before with
  | done p =>
    refine ⟨⟨[], .mark p⟩, [], rfl, rfl, .nil,
      fun _ hi => absurd hi List.not_mem_nil, ?_, trivial⟩
    rw [List.append_nil, ← Position.behind_start before [] (by decide)]
    exact hp
  | @blank p q c rest tokens hlead hrest ih =>
    obtain ⟨s, items, htokens, htext, hgap, hgaps, hpos, hplaced⟩ :=
      ih (before ++ [c]) (by rw [hp, Position.behind_append]; rfl)
    have hblank := Lead.read_eq_blank_iff.1 hlead
    refine ⟨⟨c :: s.gap, s.token⟩, items, htokens, by rw [htext]; rfl,
      .blank hblank hgap, hgaps, ?_, ?_⟩
    · rw [hpos, ← List.append_cons]
    · rw [← List.append_cons] at hplaced
      exact hplaced
  | @comment p q c more w rest tokens style n hlead hcloser htext hlength
      hrest ih =>
    obtain ⟨s, items, htokens, htext', hgap, hgaps, hpos, hplaced⟩ :=
      ih (before ++ w) (by rw [hp, Position.behind_append, htext])
    refine ⟨⟨w ++ s.gap, s.token⟩, items, htokens, ?_,
      .comment (Lead.encloses_of_read hlead hcloser htext hlength) hgap,
      hgaps, ?_, ?_⟩
    · rw [htext, htext']
      show w ++ (_ ++ _ ++ _) = (w ++ _) ++ _ ++ _
      simp only [List.append_assoc]
    · rw [hpos, List.append_assoc]
    · rw [List.append_assoc] at hplaced
      show PlacedBehind (before ++ ((w ++ s.gap) ++ s.token.text)) items
      rw [List.append_assoc w]
      exact hplaced
  | @lexeme p q c more rest tokens kind hlead hrest ih =>
    obtain ⟨s, items, htokens, htext, hgap, hgaps, hplaced⟩ :=
      ih (before ++ c :: more) (by rw [hp, Position.behind_append]; rfl)
    have hfeed := (Lead.wellCut_of_read hlead p).head?_append_ne rest
    refine ⟨⟨[], ⟨kind, c :: more, p⟩⟩, s :: items, ?_, ?_, .nil, ?_, ?_,
      hplaced⟩
    · rw [List.cons_append, htokens]
      rfl
    · rw [htext]
      rfl
    · intro i hi
      rcases List.mem_cons.1 hi with rfl | hi
      · exact hgap
      · exact hgaps i hi
    · show p = .reference (before ++ [])
      rw [List.append_nil, ← Position.behind_start before _ hfeed]
      exact hp

-- ============================================================ whole tables

/-- A table tells of a text what is written in it and where. Its lexemes
with gaps between them are the text; each stands at the place that the text
in front of it tells, and on one line; the last and no other is the mark of
the end; and they stand in reading order without overlap. -/
structure Maps (table : List Token) (text : Text) : Prop where
  spaced : ∃ items : List Spaced, items.map (·.token) = table
    ∧ writtenOut items = text ∧ (∀ s ∈ items, Gap s.gap)
    ∧ ∀ before s after, items = before ++ s :: after →
        s.token.pos = .reference (writtenOut before ++ s.gap)
  oneLine : ∀ t ∈ table, ∀ c ∈ t.text, isLineBreak c = false
  ending : ∃ tokens, table = tokens ++ [.mark (.reference text)]
    ∧ ∀ t ∈ tokens, t.isEnding = false ∧ t.text ≠ []
  increasing : table.Pairwise fun t u => t.pos.Before u.pos
  apart : table.Pairwise fun t u =>
    t.pos.line = u.pos.line → t.endCol ≤ u.pos.col

/-- Lexemes of a text follow each other strictly. -/
theorem Scans.increasing {p q : Position} {text : Text}
    {tokens : List Token} (h : Scans p text tokens q) :
    (tokens ++ [Token.mark q]).Pairwise fun t u => t.pos.Before u.pos := by
  have horder := h.order.1
  have hbefore : ∀ t ∈ tokens, t.pos.Before t.endPos := fun t ht =>
    Position.before_right t.pos fun hzero =>
      (h.wellCut t ht).nonempty (List.length_eq_zero_iff.1 hzero)
  rw [List.pairwise_append] at horder ⊢
  obtain ⟨hfront, -, hlast⟩ := horder
  refine ⟨hfront.imp_of_mem fun ht _ hle => (hbefore _ ht).trans_le hle,
    List.pairwise_singleton .., fun t ht u hu => ?_⟩
  exact (hbefore t ht).trans_le (hlast t ht u hu)

/-- Reading a text leads to the place behind it. -/
theorem Scans.eq_behind {p q : Position} {text : Text} {tokens : List Token}
    (h : Scans p text tokens q) : q = p.behind text [] := by
  induction h with
  | done p => rfl
  | @blank p q c rest tokens hlead hrest ih =>
    rw [ih, Position.behind, List.append_nil]
  | @comment p q c more w rest tokens style n hlead hcloser htext hlength
      hrest ih =>
    rw [ih, htext, Position.behind_append, List.append_nil]
  | @lexeme p q c more rest tokens kind hlead hrest ih =>
    rw [ih, ← List.cons_append, Position.behind_append, List.append_nil]

theorem Scans.maps {q : Position} {text : Text} {tokens : List Token}
    (h : Scans .start text tokens q) : Maps (tokens ++ [.mark q]) text := by
  obtain ⟨s, items, htokens, htext, hgap, hgaps, hplaced⟩ :=
    h.exists_spaced [] rfl
  have hend : q = .reference text := by
    rw [← Position.behind_start text [] (by decide)]
    exact h.eq_behind
  refine ⟨⟨s :: items, htokens.symm, htext.symm, ?_, ?_⟩, ?_, ?_,
    h.increasing, h.order.1.imp fun hle hline => ?_⟩
  · exact List.forall_mem_cons.2 ⟨hgap, hgaps⟩
  · intro before s' after hsplit
    rw [hsplit] at hplaced
    exact hplaced.pos_eq
  · intro t ht
    rcases List.mem_append.1 ht with ht | ht
    · exact (h.wellCut t ht).oneLine
    · rw [List.mem_singleton.1 ht]
      exact fun c hc => absurd hc List.not_mem_nil
  · exact ⟨tokens, by rw [hend], fun t ht =>
      ⟨(h.wellCut t ht).notEnding, (h.wellCut t ht).nonempty⟩⟩
  · rw [Position.le_iff] at hle
    rcases hle with hbefore | ⟨-, hle⟩
    · exact absurd hline (Int.ne_of_lt hbefore)
    · exact hle

/-- A text in which the scanner finds nothing is mapped by its table. -/
theorem scan_maps {text : Text}
    (h : (Scanner.ofText text).scan.1 = true) :
    Maps (Scanner.ofText text).scan.2.table text := by
  by_cases hscans : ∃ tokens q, Scans .start text tokens q
  · obtain ⟨tokens, q, hscans⟩ := hscans
    rw [(scan_of_scans hscans).2]
    exact hscans.maps
  · rw [(scan_of_not_scans hscans).1] at h
    cases h

/-- Line breaks of all three styles, in a comment and outside, a negative
number, a symbol of two characters, and a carriage return at the very end:
the lexemes stand where they are written. -/
theorem scan_maps_mixedBreaks :
    let text : Text := "var a\x7b\r\n\r\x7d:=\r\n\t-1..(*\n)*)'\n\r"
    let table : List Token :=
      [⟨.keyword, "var", ⟨1, 1⟩⟩, ⟨.identifier, "a", ⟨1, 5⟩⟩,
        ⟨.symbol, ":=", ⟨3, 2⟩⟩, ⟨.number, "-1", ⟨4, 2⟩⟩,
        ⟨.symbol, "..", ⟨4, 4⟩⟩, ⟨.unknown, "'", ⟨5, 4⟩⟩, .mark ⟨7, 1⟩]
    (Scanner.ofText text).scan.1 = true
      ∧ (Scanner.ofText text).scan.2.table = table ∧ Maps table text := by
  intro text table
  have hclean : (Scanner.ofText text).scan.1 = true := by decide +kernel
  have htable : (Scanner.ofText text).scan.2.table = table := by
    decide +kernel
  exact ⟨hclean, htable, htable ▸ scan_maps hclean⟩

end VarSection
