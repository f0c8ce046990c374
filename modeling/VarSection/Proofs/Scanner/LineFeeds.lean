/-
Line breaks of all styles read alike. A text is rewritten so that each of its
line breaks is a line feed (`Text.withFeeds`): first every carriage return
with a line feed behind it becomes the line feed alone, then every carriage
return that is left becomes a line feed.

Neither step touches what a scanner tells apart. A line break is a blank
outside of comments and nothing inside of them, no lexeme and no bracket goes
over one, and the carriage return that goes away moves no place. So the
rewritten text is read item by item like the text itself
(`Scans.withFeeds`), at the same places although at other distances from
the beginning, and a comment that the one leaves open the other leaves open
too (`CommentStyle.Open.withFeeds`).
-/
import VarSection.Proofs.Scanner.Separating

namespace VarSection

namespace Text

variable {v w rest : Text}

-- ============================================================ the rewriting

/-- Each carriage return with a line feed behind it as the line feed
alone. -/
def joinBreaks : Text → Text
  | .char '\r' :: .char '\n' :: rest => .char '\n' :: joinBreaks rest
  | c :: rest => c :: joinBreaks rest
  | [] => []

/-- Each carriage return as a line feed. -/
def returnsToFeeds (text : Text) : Text :=
  text.map fun c => if c = CodePoint.char '\r' then .char '\n' else c

/-- A text with each of its line breaks written as a line feed. -/
def withFeeds (text : Text) : Text := text.joinBreaks.returnsToFeeds

theorem withFeeds_of_ne {c : CodePoint} (h : c ≠ CodePoint.char '\r')
    (rest : Text) : withFeeds (c :: rest) = c :: withFeeds rest := by
  have hjoin : joinBreaks (c :: rest) = c :: joinBreaks rest := by
    rw [joinBreaks.eq_def]
    split
    next heq => exact absurd (List.cons.inj heq).1 h
    next heq =>
      obtain ⟨rfl, rfl⟩ := List.cons.inj heq
      rfl
    next heq => cases heq
  unfold withFeeds returnsToFeeds
  rw [hjoin, List.map_cons, if_neg h]

theorem withFeeds_feed (rest : Text) :
    withFeeds (.char '\n' :: rest) = .char '\n' :: withFeeds rest :=
  withFeeds_of_ne (by decide) rest

theorem withFeeds_pair (rest : Text) :
    withFeeds (.char '\r' :: .char '\n' :: rest)
      = .char '\n' :: withFeeds rest := by
  unfold withFeeds returnsToFeeds
  rw [joinBreaks, List.map_cons]
  rfl

theorem withFeeds_return (h : rest.head? ≠ some (CodePoint.char '\n')) :
    withFeeds (.char '\r' :: rest) = .char '\n' :: withFeeds rest := by
  have hjoin : joinBreaks (.char '\r' :: rest)
      = .char '\r' :: joinBreaks rest := by
    rw [joinBreaks.eq_def]
    split
    next heq =>
      obtain ⟨-, rfl⟩ := List.cons.inj heq
      exact absurd rfl h
    next heq =>
      obtain ⟨rfl, rfl⟩ := List.cons.inj heq
      rfl
    next heq => cases heq
  unfold withFeeds returnsToFeeds
  rw [hjoin, List.map_cons]
  rfl

example : withFeeds "a\r\n\r\r\nb\r" = ("a\n\n\nb\n" : Text) := by decide

/-- Induction along a text by what its first character is to its line
breaks: the first of a pair, a carriage return alone, or anything else. -/
theorem breaksInduction {motive : Text → Prop} (nil : motive [])
    (pair : ∀ rest, motive rest →
      motive (.char '\r' :: .char '\n' :: rest))
    (single : ∀ rest : Text, rest.head? ≠ some (CodePoint.char '\n') →
      motive rest → motive (.char '\r' :: rest))
    (other : ∀ c rest, c ≠ CodePoint.char '\r' → motive rest →
      motive (c :: rest)) (text : Text) : motive text := by
  suffices h : motive text ∧ motive text.tail from h.1
  induction text with
  | nil => exact ⟨nil, nil⟩
  | cons c rest ih =>
    refine ⟨?_, ih.1⟩
    by_cases hc : c = CodePoint.char '\r'
    · subst hc
      by_cases hhead : rest.head? = some (CodePoint.char '\n')
      · obtain ⟨rest, rfl⟩ := List.head?_eq_some_iff.1 hhead
        exact pair rest ih.2
      · exact single rest hhead ih.1
    · exact other c rest hc ih.1

-- ================================================== the rewriting, in parts

theorem ne_return_of_oneLine (h : ∀ c ∈ w, isLineBreak c = false)
    {c : CodePoint} (hc : c ∈ w) : c ≠ CodePoint.char '\r' := by
  rintro rfl
  exact absurd (h _ hc) (by decide)

theorem BreaksApart.of_oneLine (h : ∀ c ∈ v, isLineBreak c = false)
    (w : Text) : BreaksApart v w := fun ⟨hlast, _⟩ =>
  ne_return_of_oneLine h (List.mem_of_getLast? hlast) rfl

theorem BreaksApart.of_cons {c : CodePoint} (h : BreaksApart (c :: v) w) :
    BreaksApart v w := by
  rintro ⟨hlast, hfeed⟩
  refine h ⟨?_, hfeed⟩
  cases v with
  | nil => cases hlast
  | cons d v => rw [List.getLast?_cons_cons, hlast]

/-- A carriage return that a text ends a line with ends it in front of
another text as well. -/
theorem BreaksApart.head?_append_ne
    (h : BreaksApart (.char '\r' :: v) w)
    (hhead : v.head? ≠ some (CodePoint.char '\n')) :
    (v ++ w).head? ≠ some (CodePoint.char '\n') := by
  cases v with
  | nil => exact fun hfeed => h ⟨rfl, hfeed⟩
  | cons d v => exact hhead

theorem withFeeds_of_oneLine (h : ∀ c ∈ w, isLineBreak c = false) :
    withFeeds w = w := by
  induction w with
  | nil => rfl
  | cons c w ih =>
    rw [withFeeds_of_ne (ne_return_of_oneLine h List.mem_cons_self),
      ih fun d hd => h d (List.mem_cons_of_mem c hd)]

theorem withFeeds_append (h : v.BreaksApart w) :
    withFeeds (v ++ w) = withFeeds v ++ withFeeds w := by
  induction v using breaksInduction with
  | nil => rfl
  | pair v ih =>
    rw [List.cons_append, List.cons_append, withFeeds_pair, withFeeds_pair,
      ih h.of_cons.of_cons]
    rfl
  | single v hhead ih =>
    rw [List.cons_append, withFeeds_return (h.head?_append_ne hhead),
      withFeeds_return hhead, ih h.of_cons]
    rfl
  | other c v hc ih =>
    rw [List.cons_append, withFeeds_of_ne hc, withFeeds_of_ne hc,
      ih h.of_cons]
    rfl

theorem withFeeds_append_of_oneLine (h : ∀ c ∈ w, isLineBreak c = false)
    (rest : Text) : withFeeds (w ++ rest) = w ++ withFeeds rest := by
  rw [withFeeds_append (.of_oneLine h rest), withFeeds_of_oneLine h]

/-- The first line of a text is rewritten as it stands. -/
theorem firstLine_withFeeds (text : Text) :
    text.withFeeds.firstLine = text.firstLine := by
  induction text using breaksInduction with
  | nil => rfl
  | pair rest =>
    rw [withFeeds_pair, firstLine_cons_of_break (by decide),
      firstLine_cons_of_break (by decide)]
  | single rest hhead =>
    rw [withFeeds_return hhead, firstLine_cons_of_break (by decide),
      firstLine_cons_of_break (by decide)]
  | other c rest hc ih =>
    unfold firstLine at ih ⊢
    rw [withFeeds_of_ne hc, List.takeWhile_cons, List.takeWhile_cons, ih]

-- ============================================== what the rewriting writes

/-- A text on one line that the rewritten text begins with begins the text
itself. -/
theorem exists_append_of_withFeeds {text after : Text}
    (hw : ∀ c ∈ w, isLineBreak c = false)
    (h : text.withFeeds = w ++ after) :
    ∃ after', text = w ++ after' ∧ after'.withFeeds = after := by
  induction w generalizing text with
  | nil => exact ⟨text, rfl, h⟩
  | cons c w ih =>
    have hne : CodePoint.char '\n' ≠ c := by
      rintro rfl
      exact absurd (hw _ List.mem_cons_self) (by decide)
    cases text using breaksInduction with
    | nil => cases h
    | pair rest =>
      rw [withFeeds_pair] at h
      exact absurd (List.cons.inj h).1 hne
    | single rest hhead =>
      rw [withFeeds_return hhead] at h
      exact absurd (List.cons.inj h).1 hne
    | other d rest hd =>
      rw [withFeeds_of_ne hd] at h
      obtain ⟨rfl, hrest⟩ := List.cons.inj h
      obtain ⟨after', rfl, hafter⟩ :=
        ih (fun e he => hw e (List.mem_cons_of_mem d he)) hrest
      exact ⟨after', rfl, hafter⟩

/-- Behind its first character the rewritten text is the rewriting of an end
of the text. -/
theorem exists_rest_of_withFeeds {text after : Text} {c : CodePoint}
    (h : text.withFeeds = c :: after) :
    ∃ v rest, text = v ++ rest ∧ rest.withFeeds = after := by
  cases text using breaksInduction with
  | nil => cases h
  | pair rest =>
    rw [withFeeds_pair] at h
    exact ⟨[_, _], rest, rfl, (List.cons.inj h).2⟩
  | single rest hhead =>
    rw [withFeeds_return hhead] at h
    exact ⟨[_], rest, rfl, (List.cons.inj h).2⟩
  | other d rest hd =>
    rw [withFeeds_of_ne hd] at h
    exact ⟨[d], rest, rfl, (List.cons.inj h).2⟩

/-- A text on one line that stands in the rewritten text stands in the text
itself, in front of what is rewritten behind it. -/
theorem exists_split_of_withFeeds {text before after : Text}
    (hw : ∀ c ∈ w, isLineBreak c = false)
    (h : text.withFeeds = before ++ (w ++ after)) :
    ∃ before' after', text = before' ++ (w ++ after')
      ∧ after'.withFeeds = after := by
  induction before generalizing text with
  | nil =>
    obtain ⟨after', htext, hafter⟩ := exists_append_of_withFeeds hw h
    exact ⟨[], after', htext, hafter⟩
  | cons c before ih =>
    obtain ⟨v, rest, rfl, hrest⟩ := exists_rest_of_withFeeds h
    obtain ⟨before', after', rfl, hafter⟩ := ih hrest
    exact ⟨v ++ before', after', (List.append_assoc ..).symm, hafter⟩

end Text

-- ======================================================= what a scanner sees

/-- The place behind a text is the same when line breaks become line
feeds. -/
theorem Position.behind_withFeeds {w rest : Text} (h : w.BreaksApart rest)
    (p : Position) : p.behind w.withFeeds rest.withFeeds = p.behind w rest := by
  induction w using Text.breaksInduction generalizing p with
  | nil => rfl
  | pair w ih =>
    rw [Text.withFeeds_pair]
    exact ih h.of_cons.of_cons p.newLine
  | single w hhead ih =>
    have hafter : p.after (.char '\r') (w ++ rest).head? = p.newLine :=
      if_neg (h.head?_append_ne hhead)
    rw [Text.withFeeds_return hhead, behind, behind, hafter]
    exact ih h.of_cons p.newLine
  | other c w hc ih =>
    rw [Text.withFeeds_of_ne hc, behind, behind,
      after_of_ne_return hc p _ (w ++ rest).head?]
    exact ih h.of_cons _

namespace Lead

/-- What begins in front of a text is told by its first line. -/
theorem read_firstLine (c : CodePoint) (rest : Text) :
    Lead.read c rest.firstLine = Lead.read c rest := by
  have hsplit : rest.firstLine
      ++ rest.dropWhile (fun d => !isLineBreak d) = rest :=
    List.takeWhile_append_dropWhile
  cases hbehind : rest.dropWhile (fun d => !isLineBreak d) with
  | nil =>
    rw [hbehind, List.append_nil] at hsplit
    rw [hsplit]
  | cons d behind =>
    have hbreak : isLineBreak d = true := by
      have hstop := List.head?_dropWhile_not (fun d => !isLineBreak d) rest
      rw [hbehind] at hstop
      simpa using hstop
    have hanew : ∀ d ∈ lineBreaks, d.BeginsAnew := by decide
    have hread := read_append_of_beginsAnew
      (hanew d (List.contains_iff_mem.1 hbreak)) c rest.firstLine behind
    rw [hbehind] at hsplit
    rw [← hread, hsplit]

theorem read_withFeeds (c : CodePoint) (rest : Text) :
    Lead.read c rest.withFeeds = Lead.read c rest := by
  rw [← read_firstLine, Text.firstLine_withFeeds, read_firstLine]

end Lead

/-- Where no closing bracket is found, none stands. -/
theorem Scanner.ne_append_of_distanceTo?_eq_none {closer text : Text}
    (hne : closer ≠ []) (h : distanceTo? closer text = none)
    (before after : Text) : text ≠ before ++ (closer ++ after) := by
  rintro rfl
  induction before with
  | nil =>
    obtain ⟨c, more, rfl⟩ := List.exists_cons_of_ne_nil hne
    have hbegins : (c :: more).isPrefixOf (c :: (more ++ after)) = true :=
      List.isPrefixOf_iff_prefix.2 (List.prefix_append (c :: more) after)
    rw [List.nil_append, List.cons_append, distanceTo?, if_pos hbegins] at h
    cases h
  | cons d before ih =>
    rw [List.cons_append, distanceTo?] at h
    split at h
    next => cases h
    next => exact ih (Option.map_eq_none_iff.1 h)

namespace CommentStyle

variable {style : CommentStyle} {w text : Text}

theorem oneLine_opener (style : CommentStyle) :
    ∀ c ∈ style.opener, isLineBreak c = false := by
  cases style <;> decide

theorem oneLine_closer (style : CommentStyle) :
    ∀ c ∈ style.closer, isLineBreak c = false := by
  cases style <;> decide

theorem Encloses.withFeeds (h : style.Encloses w) :
    style.Encloses w.withFeeds := by
  obtain ⟨inside, rfl, hfirst⟩ := h
  have happart : inside.BreaksApart style.closer := by
    rintro ⟨-, hfeed⟩
    exact absurd (style.oneLine_closer _ (List.mem_of_mem_head? hfeed))
      (by decide)
  have hinside : (inside ++ style.closer).withFeeds
      = inside.withFeeds ++ style.closer := by
    rw [Text.withFeeds_append happart,
      Text.withFeeds_of_oneLine style.oneLine_closer]
  refine ⟨inside.withFeeds, ?_, fun before after hsame => ?_⟩
  · rw [Text.withFeeds_append_of_oneLine style.oneLine_opener, hinside]
  · rw [← hinside] at hsame
    obtain ⟨before', after', hsplit, rfl⟩ :=
      Text.exists_split_of_withFeeds style.oneLine_closer hsame
    rw [hfirst _ _ hsplit]
    rfl

theorem Encloses.breaksApart (h : style.Encloses w) (rest : Text) :
    w.BreaksApart rest := by
  obtain ⟨inside, rfl, -⟩ := h
  rintro ⟨hlast, -⟩
  rw [← List.append_assoc, List.getLast?_append_of_ne_nil _
    (by cases style <;> decide)] at hlast
  exact Text.ne_return_of_oneLine style.oneLine_closer
    (List.mem_of_getLast? hlast) rfl

theorem Open.withFeeds (h : style.Open text) : style.Open text.withFeeds := by
  obtain ⟨inside : Text, rfl⟩ := opener_isPrefix h.opening
  have hunclosed := h.unclosed
  rw [List.drop_left] at hunclosed
  rw [Text.withFeeds_append_of_oneLine style.oneLine_opener]
  refine ⟨opening?_of_isPrefix (List.prefix_append ..), ?_⟩
  rw [List.drop_left]
  cases hcloser : Scanner.distanceTo? style.closer inside.withFeeds with
  | none => rfl
  | some n =>
    obtain ⟨after, hafter⟩ := (Scanner.distanceTo?_eq_some hcloser).1
    have hsplit : inside.withFeeds
        = inside.withFeeds.take n ++ (style.closer ++ after) := by
      rw [hafter, List.take_append_drop]
    obtain ⟨before', after', hinside, -⟩ :=
      Text.exists_split_of_withFeeds style.oneLine_closer hsplit
    exact absurd hinside (Scanner.ne_append_of_distanceTo?_eq_none
      (by cases style <;> decide) hunclosed before' after')

end CommentStyle

-- ============================================================== item by item

/-- The rewritten text is read like the text: the same lexemes at the same
places. -/
theorem Scans.withFeeds {p q : Position} {text : Text} {tokens : List Token}
    (h : Scans p text tokens q) : Scans p text.withFeeds tokens q := by
  induction h with
  | done p => exact .done p
  | @blank p q c rest tokens hlead hrest ih =>
    by_cases hc : c = CodePoint.char '\r'
    · subst hc
      by_cases hhead : rest.head? = some (CodePoint.char '\n')
      · -- the carriage return goes away, and it has moved nothing
        rw [hhead] at ih
        obtain ⟨rest, rfl⟩ := List.head?_eq_some_iff.1 hhead
        rw [Text.withFeeds_feed] at ih
        rw [Text.withFeeds_pair]
        exact ih
      · have hafter : p.after (.char '\r') rest.head? = p.newLine :=
          if_neg hhead
        rw [hafter] at ih
        rw [Text.withFeeds_return hhead]
        exact .blank rfl ih
    · rw [Text.withFeeds_of_ne hc]
      refine .blank ((Lead.read_withFeeds c rest).trans hlead) ?_
      rw [Position.after_of_ne_return hc p _ rest.head?]
      exact ih
  | @comment p q c more w rest tokens style n hlead hcloser htext hlength
      hrest ih =>
    have hencloses := Lead.encloses_of_read hlead hcloser htext hlength
    have happart := hencloses.breaksApart rest
    obtain ⟨d, more', n', hw, hlead', hcloser', hlength'⟩ :=
      hencloses.withFeeds.exists_read rest.withFeeds
    rw [htext, Text.withFeeds_append happart, hw]
    refine .comment hlead' hcloser' rfl (hw ▸ hlength') ?_
    rw [← hw, Position.behind_withFeeds happart]
    exact ih
  | @lexeme p q c more rest tokens kind hlead hrest ih =>
    have hline : ∀ d ∈ c :: more, isLineBreak d = false :=
      (Lead.wellCut_of_read hlead p).oneLine
    have hmore := Text.withFeeds_append_of_oneLine
      (fun d hd => hline d (List.mem_cons_of_mem c hd)) rest
    have hread := Lead.read_withFeeds c (more ++ rest)
    have hplace := Position.behind_withFeeds (.of_oneLine hline rest) p
    rw [Text.withFeeds_of_oneLine hline] at hplace
    rw [Text.withFeeds_of_ne
      (Text.ne_return_of_oneLine hline List.mem_cons_self), hmore]
    rw [hmore, hlead] at hread
    refine .lexeme hread ?_
    rw [hplace]
    exact ih

-- ============================================================= whole texts

/-- In a text that is read to its end the scanner finds nothing. -/
theorem Scans.findings_eq_nil {text : Text} {tokens : List Token}
    {q : Position} (h : Scans .start text tokens q) :
    (Scanner.ofText text).scan.2.findings = [] := by
  obtain ⟨herrors, -, -⟩ :=
    Scanner.scanItems_of_scans h (s := .ofText text) rfl rfl
  have hnone : (Scanner.ofText text).scanItems.errors = [] := herrors
  unfold Scanner.scan Scanner.findings
  simp only [hnone, List.isEmpty_nil, if_true]
  show (Scanner.ofText text).scanItems.errors.reverse = []
  rw [hnone]
  rfl

/-- The styles of line breaks make no difference: a text and the same text
with line feeds for all its line breaks have the same lexemes and the same
comment that is not closed, if any, and so the same check, fault or
report. -/
theorem scan_withFeeds [NestingLimit] (text : Text) :
    let feeds := (Scanner.ofText text.withFeeds).scan
    let plain := (Scanner.ofText text).scan
    feeds.1 = plain.1 ∧ feeds.2.table = plain.2.table
      ∧ feeds.2.findings = plain.2.findings
      ∧ tokenize text.withFeeds = tokenize text
      ∧ check text.withFeeds = check text := by
  intro feeds plain
  by_cases hscans : ∃ tokens q, Scans .start text tokens q
  · obtain ⟨tokens, q, hscans⟩ := hscans
    have hfeeds := scan_of_scans hscans.withFeeds
    have hplain := scan_of_scans hscans
    refine ⟨hfeeds.1.trans hplain.1.symm, hfeeds.2.trans hplain.2.symm,
      hscans.withFeeds.findings_eq_nil.trans hscans.findings_eq_nil.symm,
      ?_, (check_of_scans hscans.withFeeds).trans
        (check_of_scans hscans).symm⟩
    rw [tokenize_eq_ok_iff.2 ⟨tokens, q, hscans.withFeeds, rfl⟩,
      tokenize_eq_ok_iff.2 ⟨tokens, q, hscans, rfl⟩]
  · obtain ⟨before, rest, style, tokens, rfl, hopen, hbefore, htable,
      hfindings⟩ := exists_open_of_not_scans hscans
    have hclean := (scan_of_not_scans hscans).1
    have hsplit : (before ++ rest).withFeeds
        = before.withFeeds ++ rest.withFeeds := by
      refine Text.withFeeds_append fun ⟨_, hfeed⟩ => ?_
      obtain ⟨d, more, rfl, -, -, hd⟩ := hopen.exists_head
      exact hd (Option.some.inj hfeed)
    have hplace : Position.reference before.withFeeds
        = Position.reference before := by
      rw [← Position.behind_start before.withFeeds [] (by decide)]
      exact hbefore.withFeeds.eq_behind.symm
    have hfound := scan_of_open hbefore.withFeeds hopen.withFeeds
    rw [← hsplit, hplace] at hfound
    have hfeeds := tokenize_and_check_of_finding hfound.1 hfound.2.2
    have hplain := tokenize_and_check_of_finding hclean hfindings
    exact ⟨hfound.1.trans hclean.symm, hfound.2.1.trans htable.symm,
      hfound.2.2.trans hfindings.symm, hfeeds.1.trans hplain.1.symm,
      hfeeds.2.trans hplain.2.symm⟩

end VarSection
