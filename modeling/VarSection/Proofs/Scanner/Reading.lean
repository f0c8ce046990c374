/-
What the scanner reads, as a relation. `Scans p text tokens q` says that a
text which begins at the place `p` consists of these lexemes, with blanks
and closed comments between them, and ends at `q`. Each rule takes one item
off the head of the text, classified by `Lead.read` alone, so facts about
lexemes and places go by induction over the items and never look at the
state of a scanner.

The relation and the scanner agree (`tokenize_eq_ok_iff`): a text has a
table of lexemes just when it can be read, and then the table is what was
read, closed by the mark of the end. A check analyses that table
(`check_of_scans`), and a text that cannot be read fails
(`check_of_not_scans`).
-/
import VarSection.Check

namespace VarSection

/-- The place behind a text that begins at `p`, where `rest` follows the
text. -/
def Position.behind (p : Position) : Text → Text → Position
  | [], _ => p
  | c :: w, rest => (p.after c (w ++ rest).head?).behind w rest

/-- The mark of the end of a text that ends at a place. -/
def Token.mark (q : Position) : Token := ⟨.ending, [], q⟩

@[simp] theorem Token.isEnding_mark (q : Position) :
    (Token.mark q).isEnding = true := rfl

/-- A table with the mark has a lexeme that ends it. -/
theorem Token.mark_ends (tokens : List Token) (q : Position) :
    ∃ t ∈ tokens ++ [mark q], t.isEnding = true :=
  ⟨mark q, List.mem_append_right _ List.mem_cons_self, rfl⟩

/-- In front of the mark of the end a table is parted like its lexemes. -/
theorem Token.exists_append_mark {tokens before rest : List Token} {t : Token}
    {q : Position} (h : tokens ++ [.mark q] = before ++ t :: rest)
    (hend : t.isEnding = false) :
    ∃ more, rest = more ++ [.mark q] ∧ tokens = before ++ t :: more := by
  rcases List.eq_nil_or_concat rest with rfl | ⟨more, mark, rfl⟩
  · obtain ⟨-, hmark⟩ := List.append_inj' h rfl
    rw [← (List.cons.inj hmark).1] at hend
    cases hend
  · rw [List.concat_eq_append] at h ⊢
    have hsplit : tokens ++ [.mark q] = (before ++ t :: more) ++ [mark] := by
      rw [h, List.append_assoc, List.cons_append]
    obtain ⟨htokens, hmark⟩ := List.append_inj' hsplit rfl
    exact ⟨more, by rw [(List.cons.inj hmark).1], htokens⟩

/-- A text that begins at a place consists of lexemes, with blanks and
closed comments between them, and ends at a place. -/
inductive Scans : Position → Text → List Token → Position → Prop
  | done (p : Position) : Scans p [] [] p
  | blank {p q : Position} {c : CodePoint} {rest : Text}
      {tokens : List Token} (hlead : Lead.read c rest = .blank)
      (hrest : Scans (p.after c rest.head?) rest tokens q) :
      Scans p (c :: rest) tokens q
  | comment {p q : Position} {c : CodePoint} {more w rest : Text}
      {tokens : List Token} {style : CommentStyle} {n : Nat}
      (hlead : Lead.read c more = .comment style)
      (hcloser : Scanner.distanceTo? style.closer
        ((c :: more).drop style.opener.length) = some n)
      (htext : c :: more = w ++ rest)
      (hlength : w.length
        = style.opener.length + (n + style.closer.length))
      (hrest : Scans (p.behind w rest) rest tokens q) :
      Scans p (c :: more) tokens q
  | lexeme {p q : Position} {c : CodePoint} {more rest : Text}
      {tokens : List Token} {kind : Kind}
      (hlead : Lead.read c (more ++ rest) = .lexeme kind more)
      (hrest : Scans (p.behind (c :: more) rest) rest tokens q) :
      Scans p (c :: (more ++ rest)) (⟨kind, c :: more, p⟩ :: tokens) q

namespace Scanner

-- ===================================================== steps of a scanner

theorem tokens_advanceBy (n : Nat) (s : Scanner) :
    (advanceBy n s).tokens = s.tokens := by
  induction n generalizing s with
  | zero => rfl
  | succ n ih => rw [advanceBy, ih]; rfl

theorem errors_advanceBy (n : Nat) (s : Scanner) :
    (advanceBy n s).errors = s.errors := by
  induction n generalizing s with
  | zero => rfl
  | succ n ih => rw [advanceBy, ih]; rfl

/-- Steps over a text lead right behind it. -/
theorem pos_advanceBy {w rest : Text} {s : Scanner}
    (h : s.ahead = w ++ rest) :
    (advanceBy w.length s).pos = s.pos.behind w rest := by
  induction w generalizing s with
  | nil => rfl
  | cons c w ih =>
    have hahead : s.advance.ahead = w ++ rest := by
      rw [ahead_advance, h]; rfl
    have hpos : s.advance.pos = s.pos.after c (w ++ rest).head? := by
      unfold advance
      rw [h]; rfl
    rw [List.length_cons, advanceBy, ih hahead, hpos, Position.behind]

/-- Two runs of steps are one. -/
theorem advanceBy_add (m n : Nat) (s : Scanner) :
    advanceBy n (advanceBy m s) = advanceBy (m + n) s := by
  induction m generalizing s with
  | zero => rw [Nat.zero_add]; rfl
  | succ m ih => rw [Nat.add_right_comm]; exact ih s.advance

/-- A closed comment is passed, and nothing is recorded. -/
theorem skipComment_of_distance {opener closer : Text} {s : Scanner}
    {n : Nat}
    (h : distanceTo? closer (s.ahead.drop opener.length) = some n) :
    s.skipComment opener closer
      = (true, advanceBy (opener.length + (n + closer.length)) s) := by
  unfold skipComment
  simp only [ahead_advanceBy, h, advanceBy_add]

/-- A comment that is not closed is recorded. -/
theorem errors_skipComment_of_none {opener closer : Text} {s : Scanner}
    (h : distanceTo? closer (s.ahead.drop opener.length) = none) :
    (s.skipComment opener closer).2.errors
      = ⟨.lexical, s.pos, .unclosedComment⟩ :: s.errors := by
  unfold skipComment
  simp only [ahead_advanceBy, h]
  show _ :: _ = _
  rw [errors_advanceBy, errors_advanceBy]

theorem skipComment_fst_of_none {opener closer : Text} {s : Scanner}
    (h : distanceTo? closer (s.ahead.drop opener.length) = none) :
    (s.skipComment opener closer).1 = false := by
  unfold skipComment
  simp only [ahead_advanceBy, h]

/-- The closing bracket that is found lies within the text. -/
theorem distanceTo?_le {closer text : Text} {n : Nat}
    (h : distanceTo? closer text = some n) :
    n + closer.length ≤ text.length := by
  induction text generalizing n with
  | nil => cases h
  | cons c rest ih =>
    unfold distanceTo? at h
    split at h
    next hprefix =>
      cases h
      rw [Nat.zero_add]
      exact (List.isPrefixOf_iff_prefix.1 hprefix).length_le
    next hprefix =>
      obtain ⟨m, hm, rfl⟩ := Option.map_eq_some_iff.1 h
      have hle := ih hm
      rw [List.length_cons]
      omega

/-- A comment that is closed is closed at the same place whatever
follows. -/
theorem distanceTo?_append {closer w : Text} {n : Nat}
    (h : distanceTo? closer w = some n) (more : Text) :
    distanceTo? closer (w ++ more) = some n := by
  induction w generalizing n with
  | nil => cases h
  | cons c w ih =>
    have hlength := distanceTo?_le h
    unfold distanceTo? at h
    rw [List.cons_append]
    unfold distanceTo?
    split at h
    next hprefix =>
      rw [if_pos, h]
      rw [List.isPrefixOf_iff_prefix] at hprefix ⊢
      exact hprefix.trans (List.prefix_append (c :: w) more)
    next hprefix =>
      obtain ⟨m, hm, rfl⟩ := Option.map_eq_some_iff.1 h
      rw [if_neg, ih hm]
      · rfl
      · intro hmore
        rw [List.isPrefixOf_iff_prefix] at hprefix hmore
        refine hprefix (List.prefix_of_prefix_length_le hmore
          (List.prefix_append (c :: w) more) ?_)
        omega

-- ================================================= one item after another

/-- What a scanner does with the rest of its text, item by item. -/
theorem scanItems_nil {s : Scanner} (h : s.ahead = []) :
    s.scanItems = s := by
  unfold scanItems
  split
  next => rfl
  next hcons => rw [h] at hcons; cases hcons

theorem scanItems_blank {s : Scanner} {c : CodePoint} {rest : Text}
    (h : s.ahead = c :: rest) (hlead : Lead.read c rest = .blank) :
    s.scanItems = s.advance.scanItems := by
  rw [scanItems]
  split
  next hnil => rw [h] at hnil; cases hnil
  next hcons =>
    rw [h] at hcons
    cases hcons
    rw [hlead]

theorem scanItems_comment {s : Scanner} {c : CodePoint} {rest : Text}
    {style : CommentStyle} (h : s.ahead = c :: rest)
    (hlead : Lead.read c rest = .comment style) :
    s.scanItems
      = if (s.skipComment style.opener style.closer).1 then
          (s.skipComment style.opener style.closer).2.scanItems
        else (s.skipComment style.opener style.closer).2 := by
  rw [scanItems]
  split
  next hnil => rw [h] at hnil; cases hnil
  next hcons =>
    rw [h] at hcons
    cases hcons
    rw [hlead]

theorem scanItems_lexeme {s : Scanner} {c : CodePoint} {rest more : Text}
    {kind : Kind} (h : s.ahead = c :: rest)
    (hlead : Lead.read c rest = .lexeme kind more) :
    s.scanItems
      = ((advanceBy (more.length + 1) s).push
          ⟨kind, c :: more, s.pos⟩).scanItems := by
  rw [scanItems]
  split
  next hnil => rw [h] at hnil; cases hnil
  next hcons =>
    rw [h] at hcons
    cases hcons
    rw [hlead]

/-- Behind a comment that its text closes a scanner goes on. -/
theorem scanItems_closed {s : Scanner} {c : CodePoint} {rest : Text}
    {style : CommentStyle} {n : Nat} (h : s.ahead = c :: rest)
    (hlead : Lead.read c rest = .comment style)
    (hcloser : distanceTo? style.closer (s.ahead.drop style.opener.length)
      = some n) :
    ∃ w behind, s.ahead = w ++ behind
      ∧ w.length = style.opener.length + (n + style.closer.length)
      ∧ s.scanItems = (advanceBy w.length s).scanItems := by
  have hle := distanceTo?_le hcloser
  have hbrackets : 0 < style.opener.length ∧ 0 < style.closer.length := by
    cases style <;> decide
  obtain ⟨k, hk⟩ : ∃ k,
      k = style.opener.length + (n + style.closer.length) := ⟨_, rfl⟩
  have hlength : (s.ahead.take k).length = k := by
    rw [List.length_drop] at hle
    rw [List.length_take]
    omega
  refine ⟨s.ahead.take k, s.ahead.drop k,
    (List.take_append_drop ..).symm, hlength.trans hk, ?_⟩
  rw [scanItems_comment h hlead, skipComment_of_distance hcloser,
    if_pos rfl, hlength, hk]

/-- A scanner that has passed a text stands behind it and has gathered
nothing. -/
theorem advanceBy_of_ahead {s : Scanner} {w behind : Text}
    (h : s.ahead = w ++ behind) :
    (advanceBy w.length s).ahead = behind
      ∧ (advanceBy w.length s).pos = s.pos.behind w behind := by
  refine ⟨?_, pos_advanceBy h⟩
  rw [ahead_advanceBy, h, List.drop_left]

end Scanner

-- ============================================= the relation and the scanner

/-- A lexeme is cut off the text behind its first character. -/
theorem Lead.lexemeAt_prefix (c : CodePoint) (rest : Text) :
    (lexemeAt c rest).2 <+: rest := by
  unfold lexemeAt
  split
  · exact List.take_prefix ..
  · split
    · exact List.takeWhile_prefix ..
    · split
      · exact List.nil_prefix
      · split
        · exact List.takeWhile_prefix ..
        · split
          · exact List.takeWhile_prefix ..
          · exact List.nil_prefix

theorem Lead.prefix_of_read {c : CodePoint} {rest more : Text} {kind : Kind}
    (h : Lead.read c rest = .lexeme kind more) : more <+: rest := by
  unfold Lead.read at h
  split at h
  · cases h
  · split at h
    · cases h
    · cases h
      exact lexemeAt_prefix c rest

namespace Scanner

/-- A scanner that finds nothing has read its text. -/
theorem scans_of_scanItems {s : Scanner}
    (h : s.scanItems.errors = s.errors) :
    ∃ tokens, Scans s.pos s.ahead tokens s.scanItems.pos
      ∧ s.scanItems.tokens = tokens.reverse ++ s.tokens := by
  induction hn : s.ahead.length using Nat.strongRecOn generalizing s with
  | ind n ih =>
    cases hahead : s.ahead with
    | nil =>
      rw [scanItems_nil hahead]
      exact ⟨[], .done _, rfl⟩
    | cons c rest =>
      rw [hahead, List.length_cons] at hn
      cases hlead : Lead.read c rest with
      | blank =>
        rw [scanItems_blank hahead hlead] at h ⊢
        have hrest : s.advance.ahead = rest := by
          rw [ahead_advance, hahead]; rfl
        have hpos : s.advance.pos = s.pos.after c rest.head? := by
          unfold advance
          rw [hahead]
        obtain ⟨tokens, hscans, htokens⟩ :=
          ih rest.length (by omega) h (by rw [hrest])
        rw [hrest, hpos] at hscans
        exact ⟨tokens, .blank hlead hscans, htokens⟩
      | comment style =>
        rw [scanItems_comment hahead hlead] at h ⊢
        cases hdist : distanceTo? style.closer
            (s.ahead.drop style.opener.length) with
        | none =>
          rw [skipComment_fst_of_none hdist, if_neg Bool.false_ne_true,
            errors_skipComment_of_none hdist] at h
          exact absurd (congrArg List.length h) (by simp)
        | some m =>
          obtain ⟨w, behind, htext, hlength, hitems⟩ :=
            scanItems_closed hahead hlead hdist
          rw [scanItems_comment hahead hlead] at hitems
          rw [hitems] at h ⊢
          obtain ⟨hrest, hpos⟩ := advanceBy_of_ahead htext
          have hopener : 0 < style.opener.length := by cases style <;> decide
          have hcount : w.length + behind.length = n := by
            rw [← hn, ← List.length_cons (a := c), ← hahead, htext,
              List.length_append]
          obtain ⟨tokens, hscans, htokens⟩ := ih behind.length (by omega)
            (s := advanceBy w.length s) (by rw [errors_advanceBy]; exact h)
            (by rw [hrest])
          rw [hpos, hrest] at hscans
          rw [tokens_advanceBy] at htokens
          rw [hahead] at hdist htext
          exact ⟨tokens, .comment hlead hdist htext hlength hscans, htokens⟩
      | lexeme kind more =>
        rw [scanItems_lexeme hahead hlead] at h ⊢
        obtain ⟨rest, rfl⟩ := Lead.prefix_of_read hlead
        have hpos := pos_advanceBy (w := c :: more) hahead
        have hrest := ahead_advanceBy (more.length + 1) s
        rw [hahead, List.drop_succ_cons, List.drop_left] at hrest
        rw [List.length_append] at hn
        obtain ⟨tokens, hscans, htokens⟩ := ih rest.length (by omega)
          (s := (advanceBy (more.length + 1) s).push
            ⟨kind, c :: more, s.pos⟩)
          (by rw [h]; exact (errors_advanceBy ..).symm)
          (by rw [ahead_push, hrest])
        rw [ahead_push, hrest] at hscans
        refine ⟨⟨kind, c :: more, s.pos⟩ :: tokens,
          .lexeme hlead (hpos ▸ hscans), ?_⟩
        rw [htokens, List.reverse_cons, List.append_assoc]
        show _ ++ _ :: (advanceBy _ s).tokens = _
        rw [tokens_advanceBy]
        rfl

/-- A text that can be read is read by the scanner, and nothing is
found. -/
theorem scanItems_of_scans {p q : Position} {text : Text}
    {tokens : List Token} (h : Scans p text tokens q) {s : Scanner}
    (hpos : s.pos = p) (hahead : s.ahead = text) :
    s.scanItems.errors = s.errors ∧ s.scanItems.pos = q
      ∧ s.scanItems.tokens = tokens.reverse ++ s.tokens := by
  induction h generalizing s with
  | done p =>
    rw [scanItems_nil hahead]
    exact ⟨rfl, hpos, rfl⟩
  | @blank p q c rest tokens hlead hrest ih =>
    rw [scanItems_blank hahead hlead]
    apply ih
    · unfold advance
      rw [hahead, hpos]
    · rw [ahead_advance, hahead]; rfl
  | @comment p q c more w rest tokens style n hlead hcloser htext hlength
      hrest ih =>
    rw [scanItems_comment hahead hlead,
      skipComment_of_distance (hahead ▸ hcloser), if_pos rfl, ← hlength]
    rw [htext] at hahead
    have hdone := ih (s := advanceBy w.length s)
      (by rw [pos_advanceBy hahead, hpos])
      (by rw [ahead_advanceBy, hahead, List.drop_left])
    rw [errors_advanceBy, tokens_advanceBy] at hdone
    exact hdone
  | @lexeme p q c more rest tokens kind hlead hrest ih =>
    rw [scanItems_lexeme hahead hlead]
    have hdone := ih (s := (advanceBy (more.length + 1) s).push
        ⟨kind, c :: more, s.pos⟩)
      (by rw [← hpos]; exact pos_advanceBy (w := c :: more) hahead)
      (by rw [ahead_push, ahead_advanceBy, hahead, List.drop_succ_cons,
        List.drop_left])
    obtain ⟨herrors, hend, htokens⟩ := hdone
    refine ⟨herrors.trans (errors_advanceBy ..), hend, ?_⟩
    rw [htokens, List.reverse_cons, List.append_assoc, ← hpos]
    show _ ++ _ :: (advanceBy _ s).tokens = _
    rw [tokens_advanceBy]
    rfl

end Scanner

-- ========================================================= whole texts

/-- A text that can be read has a table: what was read, closed by the mark
of the end. -/
theorem scan_of_scans {text : Text} {tokens : List Token} {q : Position}
    (h : Scans .start text tokens q) :
    (Scanner.ofText text).scan.1 = true
      ∧ (Scanner.ofText text).scan.2.table = tokens ++ [.mark q] := by
  obtain ⟨herrors, hpos, htokens⟩ :=
    Scanner.scanItems_of_scans h (s := .ofText text) rfl rfl
  have hempty : (Scanner.ofText text).scanItems.errors.isEmpty = true := by
    rw [herrors]; rfl
  unfold Scanner.scan
  simp only [if_pos hempty]
  refine ⟨trivial, ?_⟩
  unfold Scanner.table Scanner.push
  simp only [htokens, hpos]
  show List.reverse (_ :: (tokens.reverse ++ [])) = _
  simp [Token.mark]

/-- A text that cannot be read leaves a finding. -/
theorem scan_of_not_scans {text : Text}
    (h : ¬ ∃ tokens q, Scans .start text tokens q) :
    (Scanner.ofText text).scan.1 = false
      ∧ (Scanner.ofText text).scan.2.findings ≠ [] := by
  have herrors : (Scanner.ofText text).scanItems.errors ≠ [] := by
    intro hnil
    obtain ⟨tokens, hscans, -⟩ :=
      Scanner.scans_of_scanItems (s := .ofText text) hnil
    exact h ⟨tokens, _, hscans⟩
  have hempty : ¬ (Scanner.ofText text).scanItems.errors.isEmpty = true := by
    rw [List.isEmpty_iff]; exact herrors
  unfold Scanner.scan
  simp only [if_neg hempty]
  refine ⟨trivial, ?_⟩
  unfold Scanner.findings
  rw [Ne, List.reverse_eq_nil_iff]
  exact herrors

/-- The table of a text is what is read from it, closed by the mark of the
end. -/
theorem tokenize_eq_ok_iff {text : Text} {table : List Token} :
    tokenize text = .ok table
      ↔ ∃ tokens q, Scans .start text tokens q
        ∧ table = tokens ++ [.mark q] := by
  unfold tokenize
  constructor
  · intro h
    by_cases hscans : ∃ tokens q, Scans .start text tokens q
    · obtain ⟨tokens, q, hscans⟩ := hscans
      obtain ⟨hclean, htable⟩ := scan_of_scans hscans
      refine ⟨tokens, q, hscans, ?_⟩
      rw [← htable]
      simp only [hclean] at h
      exact (Except.ok.inj h).symm
    · obtain ⟨hclean, hfindings⟩ := scan_of_not_scans hscans
      simp only [hclean] at h
      split at h
      · cases h
      · cases hfirst : (Scanner.ofText text).scan.2.findings with
        | nil => exact absurd hfirst hfindings
        | cons d more => simp_all
  · rintro ⟨tokens, q, hscans, rfl⟩
    obtain ⟨hclean, htable⟩ := scan_of_scans hscans
    simp only [hclean, htable]

/-- A check of a text with a table analyses the table. -/
theorem check_of_scans [NestingLimit] {text : Text} {tokens : List Token}
    {q : Position} (h : Scans .start text tokens q) :
    check text = (Analysis.ofTable (tokens ++ [.mark q])).run.report? := by
  obtain ⟨hclean, htable⟩ := scan_of_scans h
  unfold check
  simp only [hclean, htable, if_pos]

/-- Arranging findings neither adds nor drops one. -/
theorem Report.success_ofFindings (errors : List Diagnostic)
    (symbols : SymbolTable Position) (declarations : List Declaration) :
    (Report.ofFindings errors symbols declarations).success
      = errors.isEmpty := by
  show (Report.arrange errors).isEmpty = errors.isEmpty
  have hlength : (Report.arrange errors).length = errors.length :=
    List.length_mergeSort errors
  rw [Bool.eq_iff_iff, List.isEmpty_iff_length_eq_zero,
    List.isEmpty_iff_length_eq_zero, hlength]

/-- A check of a text without a table fails, whatever else is in the
text. -/
theorem check_of_not_scans [NestingLimit] {text : Text}
    (h : ¬ ∃ tokens q, Scans .start text tokens q) :
    ∃ report, check text = .ok report ∧ report.success = false := by
  obtain ⟨hclean, hfindings⟩ := scan_of_not_scans h
  unfold check
  simp only [hclean]
  refine ⟨_, rfl, ?_⟩
  rw [Report.success_ofFindings]
  exact List.isEmpty_eq_false_iff.2 hfindings

end VarSection
