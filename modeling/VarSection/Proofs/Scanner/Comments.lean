/-
Comments that a text does not close. Whether there is one can be told
without any lexemes: a reader who is outside of all comments, or inside one
that is bracketed in one of the two ways, goes through the text character by
character and sees at most the next one (`Zone.step`). The scanner finds a
comment that is not closed just where this reader ends inside of one, at the
bracket that opens it (`comments_decide`).

The two agree because the scanner passes the text in whole items, and behind
each item that it passes the reader is outside (`Zone.run_of_scans`). No
lexeme holds a bracket or half of one that the scanner would miss: a comment
goes before every lexeme, and behind the first character of a lexeme there
is no character that a bracket begins with.

In front of the bracket the scanner reads what it reads of the text up to
there alone: a bracket begins anew, so no lexeme reaches over it.
-/
import VarSection.Proofs.Analysis.OfText
import VarSection.Proofs.Scanner.Layout

namespace VarSection

-- ==================================================== a reader of comments

/-- Where a reader of a text is: outside of all comments, or inside of one
whose opening bracket has a number of characters in front of it. -/
inductive Zone where
  | outside
  | inside (style : CommentStyle) (opener : Nat)
deriving DecidableEq

namespace Zone

/-- What a reader makes of a character that has `n` characters in front of
it, where `next` is the one behind it. A bracket of two characters counts
from its first one on; and behind an opening one, a closing one cannot begin
with a character of the opening one. -/
def step (z : Zone) (n : Nat) (c : CodePoint) (next : Option CodePoint) :
    Zone :=
  match z with
  | outside =>
    if c = '{' then inside .braces n
    else if c = '(' ∧ next = some (.char '*') then inside .stars n
    else outside
  | inside .braces opener =>
    if c = '}' then outside else inside .braces opener
  | inside .stars opener =>
    if opener + 2 ≤ n ∧ c = '*' ∧ next = some (.char ')') then outside
    else inside .stars opener

/-- Reads a text that has `n` characters in front of it. -/
def run (z : Zone) (n : Nat) : Text → Zone
  | [] => z
  | c :: rest => (z.step n c rest.head?).run (n + 1) rest

/-- The bracket that opens the comment that a reader is inside of. -/
def opener? : Zone → Option Nat
  | outside => none
  | inside _ opener => some opener

end Zone

/-- How many characters stand in front of the comment that a text does not
close, if there is one. -/
def Text.openComment? (text : Text) : Option Nat :=
  (Zone.outside.run 0 text).opener?

-- ======================================================= brackets of comments

theorem isPrefixOf_single {d : CodePoint} (c : CodePoint) (rest : Text) :
    List.isPrefixOf [d] (c :: rest) = true ↔ c = d := by
  rw [List.isPrefixOf_iff_prefix, List.cons_prefix_cons]
  exact ⟨fun h => h.1.symm, fun h => ⟨h.symm, List.nil_prefix⟩⟩

theorem isPrefixOf_pair {d e : CodePoint} (c : CodePoint) (rest : Text) :
    List.isPrefixOf [d, e] (c :: rest) = true
      ↔ c = d ∧ rest.head? = some e := by
  rw [List.isPrefixOf_iff_prefix, List.cons_prefix_cons, eq_comm]
  refine and_congr_right fun _ => ?_
  cases rest with
  | nil => simp
  | cons c' rest =>
    rw [← List.isPrefixOf_iff_prefix, isPrefixOf_single, List.head?_cons,
      Option.some_inj]

namespace CommentStyle

variable {style : CommentStyle} {text : Text}

/-- A comment opens wherever its bracket is written. -/
theorem opening?_of_isPrefix (h : style.opener <+: text) :
    opening? text = some style := by
  obtain ⟨rest, rfl⟩ := h
  cases style with
  | braces => rfl
  | stars => rfl

/-- What goes on with a star can make a bracket of what was none. -/
theorem opening?_append_eq_none {c : CodePoint} {rest : Text}
    (h : opening? (c :: text) = none)
    (hrest : rest.head? ≠ some (CodePoint.char '*')) :
    opening? (c :: (text ++ rest)) = none := by
  cases hopen : opening? (c :: (text ++ rest)) with
  | none => rfl
  | some style =>
    have hprefix := List.isPrefixOf_iff_prefix.2 (opener_isPrefix hopen)
    have hshort : style.opener.isPrefixOf (c :: text) = true := by
      cases style with
      | braces =>
        have hfirst := (isPrefixOf_single c _).1 hprefix
        exact (isPrefixOf_single c text).2 hfirst
      | stars =>
        obtain ⟨hfirst, hsecond⟩ := (isPrefixOf_pair c _).1 hprefix
        cases text with
        | nil => exact absurd hsecond hrest
        | cons d text => exact (isPrefixOf_pair c _).2 ⟨hfirst, hsecond⟩
    rw [opening?_of_isPrefix (List.isPrefixOf_iff_prefix.1 hshort)] at h
    cases h

/-- A text begins with a comment that it does not close. -/
structure Open (style : CommentStyle) (text : Text) : Prop where
  opening : opening? text = some style
  unclosed : Scanner.distanceTo? style.closer
    (text.drop style.opener.length) = none

/-- Such a text begins anew, and neither with a star nor with a line
feed. -/
theorem Open.exists_head (h : style.Open text) :
    ∃ d rest, text = d :: rest ∧ d.BeginsAnew
      ∧ d ≠ CodePoint.char '*' ∧ d ≠ CodePoint.char '\n' := by
  obtain ⟨rest, rfl⟩ := opener_isPrefix h.opening
  have hclass : ∀ d ∈ [CodePoint.char '{', .char '('], d.BeginsAnew
      ∧ d ≠ CodePoint.char '*' ∧ d ≠ CodePoint.char '\n' := by decide
  cases style with
  | braces => exact ⟨_, _, rfl, hclass _ List.mem_cons_self⟩
  | stars => exact ⟨_, _, rfl, hclass _ (List.mem_cons_of_mem _
      List.mem_cons_self)⟩

end CommentStyle

namespace Zone

variable {style : CommentStyle} {opener n k : Nat} {c : CodePoint}
  {w text rest : Text}

/-- Outside, the reader sees the brackets that open a comment. -/
theorem step_outside (n : Nat) (c : CodePoint) (rest : Text) :
    outside.step n c rest.head?
      = ((CommentStyle.opening? (c :: rest)).map (inside · n)).getD
          outside := by
  have hbraces : CommentStyle.braces.opener.isPrefixOf (c :: rest) = true
      ↔ c = CodePoint.char '{' := isPrefixOf_single c rest
  have hstars : CommentStyle.stars.opener.isPrefixOf (c :: rest) = true
      ↔ c = CodePoint.char '(' ∧ rest.head? = some (CodePoint.char '*') :=
    isPrefixOf_pair c rest
  simp only [step, CommentStyle.opening?, List.find?_cons, List.find?_nil]
  cases hbrace : CommentStyle.braces.opener.isPrefixOf (c :: rest) with
  | true =>
    rw [if_pos (hbraces.1 hbrace)]
    rfl
  | false =>
    rw [if_neg (mt hbraces.2 (Bool.eq_false_iff.1 hbrace))]
    cases hstar : CommentStyle.stars.opener.isPrefixOf (c :: rest) with
    | true =>
      rw [if_pos (hstars.1 hstar)]
      rfl
    | false =>
      rw [if_neg (mt hstars.2 (Bool.eq_false_iff.1 hstar))]
      rfl

/-- Inside of a comment, behind its opening bracket, the reader sees the
bracket that closes it. -/
theorem step_inside (hn : opener + style.opener.length ≤ n) (c : CodePoint)
    (rest : Text) :
    (inside style opener).step n c rest.head?
      = if style.closer.isPrefixOf (c :: rest) then outside
        else inside style opener := by
  cases style with
  | braces => exact if_congr (isPrefixOf_single c rest).symm rfl rfl
  | stars =>
    refine if_congr ?_ rfl rfl
    rw [and_iff_right (show opener + 2 ≤ n from hn)]
    exact (isPrefixOf_pair c rest).symm

-- ========================================================== runs of a reader

/-- A text without a character that a bracket begins with is passed
outside. -/
theorem run_plain (hw : ∀ c ∈ w, c ∉ [CodePoint.char '{', .char '('])
    (n : Nat) (rest : Text) :
    outside.run n (w ++ rest) = outside.run (n + w.length) rest := by
  induction w generalizing n with
  | nil => rfl
  | cons c w ih =>
    rw [List.cons_append, run, step_outside,
      Lead.opening?_eq_none (hw c List.mem_cons_self)]
    show outside.run (n + 1) (w ++ rest) = _
    rw [ih fun d hd => hw d (List.mem_cons_of_mem c hd), List.length_cons,
      Nat.add_assoc, Nat.add_comm 1]

/-- An opening bracket leads into a comment. -/
theorem run_opening (h : CommentStyle.opening? text = some style)
    (n : Nat) :
    outside.run n text = (inside style n).run (n + style.opener.length)
      (text.drop style.opener.length) := by
  obtain ⟨rest, rfl⟩ := CommentStyle.opener_isPrefix h
  rw [List.drop_left]
  cases style with
  | braces => rfl
  | stars =>
    show (((outside.step n '(' (some (.char '*'))).step (n + 1) '*'
      rest.head?).run (n + 2) rest) = _
    have hsecond : ¬ (n + 2 ≤ n + 1 ∧ CodePoint.char '*' = .char '*'
        ∧ rest.head? = some (CodePoint.char ')')) := by omega
    have hfirst : outside.step n '(' (some (.char '*')) = inside .stars n :=
      rfl
    rw [hfirst, step, if_neg hsecond]
    rfl

/-- A closing bracket leads out of a comment. -/
theorem run_inside_of_some
    (h : Scanner.distanceTo? style.closer text = some k)
    (hn : opener + style.opener.length ≤ n) :
    (inside style opener).run n text
      = outside.run (n + (k + style.closer.length))
          (text.drop (k + style.closer.length)) := by
  induction text generalizing n k with
  | nil => cases h
  | cons c rest ih =>
    unfold Scanner.distanceTo? at h
    rw [run, step_inside hn]
    split at h
    next hprefix =>
      cases h
      rw [if_pos hprefix, Nat.zero_add]
      -- what is left of the closing bracket opens nothing
      have htail : style.closer.tail ++ (c :: rest).drop style.closer.length
          = rest := by
        obtain ⟨behind, hbehind⟩ := List.isPrefixOf_iff_prefix.1 hprefix
        rw [← hbehind, List.drop_left]
        cases style with
        | braces => exact (List.cons.inj hbehind).2
        | stars => exact (List.cons.inj hbehind).2
      have hplain : ∀ d ∈ style.closer.tail,
          d ∉ [CodePoint.char '{', .char '('] := by cases style <;> decide
      have hlength : 1 + style.closer.tail.length = style.closer.length := by
        cases style <;> rfl
      calc outside.run (n + 1) rest
          = outside.run (n + 1) (style.closer.tail
              ++ (c :: rest).drop style.closer.length) := by rw [htail]
        _ = _ := by rw [run_plain hplain, Nat.add_assoc, hlength]
    next hprefix =>
      obtain ⟨m, hm, rfl⟩ := Option.map_eq_some_iff.1 h
      rw [if_neg hprefix, ih hm (Nat.le_succ_of_le hn),
        Nat.add_right_comm m 1, List.drop_succ_cons]
      congr 1
      omega

/-- Where no closing bracket follows, the reader ends inside. -/
theorem run_inside_of_none
    (h : Scanner.distanceTo? style.closer text = none)
    (hn : opener + style.opener.length ≤ n) :
    (inside style opener).run n text = inside style opener := by
  induction text generalizing n with
  | nil => rfl
  | cons c rest ih =>
    unfold Scanner.distanceTo? at h
    rw [run, step_inside hn]
    split at h
    next => cases h
    next hprefix =>
      rw [if_neg hprefix]
      exact ih (Option.map_eq_none_iff.1 h) (Nat.le_succ_of_le hn)

end Zone

/-- Behind its first character a lexeme has none that a bracket begins
with. -/
theorem Lead.Cut.plain {c : CodePoint} {rest more : Text} {kind : Kind}
    (h : Lead.Cut c rest kind more) :
    ∀ d ∈ more, d ∉ [CodePoint.char '{', .char '('] := by
  have hclass : ∀ d ∈ [CodePoint.char '{', .char '('],
      isDigit d = false ∧ isNameChar d = false
        ∧ ∀ pair ∈ twoCharSymbols, d ∉ pair.tail := by decide
  intro d hd hmem
  obtain ⟨hdigit, hname, hpairs⟩ := hclass d hmem
  have hrun : ∀ {p : CodePoint → Bool}, d ∈ rest.takeWhile p → p d = true :=
    fun h => List.all_eq_true.1 List.all_takeWhile d h
  cases h with
  | pair hpair => exact hpairs _ (List.contains_iff_mem.1 hpair) hd
  | negative => rw [hrun hd] at hdigit; cases hdigit
  | symbol => cases hd
  | number => rw [hrun hd] at hdigit; cases hdigit
  | word => rw [hrun hd] at hname; cases hname
  | unknown => cases hd

/-- What the scanner passes leaves the reader outside. -/
theorem Zone.run_of_scans {p q : Position} {text rest : Text}
    {tokens : List Token} (h : Scans p text tokens q)
    (hrest : rest.head? ≠ some (CodePoint.char '*')) (n : Nat) :
    outside.run n (text ++ rest) = outside.run (n + text.length) rest := by
  induction h generalizing n with
  | done p => rfl
  | @blank p q c text tokens hlead hscans ih =>
    have hblank : c ∉ [CodePoint.char '{', .char '('] := by
      rintro hmem
      have hclass : ∀ d ∈ [CodePoint.char '{', .char '('],
          isBlank d = false := by decide
      rw [Lead.read_eq_blank_iff, hclass c hmem] at hlead
      cases hlead
    have hfirst := run_plain (w := [c]) (fun d hd => by
      rw [List.mem_singleton.1 hd]; exact hblank) n (text ++ rest)
    rw [List.cons_append]
    refine hfirst.trans ((ih (n + 1)).trans ?_)
    rw [List.length_cons, Nat.add_assoc, Nat.add_comm 1]
  | @comment p q c more w behind tokens style k hlead hcloser htext hlength
      hscans ih =>
    have hopen := CommentStyle.opener_isPrefix (Lead.opening?_of_read hlead)
    have hopen' := CommentStyle.opening?_of_isPrefix
      (hopen.trans (List.prefix_append _ rest))
    have hcloser' := Scanner.distanceTo?_append hcloser rest
    rw [← List.drop_append_of_le_length hopen.length_le] at hcloser'
    have hbehind : (c :: more ++ rest).drop w.length = behind ++ rest := by
      rw [htext, List.append_assoc, List.drop_left]
    rw [run_opening hopen', run_inside_of_some hcloser' (Nat.le_refl _),
      List.drop_drop, ← hlength, hbehind, Nat.add_assoc, ← hlength, ih, htext,
      List.length_append, Nat.add_assoc]
  | @lexeme p q c more text tokens kind hlead hscans ih =>
    have hopen := CommentStyle.opening?_append_eq_none
      (Lead.read_eq_lexeme_iff.1 hlead).2.1 hrest
    rw [List.cons_append, run, step_outside, hopen]
    show outside.run (n + 1) (more ++ text ++ rest) = _
    rw [List.append_assoc, run_plain (Lead.cut_of_read hlead).plain, ih,
      List.length_cons, List.length_append]
    congr 1
    omega

namespace Text

variable {p q : Position} {before text : Text} {tokens : List Token}
  {style : CommentStyle}

/-- A text that the scanner can read leaves no comment open. -/
theorem openComment?_of_scans (h : Scans p text tokens q) :
    text.openComment? = none := by
  have hrun : Zone.outside.run 0 (text ++ [])
      = Zone.outside.run (0 + text.length) [] :=
    Zone.run_of_scans h (by decide) 0
  rw [List.append_nil] at hrun
  unfold openComment?
  rw [hrun]
  rfl

/-- Behind what the scanner can read, a comment that is not closed is the
one that is left open. -/
theorem openComment?_of_open (h : Scans p before tokens q)
    (hopen : style.Open text) :
    openComment? (before ++ text) = some before.length := by
  obtain ⟨d, rest, rfl, -, hstar, -⟩ := hopen.exists_head
  have hrest : (d :: rest).head? ≠ some (CodePoint.char '*') :=
    fun hhead => hstar (Option.some.inj hhead)
  unfold openComment?
  rw [Zone.run_of_scans h hrest, Zone.run_opening hopen.opening,
    Zone.run_inside_of_none hopen.unclosed (Nat.le_refl _), Nat.zero_add]
  rfl

end Text

-- ==================================================== in front of a comment

/-- A comment that is closed within a text is closed there whatever
follows. -/
theorem Scanner.distanceTo?_of_append {closer w more : Text} {n : Nat}
    (h : distanceTo? closer (w ++ more) = some n)
    (hn : n + closer.length ≤ w.length) (hcloser : closer ≠ []) :
    distanceTo? closer w = some n := by
  induction w generalizing n with
  | nil =>
    have := List.length_pos_iff.2 hcloser
    rw [List.length_nil] at hn
    omega
  | cons c w ih =>
    rw [List.cons_append] at h
    unfold distanceTo? at h ⊢
    rw [List.length_cons] at hn
    split at h
    next hprefix =>
      cases h
      rw [if_pos]
      rw [List.isPrefixOf_iff_prefix] at hprefix ⊢
      exact List.prefix_of_prefix_length_le hprefix
        (List.prefix_append (c :: w) more) (by rw [List.length_cons]; omega)
    next hprefix =>
      obtain ⟨m, hm, rfl⟩ := Option.map_eq_some_iff.1 h
      rw [if_neg, ih hm (by omega)]
      · rfl
      · intro hshort
        rw [List.isPrefixOf_iff_prefix] at hprefix hshort
        exact hprefix (hshort.trans (List.prefix_append (c :: w) more))

/-- What follows a text makes no difference to the places in it, unless it
begins with a line feed. -/
theorem Position.behind_append_of_ne_feed {d : CodePoint}
    (h : d ≠ CodePoint.char '\n') (p : Position) (w more rest : Text) :
    p.behind w (more ++ d :: rest) = p.behind w more := by
  induction w generalizing p with
  | nil => rfl
  | cons c w ih =>
    have hafter : p.after c (w ++ (more ++ d :: rest)).head?
        = p.after c (w ++ more).head? := by
      rw [← List.append_assoc]
      cases w ++ more with
      | cons e all => rfl
      | nil =>
        unfold after
        rw [List.nil_append, List.head?_cons, if_neg (mt Option.some.inj h)]
        rfl
    rw [behind, behind, hafter, ih]

namespace Scans

variable {p q : Position} {c d : CodePoint} {before behind more w : Text}
  {tokens : List Token}

/-- Items that a text begins with are read alike in front of a character that
begins anew and at the end of a text. -/
theorem blank_of_append (hanew : d.BeginsAnew) (hfeed : d ≠ .char '\n')
    (hlead : Lead.read c (before ++ d :: behind) = .blank)
    (h : Scans (p.behind [c] (before ++ d :: behind)) before tokens q) :
    Scans p (c :: before) tokens q := by
  rw [Lead.read_append_of_beginsAnew hanew] at hlead
  rw [Position.behind_append_of_ne_feed hfeed] at h
  exact .blank hlead h

theorem comment_of_append {style : CommentStyle} {n : Nat}
    (hanew : d.BeginsAnew) (hfeed : d ≠ .char '\n')
    (hlead : Lead.read c (w ++ (before ++ d :: behind)) = .comment style)
    (hcloser : Scanner.distanceTo? style.closer
      ((c :: (w ++ (before ++ d :: behind))).drop style.opener.length)
        = some n)
    (hlength : (c :: w).length
      = style.opener.length + (n + style.closer.length))
    (h : Scans (p.behind (c :: w) (before ++ d :: behind)) before tokens q) :
    Scans p (c :: (w ++ before)) tokens q := by
  rw [← List.append_assoc] at hlead hcloser
  rw [Lead.read_append_of_beginsAnew hanew] at hlead
  rw [Position.behind_append_of_ne_feed hfeed] at h
  have hopener : style.opener.length ≤ (c :: (w ++ before)).length := by
    rw [← List.cons_append, List.length_append, hlength]
    omega
  rw [← List.cons_append, List.drop_append_of_le_length hopener] at hcloser
  refine .comment hlead (Scanner.distanceTo?_of_append hcloser ?_ ?_) rfl
    hlength h
  · rw [List.length_drop, ← List.cons_append, List.length_append, hlength]
    omega
  · cases style <;> decide

theorem lexeme_of_append {kind : Kind} (hanew : d.BeginsAnew)
    (hfeed : d ≠ .char '\n')
    (hlead : Lead.read c (more ++ (before ++ d :: behind))
      = .lexeme kind more)
    (h : Scans (p.behind (c :: more) (before ++ d :: behind)) before tokens
      q) :
    Scans p (c :: (more ++ before)) (⟨kind, c :: more, p⟩ :: tokens) q := by
  rw [← List.append_assoc, Lead.read_append_of_beginsAnew hanew] at hlead
  rw [Position.behind_append_of_ne_feed hfeed] at h
  exact .lexeme hlead h

end Scans

theorem Scanner.tokens_skipComment (opener closer : Text) (s : Scanner) :
    (s.skipComment opener closer).2.tokens = s.tokens := by
  unfold skipComment
  simp only
  split
  · rw [tokens_advanceBy, tokens_advanceBy]
  · show (advanceBy _ (advanceBy _ s)).tokens = _
    rw [tokens_advanceBy, tokens_advanceBy]

namespace Scanner

/-- Whether a scanner comes to a comment that is not closed. In front of it
lies what can be read alone, and nothing else is found. -/
def Stops (s : Scanner) : Prop :=
  ∃ before rest style tokens q, s.ahead = before ++ rest
    ∧ CommentStyle.Open style rest ∧ Scans s.pos before tokens q
    ∧ s.scanItems.tokens = tokens.reverse ++ s.tokens
    ∧ s.scanItems.errors = ⟨.lexical, q, .unclosedComment⟩ :: s.errors

section Stopping

variable {s : Scanner} {c : CodePoint} {rest : Text}

/-- A scanner in front of a comment that is not closed stops there. -/
theorem stops_of_open {style : CommentStyle} (hahead : s.ahead = c :: rest)
    (hlead : Lead.read c rest = .comment style)
    (hdist : distanceTo? style.closer
      (s.ahead.drop style.opener.length) = none) : s.Stops := by
  have hscan := scanItems_comment hahead hlead
  rw [skipComment_fst_of_none hdist, if_neg Bool.false_ne_true] at hscan
  unfold Stops
  rw [hscan, errors_skipComment_of_none hdist, tokens_skipComment]
  rw [hahead] at hdist ⊢
  exact ⟨[], c :: rest, style, [], s.pos, rfl,
    ⟨Lead.opening?_of_read hlead, hdist⟩, .done _, rfl, rfl⟩

/-- A blank is passed on the way. -/
theorem stops_of_blank (hahead : s.ahead = c :: rest)
    (hlead : Lead.read c rest = .blank) (h : (advanceBy 1 s).Stops) :
    s.Stops := by
  obtain ⟨hrest, hpos⟩ := advanceBy_of_ahead (w := [c]) hahead
  obtain ⟨before, behind, style, tokens, q, hsplit, hopen, hscans, htokens,
    herrors⟩ := h
  obtain ⟨d, behind, rfl, hanew, -, hfeed⟩ := hopen.exists_head
  obtain rfl := hrest.symm.trans hsplit
  unfold Stops
  rw [hahead, scanItems_blank hahead hlead]
  exact ⟨c :: before, d :: behind, style, tokens, q, rfl, hopen,
    .blank_of_append hanew hfeed hlead (hpos ▸ hscans), htokens, herrors⟩

/-- A comment that is closed is passed on the way. -/
theorem stops_of_comment {style : CommentStyle} {w after : Text} {n : Nat}
    (hahead : s.ahead = c :: (w ++ after))
    (hlead : Lead.read c (w ++ after) = .comment style)
    (hdist : distanceTo? style.closer
      (s.ahead.drop style.opener.length) = some n)
    (hlength : (c :: w).length
      = style.opener.length + (n + style.closer.length))
    (hitems : s.scanItems = (advanceBy (c :: w).length s).scanItems)
    (h : (advanceBy (c :: w).length s).Stops) : s.Stops := by
  obtain ⟨hrest, hpos⟩ := advanceBy_of_ahead (w := c :: w) hahead
  obtain ⟨before, behind, style', tokens, q, hsplit, hopen, hscans, htokens,
    herrors⟩ := h
  obtain ⟨d, behind, rfl, hanew, -, hfeed⟩ := hopen.exists_head
  obtain rfl := hrest.symm.trans hsplit
  rw [tokens_advanceBy] at htokens
  rw [errors_advanceBy] at herrors
  rw [hahead] at hdist
  unfold Stops
  rw [hahead, hitems]
  exact ⟨c :: (w ++ before), d :: behind, style', tokens, q,
    (congrArg (c :: ·) (List.append_assoc ..)).symm, hopen,
    .comment_of_append hanew hfeed hlead hdist hlength (hpos ▸ hscans),
    htokens, herrors⟩

/-- A lexeme is read on the way. -/
theorem stops_of_lexeme {kind : Kind} {more : Text}
    (hahead : s.ahead = c :: (more ++ rest))
    (hlead : Lead.read c (more ++ rest) = .lexeme kind more)
    (h : ((advanceBy (more.length + 1) s).push
      ⟨kind, c :: more, s.pos⟩).Stops) : s.Stops := by
  obtain ⟨hrest, hpos⟩ := advanceBy_of_ahead (w := c :: more) hahead
  obtain ⟨before, behind, style, tokens, q, hsplit, hopen, hscans, htokens,
    herrors⟩ := h
  obtain ⟨d, behind, rfl, hanew, -, hfeed⟩ := hopen.exists_head
  obtain rfl := hrest.symm.trans hsplit
  unfold Stops
  rw [hahead, scanItems_lexeme hahead hlead]
  refine ⟨c :: (more ++ before), d :: behind, style,
    ⟨kind, c :: more, s.pos⟩ :: tokens, q,
    (congrArg (c :: ·) (List.append_assoc ..)).symm, hopen,
    .lexeme_of_append hanew hfeed hlead (hpos ▸ hscans), ?_, ?_⟩
  · rw [htokens, List.reverse_cons, List.append_assoc]
    show _ ++ _ :: (advanceBy _ s).tokens = _
    rw [tokens_advanceBy]
    rfl
  · rw [herrors]
    show _ :: (advanceBy _ s).errors = _
    rw [errors_advanceBy]

/-- A scanner that finds something comes to a comment that is not closed. -/
theorem stops_of_scanItems (h : s.scanItems.errors ≠ s.errors) :
    s.Stops := by
  induction hn : s.ahead.length using Nat.strongRecOn generalizing s with
  | ind n ih =>
    cases hahead : s.ahead with
    | nil =>
      rw [scanItems_nil hahead] at h
      exact absurd rfl h
    | cons c rest =>
      rw [hahead, List.length_cons] at hn
      cases hlead : Lead.read c rest with
      | blank =>
        rw [scanItems_blank hahead hlead] at h
        have hrest := (advanceBy_of_ahead (w := [c]) hahead).1
        exact stops_of_blank hahead hlead (ih rest.length (by omega) h
          (congrArg List.length hrest))
      | comment style =>
        cases hdist : distanceTo? style.closer
            (s.ahead.drop style.opener.length) with
        | none => exact stops_of_open hahead hlead hdist
        | some m =>
          obtain ⟨w, after, htext, hlength, hitems⟩ :=
            scanItems_closed hahead hlead hdist
          have hrest := (advanceBy_of_ahead htext).1
          have hopener : 0 < style.opener.length := by cases style <;> decide
          cases w with
          | nil => rw [List.length_nil] at hlength; omega
          | cons e w =>
            rw [hahead, List.cons_append, List.cons.injEq] at htext
            obtain ⟨rfl, rfl⟩ := htext
            rw [List.length_append] at hn
            rw [hitems] at h
            exact stops_of_comment hahead hlead hdist hlength hitems
              (ih after.length (by omega)
                (by rw [errors_advanceBy]; exact h)
                (congrArg List.length hrest))
      | lexeme kind more =>
        rw [scanItems_lexeme hahead hlead] at h
        obtain ⟨rest, rfl⟩ := Lead.prefix_of_read hlead
        have hrest := (advanceBy_of_ahead (w := c :: more) hahead).1
        rw [List.length_append] at hn
        exact stops_of_lexeme hahead hlead (ih rest.length (by omega)
          (fun hsame => h (hsame.trans (errors_advanceBy ..)))
          (congrArg List.length hrest))

end Stopping

end Scanner

-- ============================================================= whole texts

/-- A text that cannot be read has a comment that it does not close; in
front of it the scanner has read what can be read alone, and it has found
nothing but the comment. -/
theorem exists_open_of_not_scans {text : Text}
    (h : ¬ ∃ tokens q, Scans .start text tokens q) :
    ∃ before rest style tokens, text = before ++ rest
      ∧ CommentStyle.Open style rest
      ∧ Scans .start before tokens (.reference before)
      ∧ (Scanner.ofText text).scan.2.table = tokens
      ∧ (Scanner.ofText text).scan.2.findings
        = [⟨.lexical, .reference before, .unclosedComment⟩] := by
  have hfound : (Scanner.ofText text).scanItems.errors
      ≠ (Scanner.ofText text).errors := by
    intro hsame
    obtain ⟨tokens, hscans, -⟩ := Scanner.scans_of_scanItems hsame
    exact h ⟨tokens, _, hscans⟩
  obtain ⟨before, rest, style, tokens, q, htext, hopen, hscans, htokens,
    herrors⟩ := Scanner.stops_of_scanItems hfound
  have hq : q = .reference before := by
    rw [← Position.behind_start before [] (by decide)]
    exact hscans.eq_behind
  have hscan : (Scanner.ofText text).scan.2
      = (Scanner.ofText text).scanItems := by
    have hempty : ¬ (Scanner.ofText text).scanItems.errors.isEmpty = true := by
      rw [herrors]
      exact Bool.false_ne_true
    unfold Scanner.scan
    simp only [if_neg hempty]
  refine ⟨before, rest, style, tokens, htext, hopen, hq ▸ hscans, ?_, ?_⟩
  · rw [hscan]
    unfold Scanner.table
    rw [htokens, List.reverse_append, List.reverse_reverse]
    rfl
  · rw [hscan]
    unfold Scanner.findings
    rw [herrors, hq]
    rfl

/-- A text is read to its end just when the reader of comments ends outside
of them. -/
theorem exists_scans_iff_openComment?_eq_none (text : Text) :
    (∃ tokens q, Scans .start text tokens q)
      ↔ text.openComment? = none := by
  constructor
  · rintro ⟨tokens, q, hscans⟩
    exact Text.openComment?_of_scans hscans
  · intro hnone
    by_contra hscans
    obtain ⟨before, rest, style, tokens, rfl, hopen, hbefore, -⟩ :=
      exists_open_of_not_scans hscans
    rw [Text.openComment?_of_open hbefore hopen] at hnone
    cases hnone

/-- A text is read in one way only. -/
theorem Scans.unique {text : Text} {tokens tokens' : List Token}
    {q q' : Position} (h : Scans .start text tokens q)
    (h' : Scans .start text tokens' q') : tokens = tokens' := by
  have htable := (scan_of_scans h).2
  rw [(scan_of_scans h').2] at htable
  exact (List.append_inj' htable rfl).1.symm

/-- Behind what can be read, a comment that is not closed is all that the
scanner finds. -/
theorem scan_of_open {before rest : Text} {style : CommentStyle}
    {tokens : List Token} {q : Position} (h : Scans .start before tokens q)
    (hopen : style.Open rest) :
    (Scanner.ofText (before ++ rest)).scan.1 = false
      ∧ (Scanner.ofText (before ++ rest)).scan.2.table = tokens
      ∧ (Scanner.ofText (before ++ rest)).scan.2.findings
        = [⟨.lexical, .reference before, .unclosedComment⟩] := by
  have hplace := Text.openComment?_of_open h hopen
  have hscans : ¬ ∃ tokens q, Scans .start (before ++ rest) tokens q := by
    rw [exists_scans_iff_openComment?_eq_none, hplace]
    exact Option.some_ne_none _
  obtain ⟨before', rest', style', tokens', htext, hopen', hbefore', htable,
    hfindings⟩ := exists_open_of_not_scans hscans
  have hplace' := Text.openComment?_of_open hbefore' hopen'
  rw [← htext, hplace, Option.some.injEq] at hplace'
  obtain ⟨rfl, rfl⟩ := List.append_inj htext hplace'
  exact ⟨(scan_of_not_scans hscans).1, htable.trans (hbefore'.unique h),
    hfindings⟩

/-- On a text that can be read a check makes no finding but those of the
analysis. -/
theorem syntactic_of_scans [NestingLimit] {text : Text} {tokens : List Token}
    {q : Position} {report : Report} (hscans : Scans .start text tokens q)
    (h : check text = .ok report) :
    ∀ d ∈ report.errors, d.severity = .syntactic := by
  rw [report_of_scans hscans h]
  intro d hd
  have hinside : (Analysis.ofTable (tokens ++ [.mark q])).Inside :=
    .ofTable (Token.mark_ends tokens q)
  exact (Analysis.steps_readSection hinside).syntactic
    (fun _ h => absurd h List.not_mem_nil) d
    (List.mem_reverse.1 (Report.mem_errors_ofFindings.1 hd))

/-- Where the scanner finds one thing, it is what the table of lexemes and a
check tell. -/
theorem tokenize_and_check_of_finding [NestingLimit] {text : Text}
    {d : Diagnostic} (hclean : (Scanner.ofText text).scan.1 = false)
    (hfindings : (Scanner.ofText text).scan.2.findings = [d]) :
    tokenize text = .error d ∧ check text = .ok ⟨[d], .empty, []⟩ := by
  unfold tokenize check
  simp only [hclean, hfindings]
  refine ⟨trivial, ?_⟩
  show Except.ok (Report.mk (Report.arrange [d]) _ _) = _
  rw [Report.arrange, List.mergeSort_singleton]

/-- A text that cannot be read has a report on a comment alone. -/
theorem report_of_not_scans [NestingLimit] {text : Text} {report : Report}
    (h : ¬ ∃ tokens q, Scans .start text tokens q)
    (hcheck : check text = .ok report) :
    ∃ pos, report = ⟨[⟨.lexical, pos, .unclosedComment⟩], .empty, []⟩ := by
  obtain ⟨before, rest, style, tokens, -, -, -, -, hfindings⟩ :=
    exists_open_of_not_scans h
  have hfound := (tokenize_and_check_of_finding (scan_of_not_scans h).1
    hfindings).2
  rw [hcheck] at hfound
  exact ⟨_, Except.ok.inj hfound⟩

/-- A report tells what the analysis of a table has found, or else of a
comment alone. -/
theorem check_cases [NestingLimit] {text : Text} {report : Report}
    (h : check text = .ok report) :
    (∃ tokens q, Scans .start text tokens q ∧ report = .ofFindings
        (Analysis.ofTable (tokens ++ [.mark q])).run.findings
        (Analysis.ofTable (tokens ++ [.mark q])).run.symbols
        (Analysis.ofTable (tokens ++ [.mark q])).run.declared)
      ∨ ∃ pos, report
        = ⟨[⟨.lexical, pos, .unclosedComment⟩], .empty, []⟩ := by
  by_cases hscans : ∃ tokens q, Scans .start text tokens q
  · obtain ⟨tokens, q, hscans⟩ := hscans
    exact .inl ⟨tokens, q, hscans, report_of_scans hscans h⟩
  · exact .inr (report_of_not_scans hscans h)

/-- A text fails to be cut into lexemes just where the reader of comments
ends inside of one, and all three ways to ask tell the same of it: the one
comment that is not closed, where it opens. What stands in front of it is
read as it is read alone. Any other text has findings of the analysis
only. -/
theorem comments_decide [NestingLimit] (text : Text) :
    ((Scanner.ofText text).scan.1 = false ↔ text.openComment?.isSome)
      ∧ ((∃ d, tokenize text = .error d) ↔ text.openComment?.isSome)
      ∧ ((∃ report, check text = .ok report
          ∧ report.isLexicalFailure = true) ↔ text.openComment?.isSome)
      ∧ (∀ n, text.openComment? = some n →
          let found : Diagnostic :=
            ⟨.lexical, .reference (text.take n), .unclosedComment⟩
          (Scanner.ofText text).scan.2.findings = [found]
            ∧ tokenize text = .error found
            ∧ check text = .ok ⟨[found], .empty, []⟩
            ∧ ∃ q, tokenize (text.take n)
              = .ok ((Scanner.ofText text).scan.2.table ++ [.mark q]))
      ∧ (text.openComment? = none → ∀ report, check text = .ok report →
          ∀ d ∈ report.errors, d.severity = .syntactic) := by
  by_cases hscans : ∃ tokens q, Scans .start text tokens q
  · have hnone := (exists_scans_iff_openComment?_eq_none text).1 hscans
    obtain ⟨tokens, q, hscans⟩ := hscans
    have hclean := (scan_of_scans hscans).1
    have htable := tokenize_eq_ok_iff.2 ⟨tokens, q, hscans, rfl⟩
    have hsyntactic : ∀ report, check text = .ok report →
        ∀ d ∈ report.errors, d.severity = .syntactic :=
      fun report h => syntactic_of_scans hscans h
    rw [hnone, hclean, htable]
    refine ⟨by simp, by simp, ⟨?_, by simp⟩, by simp, fun _ => hsyntactic⟩
    rintro ⟨report, hreport, hfailure⟩
    unfold Report.isLexicalFailure at hfailure
    rw [Option.any_eq_true] at hfailure
    obtain ⟨d, hd, hlexical⟩ := hfailure
    rw [hsyntactic report hreport d (List.mem_of_mem_head? hd)] at hlexical
    exact absurd hlexical (by decide)
  · obtain ⟨before, rest, style, tokens, rfl, hopen, hbefore, htable,
      hfindings⟩ := exists_open_of_not_scans hscans
    have hclean := (scan_of_not_scans hscans).1
    have hsome := Text.openComment?_of_open hbefore hopen
    obtain ⟨htokenize, hcheck⟩ :=
      tokenize_and_check_of_finding hclean hfindings
    have hfront := tokenize_eq_ok_iff.2 ⟨tokens, _, hbefore, rfl⟩
    rw [hsome, hclean, htokenize, hcheck, hfindings, htable]
    refine ⟨by simp, by simp, ⟨fun _ => rfl, fun _ => ⟨_, rfl, rfl⟩⟩, ?_,
      by simp⟩
    intro n hn
    cases hn
    rw [List.take_left]
    exact ⟨rfl, rfl, rfl, _, hfront⟩

open scoped UsualNesting

/-- A closing bracket that shares its star with the opening one does not
close: the comment is left open where it begins, in the second line. Where
it has a star of its own the comment is closed, and what is found is the name
behind it. -/
theorem comments_decide_sharedStar :
    let opened : Text := "var a\x7b(*\x7d:char\n(*)"
    let closed : Text := "var a\x7b(*\x7d:char\n(**)b"
    opened.openComment? = some 15 ∧ closed.openComment? = none
      ∧ tokenize opened = .error ⟨.lexical, ⟨2, 1⟩, .unclosedComment⟩
      ∧ check opened
        = .ok ⟨[⟨.lexical, ⟨2, 1⟩, .unclosedComment⟩], .empty, []⟩
      ∧ ∀ report, check closed = .ok report →
          ∀ d ∈ report.errors, d.severity = .syntactic := by
  intro opened closed
  have hopened : opened.openComment? = some 15 := by decide +kernel
  have hclosed : closed.openComment? = none := by decide +kernel
  obtain ⟨-, -, -, hfound, -⟩ := comments_decide opened
  obtain ⟨-, htokenize, hcheck, -⟩ := hfound 15 hopened
  have hpos : Position.reference (opened.take 15) = ⟨2, 1⟩ := by
    decide +kernel
  rw [hpos] at htokenize hcheck
  obtain ⟨-, -, -, -, hsyntactic⟩ := comments_decide closed
  exact ⟨hopened, hclosed, htokenize, hcheck, hsyntactic hclosed⟩

end VarSection
