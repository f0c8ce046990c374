/-
Texts with something between them that separates lexemes: at least one blank
or one whole comment. Nothing of the text in front reaches over what
separates, because a blank and an opening bracket begin anew, and a comment
ends where it ends whatever follows. So the pieces of the two texts with
those of the gap between them are pieces of the whole
(`Piece.Fitting.separated`), and the lexemes of the second text are those
that it has alone.

Their places are told by the text in front of them, of which there is more
now. A place on the first line moves out as well as down, one on any other
line only moves down (`Position.reference_append`). Only a line break that
the two texts would share, a carriage return in front of a line feed, is
counted once where it was counted twice.
-/
import VarSection.Proofs.Scanner.Lines
import VarSection.Proofs.Scanner.Pieces

namespace VarSection

-- ======================================================= places further on

/-- A place in a text, where the text is put behind one that ends at `e`: as
many lines further down, and on its first line as many columns further
out. -/
def Position.displace (p e : Position) : Position :=
  ⟨p.line + (e.line - 1), if p.line = 1 then p.col + (e.col - 1) else p.col⟩

/-- A lexeme of a text that is put behind one that ends at `e`. -/
def Token.displace (t : Token) (e : Position) : Token :=
  { t with pos := t.pos.displace e }

/-- A finding in a text that is put behind one that ends at `e`. -/
def Diagnostic.displace (d : Diagnostic) (e : Position) : Diagnostic :=
  { d with pos := d.pos.displace e }

namespace Text

variable {v w : Text}

/-- Whether two texts do not share a line break when they are put
together. -/
def BreaksApart (v w : Text) : Prop :=
  ¬ (v.getLast? = some (.char '\r') ∧ w.head? = some (.char '\n'))

/-- What begins a text shares no line break either. -/
theorem BreaksApart.of_append {w' : Text} (h : BreaksApart v (w ++ w')) :
    BreaksApart v w := by
  rintro ⟨hlast, hhead⟩
  refine h ⟨hlast, ?_⟩
  rw [List.head?_append, hhead]
  rfl

/-- Line breaks are counted one text after the other, unless one is
shared. -/
theorem breaks_append_of_apart (h : BreaksApart v w) :
    breaks (v ++ w) = v.breaks + w.breaks := by
  by_cases hfeed : w.head? = some (.char '\n')
  · have hlast : v.getLast? ≠ some (.char '\r') := fun hlast =>
      h ⟨hlast, hfeed⟩
    clear h
    induction v with
    | nil => exact (Nat.zero_add _).symm
    | cons c v ih =>
      have hends : endsLine c (v ++ w).head? = endsLine c v.head? := by
        cases v with
        | cons d v => rfl
        | nil =>
          have hc : (c == CodePoint.char '\r') = false :=
            beq_eq_false_iff_ne.2 fun hc => hlast (by rw [hc]; rfl)
          unfold endsLine
          rw [hc, Bool.false_and, Bool.false_and]
      have hrest : v.getLast? ≠ some (.char '\r') := by
        cases v with
        | nil => exact fun hnone => by cases hnone
        | cons d v =>
          rw [List.getLast?_cons_cons] at hlast
          exact hlast
      rw [List.cons_append, breaks, breaks, hends, ih hrest, Nat.add_assoc]
  · exact breaks_append v hfeed

theorem lastLine_append_of_break (h : ∃ c ∈ w, isLineBreak c = true) :
    lastLine (v ++ w) = lastLine w := by
  obtain ⟨c, hc, hbreak⟩ := h
  have hfirst := firstLine_append_of_break
    ⟨c, List.mem_reverse.2 hc, hbreak⟩ v.reverse
  show (firstLine (v ++ w).reverse).reverse = (firstLine w.reverse).reverse
  rw [List.reverse_append, hfirst]

theorem lastLine_append_of_oneLine (h : ∀ c ∈ w, isLineBreak c = false) :
    lastLine (v ++ w) = lastLine v ++ w := by
  have hfirst := firstLine_append_of_oneLine
    (fun c hc => h c (List.mem_reverse.1 hc)) v.reverse
  show (firstLine (v ++ w).reverse).reverse = (firstLine v.reverse).reverse ++ w
  rw [List.reverse_append, hfirst, List.reverse_append, List.reverse_reverse]

end Text

/-- The place behind two texts is the place behind the second one, where the
first stands in front of it. -/
theorem Position.reference_append {v w : Text} (h : v.BreaksApart w) :
    reference (v ++ w) = (reference w).displace (reference v) := by
  have hline := Text.breaks_append_of_apart h
  unfold reference displace
  rw [hline, mk.injEq]
  constructor
  · show (1 : Int) + ((v.breaks + w.breaks : Nat) : Int)
      = 1 + (w.breaks : Int) + (1 + (v.breaks : Int) - 1)
    omega
  · show (1 : Int) + ((v ++ w).lastLine.length : Int)
      = if (1 : Int) + (w.breaks : Int) = 1 then
          1 + (w.lastLine.length : Int) + (1 + (v.lastLine.length : Int) - 1)
        else 1 + (w.lastLine.length : Int)
    by_cases hbreak : ∃ c ∈ w, isLineBreak c = true
    · have hmany := Text.breaks_ne_zero hbreak
      rw [Text.lastLine_append_of_break hbreak, if_neg (by omega)]
    · have hone : ∀ c ∈ w, isLineBreak c = false := fun c hc =>
        Bool.eq_false_iff.2 fun hc' => hbreak ⟨c, hc, hc'⟩
      have hnone := Text.breaks_of_oneLine hone
      rw [Text.lastLine_append_of_oneLine hone, Text.lastLine_of_oneLine hone,
        if_pos (by omega), List.length_append]
      omega

-- ============================================================ pieces apart

namespace Piece

/-- Behind another text pieces have the lexemes that they have alone, at
places further on. -/
theorem tokens_behind {v before : Text} {pieces : List Piece}
    (h : v.BreaksApart (before ++ join pieces)) :
    tokens (v ++ before) pieces
      = (tokens before pieces).map (·.displace (.reference v)) := by
  induction pieces generalizing before with
  | nil => rfl
  | cons piece pieces ih =>
    have happart : v.BreaksApart (before ++ piece.text ++ join pieces) := by
      rw [List.append_assoc]
      exact h
    have hrest := ih happart
    rw [← List.append_assoc] at hrest
    cases piece with
    | blank c => exact hrest
    | comment style w => exact hrest
    | lexeme kind w =>
      have hplace := Position.reference_append h.of_append
      show ⟨kind, w, _⟩ :: tokens (v ++ before ++ w) pieces = _
      rw [hplace]
      exact congrArg (_ :: ·) hrest

/-- The classes and texts of lexemes do not depend on what stands in front of
their pieces. -/
theorem map_tokens (before before' : Text) (pieces : List Piece) :
    (tokens before pieces).map (fun t => (t.kind, t.text))
      = (tokens before' pieces).map (fun t => (t.kind, t.text)) := by
  induction pieces generalizing before before' with
  | nil => rfl
  | cons piece pieces ih =>
    cases piece with
    | blank c => exact ih _ _
    | comment style w => exact ih _ _
    | lexeme kind w => exact congrArg ((kind, w) :: ·) (ih _ _)

/-- In front of a character that begins anew a piece fits that fits in front
of any text. -/
theorem Fits.before_anew {piece : Piece} {rest tail : Text}
    (h : piece.Fits (rest ++ tail)) {d : CodePoint} (hd : d.BeginsAnew)
    (tail' : Text) : piece.Fits (rest ++ d :: tail') := by
  cases h with
  | blank hc => exact .blank hc _
  | comment hw => exact .comment hw _
  | @lexeme kind w _ hopening hleads =>
    obtain ⟨c, more, rfl, -⟩ := hleads.writes.exists_cons
    refine .lexeme (fun style hopener => ?_) ⟨List.prefix_append ..,
      hleads.writes, fun kind' w' hwrites hbegins => ?_⟩
    · have hwhole : style.opener.isPrefixOf (c :: (more ++ rest ++ d :: tail'))
          = true := by
        rw [List.isPrefixOf_iff_prefix, List.append_assoc]
        exact hopener
      have hshort := isPrefixOf_append_of_not_mem_tail
        (hd.2.2 style (by cases style <;> decide)) c (more ++ rest) tail'
      rw [hwhole] at hshort
      refine hopening style ?_
      rw [← List.append_assoc]
      exact (List.isPrefixOf_iff_prefix.1 hshort.symm).trans
        (List.prefix_append ..)
    · -- a longer form would go on with the character
      have hshort : w' <+: c :: more ++ rest := by
        rw [← List.append_assoc] at hbegins
        rcases List.prefix_or_prefix_of_prefix hbegins
          (List.prefix_append (c :: more ++ rest) (d :: tail')) with
          hwithin | ⟨beyond, rfl⟩
        · exact hwithin
        · rw [List.prefix_append_right_inj] at hbegins
          cases beyond with
          | nil => exact ⟨[], by rw [List.append_nil, List.append_nil]⟩
          | cons e beyond =>
            obtain ⟨rfl, -⟩ := List.cons_prefix_cons.1 hbegins
            exact absurd (List.mem_append_right _ List.mem_cons_self)
              (hwrites.not_mem_tail hd)
      refine hleads.longest kind' w' hwrites ?_
      rw [← List.append_assoc]
      exact hshort.trans (List.prefix_append ..)

/-- The pieces that begin a text can go on with others, if these begin
anew. -/
theorem Fitting.before_anew {pieces more more' : List Piece}
    (h : Fitting (pieces ++ more)) (h' : Fitting more') {d : CodePoint}
    {tail : Text} (htext : join more' = d :: tail) (hd : d.BeginsAnew) :
    Fitting (pieces ++ more') := by
  induction pieces with
  | nil => exact h'
  | cons piece pieces ih =>
    obtain ⟨hfits, hfitting⟩ := h
    refine ⟨?_, ih hfitting⟩
    have hjoin := join_append pieces more
    have hjoin' := join_append pieces more'
    rw [htext] at hjoin'
    show piece.Fits (join (pieces ++ more'))
    rw [hjoin']
    exact (hjoin ▸ hfits : piece.Fits (join pieces ++ join more)).before_anew
      hd tail

end Piece

namespace Gap

variable {w : Text}

/-- What separates lexemes begins anew. -/
theorem exists_cons (h : Gap w) (hne : w ≠ []) :
    ∃ d more, w = d :: more ∧ d.BeginsAnew := by
  cases h with
  | nil => exact absurd rfl hne
  | @blank c w hc hw =>
    have hclass : ∀ d ∈ blanks ++ lineBreaks, d.BeginsAnew := by decide
    refine ⟨c, w, rfl, hclass c ?_⟩
    unfold isBlank at hc
    rwa [Bool.or_eq_true, List.contains_iff_mem, List.contains_iff_mem,
      ← List.mem_append] at hc
  | @comment style v w hv hw =>
    obtain ⟨inside, rfl, -⟩ := hv
    obtain ⟨d, more, hstyle, -, hd⟩ := style.exists_opener_cons
    exact ⟨d, _, by rw [hstyle]; rfl, hd⟩

/-- What separates lexemes falls into pieces that fit in front of all others
and are none. -/
theorem exists_pieces (h : Gap w) :
    ∃ pieces, Piece.join pieces = w
      ∧ (∀ more, Piece.Fitting more → Piece.Fitting (pieces ++ more))
      ∧ ∀ before, Piece.tokens before pieces = [] := by
  induction h with
  | nil => exact ⟨[], rfl, fun _ h => h, fun _ => rfl⟩
  | @blank c w hc hw ih =>
    obtain ⟨pieces, rfl, hfitting, htokens⟩ := ih
    exact ⟨.blank c :: pieces, rfl,
      fun more h => ⟨.blank hc _, hfitting more h⟩, fun _ => htokens _⟩
  | @comment style v w hv hw ih =>
    obtain ⟨pieces, rfl, hfitting, htokens⟩ := ih
    exact ⟨.comment style v :: pieces, rfl,
      fun more h => ⟨.comment hv _, hfitting more h⟩, fun _ => htokens _⟩

end Gap

/-- Two texts with a gap between them fall into the pieces of the one, those
of the gap and those of the other. -/
theorem Piece.Fitting.separated {pieces tail more : List Piece} {w : Text}
    (h : Fitting (pieces ++ tail)) (hw : Gap w) (hne : w ≠ [])
    (h' : Fitting more) :
    ∃ all, join all = join pieces ++ (w ++ join more) ∧ Fitting all
      ∧ tokens [] all
        = tokens [] pieces ++ tokens (join pieces ++ w) more := by
  obtain ⟨gap, rfl, hfitting, htokens⟩ := hw.exists_pieces
  obtain ⟨d, rest, htext, hd⟩ := hw.exists_cons hne
  have hbehind : join (gap ++ more) = d :: (rest ++ join more) := by
    rw [join_append, htext]
    rfl
  refine ⟨pieces ++ (gap ++ more), ?_,
    h.before_anew (hfitting more h') hbehind hd, ?_⟩
  · rw [join_append, join_append]
  · rw [tokens_append, tokens_append, htokens, List.nil_append]
    rfl

section Between

variable {pieces more : List Piece} {w : Text}

/-- The lexemes of two texts with a gap between them. -/
theorem Piece.Fitting.tokens_separated (h : Fitting pieces) (hw : Gap w)
    (hne : w ≠ []) (h' : Fitting more)
    (happart : (join pieces ++ w).BreaksApart (join more)) :
    ∃ all, join all = join pieces ++ (w ++ join more) ∧ Fitting all
      ∧ tokens [] all = tokens [] pieces
        ++ (tokens [] more).map
          (·.displace (.reference (join pieces ++ w))) := by
  rw [← List.append_nil pieces] at h
  obtain ⟨all, hjoin, hfitting, htokens⟩ := h.separated hw hne h'
  have hbehind : tokens (join pieces ++ w ++ []) more
      = (tokens [] more).map (·.displace (.reference (join pieces ++ w))) :=
    tokens_behind happart
  rw [List.append_nil] at hbehind
  exact ⟨all, hjoin, hfitting, by rw [htokens, hbehind]⟩

end Between

-- ============================================================= whole texts

/-- Where at least one blank or comment separates two texts, the whole has
the lexemes of the first and then those of the second, further on by what
stands in front of them; and a comment that the second does not close is not
closed in the whole. Between two pieces of a text that lexes, such a gap
changes the class and the text of no lexeme. -/
theorem scan_separated {w : Text} (hw : Gap w) (hne : w ≠ []) :
    (∀ s t : Text, (Scanner.ofText s).scan.1 = true →
        (s ++ w).BreaksApart t →
        let whole := Scanner.ofText (s ++ (w ++ t))
        let e := Position.reference (s ++ w)
        ((Scanner.ofText t).scan.1 = true →
            whole.scan.1 = true
              ∧ whole.scan.2.table = (Scanner.ofText s).scan.2.table.dropLast
                ++ (Scanner.ofText t).scan.2.table.map (·.displace e))
          ∧ ((Scanner.ofText t).scan.1 = false →
            ∃ found : Diagnostic, found.cause = .unclosedComment
              ∧ (Scanner.ofText t).scan.2.findings = [found]
              ∧ whole.scan.1 = false
              ∧ whole.scan.2.findings = [found.displace e]))
      ∧ ∀ front behind, Piece.Fitting (front ++ behind) →
          let text := Scanner.ofText (Piece.join (front ++ behind))
          let whole :=
            Scanner.ofText (Piece.join front ++ (w ++ Piece.join behind))
          whole.scan.1 = true
            ∧ whole.scan.2.table.map (fun t => (t.kind, t.text))
              = text.scan.2.table.map (fun t => (t.kind, t.text)) := by
  constructor
  · intro s t hs happart whole e
    obtain ⟨pieces, rfl, hpieces⟩ := (Piece.scan_iff_exists_fitting s).1 hs
    constructor
    · intro ht
      obtain ⟨more, rfl, hmore⟩ := (Piece.scan_iff_exists_fitting t).1 ht
      obtain ⟨all, hjoin, hall, htokens⟩ :=
        hpieces.tokens_separated hw hne hmore happart
      have hend := Position.reference_append happart
      rw [List.append_assoc] at hend
      refine ⟨(Piece.scan_iff_exists_fitting _).2 ⟨all, hjoin, hall⟩, ?_⟩
      show (Scanner.ofText _).scan.2.table = _
      rw [← hjoin, hall.table_eq, hpieces.table_eq, hmore.table_eq]
      unfold Piece.table
      rw [htokens, hjoin, hend, List.dropLast_concat, List.map_append,
        List.append_assoc]
      rfl
    · intro ht
      have hscans : ¬ ∃ tokens q, Scans .start t tokens q := by
        rintro ⟨tokens, q, hscans⟩
        rw [(scan_of_scans hscans).1] at ht
        cases ht
      obtain ⟨before, rest, style, tokens, rfl, hopen, hbefore, -,
        hfindings⟩ := exists_open_of_not_scans hscans
      obtain ⟨more, rfl, hmore⟩ := Piece.exists_fitting_of_scans hbefore
      obtain ⟨all, hjoin, hall, -⟩ :=
        hpieces.tokens_separated hw hne hmore happart.of_append
      have hfound := scan_of_open (hall.scans []) hopen
      have hplace := Position.reference_append happart.of_append
      rw [List.append_assoc] at hplace
      have htext : Piece.join all ++ rest
          = Piece.join pieces ++ (w ++ (Piece.join more ++ rest)) := by
        rw [hjoin, List.append_assoc, List.append_assoc]
      rw [htext, hjoin, hplace] at hfound
      exact ⟨_, rfl, hfindings, hfound.1, hfound.2.2⟩
  · intro front behind hfitting text whole
    obtain ⟨all, hjoin, hall, htokens⟩ :=
      hfitting.separated hw hne hfitting.right_of_append
    refine ⟨(Piece.scan_iff_exists_fitting _).2 ⟨all, hjoin, hall⟩, ?_⟩
    show (Scanner.ofText _).scan.2.table.map _
      = (Scanner.ofText _).scan.2.table.map _
    rw [← hjoin, hall.table_eq, hfitting.table_eq]
    unfold Piece.table
    rw [htokens, Piece.tokens_append, List.map_append, List.map_append,
      List.map_append, List.map_append,
      Piece.map_tokens _ ([] ++ Piece.join front) behind]
    rfl

/-- A minus sign and digits that a comment with a line break separates stay
two lexemes, and what follows stands further down, on the first line further
out too. A comment that is left open is found further on, and within a
declaration the gap changes no lexeme. -/
theorem scan_separated_minus :
    let w : Text := "\x7bc\r\x7d "
    let e : Position := ⟨3, 3⟩
    Gap w ∧ Position.reference ("a\n-" ++ w) = e
      ∧ (Scanner.ofText ("a\n-" ++ (w ++ ("1\nb" : Text)))).scan.2.table
        = [⟨.identifier, "a", ⟨1, 1⟩⟩, ⟨.symbol, "-", ⟨2, 1⟩⟩,
          ⟨.number, "1", ⟨3, 3⟩⟩, ⟨.identifier, "b", ⟨4, 1⟩⟩, .mark ⟨4, 2⟩]
      ∧ (Scanner.ofText ("a\n-" ++ (w ++ ("1(*" : Text)))).scan.2.findings
        = [⟨.lexical, ⟨3, 4⟩, .unclosedComment⟩]
      ∧ (Scanner.ofText ("a" ++ (w ++ ("\n:" : Text)))).scan.2.table.map
          (fun t => (t.kind, t.text))
        = ([(.identifier, "a"), (.symbol, ":"), (.ending, "")]
          : List (Kind × Text)) := by
  intro w e
  have hsplit : CodePoint.char '\x7b' :: ("c\r\x7d" : Text)
      = ("\x7bc\r\x7d" : Text) ++ [] := rfl
  have hcomment : CommentStyle.braces.Encloses "\x7bc\r\x7d" :=
    Lead.encloses_of_read (n := 2) (by decide) (by decide) hsplit rfl
  have hgap : Gap w := .comment hcomment (.blank (by decide) .nil)
  have hs : (Scanner.ofText "a\n-").scan.1 = true := by decide +kernel
  have hapart : ∀ t : Text, Text.BreaksApart ("a\n-" ++ w) t :=
    fun t h => absurd h.1 (by decide)
  have hfitting : Piece.Fitting [.lexeme .identifier "a", .blank '\n',
      .lexeme .symbol ":"] :=
    ⟨Piece.fits_lexeme_iff.2 (by decide +kernel), .blank (by decide) _,
      Piece.fits_lexeme_iff.2 (by decide +kernel), trivial⟩
  obtain ⟨hseparated, hinserted⟩ := scan_separated hgap (by decide)
  have htable := ((hseparated _ "1\nb" hs (hapart _)).1
    (by decide +kernel)).2
  obtain ⟨found, -, hfound, -, hwhole⟩ := (hseparated _ "1(*" hs
    (hapart _)).2 (by decide +kernel)
  have hplace : (Scanner.ofText "1(*").scan.2.findings
      = [⟨.lexical, ⟨1, 2⟩, .unclosedComment⟩] := by decide +kernel
  obtain rfl := List.singleton_inj.1 (hfound.symm.trans hplace)
  have hlexemes := (hinserted [.lexeme .identifier "a"]
    [.blank '\n', .lexeme .symbol ":"] hfitting).2
  exact ⟨hgap, by decide +kernel, htable.trans (by decide +kernel),
    hwhole.trans (by decide +kernel), hlexemes.trans (by decide +kernel)⟩

end VarSection
