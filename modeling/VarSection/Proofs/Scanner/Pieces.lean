/-
The rules by which a text falls into lexemes, said of the text alone. Outside
of comments a text consists of pieces: blanks, comments with both their
brackets, and lexemes. A lexeme stands where no comment opens, and is the
longest one there (`Piece.Fits`).

Pieces that keep to these rules one behind another are what the scanner
reads, however they were found (`Piece.Fitting.scans`), and whatever it reads
falls into such pieces (`scan_longestMatch`). So facts about texts that are
put together go by putting their pieces together.
-/
import VarSection.Proofs.Scanner.Comments
import VarSection.Proofs.Scanner.Forms

namespace VarSection

-- ================================================================== pieces

/-- A piece of a text: what separates lexemes, or a lexeme. -/
inductive Piece where
  | blank (c : CodePoint)
  | comment (style : CommentStyle) (w : Text)
  | lexeme (kind : Kind) (w : Text)

namespace Piece

/-- A piece as it is written. -/
def text : Piece → Text
  | blank c => [c]
  | comment _ w => w
  | lexeme _ w => w

/-- Pieces as they are written one after another. -/
def join (pieces : List Piece) : Text := pieces.flatMap text

/-- Whether a piece stands where the rules admit it, where `rest` follows it.
A lexeme stands where no comment opens, and is the longest one there. -/
inductive Fits : Piece → Text → Prop
  | blank {c : CodePoint} (hc : isBlank c = true) (rest : Text) :
      Fits (.blank c) rest
  | comment {style : CommentStyle} {w : Text} (hw : style.Encloses w)
      (rest : Text) : Fits (.comment style w) rest
  | lexeme {kind : Kind} {w rest : Text}
      (hopening : ∀ style : CommentStyle, ¬ style.opener <+: w ++ rest)
      (hleads : kind.Leads w (w ++ rest)) : Fits (.lexeme kind w) rest

/-- Whether each of some pieces stands where the rules admit it. -/
def Fitting : List Piece → Prop
  | [] => True
  | piece :: rest => piece.Fits (join rest) ∧ Fitting rest

/-- The lexemes of pieces that follow a text, each at the place that the text
in front of it tells. -/
def tokens (before : Text) : List Piece → List Token
  | [] => []
  | lexeme kind w :: rest =>
    ⟨kind, w, .reference before⟩ :: tokens (before ++ w) rest
  | piece :: rest => tokens (before ++ piece.text) rest

/-- The table of lexemes of pieces, with the mark of the end. -/
def table (pieces : List Piece) : List Token :=
  tokens [] pieces ++ [.mark (.reference (join pieces))]

theorem join_append (pieces more : List Piece) :
    join (pieces ++ more) = join pieces ++ join more :=
  List.flatMap_append

theorem tokens_append (before : Text) (pieces more : List Piece) :
    tokens before (pieces ++ more)
      = tokens before pieces ++ tokens (before ++ join pieces) more := by
  induction pieces generalizing before with
  | nil => rw [join, List.flatMap_nil, List.append_nil]; rfl
  | cons piece pieces ih =>
    have hrest := ih (before ++ piece.text)
    rw [List.append_assoc] at hrest
    cases piece with
    | lexeme kind w => exact congrArg (_ :: ·) hrest
    | blank c => exact hrest
    | comment style w => exact hrest

theorem Fitting.right_of_append {before after : List Piece}
    (h : Fitting (before ++ after)) : Fitting after := by
  induction before with
  | nil => exact h
  | cons first before ih => exact ih h.2

end Piece

-- ================================================= pieces and the scanner

/-- The closing bracket of a comment is the first one behind the opening
one, whatever follows the comment. -/
theorem Scanner.distanceTo?_of_first {closer inside : Text}
    (hne : closer ≠ [])
    (hfirst : ∀ before after, inside ++ closer = before ++ (closer ++ after) →
      after = []) (rest : Text) :
    distanceTo? closer (inside ++ (closer ++ rest)) = some inside.length := by
  induction inside with
  | nil =>
    obtain ⟨c, more, rfl⟩ := List.exists_cons_of_ne_nil hne
    have hprefix : (c :: more).isPrefixOf (c :: (more ++ rest)) = true :=
      List.isPrefixOf_iff_prefix.2 (List.prefix_append (c :: more) rest)
    show distanceTo? _ (c :: (more ++ rest)) = _
    rw [distanceTo?, if_pos hprefix]
    rfl
  | cons c inside ih =>
    have hnot : ¬ closer.isPrefixOf (c :: (inside ++ (closer ++ rest))) := by
      intro hprefix
      have hwhole : closer <+: c :: (inside ++ closer) ++ rest := by
        rw [List.cons_append, List.append_assoc]
        exact List.isPrefixOf_iff_prefix.1 hprefix
      obtain ⟨after, hafter⟩ := List.prefix_of_prefix_length_le hwhole
        (List.prefix_append ..) (by simp; omega)
      have hnil := hfirst [] after hafter.symm
      rw [hnil, List.append_nil] at hafter
      have hlength := congrArg List.length hafter
      rw [List.length_cons, List.length_append] at hlength
      omega
    rw [List.cons_append, distanceTo?, if_neg hnot, ih]
    · rfl
    · intro before after hsame
      exact hfirst (c :: before) after (congrArg (c :: ·) hsame)

namespace CommentStyle

/-- No comment opens just where no opening bracket stands. -/
theorem opening?_eq_none_iff {text : Text} :
    opening? text = none ↔ ∀ style : CommentStyle, ¬ style.opener <+: text := by
  constructor
  · intro hnone style hbegins
    rw [opening?_of_isPrefix hbegins] at hnone
    cases hnone
  · intro hall
    cases hopening : opening? text with
    | none => rfl
    | some style => exact absurd (opener_isPrefix hopening) (hall style)

/-- A text begins with one opening bracket at most. -/
theorem opener_unique {style style' : CommentStyle} {text : Text}
    (h : style.opener <+: text) (h' : style'.opener <+: text) :
    style = style' := by
  have hopening := opening?_of_isPrefix h
  rw [opening?_of_isPrefix h'] at hopening
  exact (Option.some.inj hopening).symm

/-- An opening bracket begins with a character that is no blank and that
begins anew. -/
theorem exists_opener_cons (style : CommentStyle) :
    ∃ d more, style.opener = d :: more ∧ isBlank d = false
      ∧ d.BeginsAnew := by
  cases style with
  | braces => exact ⟨_, _, rfl, by decide, by decide⟩
  | stars => exact ⟨_, _, rfl, by decide, by decide⟩

/-- A comment with both its brackets is passed, whatever follows it. -/
theorem Encloses.exists_read {style : CommentStyle} {w : Text}
    (h : style.Encloses w) (rest : Text) :
    ∃ c more n, w = c :: more
      ∧ Lead.read c (more ++ rest) = .comment style
      ∧ Scanner.distanceTo? style.closer
          ((c :: (more ++ rest)).drop style.opener.length) = some n
      ∧ w.length = style.opener.length + (n + style.closer.length) := by
  obtain ⟨inside, rfl, hfirst⟩ := h
  have hclosed := Scanner.distanceTo?_of_first
    (by cases style <;> decide) hfirst rest
  have hlength : (style.opener ++ (inside ++ style.closer)).length
      = style.opener.length + (inside.length + style.closer.length) := by
    rw [List.length_append, List.length_append]
  rw [← List.append_assoc] at hclosed
  cases style with
  | braces => exact ⟨_, _, _, rfl, rfl, hclosed, hlength⟩
  | stars => exact ⟨_, _, _, rfl, rfl, hclosed, hlength⟩

end CommentStyle

namespace Piece

variable {kind : Kind} {c : CodePoint} {more rest : Text}

/-- A lexeme fits just where the scanner reads it. -/
theorem fits_lexeme_iff :
    Fits (.lexeme kind (c :: more)) rest
      ↔ Lead.read c (more ++ rest) = .lexeme kind more := by
  rw [Lead.read_eq_lexeme_iff, ← List.cons_append,
    CommentStyle.opening?_eq_none_iff]
  constructor
  · intro h
    cases h with
    | lexeme hopening hleads =>
      obtain ⟨d, _, hcons, hblank⟩ := hleads.writes.exists_cons
      obtain ⟨rfl, rfl⟩ := List.cons.inj hcons
      obtain ⟨hkind, htaken⟩ :=
        hleads.unique (Lead.leads_lexemeAt hblank (more ++ rest))
      exact ⟨hblank, hopening, Prod.ext hkind (List.cons.inj htaken).2⟩
  · rintro ⟨hblank, hopening, htaken⟩
    have hleads := Lead.leads_lexemeAt hblank (more ++ rest)
    rw [htaken] at hleads
    exact .lexeme hopening hleads

/-- Fitting pieces are read by the scanner, piece by piece. -/
theorem Fitting.scans {pieces : List Piece} (h : Fitting pieces)
    (before : Text) :
    Scans (Position.start.behind before (join pieces)) (join pieces)
      (tokens before pieces) (.reference (before ++ join pieces)) := by
  induction pieces generalizing before with
  | nil =>
    have hend := Position.behind_start before [] (by decide)
    show Scans (Position.start.behind before []) [] []
      (.reference (before ++ []))
    rw [List.append_nil, hend]
    exact .done _
  | cons piece pieces ih =>
    obtain ⟨hfits, hfitting⟩ := h
    have hrest := ih hfitting (before ++ piece.text)
    rw [Position.behind_append, List.append_assoc] at hrest
    cases hfits with
    | blank hc => exact .blank (Lead.read_eq_blank_iff.2 hc) hrest
    | @comment style w hw =>
      obtain ⟨c, more, n, rfl, hlead, hcloser, hlength⟩ :=
        hw.exists_read (join pieces)
      exact .comment hlead hcloser rfl hlength hrest
    | @lexeme kind w _ hopening hleads =>
      obtain ⟨c, more, rfl, -⟩ := hleads.writes.exists_cons
      have hlead := fits_lexeme_iff.1 (.lexeme hopening hleads)
      have hplace := Position.behind_start before (join (.lexeme kind
        (c :: more) :: pieces))
        ((Lead.wellCut_of_read hlead default).head?_append_ne (join pieces))
      show Scans _ (c :: (more ++ join pieces))
        (⟨kind, c :: more, .reference before⟩ :: _) _
      rw [← hplace]
      exact .lexeme hlead hrest

/-- What the scanner reads falls into fitting pieces. -/
theorem exists_fitting_of_scans {p q : Position} {text : Text}
    {tokens : List Token} (h : Scans p text tokens q) :
    ∃ pieces, join pieces = text ∧ Fitting pieces := by
  induction h with
  | done p => exact ⟨[], rfl, trivial⟩
  | @blank p q c rest tokens hlead hrest ih =>
    obtain ⟨pieces, rfl, hfitting⟩ := ih
    exact ⟨.blank c :: pieces, rfl,
      .blank (Lead.read_eq_blank_iff.1 hlead) _, hfitting⟩
  | @comment p q c more w rest tokens style n hlead hcloser htext hlength
      hrest ih =>
    obtain ⟨pieces, rfl, hfitting⟩ := ih
    exact ⟨.comment style w :: pieces, htext.symm,
      .comment (Lead.encloses_of_read hlead hcloser htext hlength) _,
      hfitting⟩
  | @lexeme p q c more rest tokens kind hlead hrest ih =>
    obtain ⟨pieces, rfl, hfitting⟩ := ih
    exact ⟨.lexeme kind (c :: more) :: pieces, rfl, fits_lexeme_iff.2 hlead,
      hfitting⟩

/-- A text lexes just when it falls into fitting pieces. -/
theorem scan_iff_exists_fitting (text : Text) :
    (Scanner.ofText text).scan.1 = true
      ↔ ∃ pieces, join pieces = text ∧ Fitting pieces := by
  constructor
  · intro hclean
    by_cases hscans : ∃ tokens q, Scans .start text tokens q
    · obtain ⟨tokens, q, hscans⟩ := hscans
      exact exists_fitting_of_scans hscans
    · rw [(scan_of_not_scans hscans).1] at hclean
      cases hclean
  · rintro ⟨pieces, rfl, hfitting⟩
    exact (scan_of_scans (hfitting.scans [])).1

/-- Whatever fitting pieces a text falls into, they tell its table. -/
theorem Fitting.table_eq {pieces : List Piece} (h : Fitting pieces) :
    (Scanner.ofText (join pieces)).scan.2.table = table pieces :=
  (scan_of_scans (h.scans [])).2

-- ==================================================== where comments open

/-- Whether a place in a text that falls into pieces, told by the number of
characters in front of it, lies inside of a comment. -/
def InsideComment (pieces : List Piece) (n : Nat) : Prop :=
  ∃ before style w after, pieces = before ++ .comment style w :: after
    ∧ (join before).length < n ∧ n < (join before).length + w.length

/-- At an opening bracket no piece begins but a comment. -/
theorem Fits.comment_of_opener {piece : Piece} {style : CommentStyle}
    (h : piece.Fits rest) (hopener : style.opener <+: piece.text ++ rest) :
    ∃ w, piece = .comment style w ∧ style.Encloses w := by
  cases h with
  | @blank c hc =>
    obtain ⟨d, more, hstyle, hblank, -⟩ := style.exists_opener_cons
    rw [hstyle] at hopener
    rw [(List.cons_prefix_cons.1 hopener).1, hc] at hblank
    cases hblank
  | @comment style' w hw =>
    have hopener' : style'.opener <+: w ++ rest := by
      obtain ⟨inside, rfl, -⟩ := hw
      rw [List.append_assoc]
      exact List.prefix_append ..
    obtain rfl := CommentStyle.opener_unique hopener hopener'
    exact ⟨w, rfl, hw⟩
  | lexeme hopening => exact absurd hopener (hopening style)

/-- Within a piece that is no comment no opening bracket stands. -/
theorem Fits.not_opener_within {piece : Piece} {style : CommentStyle}
    {front behind after : Text} (h : piece.Fits rest)
    (htext : piece.text = front ++ behind)
    (hopener : behind ++ rest = style.opener ++ after)
    (hfront : front ≠ []) (hbehind : behind ≠ []) :
    ∃ style' w, piece = .comment style' w := by
  obtain ⟨e, front, rfl⟩ := List.exists_cons_of_ne_nil hfront
  obtain ⟨d, behind, rfl⟩ := List.exists_cons_of_ne_nil hbehind
  obtain ⟨d', more, hstyle, -, hanew⟩ := style.exists_opener_cons
  rw [hstyle] at hopener
  obtain ⟨rfl, -⟩ := List.cons.inj hopener
  cases h with
  | blank hc =>
    have hlength := congrArg List.length htext
    simp [text] at hlength
  | comment hw => exact ⟨_, _, rfl⟩
  | @lexeme kind w _ hopening hleads =>
    have hmem : d ∈ w.tail := by
      rw [show w = e :: front ++ d :: behind from htext]
      exact List.mem_append_right _ List.mem_cons_self
    exact absurd hmem (hleads.writes.not_mem_tail hanew)

/-- Wherever an opening bracket stands outside of comments, a comment begins,
and the first closing bracket ends it. -/
theorem Fitting.comment_of_opener {pieces : List Piece} (h : Fitting pieces)
    {style : CommentStyle} {before after : Text}
    (htext : join pieces = before ++ (style.opener ++ after))
    (houtside : ¬ InsideComment pieces before.length) :
    ∃ front w behind, pieces = front ++ .comment style w :: behind
      ∧ join front = before ∧ style.Encloses w := by
  induction pieces generalizing before with
  | nil =>
    obtain ⟨d, more, hstyle, -⟩ := style.exists_opener_cons
    rw [hstyle] at htext
    exact absurd htext.symm (by simp [join])
  | cons piece pieces ih =>
    obtain ⟨hfits, hfitting⟩ := h
    -- behind the first piece, at its beginning, or within it
    have hplace : (∃ rest, before = piece.text ++ rest
          ∧ join pieces = rest ++ (style.opener ++ after))
        ∨ ∃ rest, rest ≠ [] ∧ piece.text = before ++ rest
          ∧ style.opener ++ after = rest ++ join pieces := by
      rcases List.append_eq_append_iff.1 htext with ⟨rest, hbefore, hrest⟩
        | ⟨rest, hpiece, hrest⟩
      · exact .inl ⟨rest, hbefore, hrest⟩
      · rcases eq_or_ne rest [] with rfl | hne
        · rw [List.append_nil] at hpiece
          exact .inl ⟨[], by rw [hpiece, List.append_nil], hrest.symm⟩
        · exact .inr ⟨rest, hne, hpiece, hrest⟩
    rcases hplace with ⟨rest, rfl, hrest⟩ | ⟨rest, hne, hpiece, hrest⟩
    · have houtside' : ¬ InsideComment pieces rest.length := by
        rintro ⟨front, style', w, behind, rfl, hfront, hbehind⟩
        refine houtside ⟨piece :: front, style', w, behind, rfl, ?_⟩
        have hlength : (join (piece :: front)).length
            = piece.text.length + (join front).length :=
          List.length_append
        rw [hlength, List.length_append]
        omega
      obtain ⟨front, w, behind, rfl, rfl, hw⟩ := ih hfitting hrest houtside'
      exact ⟨piece :: front, w, behind, rfl, rfl, hw⟩
    · cases before with
      | nil =>
        have hopener : style.opener <+: piece.text ++ join pieces := by
          rw [hpiece]
          exact ⟨after, hrest⟩
        obtain ⟨w, rfl, hw⟩ := hfits.comment_of_opener hopener
        exact ⟨[], w, pieces, rfl, rfl, hw⟩
      | cons e before =>
        obtain ⟨style', w, rfl⟩ := hfits.not_opener_within hpiece hrest.symm
          (List.cons_ne_nil e before) hne
        refine absurd ⟨[], style', w, pieces, rfl, Nat.succ_pos _, ?_⟩
          houtside
        have hlength := congrArg List.length hpiece
        have hpos := List.length_pos_iff.2 hne
        rw [List.length_append] at hlength
        show _ < 0 + (text (.comment style' w)).length
        omega

end Piece

-- ============================================================= whole texts

/-- A text lexes just when it falls into pieces that stand where the rules
admit them, and then the lexemes among them are its table, however the pieces
were found. Wherever an opening bracket stands outside of comments, a comment
begins and reaches to the first closing bracket; each lexeme is the longest
one where it begins, and what stands behind it does not go on with it. -/
theorem scan_longestMatch (text : Text) :
    ((Scanner.ofText text).scan.1 = true
        ↔ ∃ pieces, Piece.join pieces = text ∧ Piece.Fitting pieces)
      ∧ ∀ pieces, Piece.join pieces = text → Piece.Fitting pieces →
        (Scanner.ofText text).scan.2.table = Piece.table pieces
          ∧ (∀ (style : CommentStyle) before after,
              text = before ++ (style.opener ++ after) →
              ¬ Piece.InsideComment pieces before.length →
              ∃ front w behind, pieces = front ++ .comment style w :: behind
                ∧ Piece.join front = before ∧ style.Encloses w)
          ∧ ∀ before kind w after,
              pieces = before ++ .lexeme kind w :: after →
              kind.Leads w (w ++ Piece.join after)
                ∧ kind.Stops w (Piece.join after) := by
  refine ⟨Piece.scan_iff_exists_fitting text,
    fun pieces htext hfitting => ⟨?_, ?_, ?_⟩⟩
  · rw [← htext]
    exact hfitting.table_eq
  · intro style before after hsplit houtside
    exact hfitting.comment_of_opener (htext.trans hsplit) houtside
  · rintro before kind w after rfl
    cases hfitting.right_of_append.1 with
    | lexeme hopening hleads => exact ⟨hleads, hleads.stops hopening⟩

/-- Three dots are two and one, a minus sign belongs to the digits behind it
and not to the bracket, and a comment does not end with the star that it
begins with. -/
theorem scan_longestMatch_dots :
    let text : Text := "a1...-2(*)*)-(x"
    let pieces : List Piece :=
      [.lexeme .identifier "a1", .lexeme .symbol "..", .lexeme .symbol ".",
        .lexeme .number "-2", .comment .stars "(*)*)", .lexeme .symbol "-",
        .lexeme .symbol "(", .lexeme .identifier "x"]
    Piece.join pieces = text ∧ Piece.Fitting pieces
      ∧ (Scanner.ofText text).scan.1 = true
      ∧ (Scanner.ofText text).scan.2.table =
        [⟨.identifier, "a1", ⟨1, 1⟩⟩, ⟨.symbol, "..", ⟨1, 3⟩⟩,
          ⟨.symbol, ".", ⟨1, 5⟩⟩, ⟨.number, "-2", ⟨1, 6⟩⟩,
          ⟨.symbol, "-", ⟨1, 13⟩⟩, ⟨.symbol, "(", ⟨1, 14⟩⟩,
          ⟨.identifier, "x", ⟨1, 15⟩⟩, .mark ⟨1, 16⟩] := by
  intro text pieces
  have hsplit : CodePoint.char '(' :: ("*)*)-(x" : Text)
      = ("(*)*)" : Text) ++ ("-(x" : Text) := rfl
  have hcomment : CommentStyle.stars.Encloses "(*)*)" :=
    Lead.encloses_of_read (n := 1) (by decide) (by decide) hsplit rfl
  have hfitting : Piece.Fitting pieces :=
    ⟨Piece.fits_lexeme_iff.2 (by decide +kernel),
      Piece.fits_lexeme_iff.2 (by decide +kernel),
      Piece.fits_lexeme_iff.2 (by decide +kernel),
      Piece.fits_lexeme_iff.2 (by decide +kernel), .comment hcomment _,
      Piece.fits_lexeme_iff.2 (by decide +kernel),
      Piece.fits_lexeme_iff.2 (by decide +kernel),
      Piece.fits_lexeme_iff.2 (by decide +kernel), trivial⟩
  obtain ⟨hlexes, htable⟩ := scan_longestMatch text
  refine ⟨rfl, hfitting, hlexes.2 ⟨pieces, rfl, hfitting⟩, ?_⟩
  rw [(htable pieces rfl hfitting).1]
  decide +kernel

end VarSection
