/-
Two tables that go the same way up to a stop. In a `Fork` the lexemes in
front of the stop are common to both tables, except that in the second one
they stand a number of lines further down. At the stop the first table
ends. The second one ends there too, or it goes on with the word that opens
a block, on a line of its own. Behind the stop the tables have nothing to do
with each other.

An analysis of the one and an analysis of the other are `Alike` when they
have passed the same common lexemes. Whatever an analysis asks about its
place has then the same answer for both (`Alike.atSymbol` and its
companions), because a mark of the end and a `var` on a line of its own
answer alike to all that is ever asked; and what is passed over after a
fault is the same run of common lexemes (`Alike.unknownRun`,
`Alike.brokenRun`, `Alike.brokenRange`), because neither stop is ever part
of such a run.
-/
import VarSection.Proofs.Analysis.Step
import VarSection.Proofs.Shift

namespace VarSection

-- ================================================================== forks

/-- A lexeme opens a block on a line of its own behind some lexemes, which
keep away from the place of another lexeme. -/
structure Opens (n : Int) (common : List Token) (stop stop' : Token) :
    Prop where
  var : stop'.isKeyword "var" = true
  line : ∀ t ∈ common, t.line + n ≠ stop'.line
  apart : ∀ t ∈ common, t.pos ≠ stop.pos
  ends : ∀ before t u after, common = before ++ t :: u :: after →
    t.endPos ≠ stop.pos

/-- Two tables that go the same way up to a stop. -/
structure Fork where
  lines : Int
  common : List Token
  stop : Token
  rest : List Token
  stop' : Token
  rest' : List Token
  notEnding : ∀ t ∈ common, t.isEnding = false
  ending : stop.isEnding = true
  stops : stop' = stop.shift lines ∨ Opens lines common stop stop'

namespace Fork

/-- A lexeme in front of the stop as the second table has it. -/
def move (p : Fork) (t : Token) : Token := t.shift p.lines

/-- The second table goes on with a block. -/
def GoesOn (p : Fork) : Prop := Opens p.lines p.common p.stop p.stop'

/-- Two lexemes, one of each table, that correspond to each other. -/
inductive Matches (p : Fork) : Token → Token → Prop
  | lexeme {t : Token} (ht : t ∈ p.common) : Matches p t (p.move t)
  | stop : Matches p p.stop p.stop'

variable {p : Fork} {t t' u u' : Token}

-- ===================================================== lexemes at the stop

theorem kind_stop : p.stop.kind = .ending :=
  Token.kind_of_isEnding p.ending

/-- In the second table the stop is a mark of the end or a word. -/
theorem kind_stop' :
    p.stop'.kind = .ending
      ∨ (p.stop'.kind = .keyword ∧ p.stop'.isKeyword "var" = true) := by
  rcases p.stops with htwin | hopens
  · rw [htwin]
    exact .inl kind_stop
  · exact .inr ⟨Token.kind_of_isKeyword hopens.var, hopens.var⟩

theorem isSymbol_stop' (s : Text) : p.stop'.isSymbol s = false := by
  refine Token.isSymbol_eq_false_of_kind ?_ s
  rcases kind_stop' (p := p) with hkind | ⟨hkind, -⟩
  · rw [hkind]; decide
  · rw [hkind]; decide

theorem isKeyword_stop' {w : Text} (hw : w ≠ "var") :
    p.stop'.isKeyword w = false := by
  rcases kind_stop' (p := p) with hkind | ⟨-, hvar⟩
  · exact Token.isKeyword_eq_false_of_kind (by rw [hkind]; decide) w
  · exact Token.isKeyword_eq_false_of_ne hvar (Ne.symm hw)

theorem isSymbol_stop (s : Text) : p.stop.isSymbol s = false :=
  Token.isSymbol_eq_false_of_kind (by rw [kind_stop]; decide) s

theorem isKeyword_stop (w : Text) : p.stop.isKeyword w = false :=
  Token.isKeyword_eq_false_of_kind (by rw [kind_stop]; decide) w

/-- Where the second table ends at the stop, too, it does not go on. -/
theorem not_goesOn (h : p.stop' = p.stop.shift p.lines) : ¬p.GoesOn := by
  intro hgoes
  have hkind := Token.kind_of_isKeyword hgoes.var
  rw [h, show (p.stop.shift p.lines).kind = .ending from kind_stop] at hkind
  cases hkind

namespace Matches

theorem isSymbol (h : p.Matches t t') (s : Text) :
    t'.isSymbol s = t.isSymbol s := by
  cases h with
  | lexeme => rfl
  | stop => rw [isSymbol_stop, isSymbol_stop']

theorem isKeyword (h : p.Matches t t') {w : Text} (hw : w ≠ "var") :
    t'.isKeyword w = t.isKeyword w := by
  cases h with
  | lexeme => rfl
  | stop => rw [isKeyword_stop, isKeyword_stop' hw]

/-- Corresponding lexemes are of one class, unless it is that of a stop. -/
theorem kind_beq (h : p.Matches t t') {kind : Kind} (hend : kind ≠ .ending)
    (hword : kind ≠ .keyword) : (t'.kind == kind) = (t.kind == kind) := by
  cases h with
  | lexeme => rfl
  | stop =>
    rw [kind_stop, beq_eq_false_iff_ne.2 (Ne.symm hend)]
    refine beq_eq_false_iff_ne.2 ?_
    rcases kind_stop' (p := p) with hkind | ⟨hkind, -⟩
    · rw [hkind]; exact Ne.symm hend
    · rw [hkind]; exact Ne.symm hword

/-- Lexemes of the first table stand at one place just when those that
correspond to them do. -/
theorem pos_iff (h : p.Matches t t') (h' : p.Matches u u') :
    t'.pos = u'.pos ↔ t.pos = u.pos := by
  have hnever : ∀ {x : Token}, x ∈ p.common →
      ((p.move x).pos = p.stop'.pos ↔ x.pos = p.stop.pos) := by
    intro x hx
    rcases p.stops with htwin | hopens
    · rw [htwin]
      exact Position.shift_inj
    · refine ⟨fun heq => absurd (congrArg Position.line heq)
        (hopens.line x hx), fun heq => absurd heq (hopens.apart x hx)⟩
  cases h with
  | lexeme ht =>
    cases h' with
    | lexeme hu => exact Position.shift_inj
    | stop => exact hnever ht
  | stop =>
    cases h' with
    | lexeme hu =>
      rw [eq_comm, hnever hu]
      exact eq_comm
    | stop => exact ⟨fun _ => rfl, fun _ => rfl⟩

end Matches

-- ============================================== analyses at the same place

/-- Two analyses have passed the same common lexemes: what they have behind
them ends alike, and ahead lie the common lexemes that are left, and then
the stops. -/
structure Alike (p : Fork) (a b : Analysis) : Prop where
  tables : ∃ xs, p.common = a.cursor.behind.reverse ++ xs
    ∧ a.cursor.ahead = xs ++ p.stop :: p.rest
    ∧ b.cursor.ahead = xs.map p.move ++ p.stop' :: p.rest'
  behind : b.cursor.behind.head? = a.cursor.behind.head?.map p.move
  overrun : a.cursor.overrun = 0
  overrun' : b.cursor.overrun = 0

namespace Alike

variable {a b c d : Analysis}

theorem inside (h : p.Alike a b) : a.Inside := by
  obtain ⟨xs, hcommon, hahead, -⟩ := h.tables
  refine ⟨h.overrun, fun t ht => p.notEnding t ?_, p.stop, ?_, p.ending⟩
  · rw [hcommon]
    exact List.mem_append_left _ (List.mem_reverse.2 ht)
  · rw [hahead]
    exact List.mem_append_right _ List.mem_cons_self

/-- What keeps both places. -/
theorem congr (h : p.Alike a b) (hcursor : c.cursor = a.cursor)
    (hcursor' : d.cursor = b.cursor) : p.Alike c d := by
  obtain ⟨htables, hbehind, hoverrun, hoverrun'⟩ := h
  rw [← hcursor, ← hcursor'] at htables hbehind
  rw [← hcursor] at hoverrun
  rw [← hcursor'] at hoverrun'
  exact ⟨htables, hbehind, hoverrun, hoverrun'⟩

theorem mem_common_of_behind (h : p.Alike a b) (ht : t ∈ a.cursor.behind) :
    t ∈ p.common := by
  obtain ⟨xs, hcommon, -⟩ := h.tables
  rw [hcommon]
  exact List.mem_append_left _ (List.mem_reverse.2 ht)

/-- Both look at a common lexeme, or both at the stops. -/
theorem heads (h : p.Alike a b) :
    (∃ t rest rest', t ∈ p.common ∧ a.cursor.ahead = t :: rest
        ∧ b.cursor.ahead = p.move t :: rest')
      ∨ (a.cursor.ahead = p.stop :: p.rest
        ∧ b.cursor.ahead = p.stop' :: p.rest') := by
  obtain ⟨xs, hcommon, hahead, hahead'⟩ := h.tables
  cases xs with
  | nil => exact .inr ⟨hahead, hahead'⟩
  | cons t xs =>
    refine .inl ⟨t, _, _, ?_, hahead, hahead'⟩
    rw [hcommon]
    exact List.mem_append_right _ List.mem_cons_self

/-- The current lexemes correspond to each other. -/
theorem current (h : p.Alike a b) : p.Matches a.current b.current := by
  rcases h.heads with ⟨t, rest, rest', ht, hahead, hahead'⟩ |
    ⟨hahead, hahead'⟩
  · rw [Analysis.current_of_ahead hahead, Analysis.current_of_ahead hahead']
    exact .lexeme ht
  · rw [Analysis.current_of_ahead hahead, Analysis.current_of_ahead hahead']
    exact .stop

/-- Before the stop both look at one common lexeme. -/
theorem current_of_notEnding (h : p.Alike a b)
    (hend : a.current.isEnding = false) :
    a.current ∈ p.common ∧ b.current = p.move a.current := by
  have hmatches := h.current
  revert hend
  generalize a.current = t at hmatches ⊢
  generalize b.current = t' at hmatches ⊢
  intro hend
  cases hmatches with
  | lexeme ht => exact ⟨ht, rfl⟩
  | stop =>
    rw [p.ending] at hend
    cases hend

/-- At the stop both look at the stops. -/
theorem current_of_ending (h : p.Alike a b)
    (hend : a.current.isEnding = true) :
    a.current = p.stop ∧ b.current = p.stop' := by
  have hmatches := h.current
  revert hend
  generalize a.current = t at hmatches ⊢
  generalize b.current = t' at hmatches ⊢
  intro hend
  cases hmatches with
  | lexeme ht =>
    rw [p.notEnding _ ht] at hend
    cases hend
  | stop => exact ⟨rfl, rfl⟩

/-- A common lexeme is passed by both. -/
theorem next (h : p.Alike a b) (hend : a.current.isEnding = false) :
    p.Alike a.next b.next := by
  obtain ⟨xs, hcommon, hahead, hahead'⟩ := h.tables
  cases xs with
  | nil =>
    rw [Analysis.current_of_ahead hahead, p.ending] at hend
    cases hend
  | cons t xs =>
    rw [Analysis.current_of_ahead hahead] at hend
    rw [Analysis.next_of_ahead hahead hend,
      Analysis.next_of_ahead hahead' (show (p.move t).isEnding = false from
        hend)]
    refine ⟨⟨xs, ?_, rfl, rfl⟩, rfl, h.overrun, h.overrun'⟩
    rw [hcommon, List.reverse_cons, List.append_assoc]
    rfl

-- ================================================ what is asked at a place

theorem atSymbol (h : p.Alike a b) (s : Text) :
    b.atSymbol s = a.atSymbol s :=
  h.current.isSymbol s

theorem atKeyword (h : p.Alike a b) {w : Text} (hw : w ≠ "var") :
    b.atKeyword w = a.atKeyword w :=
  h.current.isKeyword hw

theorem atKind (h : p.Alike a b) {kind : Kind} (hend : kind ≠ .ending)
    (hword : kind ≠ .keyword) : b.atKind kind = a.atKind kind :=
  h.current.kind_beq hend hword

theorem atInteger (h : p.Alike a b) : b.atInteger = a.atInteger := by
  unfold Analysis.atInteger
  rw [h.atKind (by decide) (by decide)]
  rcases h.heads with ⟨t, rest, rest', ht, hahead, hahead'⟩ |
    ⟨hahead, hahead'⟩
  · rw [Analysis.current_of_ahead hahead, Analysis.current_of_ahead hahead']
    rfl
  · rw [Analysis.atKind_of_ahead hahead, kind_stop]
    rfl

/-- The word of a block begins no type, and a mark of the end none either. -/
theorem startsWord {words : List Text} (h : p.Alike a b)
    (hwords : words.contains ("var" : Text) = false) :
    (b.atKind .keyword && words.contains (Text.lower b.current.text))
      = (a.atKind .keyword
          && words.contains (Text.lower a.current.text)) := by
  rcases h.heads with ⟨t, rest, rest', ht, hahead, hahead'⟩ |
    ⟨hahead, hahead'⟩
  · rw [Analysis.atKind_of_ahead hahead, Analysis.atKind_of_ahead hahead',
      Analysis.current_of_ahead hahead, Analysis.current_of_ahead hahead']
    rfl
  · rw [Analysis.atKind_of_ahead hahead, Analysis.atKind_of_ahead hahead',
      Analysis.current_of_ahead hahead', kind_stop]
    rcases kind_stop' (p := p) with hkind | ⟨-, hvar⟩
    · rw [hkind]
      rfl
    · have hlower : Text.lower p.stop'.text = "var" := by
        unfold Token.isKeyword at hvar
        rw [Bool.and_eq_true, beq_iff_eq, beq_iff_eq] at hvar
        exact hvar.2
      rw [hlower, hwords, Bool.and_false]
      rfl

theorem startsType (h : p.Alike a b) : b.startsType = a.startsType :=
  h.startsWord (by decide)

theorem unreadSymbol (h : p.Alike a b) (s : Text) :
    b.unreadSymbol s = a.unreadSymbol s := by
  rw [Analysis.unreadSymbol_eq h.inside, ← h.atSymbol]
  rcases h.heads with ⟨t, rest, rest', -, -, hahead'⟩ |
    ⟨-, hahead'⟩
  · rw [Analysis.unreadSymbol_of_ahead hahead',
      Analysis.atSymbol_of_ahead hahead']
  · rw [Analysis.unreadSymbol_of_ahead hahead',
      Analysis.atSymbol_of_ahead hahead']

theorem unreadKeyword (h : p.Alike a b) {w : Text} (hw : w ≠ "var") :
    b.unreadKeyword w = a.unreadKeyword w := by
  rw [Analysis.unreadKeyword_eq h.inside, ← h.atKeyword hw]
  rcases h.heads with ⟨t, rest, rest', -, -, hahead'⟩ |
    ⟨-, hahead'⟩
  · rw [Analysis.unreadKeyword_of_ahead hahead',
      Analysis.atKeyword_of_ahead hahead']
  · rw [Analysis.unreadKeyword_of_ahead hahead',
      Analysis.atKeyword_of_ahead hahead']

theorem unreadName (h : p.Alike a b) : b.unreadName = a.unreadName := by
  rcases h.heads with ⟨t, rest, rest', ht, hahead, hahead'⟩ |
    ⟨hahead, hahead'⟩
  · rw [Analysis.unreadName_of_ahead hahead,
      Analysis.unreadName_of_ahead hahead']
    rfl
  · rw [Analysis.unreadName_of_ahead hahead,
      Analysis.unreadName_of_ahead hahead']
    exact Matches.stop.kind_beq (by decide) (by decide)

theorem previous? (h : p.Alike a b) :
    b.previous? = a.previous?.map p.move := by
  unfold Analysis.previous?
  rw [if_pos h.overrun, if_pos h.overrun', h.behind]

theorem lookBack' (h : p.Alike a b) : b.lookBack = b := by
  unfold Analysis.lookBack
  rw [if_pos h.overrun']

theorem upcoming' (h : p.Alike a b) : b.upcoming = b.cursor.ahead := by
  rcases h.heads with ⟨t, rest, rest', ht, hahead, hahead'⟩ |
    ⟨hahead, hahead'⟩
  · rw [Analysis.upcoming_of_ahead hahead', hahead']
  · rw [Analysis.upcoming_of_ahead hahead', hahead']

end Alike

-- ============================================================= runs ahead

theorem line_beq (t : Token) (line : Int) :
    ((p.move t).line == line + p.lines) = (t.line == line) := by
  show (t.line + p.lines == line + p.lines) = (t.line == line)
  rw [Bool.eq_iff_iff, beq_iff_eq, beq_iff_eq]
  omega

/-- A run that goes on as long as a test holds ends in front of the stop,
where the test does not hold at the stops. -/
theorem takeWhile_stop {q q' : Token → Bool} {xs : List Token}
    (hq : ∀ t, q' (p.move t) = q t) (hstop : q p.stop = false)
    (hstop' : q' p.stop' = false) (rest rest' : List Token) :
    (xs.map p.move ++ p.stop' :: rest').takeWhile q'
      = ((xs ++ p.stop :: rest).takeWhile q).map p.move := by
  induction xs with
  | nil =>
    show (p.stop' :: rest').takeWhile q'
      = ((p.stop :: rest).takeWhile q).map p.move
    rw [List.takeWhile_cons_of_neg (by rw [hstop']; decide),
      List.takeWhile_cons_of_neg (by rw [hstop]; decide)]
    rfl
  | cons t xs ih =>
    rw [List.map_cons, List.cons_append, List.cons_append,
      List.takeWhile_cons, List.takeWhile_cons, hq]
    cases q t with
    | true =>
      show p.move t :: _ = p.move t :: _
      rw [ih]
    | false => rfl

/-- What follows a common lexeme corresponds in both tables. -/
theorem matches_headD {xs : List Token} (hxs : ∀ t ∈ xs, t ∈ p.common)
    (rest rest' : List Token) (t t' : Token) :
    p.Matches ((xs ++ p.stop :: rest).headD t)
      ((xs.map p.move ++ p.stop' :: rest').headD t') := by
  cases xs with
  | nil => exact .stop
  | cons u xs => exact .lexeme (hxs u List.mem_cons_self)

theorem brokenRun_stop {xs : List Token} (hxs : ∀ t ∈ xs, t ∈ p.common)
    (line : Int) (rest rest' : List Token) :
    brokenRun (line + p.lines) (xs.map p.move ++ p.stop' :: rest')
      = (brokenRun line (xs ++ p.stop :: rest)).map p.move := by
  induction xs with
  | nil =>
    show brokenRun _ (p.stop' :: rest')
      = (brokenRun line (p.stop :: rest)).map p.move
    have hstop' : (p.stop'.isEnding || p.stop'.isKeyword "var") = true := by
      rcases kind_stop' (p := p) with hkind | ⟨-, hvar⟩
      · rw [show p.stop'.isEnding = true from beq_iff_eq.2 hkind]
        rfl
      · rw [hvar, Bool.or_true]
    unfold brokenRun
    rw [p.ending, hstop']
    rfl
  | cons t xs ih =>
    have hnext := matches_headD (fun u hu => hxs u (List.mem_cons_of_mem t hu))
      rest rest' t (p.move t)
    have hstarts : (p.move t).startsDeclaration
          ((xs.map p.move ++ p.stop' :: rest').headD (p.move t))
        = t.startsDeclaration ((xs ++ p.stop :: rest).headD t) := by
      unfold Token.startsDeclaration
      rw [hnext.isSymbol, hnext.isSymbol]
      rfl
    have hline : ((p.move t).line != line + p.lines) = (t.line != line) := by
      unfold bne
      rw [line_beq]
    rw [List.map_cons, List.cons_append, List.cons_append]
    unfold brokenRun
    rw [hstarts, hline, ih fun u hu => hxs u (List.mem_cons_of_mem t hu)]
    show (if t.isEnding || t.isKeyword "var" || t.line != line || _ then _
      else if t.isSymbol ";" then _ else _) = _
    split
    · rfl
    · split
      · rfl
      · rfl

theorem gluedRun_stop {last : Token} (hlast : last ∈ p.common)
    {xs : List Token} (hxs : ∀ t ∈ xs, t ∈ p.common)
    (rest rest' : List Token) :
    gluedRun (p.move last) (xs.map p.move ++ p.stop' :: rest')
      = (gluedRun last (xs ++ p.stop :: rest)).map p.move := by
  induction xs generalizing last with
  | nil =>
    show gluedRun _ (p.stop' :: rest')
      = (gluedRun last (p.stop :: rest)).map p.move
    have hstop : ¬(p.stop.pos = last.endPos
        ∧ p.stop.kind.isNamePart = true) := by
      rw [kind_stop]
      exact fun h => absurd h.2 (by decide)
    have hstop' : ¬(p.stop'.pos = (p.move last).endPos
        ∧ p.stop'.kind.isNamePart = true) := by
      rintro ⟨hpos, hpart⟩
      rcases p.stops with htwin | hopens
      · rw [htwin] at hpart
        rw [show (p.stop.shift p.lines).kind = .ending from kind_stop] at hpart
        exact absurd hpart (by decide)
      · exact hopens.line last hlast (congrArg Position.line hpos).symm
    unfold gluedRun
    rw [if_neg hstop, if_neg hstop']
    rfl
  | cons t xs ih =>
    rw [List.map_cons, List.cons_append, List.cons_append]
    unfold gluedRun
    have hpos : (p.move t).pos = (p.move last).endPos ↔ t.pos = last.endPos :=
      @Position.shift_inj p.lines t.pos last.endPos
    by_cases hglued : t.pos = last.endPos ∧ t.kind.isNamePart = true
    · have hglued' : (p.move t).pos = (p.move last).endPos
          ∧ (p.move t).kind.isNamePart = true := ⟨hpos.2 hglued.1, hglued.2⟩
      rw [if_pos hglued, if_pos hglued', ih (hxs t List.mem_cons_self)
        fun u hu => hxs u (List.mem_cons_of_mem t hu)]
      rfl
    · have hglued' : ¬((p.move t).pos = (p.move last).endPos
          ∧ (p.move t).kind.isNamePart = true) :=
        fun h => hglued ⟨hpos.1 h.1, h.2⟩
      rw [if_neg hglued, if_neg hglued']
      rfl

namespace Alike

variable {a b : Analysis}

theorem unknownRun (h : p.Alike a b) (line : Int) :
    unknownRun (line + p.lines) b.cursor.ahead
      = (VarSection.unknownRun line a.cursor.ahead).map p.move := by
  obtain ⟨xs, -, hahead, hahead'⟩ := h.tables
  rw [hahead, hahead']
  unfold VarSection.unknownRun
  refine takeWhile_stop (fun t => ?_) ?_ ?_ p.rest p.rest'
  · show (t.kind == .unknown && (p.move t).line == line + p.lines) = _
    rw [line_beq]
  · rw [kind_stop]
    rfl
  · rw [Matches.stop.kind_beq (by decide) (by decide), kind_stop]
    rfl

theorem brokenRun (h : p.Alike a b) (line : Int) :
    brokenRun (line + p.lines) b.cursor.ahead
      = (VarSection.brokenRun line a.cursor.ahead).map p.move := by
  obtain ⟨xs, hcommon, hahead, hahead'⟩ := h.tables
  rw [hahead, hahead']
  exact brokenRun_stop (fun t ht => by
    rw [hcommon]; exact List.mem_append_right _ ht) line p.rest p.rest'

theorem brokenRange (h : p.Alike a b) :
    Analysis.brokenRange b.cursor.ahead
      = (Analysis.brokenRange a.cursor.ahead).map p.move := by
  obtain ⟨xs, -, hahead, hahead'⟩ := h.tables
  rw [hahead, hahead']
  unfold Analysis.brokenRange
  refine takeWhile_stop (q := fun t => !t.isRangeBoundary)
    (fun t => rfl) ?_ ?_ p.rest p.rest'
  · unfold Token.isRangeBoundary
    rw [p.ending]
    rfl
  · unfold Token.isRangeBoundary
    rcases kind_stop' (p := p) with hkind | ⟨-, hvar⟩
    · rw [show p.stop'.isEnding = true from beq_iff_eq.2 hkind]
      rfl
    · rw [hvar, Bool.or_true]
      rfl

/-- The lexemes that go on with the common lexeme in front of the place. -/
theorem gluedRun (h : p.Alike a b) {last : Token} (hlast : last ∈ p.common) :
    gluedRun (p.move last) b.cursor.ahead
      = (VarSection.gluedRun last a.cursor.ahead).map p.move := by
  obtain ⟨xs, hcommon, hahead, hahead'⟩ := h.tables
  rw [hahead, hahead']
  exact gluedRun_stop hlast (fun t ht => by
    rw [hcommon]; exact List.mem_append_right _ ht) p.rest p.rest'

end Alike

end Fork

end VarSection
