/-
Two tables that part behind a semicolon. Up to the semicolon they hold the
same lexemes, then the one ends and the other goes on in any way. As long as
the semicolon is still ahead, an analysis of the one and an analysis of the
other are at the same place and have recorded the same (`Beside`): a
semicolon stops every run that is passed over and answers every question
that is asked of it, so what lies behind it is never looked at.

No reader of names or types passes a semicolon, and so all of them keep both
analyses beside each other and give the same answers
(`Beside.readNames`, `Beside.readTypePart`).
-/
import VarSection.Proofs.Analysis.Ending

namespace VarSection

open Analysis

-- ============================================== what was recorded alike

namespace Analysis.RecordsAlike

variable {a b : Analysis}

theorem recover (h : a.RecordsAlike b) : a.recover.RecordsAlike b.recover :=
  ⟨h.errors, rfl, h.symbols, h.declarations, h.halt?⟩

theorem halt (h : a.RecordsAlike b) (fault : Fault) :
    (a.halt fault).RecordsAlike (b.halt fault) := by
  unfold Analysis.halt
  rw [h.halt?]
  split
  · exact h
  · refine ⟨h.errors, h.recovering, h.symbols, h.declarations, ?_⟩
    show some _ = some _
    rw [h.symbols, h.declarations]

theorem expect (h : a.RecordsAlike b) (pos : Position) (cause : Cause) :
    (a.expect pos cause).RecordsAlike (b.expect pos cause) := by
  rw [expect_eq, expect_eq, hits_congr h.errors]
  split
  · exact h
  · exact h.report pos cause

end Analysis.RecordsAlike

-- ================================================================ partings

/-- Two tables that hold the same lexemes up to a semicolon, behind which
the first one ends. -/
structure Parting where
  semi : Token
  last : Token
  rest : List Token
  isSemicolon : semi.isSymbol ";" = true
  ending : last.isEnding = true

namespace Parting

/-- Two analyses that are at the same place in front of the semicolon and
have recorded the same. -/
structure Beside (p : Parting) (a b : Analysis) : Prop where
  ahead : ∃ xs, a.cursor.ahead = xs ++ [p.semi, p.last]
    ∧ b.cursor.ahead = xs ++ p.semi :: p.rest
  behind : b.cursor.behind = a.cursor.behind
  inside : a.Inside
  inside' : b.Inside
  records : a.RecordsAlike b

variable {p : Parting} {a b c d : Analysis} {t : Token}

namespace Beside

/-- What keeps both places, and records the same. -/
theorem keep (h : p.Beside a b) (hcursor : c.cursor = a.cursor)
    (hcursor' : d.cursor = b.cursor) (hrecords : c.RecordsAlike d) :
    p.Beside c d where
  ahead := by rw [hcursor, hcursor']; exact h.ahead
  behind := by rw [hcursor, hcursor']; exact h.behind
  inside := h.inside.congr hcursor
  inside' := h.inside'.congr hcursor'
  records := hrecords

-- ================================================ what is asked at a place

theorem current (h : p.Beside a b) : b.current = a.current := by
  obtain ⟨xs, hahead, hahead'⟩ := h.ahead
  cases xs with
  | nil => rw [current_of_ahead hahead, current_of_ahead hahead']
  | cons t xs => rw [current_of_ahead hahead, current_of_ahead hahead']

theorem atSymbol (h : p.Beside a b) (s : Text) :
    b.atSymbol s = a.atSymbol s := by
  unfold Analysis.atSymbol
  rw [h.current]

theorem atKeyword (h : p.Beside a b) (w : Text) :
    b.atKeyword w = a.atKeyword w := by
  unfold Analysis.atKeyword
  rw [h.current]

theorem atKind (h : p.Beside a b) (kind : Kind) :
    b.atKind kind = a.atKind kind := by
  unfold Analysis.atKind
  rw [h.current]

theorem atInteger (h : p.Beside a b) : b.atInteger = a.atInteger := by
  unfold Analysis.atInteger
  rw [h.atKind, h.current]

theorem startsType (h : p.Beside a b) : b.startsType = a.startsType := by
  unfold Analysis.startsType
  rw [h.atKind, h.current]

theorem atNameAfter (h : p.Beside a b) (comma : Token) :
    b.atNameAfter comma = a.atNameAfter comma := by
  unfold Analysis.atNameAfter
  rw [h.atKeyword, h.current]

theorem unreadSymbol (h : p.Beside a b) (s : Text) :
    b.unreadSymbol s = a.unreadSymbol s := by
  rw [unreadSymbol_eq h.inside, unreadSymbol_eq h.inside', h.atSymbol]

theorem unreadKeyword (h : p.Beside a b) (w : Text) :
    b.unreadKeyword w = a.unreadKeyword w := by
  rw [unreadKeyword_eq h.inside, unreadKeyword_eq h.inside', h.atKeyword]

theorem unreadName (h : p.Beside a b) : b.unreadName = a.unreadName := by
  obtain ⟨rest, hrest⟩ := h.inside.exists_ahead
  obtain ⟨rest', hrest'⟩ := h.inside'.exists_ahead
  rw [unreadName_of_ahead hrest, unreadName_of_ahead hrest', h.current]

theorem previous? (h : p.Beside a b) : b.previous? = a.previous? := by
  rw [h.inside.previous?, h.inside'.previous?, h.behind]

theorem onLineOfPrevious (h : p.Beside a b) (t : Token) :
    b.onLineOfPrevious t = a.onLineOfPrevious t := by
  unfold Analysis.onLineOfPrevious
  rw [h.previous?]

-- ========================================================= what is recorded

theorem report (h : p.Beside a b) (pos : Position) (cause : Cause) :
    p.Beside (a.report pos cause) (b.report pos cause) :=
  h.keep rfl rfl (h.records.report pos cause)

theorem recover (h : p.Beside a b) : p.Beside a.recover b.recover :=
  h.keep rfl rfl h.records.recover

theorem reportHere (h : p.Beside a b) (cause : Cause) :
    p.Beside (a.report a.current.pos cause)
      (b.report b.current.pos cause) := by
  rw [h.current]
  exact h.report _ cause

theorem expectHere (h : p.Beside a b) (cause : Cause) :
    p.Beside (a.expect a.current.pos cause)
      (b.expect b.current.pos cause) := by
  rw [h.current]
  exact h.keep (cursor_expect ..) (cursor_expect ..) (h.records.expect _ _)

theorem reportAfterPrevious (h : p.Beside a b) (cause : Cause) :
    p.Beside (a.reportAfterPrevious cause)
      (b.reportAfterPrevious cause) := by
  unfold Analysis.reportAfterPrevious
  simp only [h.inside.lookBack, h.inside'.lookBack, h.previous?, h.current]
  split <;> exact h.report _ cause

theorem readInteger (h : p.Beside a b) (t : Token) :
    (b.readInteger t).1 = (a.readInteger t).1
      ∧ p.Beside (a.readInteger t).2 (b.readInteger t).2 := by
  refine ⟨rfl, ?_⟩
  unfold Analysis.readInteger
  simp only
  split
  · exact h.keep (cursor_halt ..) (cursor_halt ..) (h.records.halt _)
  · exact h

-- ============================================================= runs passed

/-- A lexeme in front of the semicolon is passed by both. -/
theorem next_of_ahead [NestingLimit] {xs : List Token} (h : p.Beside a b)
    (hahead : a.cursor.ahead = t :: (xs ++ [p.semi, p.last])) :
    p.Beside a.next b.next := by
  obtain ⟨ys, hys, hahead'⟩ := h.ahead
  obtain rfl : ys = t :: xs := by
    rw [hahead, ← List.cons_append] at hys
    exact (List.append_cancel_right hys).symm
  by_cases hend : t.isEnding = true
  · have hcurrent := current_of_ahead hahead
    rw [next_of_ending (by rw [hcurrent]; exact hend),
      next_of_ending (by rw [h.current, hcurrent]; exact hend)]
    exact h
  · rw [Bool.not_eq_true] at hend
    refine ⟨⟨xs, ?_, ?_⟩, ?_, (steps_next a).inside h.inside,
      (steps_next b).inside h.inside', h.records.next⟩
    · exact (passes_next hahead hend).ahead_tail hahead
    · exact (passes_next hahead' hend).ahead_tail hahead'
    · rw [(passes_next hahead hend).behind,
        (passes_next hahead' hend).behind, h.behind]

/-- No other lexeme is the one at which the tables part. -/
theorem next [NestingLimit] (h : p.Beside a b)
    (hsemi : a.atSymbol ";" = false) :
    p.Beside a.next b.next := by
  obtain ⟨xs, hahead, -⟩ := h.ahead
  cases xs with
  | nil =>
    rw [atSymbol_of_ahead hahead, p.isSemicolon] at hsemi
    cases hsemi
  | cons t xs => exact h.next_of_ahead hahead

theorem nextSymbol [NestingLimit] (h : p.Beside a b) {s : Text}
    (hs : a.atSymbol s = true) (hne : s ≠ ";") : p.Beside a.next b.next := by
  refine h.next ?_
  exact Token.isSymbol_eq_false_of_ne hs hne

theorem nextOfKind [NestingLimit] (h : p.Beside a b)
    (hkind : a.current.kind ≠ .symbol) :
    p.Beside a.next b.next :=
  h.next (Token.isSymbol_eq_false_of_kind hkind _)

theorem nextBy [NestingLimit] {run xs : List Token} (h : p.Beside a b)
    (hahead : a.cursor.ahead = run ++ (xs ++ [p.semi, p.last]))
    (hrun : ∀ t ∈ run, t.isEnding = false) :
    p.Beside (Analysis.nextBy run.length a)
      (Analysis.nextBy run.length b) := by
  induction run generalizing a b with
  | nil => exact h
  | cons t run ih =>
    have hpass := passes_next hahead (hrun t List.mem_cons_self)
    rw [List.cons_append, ← List.append_assoc] at hahead
    refine ih (h.next_of_ahead hahead) ?_ fun u hu =>
      hrun u (List.mem_cons_of_mem t hu)
    rw [hpass.ahead_tail hahead, List.append_assoc]

/-- A run in front of the semicolon is passed by both, and the same is
found. -/
theorem pass [NestingLimit] {run xs : List Token} (h : p.Beside a b)
    (hahead : a.cursor.ahead = run ++ (xs ++ [p.semi, p.last]))
    (hrun : ∀ t ∈ run, t.isEnding = false) :
    p.Beside (a.pass run) (b.pass run) := by
  induction run generalizing a b with
  | nil => exact h
  | cons t run ih =>
    have hpass := passes_passToken hahead (hrun t List.mem_cons_self)
    rw [List.cons_append, ← List.append_assoc] at hahead
    have hnext := h.next_of_ahead hahead
    have htoken : p.Beside (a.passToken t) (b.passToken t) := by
      unfold passToken
      split
      · exact hnext.report _ _
      · exact hnext
    refine ih htoken ?_ fun u hu => hrun u (List.mem_cons_of_mem t hu)
    rw [hpass.ahead_tail hahead, List.append_assoc]

end Beside

theorem kind_semi : p.semi.kind = .symbol :=
  Token.kind_of_isSymbol p.isSemicolon

/-- A run that goes on as long as a test holds ends in front of the
semicolon, where the test does not hold there. -/
theorem takeWhile_semi {q : Token → Bool} (hsemi : q p.semi = false)
    (xs rest : List Token) :
    (xs ++ p.semi :: rest).takeWhile q = xs.takeWhile q := by
  induction xs with
  | nil => exact List.takeWhile_cons_of_neg (by rw [hsemi]; decide)
  | cons t xs ih =>
    rw [List.cons_append, List.takeWhile_cons, List.takeWhile_cons, ih]

theorem gluedRun_semi (last : Token) (xs rest : List Token) :
    gluedRun last (xs ++ p.semi :: rest) = gluedRun last xs := by
  induction xs generalizing last with
  | nil =>
    show gluedRun last (p.semi :: rest) = []
    unfold gluedRun
    rw [kind_semi]
    exact if_neg fun h => absurd h.2 (by decide)
  | cons t xs ih =>
    rw [List.cons_append]
    unfold gluedRun
    rw [ih]

namespace Beside

/-- A run ahead is the same for both, and lies in front of the semicolon. -/
theorem takeWhile_upcoming (h : p.Beside a b) (q : Token → Bool)
    (hsemi : q p.semi = false) :
    b.upcoming.takeWhile q = a.upcoming.takeWhile q
      ∧ ∃ xs, a.cursor.ahead
        = a.upcoming.takeWhile q ++ (xs ++ [p.semi, p.last]) := by
  obtain ⟨xs, hahead, hahead'⟩ := h.ahead
  rw [h.inside.upcoming, h.inside'.upcoming, hahead, hahead',
    takeWhile_semi hsemi, takeWhile_semi hsemi]
  refine ⟨rfl, xs.dropWhile q, ?_⟩
  rw [← List.append_assoc, List.takeWhile_append_dropWhile]

theorem reportUnknown [NestingLimit] (h : p.Beside a b) (line : Int) :
    (b.reportUnknown line).1 = (a.reportUnknown line).1
      ∧ p.Beside (a.reportUnknown line).2 (b.reportUnknown line).2 := by
  obtain ⟨hrun, xs, hahead⟩ := h.takeWhile_upcoming
    (fun t => t.kind == .unknown && t.line == line)
    (by rw [kind_semi]; rfl)
  unfold Analysis.reportUnknown unknownRun
  rw [hrun]
  refine ⟨rfl, h.pass hahead fun t ht => ?_⟩
  have hunknown : t ∈ unknownRun line a.upcoming := ht
  exact (notEnding_of_mem_unknownRun hunknown).2.2

theorem skipToRangeBoundary [NestingLimit] (h : p.Beside a b) :
    p.Beside a.skipToRangeBoundary b.skipToRangeBoundary := by
  obtain ⟨hrun, xs, hahead⟩ := h.takeWhile_upcoming
    (fun t => !t.isRangeBoundary) (by
      unfold Token.isRangeBoundary
      rw [p.isSemicolon, Bool.or_true]
      rfl)
  have hpass := passes_skipToRangeBoundary h.inside
  unfold brokenRange at hpass
  rw [← h.inside.upcoming] at hpass
  unfold Analysis.skipToRangeBoundary
  rw [hrun]
  exact h.nextBy hahead hpass.notEnding

theorem passBracket [NestingLimit] (h : p.Beside a b) :
    p.Beside a.passBracket b.passBracket := by
  unfold Analysis.passBracket
  rw [h.atSymbol]
  split
  next hbracket => exact h.nextSymbol hbracket (by decide)
  next => exact h

-- ================================================================== names

/-- Both read the same name, if it does not begin with a symbol. -/
theorem readName [NestingLimit] (h : p.Beside a b)
    (hkind : a.current.kind ≠ .symbol) :
    b.readName.1 = a.readName.1 ∧ p.Beside a.readName.2 b.readName.2 := by
  have hnext := h.nextOfKind hkind
  obtain ⟨xs, hahead, hahead'⟩ := hnext.ahead
  obtain ⟨ys, hys⟩ := gluedRun_isPrefix a.current xs
  have hsplit : a.next.cursor.ahead
      = gluedRun a.current xs ++ (ys ++ [p.semi, p.last]) := by
    rw [← List.append_assoc, hys, hahead]
  have hmove := hnext.nextBy hsplit fun t ht => notEnding_of_mem_gluedRun ht
  unfold Analysis.readName
  simp only [hnext.inside.upcoming, hnext.inside'.upcoming, hahead, hahead',
    gluedRun_semi, h.current]
  refine ⟨trivial, ?_⟩
  split
  · exact hmove
  · exact hmove.report _ _

theorem abandonNames [NestingLimit] (h : p.Beside a b) (comma : Token) :
    p.Beside (a.abandonNames comma) (b.abandonNames comma) := by
  have hreport := (h.reportHere .nameExpected).recover
  unfold Analysis.abandonNames
  simp only [h.current] at hreport ⊢
  split
  next hpass =>
    rw [Bool.and_eq_true, Bool.and_eq_true, Bool.not_eq_true',
      Bool.or_eq_false_iff] at hpass
    refine hreport.next ?_
    show a.current.isSymbol ";" = false
    unfold Token.isSymbol
    rw [hpass.1.2.2, Bool.and_false]
  next => exact hreport

theorem kind_of_atNameAfter {comma : Token}
    (hname : a.atNameAfter comma = true) : a.current.kind ≠ .symbol := by
  intro hkind
  unfold Analysis.atNameAfter at hname
  rw [hkind] at hname
  cases hname

theorem readMoreNames [NestingLimit] (h : p.Beside a b) :
    b.readMoreNames.1 = a.readMoreNames.1
      ∧ p.Beside a.readMoreNames.2 b.readMoreNames.2 := by
  revert b
  refine readMoreNames.induct (fun a => ∀ {b}, p.Beside a b →
    b.readMoreNames.1 = a.readMoreNames.1
      ∧ p.Beside a.readMoreNames.2 b.readMoreNames.2) ?more ?broken ?none a
  case more =>
    intro a hcomma hname name ih b h
    have hnext := h.nextSymbol hcomma (by decide)
    obtain ⟨hvalue, hread⟩ := hnext.readName (kind_of_atNameAfter hname)
    obtain ⟨hvalues, hmore⟩ := ih hread
    rw [Analysis.readMoreNames, dif_pos (by rw [h.atSymbol]; exact hcomma),
      dif_pos (by rw [h.current, hnext.atNameAfter]; exact hname),
      Analysis.readMoreNames, dif_pos hcomma, dif_pos hname]
    refine ⟨?_, hmore⟩
    show _ :: _ = _ :: _
    rw [hvalue, hvalues]
  case broken =>
    intro a hcomma hname b h
    have hnext := h.nextSymbol hcomma (by decide)
    rw [Analysis.readMoreNames, dif_pos (by rw [h.atSymbol]; exact hcomma),
      dif_neg (by rw [h.current, hnext.atNameAfter]; exact hname), h.current,
      Analysis.readMoreNames, dif_pos hcomma, dif_neg hname]
    exact ⟨rfl, hnext.abandonNames a.current⟩
  case none =>
    intro a hcomma b h
    rw [Analysis.readMoreNames, dif_neg (by rw [h.atSymbol]; exact hcomma),
      Analysis.readMoreNames, dif_neg hcomma]
    exact ⟨rfl, h⟩

/-- Both read the same names, if they do not begin with a symbol. -/
theorem readNames [NestingLimit] (h : p.Beside a b)
    (hkind : a.current.kind ≠ .symbol) :
    b.readNames.1 = a.readNames.1
      ∧ p.Beside a.readNames.2 b.readNames.2 := by
  obtain ⟨hvalue, hread⟩ := h.readName hkind
  obtain ⟨hvalues, hmore⟩ := hread.readMoreNames
  unfold Analysis.readNames
  refine ⟨?_, hmore⟩
  show _ :: _ = _ :: _
  rw [hvalue, hvalues]

-- ========================================================= index ranges

theorem nextInteger [NestingLimit] (h : p.Beside a b)
    (hinteger : a.atInteger = true) :
    p.Beside a.next b.next :=
  h.nextOfKind (by rw [kind_of_atInteger hinteger]; decide)

theorem readRange [NestingLimit] (h : p.Beside a b) :
    b.readRange.1 = a.readRange.1 ∧ p.Beside a.readRange.2 b.readRange.2 := by
  unfold Analysis.readRange
  rw [h.atInteger]
  by_cases hlow : a.atInteger = true
  · have hpass := h.nextInteger hlow
    rw [hlow]
    simp only [hpass.atSymbol]
    by_cases hdots : a.next.atSymbol ".." = true
    · have hpass' := hpass.nextSymbol hdots (by decide)
      rw [hdots]
      simp only [hpass'.atInteger]
      by_cases hhigh : a.next.next.atInteger = true
      · obtain ⟨hlower, hfirst⟩ :=
          (hpass'.nextInteger hhigh).readInteger a.current
        obtain ⟨hupper, hsecond⟩ := hfirst.readInteger a.next.next.current
        rw [hhigh, h.current, hpass'.current]
        simp only [hlower, hupper]
        refine ⟨rfl, ?_⟩
        show p.Beside (if _ then _ else _) (if _ then _ else _)
        split
        · exact hsecond.report _ _
        · exact hsecond
      · rw [Bool.not_eq_true] at hhigh
        rw [hhigh]
        exact ⟨rfl, (hpass'.reportHere _).recover⟩
    · rw [Bool.not_eq_true] at hdots
      rw [hdots]
      exact ⟨rfl, (hpass.reportHere _).recover⟩
  · rw [Bool.not_eq_true] at hlow
    rw [hlow]
    exact ⟨rfl, (h.reportHere _).recover⟩

theorem readRangeOrSkip [NestingLimit] (h : p.Beside a b) :
    b.readRangeOrSkip.1 = a.readRangeOrSkip.1
      ∧ p.Beside a.readRangeOrSkip.2 b.readRangeOrSkip.2 := by
  obtain ⟨hvalue, hread⟩ := h.readRange
  unfold Analysis.readRangeOrSkip
  simp only [hvalue]
  refine ⟨trivial, ?_⟩
  split
  · exact hread.skipToRangeBoundary
  · exact hread

theorem skipAfterRange [NestingLimit] (h : p.Beside a b) :
    p.Beside a.skipAfterRange b.skipAfterRange :=
  (h.expectHere _).recover.skipToRangeBoundary

theorem nextUnread [NestingLimit] (h : p.Beside a b)
    (hcomma : a.unreadSymbol "," = true) :
    p.Beside a.next b.next := by
  rw [unreadSymbol_eq h.inside] at hcomma
  exact h.nextSymbol hcomma (by decide)

/-- Both read the same index ranges. -/
theorem readRanges [NestingLimit] (h : p.Beside a b) :
    b.readRanges.1 = a.readRanges.1
      ∧ p.Beside a.readRanges.2 b.readRanges.2 := by
  revert b
  refine readRanges.induct (fun a => ∀ {b}, p.Beside a b →
    b.readRanges.1 = a.readRanges.1
      ∧ p.Beside a.readRanges.2 b.readRanges.2) ?comma ?last ?rest ?none a
  case comma =>
    intro a read a' hcomma ih b h
    obtain ⟨hvalue, hread⟩ := h.readRangeOrSkip
    obtain ⟨hvalues, hmore⟩ := ih (hread.nextUnread hcomma)
    rw [readRanges_of_comma hcomma, readRanges_of_comma
      (by rw [hread.unreadSymbol]; exact hcomma), hvalue, hvalues]
    exact ⟨rfl, hmore⟩
  case last =>
    intro a read a' hcomma hlast b h
    obtain ⟨hvalue, hread⟩ := h.readRangeOrSkip
    rw [readRanges_of_last hcomma hlast, readRanges_of_last
      (by rw [hread.unreadSymbol]; exact hcomma)
      (by rw [hread.atSymbol, hvalue]; exact hlast), hvalue]
    exact ⟨rfl, hread.passBracket⟩
  case rest =>
    intro a read a' hcomma hlast a'' hskip ih b h
    obtain ⟨hvalue, hread⟩ := h.readRangeOrSkip
    have hskipped := hread.skipAfterRange
    obtain ⟨hvalues, hmore⟩ := ih (hskipped.nextUnread hskip)
    rw [readRanges_of_resumed hcomma hlast hskip, readRanges_of_resumed
      (by rw [hread.unreadSymbol]; exact hcomma)
      (by rw [hread.atSymbol, hvalue]; exact hlast)
      (by rw [hskipped.unreadSymbol]; exact hskip), hvalue, hvalues]
    exact ⟨rfl, hmore⟩
  case none =>
    intro a read a' hcomma hlast a'' hskip b h
    obtain ⟨hvalue, hread⟩ := h.readRangeOrSkip
    have hskipped := hread.skipAfterRange
    rw [readRanges_of_broken hcomma hlast hskip, readRanges_of_broken
      (by rw [hread.unreadSymbol]; exact hcomma)
      (by rw [hread.atSymbol, hvalue]; exact hlast)
      (by rw [hskipped.unreadSymbol]; exact hskip), hvalue]
    exact ⟨rfl, hskipped.passBracket⟩

/-- Both read the same index ranges behind a word. -/
theorem readArrayRanges [NestingLimit] (h : p.Beside a b)
    (hkind : a.current.kind ≠ .symbol) :
    b.readArrayRanges.1 = a.readArrayRanges.1
      ∧ p.Beside a.readArrayRanges.2 b.readArrayRanges.2 := by
  have hword := h.nextOfKind hkind
  unfold Analysis.readArrayRanges
  simp only [hword.atSymbol]
  by_cases hopen : a.next.atSymbol "[" = true
  · rw [if_pos hopen, if_pos hopen]
    exact (hword.nextSymbol hopen (by decide)).readRanges
  · rw [if_neg hopen, if_neg hopen]
    have hreport := (hword.reportHere .arrayBracketExpected).recover
    rw [hreport.atInteger]
    split
    · exact hreport.readRanges
    · exact ⟨rfl, hreport.skipToRangeBoundary.passBracket⟩

theorem missingOf (h : p.Beside a b) : p.Beside a.missingOf b.missingOf :=
  (h.expectHere _).recover

-- ================================================================== types

theorem closeSize [NestingLimit] (h : p.Beside a b) (size : Option Int) :
    (Analysis.closeSize size b).1 = (Analysis.closeSize size a).1
      ∧ p.Beside (Analysis.closeSize size a).2
          (Analysis.closeSize size b).2 := by
  refine ⟨rfl, ?_⟩
  unfold Analysis.closeSize
  simp only [h.atSymbol]
  split
  next hbracket => exact h.nextSymbol hbracket (by decide)
  next => exact (h.expectHere _).recover

/-- Both pass a lexeme on the line of the one in front of it, or both do
not. -/
theorem passOnLine [NestingLimit] (h : p.Beside a b)
    (hsemi : a.atSymbol ";" = false) :
    p.Beside a.passOnLine b.passOnLine := by
  unfold Analysis.passOnLine
  simp only [h.inside.lookBack, h.inside'.lookBack, h.current,
    h.onLineOfPrevious]
  split
  · exact h.next hsemi
  · exact h

theorem readStringType [NestingLimit] (h : p.Beside a b) :
    b.readStringType.1 = a.readStringType.1
      ∧ p.Beside a.readStringType.2 b.readStringType.2 := by
  unfold Analysis.readStringType
  rw [h.atSymbol]
  by_cases hopen : a.atSymbol "[" = true
  · have hpass := h.nextSymbol hopen (by decide)
    rw [hopen]
    simp only [hpass.atInteger, hpass.current]
    by_cases hinteger : a.next.atInteger = true
    · obtain ⟨hvalue, hread⟩ :=
        (hpass.nextInteger hinteger).readInteger a.next.current
      rw [hinteger]
      simp only [hvalue]
      refine closeSize ?_ _
      split
      · exact hread
      · exact hread.report _ _
    · rw [Bool.not_eq_true] at hinteger
      rw [hinteger]
      have hreport := (hpass.report a.next.current.pos .sizeExpected).recover
      have hclose : ∀ {c d : Analysis}, p.Beside c d →
          (if d.atSymbol "]" then Analysis.closeSize none d
            else (.string none, d)).1
            = (if c.atSymbol "]" then Analysis.closeSize none c
                else (.string none, c)).1
          ∧ p.Beside
              (if c.atSymbol "]" then Analysis.closeSize none c
                else (.string none, c)).2
              (if d.atSymbol "]" then Analysis.closeSize none d
                else (.string none, d)).2 := by
        intro c d hcd
        rw [hcd.atSymbol]
        split
        · exact hcd.closeSize none
        · exact ⟨rfl, hcd⟩
      refine hclose ?_
      by_cases hend : (a.next.current.isEnding || a.next.current.isSymbol "]"
          || a.next.current.isSymbol ";") = true
      · rw [if_pos hend, if_pos hend]
        exact hreport
      · rw [if_neg hend, if_neg hend]
        rw [Bool.not_eq_true, Bool.or_eq_false_iff] at hend
        exact hreport.passOnLine hend.2
  · rw [Bool.not_eq_true] at hopen
    rw [hopen]
    exact ⟨rfl, h⟩

theorem refuseType [NestingLimit] (h : p.Beside a b) :
    b.refuseType.1 = a.refuseType.1
      ∧ p.Beside a.refuseType.2 b.refuseType.2 := by
  refine ⟨rfl, ?_⟩
  unfold Analysis.refuseType
  refine recover ?_
  have hexpect := h.expectHere .typeExpected
  rw [h.current] at hexpect ⊢
  by_cases hend : (a.current.isEnding || a.current.isSymbol ";") = true
  · rw [if_pos hend, if_pos hend]
    exact hexpect
  · rw [if_neg hend, if_neg hend]
    rw [Bool.not_eq_true, Bool.or_eq_false_iff] at hend
    exact (h.report _ _).passOnLine hend.2

theorem readSimpleType [NestingLimit] (h : p.Beside a b) :
    b.readSimpleType.1 = a.readSimpleType.1
      ∧ p.Beside a.readSimpleType.2 b.readSimpleType.2 := by
  unfold Analysis.readSimpleType
  simp only [h.atKeyword, h.atKind, h.current]
  split
  next hscalar =>
    rw [Bool.and_eq_true] at hscalar
    have hkind : a.current.kind = .keyword := beq_iff_eq.1 hscalar.1
    exact ⟨rfl, h.nextOfKind (by rw [hkind]; decide)⟩
  next =>
    split
    next hstring =>
      have hkind := Token.kind_of_isKeyword hstring
      exact (h.nextOfKind (by rw [hkind]; decide)).readStringType
    next => exact h.refuseType

theorem nextKeyword [NestingLimit] (h : p.Beside a b) {w : Text}
    (hword : a.atKeyword w = true) : p.Beside a.next b.next :=
  h.nextOfKind (by rw [Token.kind_of_isKeyword hword]; decide)

theorem descend [NestingLimit] (h : p.Beside a b) (depth : Nat) :
    p.Beside (a.descend depth) (b.descend depth) := by
  refine h.keep (cursor_descend ..) (cursor_descend ..) ?_
  unfold Analysis.descend
  split
  · exact h.records.halt _
  · exact h.records

/-- Both read the same type. -/
theorem readType [NestingLimit] (h : p.Beside a b) (depth : Nat) :
    (b.readType depth).1 = (a.readType depth).1
      ∧ p.Beside (a.readType depth).2 (b.readType depth).2 := by
  have hread : ∀ {a b : Analysis} {depth : Nat}, p.Beside a b →
      a.unreadKeyword "array" = true →
      (b.descend depth).readArrayRanges.1
          = (a.descend depth).readArrayRanges.1
        ∧ p.Beside (a.descend depth).readArrayRanges.2
            (b.descend depth).readArrayRanges.2 := by
    intro a b depth h harray
    rw [unreadKeyword_eq h.inside] at harray
    refine (h.descend depth).readArrayRanges ?_
    rw [current_congr (cursor_descend ..), Token.kind_of_isKeyword harray]
    decide
  revert b
  refine readType.induct
    (fun depth a => ∀ {b}, p.Beside a b →
      (b.readType depth).1 = (a.readType depth).1
        ∧ p.Beside (a.readType depth).2 (b.readType depth).2)
    (fun depth ranges a => ∀ {b}, p.Beside a b →
      (b.readElements depth ranges).1 = (a.readElements depth ranges).1
        ∧ p.Beside (a.readElements depth ranges).2
            (b.readElements depth ranges).2)
    ?array ?array' ?simple ?of ?missing ?none depth a
  case array =>
    intro depth a harray ranges hdepth ih b h
    obtain ⟨hvalue, hranges⟩ := hread h harray
    obtain ⟨-, helements⟩ := ih hranges
    rw [readType_of_nested hdepth harray, readType_of_nested hdepth
      (by rw [h.unreadKeyword]; exact harray), hvalue, h.current]
    exact ⟨rfl, helements.report _ _⟩
  case array' =>
    intro depth a harray ranges hdepth ih b h
    obtain rfl : depth = 0 := Nat.eq_zero_of_not_pos hdepth
    obtain ⟨hvalue, hranges⟩ := hread h harray
    rw [readType_of_array harray, readType_of_array
      (by rw [h.unreadKeyword]; exact harray), hvalue]
    exact ih hranges
  case simple =>
    intro depth a harray b h
    rw [readType_of_simple depth harray, readType_of_simple depth
      (by rw [h.unreadKeyword]; exact harray)]
    exact h.readSimpleType
  case of =>
    intro depth ranges a hof ih b h
    obtain ⟨hvalue, hread⟩ := ih (h.nextKeyword hof)
    rw [readElements_of_of depth ranges hof, readElements_of_of depth ranges
      (by rw [h.atKeyword]; exact hof), hvalue]
    exact ⟨rfl, hread⟩
  case missing =>
    intro depth ranges a hof hstarts ih b h
    obtain ⟨hvalue, hread⟩ := ih h.missingOf
    rw [readElements_of_missing depth ranges hof hstarts,
      readElements_of_missing depth ranges (by rw [h.atKeyword]; exact hof)
        (by rw [h.startsType]; exact hstarts), hvalue]
    exact ⟨rfl, hread⟩
  case none =>
    intro depth ranges a hof hstarts b h
    rw [readElements_of_none depth ranges hof hstarts,
      readElements_of_none depth ranges (by rw [h.atKeyword]; exact hof)
        (by rw [h.startsType]; exact hstarts)]
    exact ⟨rfl, h.missingOf⟩

theorem missColon (h : p.Beside a b) (found : Bool) :
    p.Beside (a.missColon found) (b.missColon found) := by
  unfold Analysis.missColon
  rw [h.records.recovering]
  split
  · exact h
  · exact h.reportAfterPrevious _

/-- Both read the same type behind the names. -/
theorem readTypePart [NestingLimit] (h : p.Beside a b) :
    b.readTypePart.1 = a.readTypePart.1
      ∧ p.Beside a.readTypePart.2 b.readTypePart.2 := by
  obtain ⟨hflag, hread⟩ := h.reportUnknown a.current.line
  rw [readTypePart_eq, readTypePart_eq, h.current, hflag]
  generalize (a.reportUnknown a.current.line).1 = found
  have hmissing := hread.missColon found
  unfold readColon
  rw [hread.atSymbol, hmissing.startsType]
  split
  next hcolon => exact (hread.nextSymbol hcolon (by decide)).readType 0
  next =>
    split
    · exact hmissing.readType 0
    · exact ⟨rfl, hmissing.recover⟩

end Beside

end Parting

end VarSection
