/-
The readers in lockstep. What passes and reports as the table alone decides
is kept by every relation of lockstep (`Lockstep`): the runs passed over
after a fault, single names, index ranges with what is left of them. What
reports only if the latest finding lies elsewhere is kept by `Track`, and
so are lists of names and whole types (`Track.readNames`,
`Track.readType`). A declaration misses its colon and its semicolon right
behind a lexeme, where the latest finding may come to lie at the stop, and
of its parts there is left that both went along (`Along.readParts`).

Types are read by two functions that call each other, and their proof
follows that recursion. All other loops go on as long as there is a comma,
which both tables have at the same places.
-/
import VarSection.Proofs.Analysis.Lockstep

namespace VarSection.Fork

variable {p : Fork} {R : Analysis → Analysis → Prop}
  {a₀ b₀ a b : Analysis} {t : Token} {cause : Cause}

-- ============================================================ runs passed

namespace Lockstep

/-- Both make the same finding where they are. -/
theorem reportHere (hR : p.Lockstep R) (h : R a b) (cause : Cause)
    (hcause : cause.isAtLexeme = true) :
    R (a.report a.current.pos cause) (b.report b.current.pos cause) :=
  hR.report h (hR.alike h).current
    (fun hend => ((hR.alike h).current_of_notEnding hend).1) hcause

/-- Both make the same finding at a common lexeme. -/
theorem reportLexeme (hR : p.Lockstep R) (h : R a b) (ht : t ∈ p.common)
    (hcause : cause.isAtLexeme = true) :
    R (a.report t.pos cause) (b.report (p.move t).pos cause) :=
  hR.report h (.lexeme ht) (fun _ => ht) hcause

theorem nextBy (hR : p.Lockstep R) (h : R a b) {run rest : List Token}
    (hahead : a.cursor.ahead = run ++ rest)
    (hrun : ∀ t ∈ run, t.isEnding = false) :
    R (Analysis.nextBy run.length a) (Analysis.nextBy run.length b) := by
  induction run generalizing a b with
  | nil => exact h
  | cons t run ih =>
    have ht := hrun t List.mem_cons_self
    have hcurrent : a.current = t := Analysis.current_of_ahead hahead
    refine ih (hR.next h (by rw [hcurrent]; exact ht)) ?_ fun u hu =>
      hrun u (List.mem_cons_of_mem t hu)
    exact (Analysis.passes_next hahead ht).ahead_eq hahead

theorem pass (hR : p.Lockstep R) (h : R a b) {run rest : List Token}
    (hahead : a.cursor.ahead = run ++ rest)
    (hrun : ∀ t ∈ run, t.isEnding = false) :
    R (a.pass run) (b.pass (run.map p.move)) := by
  induction run generalizing a b with
  | nil => exact h
  | cons t run ih =>
    have ht := hrun t List.mem_cons_self
    have hcurrent : a.current = t := Analysis.current_of_ahead hahead
    have hend : a.current.isEnding = false := by
      rw [hcurrent]
      exact ht
    have hcommon := ((hR.alike h).current_of_notEnding hend).1
    rw [hcurrent] at hcommon
    have hnext := hR.next h hend
    have hpass : R (a.passToken t) (b.passToken (p.move t)) := by
      unfold Analysis.passToken
      by_cases hkind : (t.kind == .unknown) = true
      · rw [if_pos hkind, if_pos (show ((p.move t).kind == .unknown) = true
          from hkind)]
        exact hR.reportLexeme hnext hcommon rfl
      · rw [if_neg hkind, if_neg (show ¬((p.move t).kind == .unknown) = true
          from hkind)]
        exact hnext
    exact ih hpass ((Analysis.passes_passToken hahead ht).ahead_eq hahead)
      fun u hu => hrun u (List.mem_cons_of_mem t hu)

/-- The same unknown symbols are reported on corresponding lines. -/
theorem reportUnknown (hR : p.Lockstep R) (h : R a b) (line : Int) :
    (b.reportUnknown (line + p.lines)).1 = (a.reportUnknown line).1
      ∧ R (a.reportUnknown line).2
          (b.reportUnknown (line + p.lines)).2 := by
  have halike := hR.alike h
  unfold Analysis.reportUnknown
  rw [halike.inside.upcoming, halike.upcoming', halike.unknownRun]
  refine ⟨by simp only [List.isEmpty_map], ?_⟩
  obtain ⟨rest, hrest⟩ := List.takeWhile_prefix (l := a.cursor.ahead)
    (fun t : Token => t.kind == .unknown && t.line == line)
  exact hR.pass h hrest.symm fun t ht =>
    (Analysis.notEnding_of_mem_unknownRun ht).2.2

/-- The same unknown symbols are reported on the lines where both are. -/
theorem reportUnknownHere (hR : p.Lockstep R) (h : R a b) :
    (b.reportUnknown b.current.line).1 = (a.reportUnknown a.current.line).1
      ∧ R (a.reportUnknown a.current.line).2
          (b.reportUnknown b.current.line).2 := by
  rcases (hR.alike h).heads with ⟨t, rest, rest', -, hahead, hahead'⟩ |
    ⟨hahead, hahead'⟩
  · rw [Analysis.current_of_ahead hahead, Analysis.current_of_ahead hahead']
    exact hR.reportUnknown h t.line
  · rw [Analysis.reportUnknown_of_head hahead (by rw [kind_stop]; decide),
      Analysis.reportUnknown_of_head hahead' (by
        rcases kind_stop' (p := p) with hkind | ⟨hkind, -⟩ <;>
          rw [hkind] <;> decide)]
    exact ⟨rfl, h⟩

theorem synchronize (hR : p.Lockstep R) (h : R a b) (line : Int) :
    R (a.synchronize line) (b.synchronize (line + p.lines)) := by
  have halike := hR.alike h
  unfold Analysis.synchronize
  rw [halike.inside.upcoming, halike.upcoming', halike.brokenRun]
  obtain ⟨rest, hrest⟩ := Analysis.brokenRun_prefix line a.cursor.ahead
  have hpass := hR.pass h hrest.symm fun t ht =>
    Analysis.notEnding_of_mem_brokenRun ht
  simp only [List.getLast?_map]
  cases hlast : (brokenRun line a.cursor.ahead).getLast? with
  | none => exact hpass
  | some t =>
    show R (if t.isSymbol ";" = true then _ else _)
      (if t.isSymbol ";" = true then _ else _)
    by_cases hsymbol : t.isSymbol ";" = true
    · rw [if_pos hsymbol, if_pos hsymbol]
      exact (hR.reportUnknown hpass t.line).2
    · rw [if_neg hsymbol, if_neg hsymbol]
      exact hpass

theorem skipToRangeBoundary (hR : p.Lockstep R) (h : R a b) :
    R a.skipToRangeBoundary b.skipToRangeBoundary := by
  have halike := hR.alike h
  unfold Analysis.skipToRangeBoundary
  rw [halike.inside.upcoming, halike.upcoming']
  show R (Analysis.nextBy (Analysis.brokenRange a.cursor.ahead).length a)
    (Analysis.nextBy (Analysis.brokenRange b.cursor.ahead).length b)
  rw [halike.brokenRange, List.length_map]
  obtain ⟨rest, hrest⟩ := List.takeWhile_prefix (l := a.cursor.ahead)
    (fun t : Token => !t.isRangeBoundary)
  exact hR.nextBy h hrest.symm fun t ht =>
    (Analysis.passes_skipToRangeBoundary halike.inside).notEnding t ht

theorem nextSymbol (hR : p.Lockstep R) (h : R a b) {s : Text}
    (hs : a.atSymbol s = true) : R a.next b.next :=
  hR.next h (Token.isEnding_of_isSymbol hs)

theorem passBracket (hR : p.Lockstep R) (h : R a b) :
    R a.passBracket b.passBracket := by
  unfold Analysis.passBracket
  rw [(hR.alike h).atSymbol]
  split
  next hbracket => exact hR.nextSymbol h hbracket
  next => exact h

/-- A number has the same value in both, and the same number of digits. -/
theorem readInteger (hR : p.Lockstep R) (h : R a b) (t : Token) :
    (b.readInteger (p.move t)).1 = (a.readInteger t).1
      ∧ R (a.readInteger t).2 (b.readInteger (p.move t)).2 := by
  refine ⟨rfl, ?_⟩
  show R
    (if integerDigitsMax < Numeral.digitCount t.text then a.halt _ else a)
    (if integerDigitsMax < Numeral.digitCount t.text then b.halt _ else b)
  split
  · exact hR.halt h _
  · exact h

/-- An array has as many arrays around it in both. -/
theorem descend [NestingLimit] (hR : p.Lockstep R) (h : R a b) (depth : Nat) :
    R (a.descend depth) (b.descend depth) := by
  unfold Analysis.descend
  split
  · exact hR.halt h _
  · exact h

-- ================================================================ names

/-- Both read the same name. -/
theorem readName (hR : p.Lockstep R) (halike : p.Alike a b)
    (hend : a.current.isEnding = false) (hnext : R a.next b.next) :
    b.readName.1 = a.readName.1.shift p.lines
      ∧ R a.readName.2 b.readName.2 := by
  obtain ⟨hcommon, hcurrent⟩ := halike.current_of_notEnding hend
  have hnexts := hR.alike hnext
  obtain ⟨rest, hrest⟩ :=
    Analysis.gluedRun_isPrefix a.current a.next.cursor.ahead
  have hmove := hR.nextBy hnext hrest.symm fun t ht =>
    Analysis.notEnding_of_mem_gluedRun ht
  have htext : ((p.move a.current
        :: (gluedRun a.current a.next.cursor.ahead).map p.move).map (·.text))
      = (a.current
        :: gluedRun a.current a.next.cursor.ahead).map (·.text) := by
    rw [List.map_cons, List.map_map]
    rfl
  unfold Analysis.readName
  simp only [hnexts.inside.upcoming, hnexts.upcoming', hcurrent,
    hnexts.gluedRun hcommon, List.length_map, htext]
  refine ⟨rfl, ?_⟩
  show R (if _ then _ else _) (if _ then _ else _)
  split
  · exact hmove
  · exact hR.reportLexeme hmove hcommon rfl

theorem atNameAfter (hR : p.Lockstep R) (h : R a b) (comma : Token) :
    b.atNameAfter (p.move comma) = a.atNameAfter comma := by
  unfold Analysis.atNameAfter Analysis.atKeyword
  rcases (hR.alike h).heads with ⟨t, rest, rest', -, hahead, hahead'⟩ |
    ⟨hahead, hahead'⟩
  · rw [Analysis.current_of_ahead hahead, Analysis.current_of_ahead hahead',
      show (p.move t).kind = t.kind from rfl]
    have hline : ((p.move t).line == (p.move comma).line)
        = (t.line == comma.line) := line_beq t comma.line
    rw [hline]
    rfl
  · rw [Analysis.current_of_ahead hahead, Analysis.current_of_ahead hahead',
      kind_stop]
    rcases kind_stop' (p := p) with hkind | ⟨hkind, hvar⟩
    · rw [hkind]
    · rw [hkind, hvar]
      rfl

/-- Both give up a list of names in the same way. -/
theorem abandonNames (hR : p.Lockstep R) (h : R a b) (comma : Token) :
    R (a.abandonNames comma) (b.abandonNames (p.move comma)) := by
  have hreport := hR.recover (hR.reportHere h .nameExpected rfl)
  unfold Analysis.abandonNames
  rcases (hR.alike h).heads with ⟨t, rest, rest', -, hahead, hahead'⟩ |
    ⟨hahead, hahead'⟩
  · rw [Analysis.current_of_ahead hahead,
      Analysis.current_of_ahead hahead'] at hreport ⊢
    have hline : ((p.move t).line == (p.move comma).line)
        = (t.line == comma.line) := line_beq t comma.line
    simp only [hline]
    show R
      (if (t.kind == .symbol && !(t.text == ":" || t.text == ";")
        && t.line == comma.line) = true then _ else _)
      (if (t.kind == .symbol && !(t.text == ":" || t.text == ";")
        && t.line == comma.line) = true then _ else _)
    split
    next hpass =>
      rw [Bool.and_eq_true, Bool.and_eq_true, beq_iff_eq] at hpass
      refine hR.next hreport ?_
      show a.current.isEnding = false
      rw [Analysis.current_of_ahead hahead]
      exact Token.isEnding_eq_false_of_kind (by rw [hpass.1.1]; decide)
    next => exact hreport
  · rw [Analysis.current_of_ahead hahead,
      Analysis.current_of_ahead hahead'] at hreport ⊢
    have hsymbol : (p.stop.kind == Kind.symbol) = false := by
      rw [kind_stop]
      rfl
    have hsymbol' : (p.stop'.kind == Kind.symbol) = false :=
      (Matches.stop.kind_beq (by decide) (by decide)).trans hsymbol
    simp only [hsymbol, hsymbol', Bool.false_and]
    exact hreport

theorem readMoreNames (hR : p.Lockstep R) (h : R a b) :
    b.readMoreNames.1 = a.readMoreNames.1.map (·.shift p.lines)
      ∧ R a.readMoreNames.2 b.readMoreNames.2 := by
  revert b
  refine Analysis.readMoreNames.induct (fun a => ∀ {b}, R a b →
    b.readMoreNames.1 = a.readMoreNames.1.map (·.shift p.lines)
      ∧ R a.readMoreNames.2 b.readMoreNames.2) ?more ?broken ?none a
  case more =>
    intro a hcomma hname name ih b h
    have hnext := hR.nextSymbol h hcomma
    have hcurrent := ((hR.alike h).current_of_notEnding
      (Token.isEnding_of_isSymbol hcomma)).2
    have hend := Analysis.isEnding_of_atNameAfter hname
    obtain ⟨hvalue, hread⟩ := hR.readName (hR.alike hnext) hend
      (hR.next hnext hend)
    obtain ⟨hvalues, hmore⟩ := ih hread
    rw [Analysis.readMoreNames, dif_pos (by
      rw [(hR.alike h).atSymbol]; exact hcomma), dif_pos (by
      rw [hcurrent, hR.atNameAfter hnext]; exact hname),
      Analysis.readMoreNames, dif_pos hcomma, dif_pos hname]
    refine ⟨?_, hmore⟩
    rw [List.map_cons, ← hvalue, ← hvalues]
  case broken =>
    intro a hcomma hname b h
    have hnext := hR.nextSymbol h hcomma
    have hcurrent := ((hR.alike h).current_of_notEnding
      (Token.isEnding_of_isSymbol hcomma)).2
    rw [Analysis.readMoreNames, dif_pos (by
      rw [(hR.alike h).atSymbol]; exact hcomma), dif_neg (by
      rw [hcurrent, hR.atNameAfter hnext]; exact hname), hcurrent,
      Analysis.readMoreNames, dif_pos hcomma, dif_neg hname]
    exact ⟨rfl, hR.abandonNames hnext a.current⟩
  case none =>
    intro a hcomma b h
    rw [Analysis.readMoreNames, dif_neg (by
      rw [(hR.alike h).atSymbol]; exact hcomma),
      Analysis.readMoreNames, dif_neg hcomma]
    exact ⟨rfl, h⟩

/-- Both read the same names. -/
theorem readNames (hR : p.Lockstep R) (halike : p.Alike a b)
    (hend : a.current.isEnding = false) (hnext : R a.next b.next) :
    b.readNames.1 = a.readNames.1.map (·.shift p.lines)
      ∧ R a.readNames.2 b.readNames.2 := by
  obtain ⟨hvalue, hread⟩ := hR.readName halike hend hnext
  obtain ⟨hvalues, hmore⟩ := hR.readMoreNames hread
  unfold Analysis.readNames
  refine ⟨?_, hmore⟩
  rw [List.map_cons, ← hvalue, ← hvalues]

-- ========================================================= index ranges

theorem readRange [NestingLimit] (hR : p.Lockstep R) (h : R a b) :
    b.readRange.1 = a.readRange.1 ∧ R a.readRange.2 b.readRange.2 := by
  unfold Analysis.readRange
  rw [(hR.alike h).atInteger]
  by_cases hlow : a.atInteger = true
  · have hlowEnd := Analysis.isEnding_of_atInteger hlow
    obtain ⟨hlowCommon, hlowCurrent⟩ :=
      (hR.alike h).current_of_notEnding hlowEnd
    have hpass := hR.next h hlowEnd
    rw [hlow, hlowCurrent]
    simp only [(hR.alike hpass).atSymbol]
    by_cases hdots : a.next.atSymbol ".." = true
    · have hpass' := hR.nextSymbol hpass hdots
      rw [hdots]
      simp only [(hR.alike hpass').atInteger]
      by_cases hhigh : a.next.next.atInteger = true
      · have hhighEnd := Analysis.isEnding_of_atInteger hhigh
        have hhighCurrent :=
          ((hR.alike hpass').current_of_notEnding hhighEnd).2
        have hpass'' := hR.next hpass' hhighEnd
        obtain ⟨hlower, hfirst⟩ := hR.readInteger hpass'' a.current
        obtain ⟨hupper, hsecond⟩ := hR.readInteger hfirst
          a.next.next.current
        rw [hhigh, hhighCurrent]
        simp only [hlower, hupper]
        refine ⟨rfl, ?_⟩
        show R (if _ then _ else _) (if _ then _ else _)
        split
        · exact hR.reportLexeme hsecond hlowCommon rfl
        · exact hsecond
      · rw [Bool.not_eq_true] at hhigh
        rw [hhigh]
        exact ⟨rfl, hR.recover (hR.reportHere hpass' _ rfl)⟩
    · rw [Bool.not_eq_true] at hdots
      rw [hdots]
      exact ⟨rfl, hR.recover (hR.reportHere hpass _ rfl)⟩
  · rw [Bool.not_eq_true] at hlow
    rw [hlow]
    exact ⟨rfl, hR.recover (hR.reportHere h _ rfl)⟩

theorem readRangeOrSkip [NestingLimit] (hR : p.Lockstep R) (h : R a b) :
    b.readRangeOrSkip.1 = a.readRangeOrSkip.1
      ∧ R a.readRangeOrSkip.2 b.readRangeOrSkip.2 := by
  obtain ⟨hvalue, hread⟩ := hR.readRange h
  unfold Analysis.readRangeOrSkip
  refine ⟨hvalue, ?_⟩
  show R (if a.readRange.1.isNone then _ else _)
    (if b.readRange.1.isNone then _ else _)
  rw [hvalue]
  split
  · exact hR.skipToRangeBoundary hread
  · exact hread

end Lockstep

namespace Track

theorem next [NestingLimit] (h : p.Track a₀ b₀ a b)
    (hend : a.current.isEnding = false) :
    p.Track a₀ b₀ a.next b.next :=
  lockstep_track.next h hend

theorem recover [NestingLimit] (h : p.Track a₀ b₀ a b) :
    p.Track a₀ b₀ a.recover b.recover :=
  lockstep_track.recover h

theorem skipAfterRange [NestingLimit] (h : p.Track a₀ b₀ a b) :
    p.Track a₀ b₀ a.skipAfterRange b.skipAfterRange :=
  lockstep_track.skipToRangeBoundary (h.expect _ rfl).recover

theorem nextUnread [NestingLimit] (h : p.Track a₀ b₀ a b) {s : Text}
    (hs : a.unreadSymbol s = true) : p.Track a₀ b₀ a.next b.next := by
  rw [Analysis.unreadSymbol_eq h.inside] at hs
  exact lockstep_track.nextSymbol h hs

/-- Both read the same index ranges. -/
theorem readRanges [NestingLimit] (h : p.Track a₀ b₀ a b) :
    b.readRanges.1 = a.readRanges.1
      ∧ p.Track a₀ b₀ a.readRanges.2 b.readRanges.2 := by
  revert b
  refine Analysis.readRanges.induct (fun a => ∀ {b}, p.Track a₀ b₀ a b →
    b.readRanges.1 = a.readRanges.1
      ∧ p.Track a₀ b₀ a.readRanges.2 b.readRanges.2)
    ?comma ?last ?rest ?none a
  case comma =>
    intro a read a' hcomma ih b h
    obtain ⟨hvalue, hread⟩ := lockstep_track.readRangeOrSkip h
    obtain ⟨hvalues, hmore⟩ := ih (hread.nextUnread hcomma)
    rw [Analysis.readRanges_of_comma hcomma, Analysis.readRanges_of_comma
      (by rw [hread.alike.unreadSymbol]; exact hcomma), hvalue, hvalues]
    exact ⟨rfl, hmore⟩
  case last =>
    intro a read a' hcomma hlast b h
    obtain ⟨hvalue, hread⟩ := lockstep_track.readRangeOrSkip h
    rw [Analysis.readRanges_of_last hcomma hlast,
      Analysis.readRanges_of_last
        (by rw [hread.alike.unreadSymbol]; exact hcomma)
        (by rw [hread.alike.atSymbol, hvalue]; exact hlast), hvalue]
    exact ⟨rfl, lockstep_track.passBracket hread⟩
  case rest =>
    intro a read a' hcomma hlast a'' hskip ih b h
    obtain ⟨hvalue, hread⟩ := lockstep_track.readRangeOrSkip h
    have hskipped := hread.skipAfterRange
    obtain ⟨hvalues, hmore⟩ := ih (hskipped.nextUnread hskip)
    rw [Analysis.readRanges_of_resumed hcomma hlast hskip,
      Analysis.readRanges_of_resumed
        (by rw [hread.alike.unreadSymbol]; exact hcomma)
        (by rw [hread.alike.atSymbol, hvalue]; exact hlast)
        (by rw [hskipped.alike.unreadSymbol]; exact hskip),
      hvalue, hvalues]
    exact ⟨rfl, hmore⟩
  case none =>
    intro a read a' hcomma hlast a'' hskip b h
    obtain ⟨hvalue, hread⟩ := lockstep_track.readRangeOrSkip h
    have hskipped := hread.skipAfterRange
    rw [Analysis.readRanges_of_broken hcomma hlast hskip,
      Analysis.readRanges_of_broken
        (by rw [hread.alike.unreadSymbol]; exact hcomma)
        (by rw [hread.alike.atSymbol, hvalue]; exact hlast)
        (by rw [hskipped.alike.unreadSymbol]; exact hskip), hvalue]
    exact ⟨rfl, lockstep_track.passBracket hskipped⟩

/-- Both read the same index ranges of an array. -/
theorem readArrayRanges [NestingLimit] (h : p.Track a₀ b₀ a b)
    (hend : a.current.isEnding = false) :
    b.readArrayRanges.1 = a.readArrayRanges.1
      ∧ p.Track a₀ b₀ a.readArrayRanges.2 b.readArrayRanges.2 := by
  have hword := h.next hend
  unfold Analysis.readArrayRanges
  simp only [hword.alike.atSymbol]
  by_cases hopen : a.next.atSymbol "[" = true
  · rw [if_pos hopen, if_pos hopen]
    exact (lockstep_track.nextSymbol hword hopen).readRanges
  · rw [if_neg hopen, if_neg hopen]
    have hreport := (lockstep_track.reportHere hword
      .arrayBracketExpected rfl).recover
    rw [hreport.alike.atInteger]
    split
    · exact hreport.readRanges
    · exact ⟨rfl, lockstep_track.passBracket
        (lockstep_track.skipToRangeBoundary hreport)⟩

/-- Both enter the same array, in front of the stop. -/
theorem enterArray [NestingLimit] (h : p.Track a₀ b₀ a b) (depth : Nat)
    (hend : a.current.isEnding = false) :
    (b.descend depth).readArrayRanges.1 = (a.descend depth).readArrayRanges.1
      ∧ p.Track a₀ b₀ (a.descend depth).readArrayRanges.2
          (b.descend depth).readArrayRanges.2 := by
  refine (lockstep_track.descend h depth).readArrayRanges ?_
  rw [Analysis.current_congr (Analysis.cursor_descend ..)]
  exact hend

theorem missingOf [NestingLimit] (h : p.Track a₀ b₀ a b) :
    p.Track a₀ b₀ a.missingOf b.missingOf :=
  (h.expect _ rfl).recover

-- ================================================================ types

theorem closeSize [NestingLimit] (h : p.Track a₀ b₀ a b) (size : Option Int) :
    (Analysis.closeSize size b).1 = (Analysis.closeSize size a).1
      ∧ p.Track a₀ b₀ (Analysis.closeSize size a).2
          (Analysis.closeSize size b).2 := by
  refine ⟨rfl, ?_⟩
  unfold Analysis.closeSize
  simp only [h.alike.atSymbol]
  split
  next hbracket => exact lockstep_track.nextSymbol h hbracket
  next => exact (h.expect _ rfl).recover

/-- In front of the stop both pass a lexeme on the line of the one in front
of it, or both do not. -/
theorem passOnLine [NestingLimit] (h : p.Track a₀ b₀ a b)
    (hend : a.current.isEnding = false) :
    p.Track a₀ b₀ a.passOnLine b.passOnLine := by
  obtain ⟨t, ht, hprevious, hprevious'⟩ := h.along.exists_previous
  have hcurrent := (h.alike.current_of_notEnding hend).2
  have hline : b.onLineOfPrevious b.current
      = a.onLineOfPrevious a.current := by
    unfold Analysis.onLineOfPrevious
    simp only [hprevious, hprevious', hcurrent]
    exact line_beq t a.current.line
  unfold Analysis.passOnLine
  simp only [h.inside.lookBack, h.alike.lookBack', hline]
  split
  · exact h.next hend
  · exact h

/-- Where only the second table goes on, it goes on on another line. -/
theorem passOnLine_of_goesOn (h : p.Track a₀ b₀ a b) (hgoes : p.GoesOn)
    (hcurrent : b.current = p.stop') : b.passOnLine = b := by
  obtain ⟨t, ht, hprevious, hprevious'⟩ := h.along.exists_previous
  have hline : b.onLineOfPrevious b.current = false := by
    unfold Analysis.onLineOfPrevious
    simp only [hprevious', hcurrent]
    exact beq_eq_false_iff_ne.2 (hgoes.line t ht)
  unfold Analysis.passOnLine
  simp only [h.alike.lookBack', hline]
  rfl

/-- Both pass what stands where a size should, unless it is left to what
follows. -/
theorem passUnlessClosing [NestingLimit] (h : p.Track a₀ b₀ a b) :
    p.Track a₀ b₀
      (if a.current.isEnding || a.current.isSymbol "]"
          || a.current.isSymbol ";" then a else a.passOnLine)
      (if b.current.isEnding || b.current.isSymbol "]"
          || b.current.isSymbol ";" then b else b.passOnLine) := by
  by_cases hend : a.current.isEnding = false
  · rw [(h.alike.current_of_notEnding hend).2]
    show p.Track a₀ b₀
      (if a.current.isEnding || a.current.isSymbol "]"
          || a.current.isSymbol ";" then a else a.passOnLine)
      (if a.current.isEnding || a.current.isSymbol "]"
          || a.current.isSymbol ";" then b else b.passOnLine)
    split
    · exact h
    · exact h.passOnLine hend
  · rw [Bool.not_eq_false] at hend
    have hcurrent := (h.alike.current_of_ending hend).2
    have hkeep : (if b.current.isEnding || b.current.isSymbol "]"
        || b.current.isSymbol ";" then b else b.passOnLine) = b := by
      rcases p.stops with htwin | hgoes
      · have hend' : b.current.isEnding = true := by
          rw [hcurrent, htwin]
          exact p.ending
        rw [hend']
        rfl
      · rw [h.passOnLine_of_goesOn hgoes hcurrent]
        split <;> rfl
    rw [hkeep, hend]
    exact h

theorem readStringType [NestingLimit] (h : p.Track a₀ b₀ a b) :
    b.readStringType.1 = a.readStringType.1
      ∧ p.Track a₀ b₀ a.readStringType.2 b.readStringType.2 := by
  unfold Analysis.readStringType
  rw [h.alike.atSymbol]
  by_cases hopen : a.atSymbol "[" = true
  · have hpass := lockstep_track.nextSymbol h hopen
    rw [hopen]
    simp only [hpass.alike.atInteger]
    by_cases hinteger : a.next.atInteger = true
    · have hend := Analysis.isEnding_of_atInteger hinteger
      obtain ⟨hcommon, hcurrent⟩ := hpass.alike.current_of_notEnding hend
      obtain ⟨hvalue, hread⟩ :=
        lockstep_track.readInteger (hpass.next hend) a.next.current
      rw [hinteger, hcurrent]
      simp only [hvalue]
      refine closeSize ?_ _
      split
      · exact hread
      · exact lockstep_track.reportLexeme hread hcommon rfl
    · rw [Bool.not_eq_true] at hinteger
      rw [hinteger]
      have hreport := (lockstep_track.reportHere hpass
        .sizeExpected rfl).recover
      have hafter := hreport.passUnlessClosing
      have hclose : ∀ {c d : Analysis}, p.Track a₀ b₀ c d →
          (if d.atSymbol "]" then Analysis.closeSize none d
            else (.string none, d)).1
            = (if c.atSymbol "]" then Analysis.closeSize none c
                else (.string none, c)).1
          ∧ p.Track a₀ b₀
              (if c.atSymbol "]" then Analysis.closeSize none c
                else (.string none, c)).2
              (if d.atSymbol "]" then Analysis.closeSize none d
                else (.string none, d)).2 := by
        intro c d hcd
        rw [hcd.alike.atSymbol]
        split
        · exact hcd.closeSize none
        · exact ⟨rfl, hcd⟩
      exact hclose hafter
  · rw [Bool.not_eq_true] at hopen
    rw [hopen]
    exact ⟨rfl, h⟩

/-- Both find that no type begins where they are. Where only the second
table goes on, this is reported at both stops, because nothing has been
found there yet. -/
theorem refuseType [NestingLimit] (h : p.Track a₀ b₀ a b)
    (hfresh : p.GoesOn → a.hits p.stop.pos = false) :
    b.refuseType.1 = a.refuseType.1
      ∧ p.Track a₀ b₀ a.refuseType.2 b.refuseType.2 := by
  refine ⟨rfl, ?_⟩
  unfold Analysis.refuseType
  refine recover ?_
  by_cases hend : a.current.isEnding = false
  · have hcurrent := (h.alike.current_of_notEnding hend).2
    have hexpect := h.expect .typeExpected rfl
    have hreport : ∀ {cause : Cause}, cause.isAtLexeme = true →
        p.Track a₀ b₀ (a.report a.current.pos cause).passOnLine
          (b.report b.current.pos cause).passOnLine := fun hcause =>
      (lockstep_track.reportHere h _ hcause).passOnLine hend
    rw [hcurrent] at hexpect hreport ⊢
    show p.Track a₀ b₀ (if _ then _ else _)
      (if (a.current.isEnding || a.current.isSymbol ";") = true then _ else _)
    split
    · exact hexpect
    · refine hreport ?_
      split <;> rfl
  · rw [Bool.not_eq_false] at hend
    obtain ⟨hstop, hstop'⟩ := h.alike.current_of_ending hend
    rw [hend, Bool.true_or, if_pos rfl]
    rcases p.stops with htwin | hgoes
    · have hend' : b.current.isEnding = true := by
        rw [hstop', htwin]
        exact p.ending
      rw [hend', Bool.true_or, if_pos rfl]
      exact h.expect _ rfl
    · have hkind : b.current.kind = .keyword := by
        rw [hstop']
        exact Token.kind_of_isKeyword hgoes.var
      have hend' : b.current.isEnding = false :=
        Token.isEnding_eq_false_of_kind (by rw [hkind]; decide)
      have hsymbol : b.current.isSymbol ";" = false :=
        Token.isSymbol_eq_false_of_kind (by rw [hkind]; decide) _
      have hboth : p.Track a₀ b₀ (a.report a.current.pos .typeExpected)
          (b.report b.current.pos (.invalidType b.current.text)) := by
        rw [hstop, hstop']
        refine ⟨h.along.report (.stop rfl rfl (.inr hgoes)),
          .report .stop fun hnot => ?_⟩
        rw [hend] at hnot
        cases hnot
      rw [hend', hsymbol, hkind]
      show p.Track a₀ b₀ _
        (b.report b.current.pos (.invalidType b.current.text)).passOnLine
      rw [hboth.passOnLine_of_goesOn hgoes hstop', Analysis.expect_eq,
        if_neg (by rw [hstop, hfresh hgoes]; decide)]
      exact hboth

theorem readSimpleType [NestingLimit] (h : p.Track a₀ b₀ a b)
    (hfresh : p.GoesOn → a.hits p.stop.pos = false) :
    b.readSimpleType.1 = a.readSimpleType.1
      ∧ p.Track a₀ b₀ a.readSimpleType.2 b.readSimpleType.2 := by
  unfold Analysis.readSimpleType
  simp only [h.alike.atKeyword (show ("string" : Text) ≠ "var" by decide),
    h.alike.startsWord (show scalarTypes.contains ("var" : Text) = false
      by decide)]
  by_cases hend : a.current.isEnding = false
  · rw [(h.alike.current_of_notEnding hend).2]
    split
    · exact ⟨rfl, h.next hend⟩
    · split
      next hstring => exact (h.next hend).readStringType
      next => exact h.refuseType hfresh
  · rw [Bool.not_eq_false] at hend
    have hkind : (a.atKind .keyword) = false := by
      unfold Analysis.atKind
      rw [Token.kind_of_isEnding hend]
      rfl
    have hstring : a.atKeyword "string" = false :=
      Token.isKeyword_eq_false_of_kind
        (by rw [Token.kind_of_isEnding hend]; decide) _
    rw [hkind, hstring]
    exact h.refuseType hfresh

theorem isEnding_of_unreadKeyword {w : Text} (h : p.Track a₀ b₀ a b)
    (hw : a.unreadKeyword w = true) : a.current.isEnding = false := by
  rw [Analysis.unreadKeyword_eq h.inside] at hw
  exact Token.isEnding_of_isKeyword hw

/-- Both read the same type. It is read by two functions that call each
other; where the elements of an array are read, a lexeme has just been
passed, or one that begins a type has been seen. -/
theorem readType [NestingLimit] (depth : Nat) (h : p.Track a₀ b₀ a b)
    (hfresh : p.GoesOn → a.hits p.stop.pos = false) :
    (b.readType depth).1 = (a.readType depth).1
      ∧ p.Track a₀ b₀ (a.readType depth).2 (b.readType depth).2 := by
  revert b
  refine Analysis.readType.induct
    (fun depth a => (p.GoesOn → a.hits p.stop.pos = false) →
      ∀ {b}, p.Track a₀ b₀ a b →
        (b.readType depth).1 = (a.readType depth).1
          ∧ p.Track a₀ b₀ (a.readType depth).2 (b.readType depth).2)
    (fun depth ranges a => ∀ {b}, p.Track a₀ b₀ a b →
      (b.readElements depth ranges).1 = (a.readElements depth ranges).1
        ∧ p.Track a₀ b₀ (a.readElements depth ranges).2
            (b.readElements depth ranges).2)
    ?array ?array' ?simple ?of ?missing ?none depth a hfresh
  case array =>
    intro depth a harray ranges hnested ih _ b h
    have hend := isEnding_of_unreadKeyword h harray
    obtain ⟨hcommon, hcurrent⟩ := h.alike.current_of_notEnding hend
    obtain ⟨hvalue, hranges⟩ := h.enterArray depth hend
    obtain ⟨-, helements⟩ := ih hranges
    rw [Analysis.readType_of_nested hnested harray,
      Analysis.readType_of_nested hnested
        (by rw [h.alike.unreadKeyword (by decide)]; exact harray),
      hvalue, hcurrent]
    exact ⟨rfl, lockstep_track.reportLexeme helements hcommon rfl⟩
  case array' =>
    intro depth a harray ranges hnested ih _ b h
    obtain rfl := Nat.eq_zero_of_not_pos hnested
    obtain ⟨hvalue, hranges⟩ :=
      h.enterArray 0 (isEnding_of_unreadKeyword h harray)
    rw [Analysis.readType_of_array harray, Analysis.readType_of_array
      (by rw [h.alike.unreadKeyword (by decide)]; exact harray), hvalue]
    exact ih hranges
  case simple =>
    intro depth a harray hfresh b h
    rw [Analysis.readType_of_simple depth harray,
      Analysis.readType_of_simple depth
        (by rw [h.alike.unreadKeyword (by decide)]; exact harray)]
    exact h.readSimpleType hfresh
  case of =>
    intro depth ranges a hof ih b h
    have hend : a.current.isEnding = false := Token.isEnding_of_isKeyword hof
    have hfresh : p.GoesOn → a.next.hits p.stop.pos = false := by
      intro hgoes
      rw [Analysis.hits_congr (Analysis.errors_next a)]
      exact h.ready.clear hgoes hend
    obtain ⟨hvalue, hread⟩ := ih hfresh (h.next hend)
    rw [Analysis.readElements_of_of depth ranges hof,
      Analysis.readElements_of_of depth ranges
        (by rw [h.alike.atKeyword (by decide)]; exact hof), hvalue]
    exact ⟨rfl, hread⟩
  case missing =>
    intro depth ranges a hof hstarts ih b h
    have hmissing := h.missingOf
    have hend := Analysis.isEnding_of_startsType hstarts
    have hfresh : p.GoesOn → a.missingOf.hits p.stop.pos = false := by
      intro hgoes
      refine hmissing.ready.clear hgoes ?_
      rw [Analysis.current_congr (show a.missingOf.cursor = a.cursor from
        Analysis.cursor_expect ..)]
      exact hend
    obtain ⟨hvalue, hread⟩ := ih hfresh hmissing
    rw [Analysis.readElements_of_missing depth ranges hof hstarts,
      Analysis.readElements_of_missing depth ranges
        (by rw [h.alike.atKeyword (by decide)]; exact hof)
        (by rw [h.alike.startsType]; exact hstarts), hvalue]
    exact ⟨rfl, hread⟩
  case none =>
    intro depth ranges a hof hstarts b h
    rw [Analysis.readElements_of_none depth ranges hof hstarts,
      Analysis.readElements_of_none depth ranges
        (by rw [h.alike.atKeyword (by decide)]; exact hof)
        (by rw [h.alike.startsType]; exact hstarts)]
    exact ⟨rfl, h.missingOf⟩

end Track

-- ====================================================== the other parts

/-- Where unknown symbols were reported, the latest finding lies at the last
of them. -/
theorem hits_reportUnknown (ha : a.Inside) {line : Int}
    (hread : (a.reportUnknown line).1 = true) :
    ∃ t ∈ (a.reportUnknown line).2.cursor.behind,
      ∀ pos, (a.reportUnknown line).2.hits pos = (t.pos == pos) := by
  have hpass := Analysis.passes_reportUnknown ha line
  rw [Analysis.reportUnknown_fst ha, Bool.not_eq_true'] at hread
  obtain ⟨run, t, hrun⟩ := List.eq_nil_or_concat
    (unknownRun line a.cursor.ahead) |>.resolve_left fun hnil => by
      rw [hnil] at hread
      cases hread
  have ht : t ∈ unknownRun line a.cursor.ahead := by
    rw [hrun, List.concat_eq_append]
    exact List.mem_append_right _ (List.mem_singleton_self t)
  have hkind := (Analysis.notEnding_of_mem_unknownRun ht).1
  refine ⟨t, ?_, fun pos => ?_⟩
  · rw [hpass.behind]
    exact List.mem_append_left _ (List.mem_reverse.2 ht)
  · unfold Analysis.hits
    rw [hpass.errors, hrun, List.concat_eq_append,
      Analysis.unknownFindings_append, Analysis.unknownFindings_singleton,
      if_pos (beq_iff_eq.2 hkind), List.reverse_append]
    rfl

end VarSection.Fork

namespace VarSection.Analysis

/-- A state in which a missing colon has been reported, unless something
else was found in its place. -/
def missColon (found : Bool) (a : Analysis) : Analysis :=
  if found || a.recovering then a else a.reportAfterPrevious .colonExpected

theorem cursor_missColon (found : Bool) (a : Analysis) :
    (a.missColon found).cursor = a.cursor := by
  unfold missColon
  split
  · rfl
  · exact cursor_reportAfterPrevious ..

theorem steps_missColon [NestingLimit] (ha : a.Inside) (unknown : Bool) :
    Steps a (a.missColon unknown) := by
  unfold missColon
  split
  · exact .refl
  · exact steps_reportAfterPrevious ha (.inl rfl)

/-- Reads the colon and the type behind it, where unknown symbols have been
reported already. -/
def readColon [NestingLimit] (found : Bool) (a : Analysis) :
    VarType × Analysis :=
  if a.atSymbol ":" then a.next.readType 0
  else if found || (a.missColon found).startsType then
    (a.missColon found).readType 0
  else (.unknown, (a.missColon found).recover)

theorem readTypePart_eq [NestingLimit] (a : Analysis) :
    a.readTypePart = (a.reportUnknown a.current.line).2.readColon
      (a.reportUnknown a.current.line).1 := rfl

/-- Ends a declaration, where unknown symbols have been reported already. -/
def closeDeclaration (found : Bool) (a : Analysis) : Analysis :=
  if a.atSymbol ";" then (a.next.reportUnknown a.current.line).2
  else if found || a.recovering then a.synchronizeHere
  else if a.atKind .identifier || a.atKind .ending then
    a.reportAfterPrevious .semicolonExpected
  else (a.reportAfterPrevious .semicolonExpected).synchronizeHere

theorem endDeclaration_eq (a : Analysis) :
    a.endDeclaration = (a.reportUnknown a.current.line).2.closeDeclaration
      (a.reportUnknown a.current.line).1 := by
  have hkind : ∀ (c : Analysis) (cause : Cause) (kind : Kind),
      (c.reportAfterPrevious cause).atKind kind = c.atKind kind := by
    intro c cause kind
    unfold atKind
    rw [current_congr (cursor_reportAfterPrevious c cause)]
  unfold endDeclaration closeDeclaration
  simp only [hkind]

end VarSection.Analysis

namespace VarSection.Fork

variable {p : Fork} {a₀ b₀ a b : Analysis} {t : Token}

theorem Along.missColon (h : p.Along a₀ b₀ a b) (found : Bool) :
    p.Along a₀ b₀ (a.missColon found) (b.missColon found) := by
  unfold Analysis.missColon
  rw [h.recovering]
  split
  · exact h
  · exact h.reportAfterPrevious _ (.inl rfl)

theorem Track.missColon (h : p.Track a₀ b₀ a b)
    (hend : a.current.isEnding = false) (found : Bool) :
    p.Track a₀ b₀ (a.missColon found) (b.missColon found) := by
  unfold Analysis.missColon
  rw [h.along.recovering]
  split
  · exact h
  · exact h.reportAfterPrevious _ (.inl rfl) hend

/-- A colon that is missing at the stop is the last that is found at all. -/
theorem Track.readColon [NestingLimit] (h : p.Track a₀ b₀ a b) {found : Bool}
    (hfound : found = true → p.GoesOn → a.hits p.stop.pos = false) :
    (b.readColon found).1 = (a.readColon found).1
      ∧ p.Along a₀ b₀ (a.readColon found).2 (b.readColon found).2 := by
  unfold Analysis.readColon
  have hcurrent := Analysis.current_congr (Analysis.cursor_missColon found a)
  rw [h.alike.atSymbol, (h.along.missColon found).alike.startsType]
  by_cases hend : a.current.isEnding = false
  · have hmissing := h.missColon hend found
    split
    · obtain ⟨hvalue, htype⟩ := (h.next hend).readType 0 fun hgoes => by
        rw [Analysis.hits_congr (Analysis.errors_next a)]
        exact h.ready.clear hgoes hend
      exact ⟨hvalue, htype.along⟩
    · split
      · obtain ⟨hvalue, htype⟩ := hmissing.readType 0 fun hgoes =>
          hmissing.ready.clear hgoes (by rw [hcurrent]; exact hend)
        exact ⟨hvalue, htype.along⟩
      · exact ⟨rfl, hmissing.along.recover⟩
  · rw [if_neg fun hsymbol => hend (Analysis.isEnding_of_atSymbol hsymbol),
      if_neg fun hsymbol => hend (Analysis.isEnding_of_atSymbol hsymbol)]
    cases found with
    | true =>
      obtain ⟨hvalue, htype⟩ := h.readType 0 (hfound rfl)
      exact ⟨hvalue, htype.along⟩
    | false =>
      have hstarts : (a.missColon false).startsType = false := by
        refine Bool.eq_false_iff.2 fun hstarts => hend ?_
        rw [← hcurrent]
        exact Analysis.isEnding_of_startsType hstarts
      rw [hstarts]
      exact ⟨rfl, (h.along.missColon false).recover⟩

/-- Both read the same type behind the names. -/
theorem Track.readTypePart [NestingLimit] (h : p.Track a₀ b₀ a b) :
    b.readTypePart.1 = a.readTypePart.1
      ∧ p.Along a₀ b₀ a.readTypePart.2 b.readTypePart.2 := by
  obtain ⟨hflag, hread⟩ := lockstep_track.reportUnknownHere h
  rw [Analysis.readTypePart_eq, Analysis.readTypePart_eq, hflag]
  refine hread.readColon fun hunknown hgoes => ?_
  obtain ⟨t, ht, hhits⟩ := hits_reportUnknown h.inside hunknown
  rw [hhits]
  exact beq_eq_false_iff_ne.2 (hgoes.apart t (hread.along.mem_common ht))

theorem Along.synchronizeHere [NestingLimit] (h : p.Along a₀ b₀ a b) :
    p.Along a₀ b₀ a.synchronizeHere b.synchronizeHere := by
  obtain ⟨t, -, hprevious, hprevious'⟩ := h.exists_previous
  unfold Analysis.synchronizeHere
  simp only [h.inside.lookBack, h.alike.lookBack', hprevious, hprevious']
  exact lockstep_along.synchronize h t.line

/-- At the stop nothing is left of a declaration. -/
theorem Along.synchronizeHere_of_ending (h : p.Along a₀ b₀ a b)
    (hend : a.current.isEnding = true) : b.synchronizeHere = b := by
  obtain ⟨-, hcurrent⟩ := h.alike.current_of_ending hend
  obtain ⟨t, -, -, hprevious'⟩ := h.exists_previous
  obtain ⟨hahead, hahead'⟩ := h.alike.heads.resolve_left (by
    rintro ⟨u, rest, rest', hu, hahead, -⟩
    rw [Analysis.current_of_ahead hahead, p.notEnding u hu] at hend
    cases hend)
  have hrun : ∀ line : Int, brokenRun line (p.stop' :: p.rest') = [] := by
    intro line
    unfold brokenRun
    rcases kind_stop' (p := p) with hkind | ⟨-, hvar⟩
    · rw [show p.stop'.isEnding = true from beq_iff_eq.2 hkind]
      rfl
    · rw [hvar, Bool.or_true]
      rfl
  unfold Analysis.synchronizeHere Analysis.synchronize
  simp only [h.alike.lookBack', hprevious', h.alike.upcoming', hahead', hrun]
  rfl

/-- Both end a declaration in the same way. -/
theorem Along.closeDeclaration [NestingLimit] (h : p.Along a₀ b₀ a b)
    (found : Bool) :
    p.Along a₀ b₀ (a.closeDeclaration found) (b.closeDeclaration found) := by
  have hmissing := h.reportAfterPrevious .semicolonExpected (.inr rfl)
  have hcurrent := Analysis.current_congr
    (Analysis.cursor_reportAfterPrevious a .semicolonExpected)
  have hname : b.atKind .identifier = a.atKind .identifier :=
    h.alike.atKind (by decide) (by decide)
  unfold Analysis.closeDeclaration
  rw [h.alike.atSymbol, h.recovering, hname]
  by_cases hend : a.current.isEnding = false
  · obtain ⟨-, hcurrent'⟩ := h.alike.current_of_notEnding hend
    have hending : b.atKind .ending = a.atKind .ending := by
      unfold Analysis.atKind
      rw [hcurrent']
      rfl
    rw [hending, hcurrent']
    split
    · exact (lockstep_along.reportUnknown (h.next hend) a.current.line).2
    · split
      · exact h.synchronizeHere
      · split
        · exact hmissing
        · exact hmissing.synchronizeHere
  · rw [if_neg fun hsymbol => hend (Analysis.isEnding_of_atSymbol hsymbol),
      if_neg fun hsymbol => hend (Analysis.isEnding_of_atSymbol hsymbol)]
    rw [Bool.not_eq_false] at hend
    have hending : a.atKind .ending = true := hend
    have hkeep := hmissing.synchronizeHere_of_ending
      (by rw [hcurrent]; exact hend)
    split
    · exact h.synchronizeHere
    · rw [hending, Bool.or_true, if_pos rfl, hkeep]
      split <;> exact hmissing

theorem Along.endDeclaration [NestingLimit] (h : p.Along a₀ b₀ a b) :
    p.Along a₀ b₀ a.endDeclaration b.endDeclaration := by
  obtain ⟨hflag, hread⟩ := lockstep_along.reportUnknownHere h
  rw [Analysis.endDeclaration_eq, Analysis.endDeclaration_eq, hflag]
  exact hread.closeDeclaration _

-- ======================================================== one declaration

/-- Both read the parts of the same declaration, if they are ready behind
its first lexeme. -/
theorem Alike.readParts [NestingLimit] (h : p.Alike a b)
    (hend : a.current.isEnding = false) (hready : p.Ready a.next b.next) :
    ∃ names type c d, a.unmarked.readNames.1 = names
      ∧ b.unmarked.readNames.1 = names.map (·.shift p.lines)
      ∧ a.unmarked.readNames.2.readTypePart.1 = type
      ∧ b.unmarked.readNames.2.readTypePart.1 = type
      ∧ p.Along a.unmarked b.unmarked c d
      ∧ a.readParts = c.enter ⟨names, type, a.current.pos⟩
      ∧ b.readParts = d.enter (Declaration.shift p.lines
          ⟨names, type, a.current.pos⟩) := by
  have hnext : ∀ c : Analysis, c.unmarked.next = c.next.unmarked := by
    intro c
    unfold Analysis.next Analysis.unmarked
    show (if c.current.isEnding then _ else _) = _
    split <;> rfl
  have hstart : p.Alike a.unmarked b.unmarked := h.congr rfl rfl
  have hfirst : p.Track a.unmarked b.unmarked a.unmarked.next
      b.unmarked.next := by
    refine ⟨⟨hstart.next hend, ?_, ?_, ?_, ?_, ?_, ?_, ?_, ?_⟩, ?_⟩
    · rw [Analysis.recovering_next, Analysis.recovering_next]
      rfl
    · exact List.ne_nil_of_mem
        (Analysis.current_mem_behind_next hstart.inside hend)
    · rw [Analysis.errors_next, Analysis.errors_next]
      exact .refl
    · exact Analysis.symbols_next _
    · exact Analysis.symbols_next _
    · exact Analysis.declarations_next _
    · exact Analysis.declarations_next _
    · refine ⟨none, ?_, ?_⟩
      · rw [Analysis.halt?_next]
        exact Option.or_none.symm
      · rw [Analysis.halt?_next]
        exact Option.or_none.symm
    · rw [hnext, hnext]
      exact hready.congr rfl rfl rfl
  obtain ⟨hnames, hread⟩ := lockstep_track.readNames hstart hend hfirst
  obtain ⟨htype, hpart⟩ := hread.readTypePart
  refine ⟨_, _, _, _, rfl, hnames, rfl, htype, hpart.endDeclaration, rfl, ?_⟩
  unfold Analysis.readParts
  simp only
  rw [hnames, htype, (h.current_of_notEnding hend).2]
  rfl

end VarSection.Fork
