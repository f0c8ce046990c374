/-
The findings of every reader. Each one leads from the stage where it sets out
to the stage where it arrives, so the whole run of an analysis is accounted
for (`Accounts.run`): the findings at lexemes stand between two stages, all
different as notes, and those behind lexemes are all different.

The readers of a declaration come in the order of the ranks. The word of an
array is passed before its brackets are looked for, and a nested array is
reported when its elements have been read, so such a finding is made late
and counted at the stage of its own lexeme (`Settled.finds_late`).

A separator is missed behind the lexeme that was passed last, which ends
behind the place where the declaration began. That is what keeps apart the
findings behind lexemes of different declarations.
-/
import VarSection.Proofs.Analysis.Finding

namespace VarSection

open Analysis

namespace Analysis

variable {a b c : Analysis} {t first : Token} {cause : Cause} {l m n : Nat}
  {rest : List Token}

-- ======================================================= after a fault

/-- Passing a run of lexemes keeps the rank: an unknown symbol is found last
of all at its place. -/
theorem Settled.finds_pass [NestingLimit] (ha : a.Settled) (hl : l ≤ 7)
    {run : List Token} (h : a.cursor.ahead = run ++ rest)
    (hrun : ∀ t ∈ run, t.isEnding = false) :
    Finds l l [] a (a.pass run) := by
  induction run generalizing a with
  | nil => exact .refl a l
  | cons t run ih =>
    have ht := hrun t List.mem_cons_self
    have hcurrent : a.current = t := current_of_ahead h
    have hend : a.current.isEnding = false := by rw [hcurrent]; exact ht
    have hpass : Finds l l [] a (a.passToken t) := by
      unfold passToken
      split
      · rw [← hcurrent]
        refine (ha.finds_late hend (.refl a.next l)
          (.unknownSymbol a.current.text) rfl ?_).mono hl (Nat.le_refl l)
        exact .lexeme ha.inside.current_mem hend List.mem_cons_self
      · exact ha.finds_next hend l l
    exact hpass.trans (ih (hpass.settled ha)
      ((passes_passToken h ht).ahead_eq h)
      fun u hu => hrun u (List.mem_cons_of_mem t hu))

theorem Settled.finds_nextBy [NestingLimit] (ha : a.Settled) (l : Nat)
    {run : List Token} (h : a.cursor.ahead = run ++ rest)
    (hrun : ∀ t ∈ run, t.isEnding = false) :
    Finds l l [] a (nextBy run.length a) := by
  induction run generalizing a with
  | nil => exact .refl a l
  | cons t run ih =>
    have ht := hrun t List.mem_cons_self
    have hnext : Finds l l [] a a.next :=
      ha.finds_next (by rw [current_of_ahead h]; exact ht) l l
    exact hnext.trans (ih (hnext.settled ha) ((passes_next h ht).ahead_eq h)
      fun u hu => hrun u (List.mem_cons_of_mem t hu))

theorem Settled.finds_reportUnknown [NestingLimit] (ha : a.Settled)
    (hl : l ≤ 7) (line : Int) : Finds l l [] a (a.reportUnknown line).2 := by
  unfold reportUnknown
  rw [ha.inside.upcoming]
  obtain ⟨rest, hrest⟩ := List.takeWhile_prefix (l := a.cursor.ahead)
    (fun t : Token => t.kind == .unknown && t.line == line)
  exact ha.finds_pass hl hrest.symm fun t ht =>
    (notEnding_of_mem_unknownRun ht).2.2

theorem Settled.finds_synchronize [NestingLimit] (ha : a.Settled) (hl : l ≤ 7)
    (line : Int) : Finds l l [] a (a.synchronize line) := by
  unfold synchronize
  rw [ha.inside.upcoming]
  obtain ⟨rest, hrest⟩ := brokenRun_prefix line a.cursor.ahead
  have hpass := ha.finds_pass hl hrest.symm fun t ht =>
    notEnding_of_mem_brokenRun ht
  simp only
  split
  · split
    · exact hpass.trans ((hpass.settled ha).finds_reportUnknown hl _)
    · exact hpass
  · exact hpass

theorem Settled.finds_skipToRangeBoundary [NestingLimit] (ha : a.Settled)
    (l : Nat) :
    Finds l l [] a a.skipToRangeBoundary := by
  have hpasses := passes_skipToRangeBoundary ha.inside
  unfold skipToRangeBoundary
  rw [ha.inside.upcoming]
  exact ha.finds_nextBy l hpasses.ahead hpasses.notEnding

-- ================================================================== names

theorem Settled.finds_readName [NestingLimit] (ha : a.Settled)
    (hend : a.current.isEnding = false) (m : Nat) :
    Finds 7 m [] a a.readName.2 := by
  obtain ⟨rest, hrest⟩ := ha.inside.exists_ahead
  have hnext := passes_next hrest hend
  obtain ⟨more, hmore⟩ := gluedRun_isPrefix a.current a.next.upcoming
  rw [(hnext.inside ha.inside).upcoming] at hmore
  have hglued := ((steps_next a).settled ha).finds_nextBy m hmore.symm
    fun t ht => notEnding_of_mem_gluedRun ht
  rw [← (hnext.inside ha.inside).upcoming] at hglued
  unfold readName
  simp only
  split
  · exact (ha.finds_next hend 7 m).trans hglued
  · exact ha.finds_late hend hglued (.invalidName _) rfl
      (.name (named_readName ha.inside hend))

theorem Settled.finds_abandonNames [NestingLimit] (ha : a.Settled)
    (comma : Token) :
    Finds 0 1 [] a (a.abandonNames comma) := by
  have hfault : Finds 0 1 [] a (a.report a.current.pos .nameExpected).recover
    := ha.finds_fault .nameExpected rfl rfl
  unfold abandonNames
  simp only
  split
  next hsymbol =>
    have hend : a.current.isEnding = false := by
      simp only [Bool.and_eq_true, beq_iff_eq] at hsymbol
      exact Token.isEnding_eq_false_of_kind (by rw [hsymbol.1.1]; decide)
    exact hfault.trans ((hfault.settled ha).finds_next hend 1 1)
  next => exact hfault

theorem Settled.finds_readMoreNames [NestingLimit] (ha : a.Settled) :
    Finds 1 1 [] a a.readMoreNames.2 := by
  fun_induction readMoreNames a with
  | case1 a hcomma hname name more ih =>
    have hnext := ha.finds_next (isEnding_of_atSymbol hcomma) 1 7
    have hread := hnext.trans ((hnext.settled ha).finds_readName
      (isEnding_of_atNameAfter hname) 1)
    exact hread.trans (ih (hread.settled ha))
  | case2 a hcomma hname =>
    have hnext := ha.finds_next (isEnding_of_atSymbol hcomma) 1 0
    exact hnext.trans ((hnext.settled ha).finds_abandonNames a.current)
  | case3 a hcomma => exact .refl a 1

theorem Settled.finds_readNames [NestingLimit] (ha : a.Settled)
    (hend : a.current.isEnding = false) :
    Finds 7 1 [] a a.readNames.2 := by
  have hname := ha.finds_readName hend 1
  exact hname.trans (hname.settled ha).finds_readMoreNames

-- ================================================================== types

theorem Settled.finds_closeSize [NestingLimit] (ha : a.Settled)
    (size : Option Int) :
    Finds 5 6 [] a (closeSize size a).2 := by
  unfold closeSize
  simp only
  split
  next hbracket => exact ha.finds_next (isEnding_of_atSymbol hbracket) 5 6
  next => exact ha.finds_expected .sizeBracketExpected rfl rfl

/-- An integer is read without a finding. -/
theorem finds_readInteger [NestingLimit] (ht : t ∈ a.cursor.behind)
    (hkind : t.kind = .number) (l : Nat) :
    Finds l l [] a (a.readInteger t).2 := by
  have herrors : (a.readInteger t).2.errors = a.errors := by
    unfold readInteger
    simp only
    split
    · exact errors_halt ..
    · rfl
  refine .still (steps_readInteger ht hkind) (cursor_readInteger a t) ?_ ?_ l
  · unfold atLexemes
    rw [herrors]
  · unfold behindLexemes
    rw [herrors]

theorem Settled.finds_passOnLine [NestingLimit] (ha : a.Settled)
    (hend : a.current.isEnding = false) (l : Nat) :
    Finds l l [] a a.passOnLine := by
  unfold passOnLine
  simp only [ha.inside.lookBack]
  split
  · exact ha.finds_next hend l l
  · exact .refl a l

theorem Settled.finds_readStringType [NestingLimit] (ha : a.Settled) :
    Finds 5 7 [] a a.readStringType.2 := by
  unfold readStringType
  split
  next => exact (Finds.refl a 5).mono (Nat.le_refl 5) (by decide)
  next hbracket =>
    rw [Bool.not_eq_true', Bool.not_eq_false] at hbracket
    have hopen := ha.finds_next (isEnding_of_atSymbol hbracket) 5 5
    have hsize := hopen.settled ha
    simp only
    split
    next hinteger =>
      have hend := isEnding_of_atInteger hinteger
      have hread := finds_readInteger
        (current_mem_behind_next hsize.inside hend)
        (kind_of_atInteger hinteger) 5
      have hrange : Finds 5 5 [] a.next
          (if stringSizeMin ≤ (a.next.next.readInteger a.next.current).1
              ∧ (a.next.next.readInteger a.next.current).1 ≤ stringSizeMax
            then (a.next.next.readInteger a.next.current).2
            else (a.next.next.readInteger a.next.current).2.report
              a.next.current.pos (.sizeOutOfRange
                (a.next.next.readInteger a.next.current).1)) := by
        split
        · exact (hsize.finds_next hend 5 5).trans hread
        · exact hsize.finds_late hend hread (.sizeOutOfRange _) rfl
            (.place hsize.inside.current_mem rfl)
      exact hopen.trans (hrange.trans (((hrange.settled hsize).finds_closeSize
        _).mono (Nat.le_refl 5) (by decide)))
    next hinteger =>
      have hfault : Finds 5 6 [] a.next
          (a.next.report a.next.current.pos .sizeExpected).recover :=
        hsize.finds_fault .sizeExpected rfl rfl
      have hmissed := hfault.settled hsize
      have hclose : ∀ d : Analysis, Finds 5 6 [] a.next d →
          Finds 5 7 [] a (if d.atSymbol "]" then closeSize none d
            else (.string none, d)).2 := by
        intro d hd
        split
        next hclosed =>
          unfold closeSize
          rw [if_pos hclosed]
          exact hopen.trans (hd.trans ((hd.settled hsize).finds_next
            (isEnding_of_atSymbol hclosed) 6 7))
        next =>
          exact hopen.trans (hd.mono (Nat.le_refl 5) (by decide))
      apply hclose
      split
      next => exact hfault
      next hpass =>
        have hend : a.next.current.isEnding = false := by
          simp only [Bool.or_eq_true, not_or, Bool.not_eq_true] at hpass
          exact hpass.1.1
        exact hfault.trans (hmissed.finds_passOnLine hend 6)

/-- An unknown symbol that is left begins a line. -/
theorem Settled.beginsLine (ha : a.Settled)
    (hkind : a.current.kind = .unknown)
    (hline : a.onLineOfPrevious a.current = false) :
    BeginsLine a.cursor.toList
      ⟨.syntactic, a.current.pos, .unknownSymbol a.current.text⟩ := by
  obtain ⟨rest, -, htable⟩ := ha.inside.toList_eq
  unfold onLineOfPrevious at hline
  rw [ha.inside.previous?] at hline
  cases hbehind : a.cursor.behind with
  | nil =>
    rw [hbehind] at hline
    cases hline
  | cons previous before =>
    rw [hbehind] at hline
    refine ⟨before.reverse, previous, a.current, rest, ?_,
      beq_eq_false_iff_ne.1 hline, hkind, rfl⟩
    rw [htable, hbehind, List.reverse_cons, List.append_assoc]
    rfl

/-- A lexeme that is no type is found at its own rank where it is passed. An
unknown symbol that begins a line is left, and noted so. -/
theorem Settled.finds_refused [NestingLimit] (ha : a.Settled)
    (hend : a.current.isEnding = false) :
    Finds 5 7 [] a (a.report a.current.pos
      (if a.current.kind == .unknown then .unknownSymbol a.current.text
        else .invalidType a.current.text)).passOnLine := by
  have hinside : ∀ cause, (a.report a.current.pos cause).Inside :=
    fun cause => ha.inside.congr (cursor_report ..)
  have hline : ∀ cause, (a.report a.current.pos cause).onLineOfPrevious
      (a.report a.current.pos cause).current
        = a.onLineOfPrevious a.current := fun _ => rfl
  have hnext : ∀ cause, (a.report a.current.pos cause).next
      = a.next.report a.current.pos cause := by
    intro cause
    unfold next
    rw [current_congr (cursor_report ..), hend]
    rfl
  have hcites : ∀ cause ∈ [.unknownSymbol a.current.text,
      .unexpectedToken a.current.text, .invalidType a.current.text],
      Cites a.cursor.toList ⟨.syntactic, a.current.pos, cause⟩ :=
    fun cause hcause => .lexeme ha.inside.current_mem hend hcause
  unfold passOnLine
  simp only [(hinside _).lookBack, hline]
  cases hunknown : a.current.kind == .unknown with
  | true =>
    rw [if_pos rfl]
    have hsymbol := hcites (.unknownSymbol a.current.text)
      List.mem_cons_self
    cases hpass : a.onLineOfPrevious a.current with
    | true =>
      rw [if_pos rfl, hnext]
      exact (ha.finds_late hend (.refl _ 7) _ rfl hsymbol).mono
        (show 5 ≤ 7 by decide) (Nat.le_refl 7)
    | false =>
      rw [if_neg Bool.false_ne_true]
      have hleft := ha.beginsLine (beq_iff_eq.1 hunknown) hpass
      exact (finds_note (l := 6) true rfl ⟨hsymbol, fun _ => hleft⟩ rfl).mono
        (by decide) (Nat.le_refl 7)
  | false =>
    rw [if_neg Bool.false_ne_true]
    have htype := hcites (.invalidType a.current.text) (by simp)
    cases hpass : a.onLineOfPrevious a.current with
    | true =>
      rw [if_pos rfl, hnext]
      exact ha.finds_late hend (.refl _ 7) _ rfl htype
    | false =>
      rw [if_neg Bool.false_ne_true]
      exact (finds_note (l := 5) false rfl (Note.sound_passed htype) rfl).mono
        (Nat.le_refl 5) (by decide)

theorem Settled.finds_refuseType [NestingLimit] (ha : a.Settled) :
    Finds 5 7 [] a a.refuseType.2 := by
  unfold refuseType
  simp only
  split
  next =>
    exact (ha.finds_expected .typeExpected rfl rfl).mono (Nat.le_refl 5)
      (by decide)
  next hother =>
    simp only [Bool.or_eq_true, not_or, Bool.not_eq_true] at hother
    exact (ha.finds_refused hother.1).trans (finds_recover _ 7)

theorem Settled.finds_readSimpleType [NestingLimit] (ha : a.Settled) :
    Finds 5 7 [] a a.readSimpleType.2 := by
  unfold readSimpleType
  simp only
  split
  next hscalar =>
    rw [Bool.and_eq_true] at hscalar
    have hkind : a.current.kind = .keyword := beq_iff_eq.1 hscalar.1
    exact ha.finds_next
      (Token.isEnding_eq_false_of_kind (by rw [hkind]; decide)) 5 7
  next =>
    split
    next hstring =>
      have hnext := ha.finds_next (Token.isEnding_of_isKeyword hstring) 5 5
      exact hnext.trans (hnext.settled ha).finds_readStringType
    next => exact ha.finds_refuseType

-- ================================================================= ranges

theorem Settled.finds_readRange [NestingLimit] (ha : a.Settled) :
    Finds 2 3 [] a a.readRange.2 := by
  unfold readRange
  simp only
  split
  next => exact ha.finds_fault .lowerBoundExpected rfl rfl
  next hlow =>
    rw [Bool.not_eq_true', Bool.not_eq_false] at hlow
    have hend := isEnding_of_atInteger hlow
    have hnext := ha.finds_next hend 2 2
    have hnext' := hnext.settled ha
    split
    next => exact hnext.trans (hnext'.finds_fault .dotsExpected rfl rfl)
    next hdots =>
      rw [Bool.not_eq_true', Bool.not_eq_false] at hdots
      have hpass := hnext'.finds_next (isEnding_of_atSymbol hdots) 2 2
      have hpass' := hpass.settled hnext'
      split
      next =>
        exact hnext.trans (hpass.trans
          (hpass'.finds_fault .upperBoundExpected rfl rfl))
      next hhigh =>
        rw [Bool.not_eq_true', Bool.not_eq_false] at hhigh
        have hend' := isEnding_of_atInteger hhigh
        have hlast := hpass'.finds_next hend' 2 3
        have hlow' := hlast.steps.mem_behind hpass'.inside
          (hpass.steps.mem_behind hnext'.inside
            (current_mem_behind_next ha.inside hend))
        have hfirst := finds_readInteger hlow' (kind_of_atInteger hlow) 3
        have hhigh' := hfirst.steps.mem_behind (hlast.settled hpass').inside
          (current_mem_behind_next hpass'.inside hend')
        have hsecond := finds_readInteger hhigh' (kind_of_atInteger hhigh) 3
        have hread := hpass.trans (hlast.trans (hfirst.trans hsecond))
        split
        · exact ha.finds_late hend hread (.boundsInverted ..) rfl
            (.place ha.inside.current_mem rfl)
        · exact hnext.trans hread

theorem Settled.finds_readRangeOrSkip [NestingLimit] (ha : a.Settled) :
    Finds 2 3 [] a a.readRangeOrSkip.2 := by
  have hread := ha.finds_readRange
  unfold readRangeOrSkip
  simp only
  split
  · exact hread.trans ((hread.settled ha).finds_skipToRangeBoundary 3)
  · exact hread

theorem Settled.finds_skipAfterRange [NestingLimit] (ha : a.Settled) :
    Finds 3 4 [] a a.skipAfterRange := by
  have hfault : Finds 3 4 [] a
      (a.expect a.current.pos .commaOrBracketExpected).recover :=
    ha.finds_expected .commaOrBracketExpected rfl rfl
  exact hfault.trans ((hfault.settled ha).finds_skipToRangeBoundary 4)

theorem Settled.finds_passBracket [NestingLimit] (ha : a.Settled) (l : Nat) :
    Finds l l [] a a.passBracket := by
  unfold passBracket
  split
  next hbracket => exact ha.finds_next (isEnding_of_atSymbol hbracket) l l
  next => exact .refl a l

theorem Settled.finds_nextUnread [NestingLimit] (ha : a.Settled) {s : Text}
    (h : a.unreadSymbol s = true) (l m : Nat) : Finds l m [] a a.next := by
  rw [unreadSymbol_eq ha.inside] at h
  exact ha.finds_next (isEnding_of_atSymbol h) l m

theorem Settled.finds_readRanges [NestingLimit] (ha : a.Settled) :
    Finds 2 4 [] a a.readRanges.2 := by
  fun_induction readRanges a with
  | case1 a read a' hcomma more ih =>
    have hread := ha.finds_readRangeOrSkip
    have hnext := hread.trans ((hread.settled ha).finds_nextUnread hcomma 3 2)
    exact hnext.trans (ih (hnext.settled ha))
  | case2 a read a' hcomma hlast =>
    have hread := ha.finds_readRangeOrSkip
    exact (hread.trans ((hread.settled ha).finds_passBracket 3)).mono
      (Nat.le_refl 2) (by decide)
  | case3 a read a' hcomma hend a'' hcomma' more ih =>
    have hread := ha.finds_readRangeOrSkip
    have hskip := hread.trans (hread.settled ha).finds_skipAfterRange
    have hnext := hskip.trans ((hskip.settled ha).finds_nextUnread hcomma' 4 2)
    exact hnext.trans (ih (hnext.settled ha))
  | case4 a read a' hcomma hend a'' hcomma' =>
    have hread := ha.finds_readRangeOrSkip
    have hskip := hread.trans (hread.settled ha).finds_skipAfterRange
    exact hskip.trans ((hskip.settled ha).finds_passBracket 4)

-- ================================================================== arrays

/-- Behind its first word the index ranges of an array are read. -/
theorem Settled.finds_readArrayRanges [NestingLimit] (ha : a.Settled) :
    Finds 1 4 [] a.next a.readArrayRanges.2 := by
  have hword := (steps_next a).settled ha
  unfold readArrayRanges
  simp only
  split
  next hbracket =>
    have hopen := hword.finds_next (isEnding_of_atSymbol hbracket) 1 2
    exact hopen.trans (hopen.settled hword).finds_readRanges
  next =>
    have hfault : Finds 1 2 [] a.next
        (a.next.report a.next.current.pos .arrayBracketExpected).recover :=
      hword.finds_fault .arrayBracketExpected rfl rfl
    have hmissed := hfault.settled hword
    split
    next => exact hfault.trans hmissed.finds_readRanges
    next =>
      have hskip := hfault.trans (hmissed.finds_skipToRangeBoundary 2)
      exact (hskip.trans ((hskip.settled hword).finds_passBracket 2)).mono
        (Nat.le_refl 1) (by decide)

theorem Settled.finds_missingOf [NestingLimit] (ha : a.Settled) :
    Finds 4 5 [] a a.missingOf :=
  ha.finds_expected .ofExpected rfl rfl

/-- Entering an array makes no finding. -/
theorem finds_descend [NestingLimit] {depth : Nat}
    (hword : a.unreadKeyword "array" = true)
    (hdepth : depth ≤ arrayWords a.cursor.behind) (l : Nat) :
    Finds l l [] a (a.descend depth) := by
  refine .still (steps_descend hword hdepth) (cursor_descend ..) ?_ ?_ l
  · exact congrArg (List.filter _) (errors_descend ..)
  · exact congrArg (List.filter _) (errors_descend ..)

/-- Reading a type, or the elements of an array, leads from stage to stage,
if the arrays around it have been passed. The two call each other, and so do
their proofs. -/
theorem Settled.finds_readType [NestingLimit] {depth : Nat} (ha : a.Settled)
    (hdepth : depth ≤ arrayWords a.cursor.behind) :
    Finds 5 7 [] a (a.readType depth).2 := by
  revert ha hdepth
  refine readType.induct
    (fun depth a => a.Settled → depth ≤ arrayWords a.cursor.behind →
      Finds 5 7 [] a (readType depth a).2)
    (fun depth ranges a => a.Settled → depth < arrayWords a.cursor.behind →
      Finds 4 7 [] a (readElements depth ranges a).2)
    ?array ?array' ?simple ?of ?missing ?none depth a
  case array =>
    intro depth a harray ranges hnested ih ha hdepth
    rw [readType_of_nested hnested harray]
    obtain ⟨hsteps, hpassed⟩ := steps_enterArray ha.inside harray hdepth
    have hentered := finds_descend harray hdepth 5
    have hinside := hentered.settled ha
    have hend := (current_of_unreadKeyword harray).2
    rw [← current_congr (cursor_descend depth a)] at hend
    have helements := hinside.finds_readArrayRanges.trans
      (ih (hsteps.settled ha) hpassed)
    have hlate := hinside.finds_late hend helements .nestedArray rfl
      (.place hinside.inside.current_mem rfl)
    rw [current_congr (cursor_descend depth a)] at hlate
    exact hentered.trans hlate
  case array' =>
    intro depth a harray ranges hnested ih ha hdepth
    obtain rfl := Nat.eq_zero_of_not_pos hnested
    rw [readType_of_array harray]
    obtain ⟨hsteps, hpassed⟩ := steps_enterArray ha.inside harray hdepth
    have hentered := finds_descend harray hdepth 5
    have hinside := hentered.settled ha
    have hend := (current_of_unreadKeyword harray).2
    rw [← current_congr (cursor_descend 0 a)] at hend
    have hranges := (hinside.finds_next hend 5 1).trans
      hinside.finds_readArrayRanges
    exact hentered.trans
      (hranges.trans (ih (hsteps.settled ha) hpassed))
  case simple =>
    intro depth a harray ha _
    rw [readType_of_simple depth harray]
    exact ha.finds_readSimpleType
  case of =>
    intro depth ranges a hof ih ha hdepth
    rw [readElements_of_of depth ranges hof]
    have hnext := ha.finds_next (Token.isEnding_of_isKeyword hof) 4 5
    exact hnext.trans (ih (hnext.settled ha)
      (Nat.le_trans hdepth (hnext.steps.arrayWords_le ha.inside)))
  case missing =>
    intro depth ranges a hof hstarts ih ha hdepth
    rw [readElements_of_missing depth ranges hof hstarts]
    have hmissing := ha.finds_missingOf
    exact hmissing.trans (ih (hmissing.settled ha)
      (Nat.le_trans hdepth (hmissing.steps.arrayWords_le ha.inside)))
  case none =>
    intro depth ranges a hof hstarts ha _
    rw [readElements_of_none depth ranges hof hstarts]
    exact ha.finds_missingOf.mono (Nat.le_refl 4) (by decide)

-- ============================================================ declarations

/-- What is found behind lexemes where a separator is expected: nothing, or
that it is missing, behind a lexeme that does not stand in front of the
first one of the declaration. -/
def Misses (table : List Token) (first : Token) (cause : Cause)
    (behind : List Diagnostic) : Prop :=
  behind = [] ∨ ∃ t ∈ table, first.pos.Before t.endPos
    ∧ behind = [⟨.syntactic, t.endPos, cause⟩]

/-- The lexeme in front of the place ends behind the beginning of all that
have been passed. -/
theorem Settled.before_endPos (ha : a.Settled)
    (hfirst : first ∈ a.cursor.behind)
    (ht : a.cursor.behind.head? = some t) : first.pos.Before t.endPos := by
  have hpassed : t ∈ a.cursor.behind := List.mem_of_mem_head? ht
  have hmem := mem_toList_of_behind hpassed
  have hcut := ha.lexed.wellCut t hmem (ha.inside.behind t hpassed)
  have hend : t.pos.Before t.endPos := Position.before_right t.pos
    fun hzero => hcut.nonempty (List.length_eq_zero_iff.1 hzero)
  obtain ⟨more, hmore⟩ := List.head?_eq_some_iff.1 ht
  rw [hmore] at hfirst
  rcases List.mem_cons.1 hfirst with rfl | hfirst
  · exact hend
  · have horder := ha.lexed.order
    unfold Cursor.toList at horder
    rw [hmore, List.reverse_cons, List.append_assoc,
      List.pairwise_append] at horder
    have hle := horder.2.2 first (List.mem_reverse.2 hfirst) t
      List.mem_cons_self
    exact Position.Before.of_le
      (Position.le_trans first.pos_le_endPos hle) hend

/-- A separator that is missing is found behind the lexeme in front of the
place. -/
theorem Settled.finds_missing [NestingLimit] (ha : a.Settled)
    (hfirst : first ∈ a.cursor.behind) (cause : Cause)
    (hcause : cause = .colonExpected ∨ cause = .semicolonExpected) (l : Nat) :
    ∃ behind, Finds l l behind a (a.reportAfterPrevious cause)
      ∧ Misses a.cursor.toList first cause behind := by
  have hsteps := steps_reportAfterPrevious ha.inside hcause
  unfold reportAfterPrevious at hsteps ⊢
  simp only [ha.inside.lookBack, ha.inside.previous?] at hsteps ⊢
  cases hhead : a.cursor.behind.head? with
  | none =>
    rw [List.head?_eq_none_iff.1 hhead] at hfirst
    cases hfirst
  | some t =>
    rw [hhead] at hsteps
    have hat : cause.isAtLexeme = false := by
      rcases hcause with rfl | rfl <;> rfl
    have hbehind : cause.isBehindLexeme = true := by
      rcases hcause with rfl | rfl <;> rfl
    refine ⟨[⟨.syntactic, t.endPos, cause⟩],
      ⟨hsteps, le_refl _, List.filter_cons_of_pos hbehind, [], .nil ..,
        List.filter_cons_of_neg (by rw [hat]; exact Bool.false_ne_true)⟩,
      .inr ⟨t, ?_, ha.before_endPos hfirst hhead, rfl⟩⟩
    exact mem_toList_of_behind (List.mem_of_mem_head? hhead)

theorem Settled.finds_missColon [NestingLimit] (ha : a.Settled)
    (hfirst : first ∈ a.cursor.behind) (found : Bool) (l : Nat) :
    ∃ behind, Finds l l behind a (a.missColon found)
      ∧ Misses a.cursor.toList first .colonExpected behind := by
  unfold missColon
  split
  · exact ⟨[], .refl a l, .inl rfl⟩
  · exact ha.finds_missing hfirst _ (.inl rfl) l

theorem Settled.finds_readColon [NestingLimit] (ha : a.Settled)
    (hfirst : first ∈ a.cursor.behind) (found : Bool) :
    ∃ behind, Finds 1 7 behind a (a.readColon found).2
      ∧ Misses a.cursor.toList first .colonExpected behind := by
  unfold readColon
  split
  next hcolon =>
    have hnext := ha.finds_next (isEnding_of_atSymbol hcolon) 1 5
    exact ⟨[], hnext.trans ((hnext.settled ha).finds_readType (Nat.zero_le _)),
      .inl rfl⟩
  next =>
    obtain ⟨behind, hmiss, hmisses⟩ := ha.finds_missColon hfirst found 1
    split
    next =>
      exact ⟨behind, (hmiss.mono (Nat.le_refl 1) (by decide)).trans
        ((hmiss.settled ha).finds_readType (Nat.zero_le _)), hmisses⟩
    next =>
      exact ⟨behind, (hmiss.trans (finds_recover _ 1)).mono (Nat.le_refl 1)
        (by decide), hmisses⟩

theorem Settled.finds_readTypePart [NestingLimit] (ha : a.Settled)
    (hfirst : first ∈ a.cursor.behind) :
    ∃ behind, Finds 1 7 behind a a.readTypePart.2
      ∧ Misses a.cursor.toList first .colonExpected behind := by
  have hunknown := ha.finds_reportUnknown (l := 1) (by decide) a.current.line
  obtain ⟨behind, hread, hmisses⟩ := (hunknown.settled ha).finds_readColon
    (hunknown.steps.mem_behind ha.inside hfirst)
    (a.reportUnknown a.current.line).1
  rw [hunknown.steps.toList] at hmisses
  rw [readTypePart_eq]
  refine ⟨behind, ?_, hmisses⟩
  have hall := hunknown.trans hread
  rw [List.append_nil] at hall
  exact hall

theorem Settled.finds_synchronizeHere [NestingLimit] (ha : a.Settled)
    (hfirst : first ∈ a.cursor.behind) :
    Finds 7 7 [] a a.synchronizeHere := by
  cases hhead : a.cursor.behind.head? with
  | none =>
    rw [List.head?_eq_none_iff.1 hhead] at hfirst
    cases hfirst
  | some t =>
    rw [synchronizeHere_of_behind ha.inside hhead]
    exact ha.finds_synchronize (Nat.le_refl 7) t.line

theorem Settled.finds_closeDeclaration [NestingLimit] (ha : a.Settled)
    (hfirst : first ∈ a.cursor.behind) (found : Bool) :
    ∃ behind, Finds 7 7 behind a (a.closeDeclaration found)
      ∧ Misses a.cursor.toList first .semicolonExpected behind := by
  unfold closeDeclaration
  split
  next hsemicolon =>
    have hnext := ha.finds_next (isEnding_of_atSymbol hsemicolon) 7 7
    exact ⟨[], hnext.trans
      ((hnext.settled ha).finds_reportUnknown (Nat.le_refl 7) _), .inl rfl⟩
  next =>
    split
    next => exact ⟨[], ha.finds_synchronizeHere hfirst, .inl rfl⟩
    next =>
      obtain ⟨behind, hmiss, hmisses⟩ := ha.finds_missing hfirst
        .semicolonExpected (.inr rfl) 7
      split
      next => exact ⟨behind, hmiss, hmisses⟩
      next =>
        exact ⟨behind, hmiss.trans ((hmiss.settled ha).finds_synchronizeHere
          (hmiss.steps.mem_behind ha.inside hfirst)), hmisses⟩

theorem Settled.finds_endDeclaration [NestingLimit] (ha : a.Settled)
    (hfirst : first ∈ a.cursor.behind) :
    ∃ behind, Finds 7 7 behind a a.endDeclaration
      ∧ Misses a.cursor.toList first .semicolonExpected behind := by
  have hunknown := ha.finds_reportUnknown (Nat.le_refl 7) a.current.line
  obtain ⟨behind, hclose, hmisses⟩ :=
    (hunknown.settled ha).finds_closeDeclaration
      (hunknown.steps.mem_behind ha.inside hfirst)
      (a.reportUnknown a.current.line).1
  rw [hunknown.steps.toList] at hmisses
  rw [endDeclaration_eq]
  refine ⟨behind, ?_, hmisses⟩
  have hall := hunknown.trans hclose
  rw [List.append_nil] at hall
  exact hall

/-- Entering names makes no findings but on names that were declared
before. -/
theorem finds_declare [NestingLimit] {names : List Identifier}
    {type : VarType} (hsteps : Steps a (a.declare names type)) (l : Nat) :
    Finds l l [] a (a.declare names type) := by
  obtain ⟨found, herrors, hfound⟩ := errors_declare names type a
  have hredeclared : ∀ d ∈ found, d.cause.isAtLexeme = false
      ∧ d.cause.isBehindLexeme = false := by
    intro d hd
    have hcause := hfound d hd
    cases h : d.cause with
    | redeclared => exact ⟨rfl, rfl⟩
    | _ => rw [h] at hcause; cases hcause
  refine .still hsteps (cursor_declare ..) ?_ ?_ l
  · unfold atLexemes
    rw [herrors, List.filter_append, List.filter_eq_nil_iff.2, List.nil_append]
    exact fun d hd => by rw [(hredeclared d hd).1]; exact Bool.false_ne_true
  · unfold behindLexemes
    rw [herrors, List.filter_append, List.filter_eq_nil_iff.2, List.nil_append]
    exact fun d hd => by rw [(hredeclared d hd).2]; exact Bool.false_ne_true

theorem Misses.nodup {table : List Token} {colon semicolon : List Diagnostic}
    (hcolon : Misses table first .colonExpected colon)
    (hsemicolon : Misses table first .semicolonExpected semicolon) :
    (semicolon ++ colon).Nodup := by
  rcases hcolon with rfl | ⟨t, -, -, rfl⟩
  · rcases hsemicolon with rfl | ⟨u, -, -, rfl⟩
    · exact .nil
    · exact List.pairwise_singleton ..
  · rcases hsemicolon with rfl | ⟨u, -, -, rfl⟩
    · exact List.pairwise_singleton ..
    · simp

theorem Misses.cites {table : List Token} {behind : List Diagnostic}
    (h : Misses table first cause behind)
    (hcause : cause = .colonExpected ∨ cause = .semicolonExpected) :
    ∀ d ∈ behind, first.pos.Before d.pos ∧ Cites table d := by
  rcases h with rfl | ⟨t, ht, hbefore, rfl⟩
  · exact fun d hd => absurd hd List.not_mem_nil
  · intro d hd
    rw [List.mem_singleton.1 hd]
    exact ⟨hbefore, .behind ht hcause⟩

/-- Behind its names a declaration misses each separator at most once, behind
its first lexeme. -/
theorem Settled.finds_behindNames [NestingLimit] (ha : a.Settled)
    (hend : a.current.isEnding = false) :
    ∃ behind, Finds 1 7 behind a.unmarked.readNames.2 a.readDeclaration
      ∧ behind.Nodup ∧ ∀ d ∈ behind, a.current.pos.Before d.pos
        ∧ Cites a.cursor.toList d := by
  have hnames := steps_unmarked ha.inside
  have hread := hnames.settled ha
  have hfirst := current_mem_behind_readNames (ha.inside.of_recovering false)
    hend
  obtain ⟨colon, htype, hcolon⟩ := hread.finds_readTypePart hfirst
  obtain ⟨semicolon, hclose, hsemicolon⟩ :=
    (htype.settled hread).finds_endDeclaration
      (htype.steps.mem_behind hread.inside hfirst)
  rw [htype.steps.toList, hnames.toList] at hsemicolon
  rw [hnames.toList] at hcolon
  have henter : Finds 7 7 []
      a.unmarked.readNames.2.readTypePart.2.endDeclaration a.readParts :=
    .still (.single (.enter _ _)) rfl rfl rfl 7
  have hdone := ((htype.trans hclose).trans henter).trans
    (finds_declare (steps_declareParts ha.inside hend) 7)
  refine ⟨semicolon ++ colon, hdone, hcolon.nodup hsemicolon, fun d hd => ?_⟩
  rcases List.mem_append.1 hd with hd | hd
  · exact hsemicolon.cites (.inr rfl) d hd
  · exact hcolon.cites (.inl rfl) d hd

theorem Settled.finds_readDeclaration [NestingLimit] (ha : a.Settled)
    (hend : a.current.isEnding = false) :
    ∃ behind, Finds 7 7 behind a a.readDeclaration ∧ behind.Nodup
      ∧ ∀ d ∈ behind, a.current.pos.Before d.pos
        ∧ Cites a.cursor.toList d := by
  have hstart : Finds 7 7 [] a a.unmarked :=
    .still (.single (.setRecovering a false)) rfl rfl rfl 7
  have hnames := hstart.trans ((hstart.settled ha).finds_readNames hend)
  obtain ⟨behind, hrest, hbehind⟩ := ha.finds_behindNames hend
  have hall := hnames.trans hrest
  simp only [List.append_nil] at hall
  exact ⟨behind, hall, hbehind⟩

theorem Settled.finds_passStray [NestingLimit] (ha : a.Settled)
    (hend : a.current.isEnding = false) : Finds 7 7 [] a a.passStray := by
  have hcites : ∀ cause ∈ [.unknownSymbol a.current.text,
      .unexpectedToken a.current.text, .invalidType a.current.text],
      Cites a.cursor.toList ⟨.syntactic, a.current.pos, cause⟩ :=
    fun cause hcause => .lexeme ha.inside.current_mem hend hcause
  unfold passStray
  simp only
  split
  · exact ha.finds_late hend (.refl _ 7) (.unknownSymbol _) rfl
      (hcites _ List.mem_cons_self)
  · exact ha.finds_late hend (.refl _ 7) (.unexpectedToken _) rfl
      (hcites _ (by simp))

-- ============================================================== whole runs

/-- What an analysis of a table has found so far: the findings at lexemes
stand between two stages, and those behind lexemes are all different. -/
structure Accounts [NestingLimit] (table : List Token) (a : Analysis) :
    Prop where
  settled : a.Settled
  finds : ∃ behind, Finds 7 7 behind (ofTable table) a
  nodup : a.behindLexemes.Nodup
  cites : ∀ d ∈ a.behindLexemes, Cites table d

theorem Accounts.ofTable [NestingLimit] {table : List Token}
    (hlexed : Lexed table) (hends : ∃ t ∈ table, t.isEnding = true) :
    Accounts table (ofTable table) :=
  ⟨.ofTable hlexed hends, ⟨[], .refl _ 7⟩, .nil,
    fun _ hd => absurd hd List.not_mem_nil⟩

/-- What a reader finds behind lexemes is new, if it is found in front of no
place that was reached before. -/
theorem Accounts.trans [NestingLimit] {table : List Token}
    {behind : List Diagnostic}
    (h : Accounts table a) (hfinds : Finds 7 7 behind a b)
    (hnodup : behind.Nodup) (hcites : ∀ d ∈ behind,
      a.current.pos.Before d.pos ∧ Cites a.cursor.toList d) :
    Accounts table b := by
  obtain ⟨before, hbefore⟩ := h.finds
  have htable : a.cursor.toList = table := hbefore.steps.toList
  have hnew : ∀ d ∈ behind, d ∉ a.behindLexemes := by
    intro d hd hold
    have hle := h.settled.errors d (List.mem_filter.1 hold).1
    exact ((hcites d hd).1.trans_le hle).ne rfl
  refine ⟨hfinds.settled h.settled, ⟨_, hbefore.trans hfinds⟩, ?_, ?_⟩
  · rw [hfinds.behind, List.nodup_append]
    exact ⟨hnodup, h.nodup, fun d hd e he hde => hnew d hd (hde ▸ he)⟩
  · rw [hfinds.behind]
    intro d hd
    rcases List.mem_append.1 hd with hd | hd
    · rw [← htable]
      exact (hcites d hd).2
    · exact h.cites d hd

/-- The account is kept over a whole section. -/
theorem lasts_accounts [NestingLimit] (table : List Token) :
    Lasts (Accounts table) where
  inside h := h.settled.inside
  next h hend := h.trans (h.settled.finds_next hend 7 7) .nil
    fun _ hd => absurd hd List.not_mem_nil
  stray h hend := h.trans (h.settled.finds_passStray hend) .nil
    fun _ hd => absurd hd List.not_mem_nil
  declaration h hend := by
    obtain ⟨behind, hfinds, hnodup, hcites⟩ :=
      h.settled.finds_readDeclaration hend
    exact h.trans hfinds hnodup hcites

theorem Accounts.run [NestingLimit] {table : List Token}
    (hlexed : Lexed table) (hends : ∃ t ∈ table, t.isEnding = true) :
    Accounts table (Analysis.ofTable table).run :=
  (lasts_accounts table).readSection (.ofTable hlexed hends)

end Analysis

end VarSection
