/-
Readers that find nothing have read a tree. For each kind of tree one
statement, the converse of the one in `Derived`: if no finding has been
made when its reader ends, and no number was too long, the reader has passed
exactly the lexemes of some tree, and left all else as it was (`Reads`).

Findings are only ever added, so where none is there in the end none was
made on the way, and every branch that reports is closed at once; this
covers the branches that report only if the latest finding lies elsewhere,
because without findings there is no latest one. What is left of a reader
is the branch that the grammar describes. An array inside an array is always
found, so there is none. And a fault that is noted stays noted, so where
there is none the numbers that were read had not too many digits.

Only names need more. A name may be glued from several lexemes, and it is
judged by its joined text. In a table made from a text a valid name is one
lexeme: it begins like a word, so its first lexeme is a word, and where
another lexeme is written right behind a word, it does not go on with it
(`Token.Apart`).
-/
import VarSection.Proofs.Analysis.Step
import VarSection.Proofs.Grammar.Derived

namespace VarSection.Analysis

open Grammar

variable {a b c : Analysis} {t u : Token} {rest ts us : List Token}
  {found : List Diagnostic}

/-- The place lies in a table made from a text. -/
structure InText (a : Analysis) : Prop where
  inside : a.Inside
  lexed : Lexed a.cursor.ahead

/-- Nothing was found, and no fault was noted. -/
structure Quiet (a : Analysis) : Prop where
  errors : a.errors = []
  halt? : a.halt? = none

/-- Nothing was found, and no number was read that has too many digits: no
fault was noted, or there is no such number. -/
structure Silent (a : Analysis) : Prop where
  errors : a.errors = []
  short : a.halt? = none ∨ Readable a.cursor.toList

theorem Quiet.silent (h : a.Quiet) : a.Silent := ⟨h.errors, .inl h.halt?⟩

/-- What is silent in the end was silent all the way. -/
theorem Steps.silent [NestingLimit] (h : Steps a b) (hb : b.Silent) :
    a.Silent :=
  ⟨h.errors_eq_nil hb.errors, hb.short.imp h.unhalted (h.toList ▸ ·)⟩

/-- Between two states lie exactly these lexemes, with short numbers, and
nothing was found on the way. -/
structure Reads (a : Analysis) (ts : List Token) (b : Analysis) : Prop where
  passes : Passes a ts [] b
  readable : Readable ts

namespace Reads

theorem refl (a : Analysis) : Reads a [] a :=
  ⟨.refl a, readable_nil⟩

theorem trans (h : Reads a ts b) (h' : Reads b us c) :
    Reads a (ts ++ us) c :=
  ⟨h.passes.trans h'.passes, h.readable.append h'.readable⟩

theorem inside (h : Reads a ts b) (ha : a.InText) : b.Inside :=
  h.passes.inside ha.inside

theorem inText (h : Reads a ts b) (ha : a.InText) : b.InText := by
  have hlexed := ha.lexed
  rw [h.passes.ahead] at hlexed
  exact ⟨h.inside ha, hlexed.right_of_append⟩

/-- What was read is legible. -/
theorem legible (h : Reads a ts b) (ha : a.InText) :
    ∀ t ∈ ts, t.Legible := by
  intro t ht
  refine ha.lexed.legible_of_mem ?_ (h.readable t ht)
  rw [h.passes.ahead]
  exact List.mem_append_left _ ht

end Reads

/-- A passage over short numbers that ends silent has read them. -/
theorem Passes.reads (h : Passes a ts found b) (hts : Readable ts)
    (hb : b.Silent) : Reads a ts b := by
  have herrors := h.errors
  rw [hb.errors] at herrors
  obtain ⟨hfound, -⟩ := List.append_eq_nil_iff.1 herrors.symm
  rw [List.reverse_eq_nil_iff] at hfound
  exact ⟨hfound ▸ h, hts⟩

-- ================================================== branches that report

theorem errors_report_ne_nil (a : Analysis) (pos : Position)
    (cause : Cause) : (a.report pos cause).errors ≠ [] :=
  List.cons_ne_nil _ _

/-- Even where nothing is reported a second time, something was found. -/
theorem errors_expect_ne_nil (a : Analysis) (pos : Position)
    (cause : Cause) : (a.expect pos cause).errors ≠ [] := by
  unfold expect
  split
  next hlatest =>
    intro hnil
    rw [hnil] at hlatest
    cases hlatest
  next => exact errors_report_ne_nil a pos cause

theorem errors_reportAfterPrevious_ne_nil (a : Analysis) (cause : Cause) :
    (a.reportAfterPrevious cause).errors ≠ [] := by
  unfold reportAfterPrevious
  simp only
  split <;> exact errors_report_ne_nil _ _ _

/-- What was found stays found. -/
theorem Steps.errors_ne_nil [NestingLimit] (h : Steps a b)
    (ha : a.errors ≠ []) :
    b.errors ≠ [] :=
  fun hb => ha (h.errors_eq_nil hb)

theorem errors_skipAfterRange_ne_nil [NestingLimit] (a : Analysis) :
    a.skipAfterRange.errors ≠ [] := by
  unfold skipAfterRange
  exact ((steps_recover _).trans
    (steps_skipToRangeBoundary _)).errors_ne_nil (errors_expect_ne_nil _ _ _)

theorem errors_missingOf_ne_nil [NestingLimit] (a : Analysis) :
    a.missingOf.errors ≠ [] := by
  unfold missingOf
  exact (steps_recover _).errors_ne_nil (errors_expect_ne_nil _ _ _)

/-- Where nothing was found no unknown symbols were passed. -/
theorem reportUnknown_of_silent (ha : a.Inside) {line : Int}
    (h : (a.reportUnknown line).2.errors = []) :
    a.reportUnknown line = (false, a) := by
  have hpass := (passes_reportUnknown ha line).errors
  rw [h] at hpass
  have hfound := List.reverse_eq_nil_iff.1
    (List.append_eq_nil_iff.1 hpass.symm).1
  have hrun : unknownRun line a.cursor.ahead = [] := by
    unfold unknownFindings at hfound
    rw [List.map_eq_nil_iff, List.filter_eq_nil_iff] at hfound
    refine List.eq_nil_iff_forall_not_mem.2 fun t ht => hfound t ht ?_
    exact beq_iff_eq.2 (notEnding_of_mem_unknownRun ht).1
  unfold reportUnknown
  rw [ha.upcoming, hrun]
  rfl

-- ======================================================== single lexemes

theorem reads_atSymbol {s : Text} (ha : a.Inside)
    (h : a.atSymbol s = true) : Reads a [a.current] a.next :=
  ⟨passes_current ha (Token.isEnding_of_isSymbol h),
    readable_singleton (by rw [Token.kind_of_isSymbol h]; decide)⟩

theorem reads_atKeyword {w : Text} (ha : a.Inside)
    (h : a.atKeyword w = true) : Reads a [a.current] a.next :=
  ⟨passes_current ha (Token.isEnding_of_isKeyword h),
    readable_singleton (by rw [Token.kind_of_isKeyword h]; decide)⟩

theorem passes_atInteger [NestingLimit] (ha : a.Inside)
    (h : a.atInteger = true) :
    Passes a [a.current] [] a.next :=
  passes_current ha (isEnding_of_atInteger h)

theorem reads_atInteger [NestingLimit] (ha : a.Inside)
    (h : a.atInteger = true)
    (hdigits : Numeral.digitCount a.current.text ≤ integerDigitsMax) :
    Reads a [a.current] a.next :=
  ⟨passes_atInteger ha h, readable_number hdigits⟩

/-- Where no fault is noted of a number, it has not too many digits. -/
theorem digitCount_le_of_readInteger
    (h : (a.readInteger t).2.halt? = none) :
    Numeral.digitCount t.text ≤ integerDigitsMax := by
  refine Nat.not_lt.1 fun hdigits => ?_
  unfold readInteger halt at h
  simp only [if_pos hdigits] at h
  split at h
  next hnote =>
    rw [h] at hnote
    cases hnote
  next => cases h

/-- Without a fault after a number there was none before. -/
theorem unhalted_of_readInteger (h : (a.readInteger t).2.halt? = none) :
    a.halt? = none := by
  have hdigits := digitCount_le_of_readInteger h
  unfold readInteger at h
  simp only [if_neg (Nat.not_lt.2 hdigits)] at h
  exact h

-- ================================================================== ranges

theorem readRange_silent [NestingLimit] (ha : a.InText)
    (h : a.readRange.2.Silent) :
    ∃ r : RangeTree, a.readRange.1 = some r.value
      ∧ Reads a r.tokens a.readRange.2 := by
  cases hlow : a.atInteger with
  | false =>
    have herrors := h.errors
    unfold readRange at herrors
    simp only [hlow, Bool.not_false, if_true] at herrors
    exact absurd herrors (errors_report_ne_nil _ _ _)
  | true =>
    have hinside₁ := (passes_atInteger ha.inside hlow).inside ha.inside
    cases hdots : a.next.atSymbol ".." with
    | false =>
      have herrors := h.errors
      unfold readRange at herrors
      simp only [hlow, hdots, Bool.not_true, Bool.not_false,
        Bool.false_eq_true, if_true, if_false] at herrors
      exact absurd herrors (errors_report_ne_nil _ _ _)
    | true =>
      have hread₂ := reads_atSymbol hinside₁ hdots
      have hinside₂ := hread₂.passes.inside hinside₁
      cases hhigh : a.next.next.atInteger with
      | false =>
        have herrors := h.errors
        unfold readRange at herrors
        simp only [hlow, hdots, hhigh, Bool.not_true, Bool.not_false,
          Bool.false_eq_true, if_true, if_false] at herrors
        exact absurd herrors (errors_report_ne_nil _ _ _)
      | true =>
        have hdigits : Numeral.digitCount a.current.text ≤ integerDigitsMax
            ∧ Numeral.digitCount a.next.next.current.text
              ≤ integerDigitsMax := by
          rcases h.short with hhalt | hreadable
          · unfold readRange at hhalt
            simp only [hlow, hdots, hhigh, Bool.not_true, Bool.false_eq_true,
              if_false] at hhalt
            replace hhalt : ((a.next.next.next.readInteger
                a.current).2.readInteger a.next.next.current).2.halt?
                  = none := by
              split at hhalt <;> exact hhalt
            exact ⟨digitCount_le_of_readInteger
                (unhalted_of_readInteger hhalt),
              digitCount_le_of_readInteger hhalt⟩
          · rw [(steps_readRange ha.inside).toList] at hreadable
            have hnext := (steps_next a).trans (steps_next a.next)
            exact ⟨hreadable _ ha.inside.current_mem (kind_of_atInteger hlow),
              hreadable _ (hnext.toList ▸ hinside₂.current_mem)
                (kind_of_atInteger hhigh)⟩
        have hread₁ := reads_atInteger ha.inside hlow hdigits.1
        have hread₃ := reads_atInteger hinside₂ hhigh hdigits.2
        let r : RangeTree :=
          ⟨⟨a.current, kind_of_atInteger hlow⟩, ⟨a.next.current, hdots⟩,
            ⟨a.next.next.current, kind_of_atInteger hhigh⟩⟩
        have hread : Reads a r.tokens a.next.next.next :=
          hread₁.trans (hread₂.trans hread₃)
        obtain ⟨hvalue, hpass⟩ :=
          readRange_of_tree r hread.passes.ahead (hread.legible ha)
        exact ⟨r, hvalue, hpass.reads hread.readable h⟩

theorem readRangeOrSkip_silent [NestingLimit] (ha : a.InText)
    (h : a.readRangeOrSkip.2.Silent) :
    ∃ r : RangeTree, a.readRangeOrSkip.1 = some r.value
      ∧ Reads a r.tokens a.readRangeOrSkip.2 := by
  have hsilent : a.readRange.2.Silent := by
    unfold readRangeOrSkip at h
    simp only at h
    split at h
    · exact (steps_skipToRangeBoundary _).silent h
    · exact h
  obtain ⟨r, -, hread⟩ := readRange_silent ha hsilent
  obtain ⟨hvalue, hpass⟩ :=
    readRangeOrSkip_of_tree r hread.passes.ahead (hread.legible ha)
  exact ⟨r, hvalue, hpass.reads hread.readable h⟩

theorem readRanges_silent [NestingLimit] (ha : a.InText)
    (h : a.readRanges.2.Silent) :
    ∃ (ranges : CommaList RangeTree) (right : SymbolOf "]"),
      Reads a (ranges.tokens RangeTree.tokens ++ [right.val])
        a.readRanges.2 := by
  fun_induction readRanges a with
  | case1 a read a' hcomma more ih =>
    have hsteps := (steps_readRangeOrSkip ha.inside).inside ha.inside
    have hnext := (steps_next a').inside hsteps
    have hsilent : a'.Silent :=
      ((steps_next a').trans (steps_readRanges hnext)).silent h
    obtain ⟨first, -, hread⟩ := readRangeOrSkip_silent ha hsilent
    rw [unreadSymbol_eq hsteps] at hcomma
    have hcomma' := hread.trans (reads_atSymbol hsteps hcomma)
    obtain ⟨⟨second, others⟩, right, hmore⟩ := ih (hcomma'.inText ha) h
    refine ⟨⟨first, (⟨a'.current, hcomma⟩, second) :: others⟩, right, ?_⟩
    simpa [CommaList.tokens, CommaList.moreTokens, List.append_assoc]
      using hcomma'.trans hmore
  | case2 a read a' hcomma hend =>
    have hsteps := (steps_readRangeOrSkip ha.inside).inside ha.inside
    have hsilent : a'.Silent := (steps_passBracket a').silent h
    obtain ⟨first, hvalue, hread⟩ := readRangeOrSkip_silent ha hsilent
    have hright : a'.atSymbol "]" = true := by
      rw [Bool.or_eq_true] at hend
      refine hend.resolve_right ?_
      show ¬ a.readRangeOrSkip.1.isNone = true
      rw [hvalue]
      exact Bool.false_ne_true
    have hbracket : a'.passBracket = a'.next := by
      unfold passBracket
      rw [if_pos hright]
    refine ⟨⟨first, []⟩, ⟨a'.current, hright⟩, ?_⟩
    rw [hbracket]
    simpa [CommaList.tokens, CommaList.moreTokens]
      using hread.trans (reads_atSymbol hsteps hright)
  | case3 a read a' hcomma hend a'' hcomma' more ih =>
    have hinside := (steps_skipAfterRange a').inside
      ((steps_readRangeOrSkip ha.inside).inside ha.inside)
    have hmore := (steps_next a'').trans
      (steps_readRanges ((steps_next a'').inside hinside))
    exact absurd h.errors
      (hmore.errors_ne_nil (errors_skipAfterRange_ne_nil a'))
  | case4 a read a' hcomma hend a'' hcomma' =>
    exact absurd h.errors ((steps_passBracket a'').errors_ne_nil
      (errors_skipAfterRange_ne_nil a'))

theorem readArrayRanges_silent [NestingLimit] (ha : a.InText)
    (hword : a.atKeyword "array" = true) (h : a.readArrayRanges.2.Silent) :
    ∃ (left : SymbolOf "[") (ranges : CommaList RangeTree)
        (right : SymbolOf "]"),
      Reads a (a.current :: left.val ::
          (ranges.tokens RangeTree.tokens ++ [right.val]))
        a.readArrayRanges.2 := by
  have hread := reads_atKeyword ha.inside hword
  have hnext := hread.inText ha
  unfold readArrayRanges at h ⊢
  simp only at h ⊢
  by_cases hleft : a.next.atSymbol "[" = true
  · rw [if_pos hleft] at h ⊢
    have hopen := hread.trans (reads_atSymbol hnext.inside hleft)
    obtain ⟨ranges, right, hranges⟩ := readRanges_silent (hopen.inText ha) h
    exact ⟨⟨a.next.current, hleft⟩, ranges, right, hopen.trans hranges⟩
  · rw [if_neg hleft] at h
    have hinside := hnext.inside.congr (b := (a.next.report
      a.next.current.pos .arrayBracketExpected).recover) rfl
    refine absurd h.errors (Steps.errors_ne_nil ?_
      (errors_report_ne_nil a.next a.next.current.pos .arrayBracketExpected))
    refine (steps_recover _).trans ?_
    split
    · exact steps_readRanges hinside
    · exact (steps_skipToRangeBoundary _).trans (steps_passBracket _)

-- =================================================================== types

theorem closeSize_silent {size : Option Int} (ha : a.Inside)
    (h : (closeSize size a).2.Silent) :
    ∃ right : SymbolOf "]", Reads a [right.val] (closeSize size a).2 := by
  unfold closeSize at h ⊢
  simp only at h ⊢
  split at h
  next hright =>
    rw [if_pos hright]
    exact ⟨⟨a.current, hright⟩, reads_atSymbol ha hright⟩
  next => exact absurd h.errors (errors_expect_ne_nil _ _ _)

theorem errors_refuseType_ne_nil [NestingLimit] (ha : a.Inside) :
    a.refuseType.2.errors ≠ [] := by
  unfold refuseType
  simp only
  refine (steps_recover _).errors_ne_nil ?_
  split
  · exact errors_expect_ne_nil _ _ _
  · refine (steps_passOnLine ?_).errors_ne_nil (errors_report_ne_nil _ _ _)
    exact ha.congr rfl

/-- Behind the word for a string a size in brackets is read, or nothing. -/
theorem readStringType_silent [NestingLimit] (ha : a.InText)
    (h : a.readStringType.2.Silent) :
    a.readStringType.2 = a
      ∨ ∃ (left : SymbolOf "[") (size : IntegerLeaf) (right : SymbolOf "]"),
        Reads a [left.val, size.val, right.val] a.readStringType.2 := by
  unfold readStringType at h ⊢
  by_cases hleft : a.atSymbol "[" = true
  · rw [if_neg (by rw [hleft]; decide)] at h ⊢
    have hopen := reads_atSymbol ha.inside hleft
    have hnext := hopen.inText ha
    simp only at h ⊢
    by_cases hsize : a.next.atInteger = true
    · right
      rw [if_pos hsize] at h ⊢
      have hinside := (passes_atInteger hnext.inside hsize).inside
        hnext.inside
      have hdigits : Numeral.digitCount a.next.current.text
          ≤ integerDigitsMax := by
        rcases ((steps_closeSize _ _).silent h).short with hhalt | hreadable
        · refine digitCount_le_of_readInteger (a := a.next.next) ?_
          split at hhalt <;> exact hhalt
        · refine hreadable _ ?_ (kind_of_atInteger hsize)
          have hmem := hnext.inside.current_mem
          rw [← (steps_next a.next).toList] at hmem
          split <;> simpa using hmem
      have hnumber := reads_atInteger hnext.inside hsize hdigits
      have hlegible := hnumber.legible hnext _ List.mem_cons_self
      rw [readInteger_of_legible (n := ⟨_, kind_of_atInteger hsize⟩) _
        hlegible] at h ⊢
      simp only at h ⊢
      split at h
      next hadmitted =>
        rw [if_pos hadmitted]
        obtain ⟨right, hright⟩ := closeSize_silent hinside h
        exact ⟨⟨a.current, hleft⟩, ⟨_, kind_of_atInteger hsize⟩, right,
          hopen.trans (hnumber.trans hright)⟩
      next =>
        exact absurd h.errors ((steps_closeSize _ _).errors_ne_nil
          (errors_report_ne_nil _ _ _))
    · rw [if_neg hsize] at h
      refine absurd h.errors ?_
      have hreport := errors_report_ne_nil a.next a.next.current.pos
        .sizeExpected
      have hinside := hnext.inside.congr (b := (a.next.report
        a.next.current.pos .sizeExpected).recover) rfl
      have hclose : ∀ d : Analysis, d.errors ≠ [] →
          (if d.atSymbol "]" then closeSize none d
            else (.string none, d)).2.errors ≠ [] := by
        intro d hd
        split
        · exact (steps_closeSize _ _).errors_ne_nil hd
        · exact hd
      apply hclose
      split
      · exact hreport
      · exact (steps_passOnLine hinside).errors_ne_nil hreport
  · left
    rw [if_pos (by rw [Bool.eq_false_iff.2 hleft]; rfl)]

theorem readSimpleType_silent [NestingLimit] (ha : a.InText)
    (h : a.readSimpleType.2.Silent) :
    ∃ s : SimpleTree, Reads a s.tokens a.readSimpleType.2 := by
  unfold readSimpleType at h ⊢
  simp only at h ⊢
  split at h
  next hscalar =>
    rw [if_pos hscalar]
    rw [Bool.and_eq_true] at hscalar
    have hkind : a.current.kind = .keyword := beq_iff_eq.1 hscalar.1
    exact ⟨.scalar ⟨a.current, hkind, List.contains_iff_mem.1 hscalar.2⟩,
      passes_current ha.inside
        (Token.isEnding_eq_false_of_kind (by rw [hkind]; decide)),
      readable_singleton (by rw [hkind]; decide)⟩
  next hscalar =>
    rw [if_neg hscalar]
    split at h
    next hword =>
      rw [if_pos hword]
      have hread := reads_atKeyword ha.inside hword
      rcases readStringType_silent (hread.inText ha) h with
        hplain | ⟨left, size, right, hsized⟩
      · rw [hplain]
        exact ⟨.string ⟨a.current, hword⟩, hread⟩
      · exact ⟨.sized ⟨a.current, hword⟩ left size right,
          hread.trans hsized⟩
    next => exact absurd h.errors (errors_refuseType_ne_nil ha.inside)

/-- Reading a type, or the elements of an array, passes a type, and nowhere
an array inside an array. -/
theorem readType_silent [NestingLimit] {depth : Nat} (ha : a.InText)
    (hdepth : depth ≤ arrayWords a.cursor.behind)
    (h : (a.readType depth).2.Silent) :
    ∃ ty : TypeTree, ty.arrays ≤ 1 - depth
      ∧ Reads a ty.tokens (a.readType depth).2 := by
  revert ha hdepth h
  refine readType.induct
    (fun depth a => a.InText → depth ≤ arrayWords a.cursor.behind →
      (readType depth a).2.Silent →
      ∃ ty : TypeTree, ty.arrays ≤ 1 - depth
        ∧ Reads a ty.tokens (readType depth a).2)
    (fun depth ranges a => a.InText → depth < arrayWords a.cursor.behind →
      (readElements depth ranges a).2.Silent →
      ∃ (of : KeywordOf "of") (element : TypeTree), element.arrays = 0
        ∧ Reads a (of.val :: element.tokens) (readElements depth ranges a).2)
    ?array ?array' ?simple ?of ?missing ?none depth a
  case array =>
    intro depth a harray ranges hnested ih ha hdepth h
    rw [readType_of_nested hnested harray] at h
    exact absurd h.errors (errors_report_ne_nil _ _ _)
  case array' =>
    intro depth a harray ranges hnested ih ha hdepth h
    obtain rfl := Nat.eq_zero_of_not_pos hnested
    obtain ⟨hsteps, hpassed⟩ := steps_enterArray ha.inside harray hdepth
    rw [readType_of_array harray] at h ⊢
    simp only [ranges, descend_zero] at ih h hsteps hpassed ⊢
    have hsilent := (steps_readElements a.readArrayRanges.1
      (hsteps.inside ha.inside) hpassed).silent h
    rw [unreadKeyword_eq ha.inside] at harray
    obtain ⟨left, items, right, hread⟩ :=
      readArrayRanges_silent ha harray hsilent
    obtain ⟨of, element, harrays, helements⟩ :=
      ih (hread.inText ha) hpassed h
    refine ⟨.array ⟨a.current, harray⟩ left items right of element,
      Nat.le_of_eq (congrArg (· + 1) harrays), ?_⟩
    simpa [TypeTree.tokens, List.append_assoc] using hread.trans helements
  case simple =>
    intro depth a harray ha hdepth h
    rw [readType_of_simple depth harray] at h ⊢
    obtain ⟨s, hread⟩ := readSimpleType_silent ha h
    exact ⟨.simple s, Nat.zero_le _, hread⟩
  case of =>
    intro depth ranges a hof ih ha hdepth h
    rw [readElements_of_of depth ranges hof] at h ⊢
    have hread := reads_atKeyword ha.inside hof
    obtain ⟨element, harrays, helement⟩ := ih (hread.inText ha)
      (Nat.le_trans hdepth ((steps_next a).arrayWords_le ha.inside)) h
    exact ⟨⟨a.current, hof⟩, element, by omega, hread.trans helement⟩
  case missing =>
    intro depth ranges a hof hstarts ih ha hdepth h
    rw [readElements_of_missing depth ranges hof hstarts] at h
    have hmissing := steps_missingOf a
    exact absurd h.errors ((steps_readType (hmissing.inside ha.inside)
      (Nat.le_trans hdepth (hmissing.arrayWords_le ha.inside))).errors_ne_nil
      (errors_missingOf_ne_nil a))
  case none =>
    intro depth ranges a hof hstarts ha hdepth h
    rw [readElements_of_none depth ranges hof hstarts] at h
    exact absurd h.errors (errors_missingOf_ne_nil a)

-- =================================================================== names

/-- What a glued name begins with touches the lexeme in front of it. -/
theorem pos_of_gluedRun {last : Token} {unread more : List Token}
    (h : gluedRun last unread = u :: more) : u.pos = last.endPos := by
  cases unread with
  | nil => cases h
  | cons t rest =>
    unfold gluedRun at h
    split at h
    next hglued =>
      rw [← (List.cons.inj h).1]
      exact hglued.1
    next => cases h

/-- A name on one line begins like a word and goes on like one. -/
theorem nameChars_of_isName {text : Text}
    (hline : ∀ c ∈ text, isLineBreak c = false) (h : isName text = true) :
    text.head?.any isNameStart = true ∧ ∀ c ∈ text, isNameChar c = true := by
  unfold isName at h
  rw [Numeral.dropFinalBreak_eq_self hline] at h
  cases text with
  | nil => cases h
  | cons c rest =>
    simp only [Bool.and_eq_true] at h
    refine ⟨h.1, fun d hd => ?_⟩
    rcases List.mem_cons.1 hd with rfl | hd
    · unfold isNameChar
      rw [h.1]
      rfl
    · exact List.all_eq_true.1 h.2 d hd

/-- A valid name, glued from the lexemes of a text, is one lexeme. -/
theorem gluedRun_of_valid {first : Token} {unread : List Token}
    (hlexed : Lexed (first :: unread)) (hend : first.isEnding = false)
    (hvalid : isValidName (Text.join
      ((first :: gluedRun first unread).map (·.text))) = true) :
    first.kind = .identifier ∧ gluedRun first unread = [] := by
  unfold isValidName at hvalid
  rw [Bool.and_eq_true, Bool.not_eq_true'] at hvalid
  obtain ⟨hname, hkeyword⟩ := hvalid
  have hcut : ∀ t ∈ first :: gluedRun first unread, t.WellCut := by
    intro t ht
    rcases List.mem_cons.1 ht with rfl | ht
    · exact hlexed.wellCut t List.mem_cons_self hend
    · exact hlexed.wellCut t
        (List.mem_cons_of_mem _ ((gluedRun_isPrefix first unread).mem ht))
        (notEnding_of_mem_gluedRun ht)
  obtain ⟨hstart, hchars⟩ := nameChars_of_isName (by
    intro c hc
    obtain ⟨w, hw, hc⟩ := List.mem_flatten.1 hc
    obtain ⟨t, ht, rfl⟩ := List.mem_map.1 hw
    exact (hcut t ht).oneLine c hc) hname
  have hfirst := hcut first List.mem_cons_self
  have hstart' : first.text.head?.any isNameStart = true := by
    cases htext : first.text with
    | nil => exact absurd htext hfirst.nonempty
    | cons c more =>
      rw [List.map_cons, htext] at hstart
      exact hstart
  cases hglued : gluedRun first unread with
  | nil =>
    refine ⟨(hfirst.word hstart').resolve_right fun hkind => ?_, rfl⟩
    rw [hglued] at hkeyword
    have hjoin : Text.join (List.map (·.text) [first]) = first.text :=
      List.append_nil _
    rw [hjoin, hfirst.keyword hkind] at hkeyword
    cases hkeyword
  | cons u more =>
    exfalso
    rw [hglued] at hcut hchars
    obtain ⟨rest, hrest⟩ := gluedRun_isPrefix first unread
    rw [hglued, List.cons_append] at hrest
    have hapart : Token.Apart first u := by
      have hchain := hlexed.apart
      rw [← hrest] at hchain
      exact (List.isChain_cons_cons.1 hchain).1
    have hu := hapart (pos_of_gluedRun hglued) hstart'
    have hnonempty :=
      (hcut u (List.mem_cons_of_mem _ List.mem_cons_self)).nonempty
    cases htext : u.text with
    | nil => exact hnonempty htext
    | cons c w =>
      rw [htext] at hu
      have hc := hchars c (by
        refine List.mem_flatten.2 ⟨u.text, ?_, by
          rw [htext]; exact List.mem_cons_self⟩
        exact List.mem_map_of_mem
          (List.mem_cons_of_mem _ List.mem_cons_self))
      rw [show isNameChar c = false from hu] at hc
      cases hc

theorem readName_silent (ha : a.InText) (hend : a.current.isEnding = false)
    (h : a.readName.2.errors = []) :
    a.current.kind = .identifier ∧ Reads a [a.current] a.readName.2 := by
  have hpass := passes_current ha.inside hend
  have hupcoming := (hpass.inside ha.inside).upcoming
  have hlexed : Lexed (a.current :: a.next.cursor.ahead) := by
    have hahead := ha.lexed
    rw [hpass.ahead] at hahead
    exact hahead
  unfold readName at h ⊢
  simp only [hupcoming] at h ⊢
  split at h
  next hvalid =>
    obtain ⟨hkind, hglued⟩ := gluedRun_of_valid hlexed hend hvalid
    rw [if_pos hvalid, hglued]
    exact ⟨hkind, hpass, readable_singleton (by rw [hkind]; decide)⟩
  next => exact absurd h (errors_report_ne_nil _ _ _)

theorem errors_abandonNames_ne_nil [NestingLimit] (a : Analysis)
    (comma : Token) :
    (a.abandonNames comma).errors ≠ [] := by
  unfold abandonNames
  simp only
  have hreport := errors_report_ne_nil a a.current.pos .nameExpected
  split
  · exact ((steps_recover _).trans (steps_next _)).errors_ne_nil hreport
  · exact hreport

theorem readMoreNames_silent [NestingLimit] (ha : a.InText)
    (h : a.readMoreNames.2.Silent) :
    ∃ more : List (SymbolOf "," × NameLeaf),
      Reads a (CommaList.moreTokens (fun n : NameLeaf => [n.val]) more)
        a.readMoreNames.2 := by
  fun_induction readMoreNames a with
  | case1 a hcomma hname name more ih =>
    have hread₁ := reads_atSymbol ha.inside hcomma
    have hnext := hread₁.inText ha
    have hinside := (steps_readName hnext.inside).inside hnext.inside
    have hsilent : name.2.Silent := (steps_readMoreNames hinside).silent h
    obtain ⟨hkind, hread₂⟩ := readName_silent hnext
      (isEnding_of_atNameAfter hname) hsilent.errors
    obtain ⟨others, hothers⟩ := ih (hread₂.inText hnext) h
    exact ⟨(⟨a.current, hcomma⟩, ⟨a.next.current, hkind⟩) :: others,
      hread₁.trans (hread₂.trans hothers)⟩
  | case2 a hcomma hname =>
    exact absurd h.errors (errors_abandonNames_ne_nil a.next a.current)
  | case3 a hcomma => exact ⟨[], .refl a⟩

theorem readNames_silent [NestingLimit] (ha : a.InText)
    (hend : a.current.isEnding = false) (h : a.readNames.2.Silent) :
    ∃ names : CommaList NameLeaf,
      Reads a (names.tokens fun n => [n.val]) a.readNames.2 := by
  have hinside := (steps_readName ha.inside).inside ha.inside
  have hsilent : a.readName.2.Silent := (steps_readMoreNames hinside).silent h
  obtain ⟨hkind, hread⟩ := readName_silent ha hend hsilent.errors
  obtain ⟨more, hmore⟩ := readMoreNames_silent (hread.inText ha) h
  exact ⟨⟨⟨a.current, hkind⟩, more⟩, hread.trans hmore⟩

-- ================================================ declarations and sections

theorem readTypePart_silent [NestingLimit] (ha : a.InText)
    (hmark : a.recovering = false) (h : a.readTypePart.2.Silent) :
    ∃ (colon : SymbolOf ":") (ty : TypeTree), ty.arrays ≤ 1
      ∧ Reads a (colon.val :: ty.tokens) a.readTypePart.2 := by
  have hunknown :=
    (steps_readTypePart_of_unknown ha.inside).errors_eq_nil h.errors
  unfold readTypePart at h ⊢
  simp only [reportUnknown_of_silent ha.inside hunknown] at h ⊢
  by_cases hcolon : a.atSymbol ":" = true
  · rw [if_pos hcolon] at h ⊢
    have hread := reads_atSymbol ha.inside hcolon
    obtain ⟨ty, harrays, htype⟩ := readType_silent (hread.inText ha)
      (Nat.zero_le _) h
    exact ⟨⟨a.current, hcolon⟩, ty, harrays, hread.trans htype⟩
  · rw [if_neg hcolon, hmark] at h
    simp only [Bool.or_self, Bool.false_or, Bool.false_eq_true,
      if_false] at h
    refine absurd h.errors ?_
    have hreport := errors_reportAfterPrevious_ne_nil a .colonExpected
    split
    · exact (steps_readType (ha.inside.congr (by simp))
        (Nat.zero_le _)).errors_ne_nil hreport
    · exact hreport

theorem endDeclaration_silent [NestingLimit] (ha : a.InText)
    (hmark : a.recovering = false) (hbehind : a.cursor.behind ≠ [])
    (h : a.endDeclaration.errors = []) :
    ∃ semicolon : SymbolOf ";",
      Reads a [semicolon.val] a.endDeclaration := by
  have hunknown :=
    (steps_endDeclaration_of_unknown ha.inside hbehind).errors_eq_nil h
  unfold endDeclaration at h ⊢
  simp only [reportUnknown_of_silent ha.inside hunknown] at h ⊢
  by_cases hsemicolon : a.atSymbol ";" = true
  · rw [if_pos hsemicolon] at h ⊢
    have hread := reads_atSymbol ha.inside hsemicolon
    rw [reportUnknown_of_silent (hread.inside ha) h]
    exact ⟨⟨a.current, hsemicolon⟩, hread⟩
  · rw [if_neg hsemicolon, hmark] at h
    simp only [Bool.or_self, Bool.false_eq_true, if_false] at h
    refine absurd h ?_
    have hreport := errors_reportAfterPrevious_ne_nil a .semicolonExpected
    split
    · exact hreport
    · have hcursor := cursor_reportAfterPrevious a .semicolonExpected
      refine (steps_synchronizeHere (ha.inside.congr hcursor) ?_).errors_ne_nil
        hreport
      rw [hcursor]
      exact hbehind

/-- A declaration in which nothing was found is written as the grammar
says. -/
theorem readDeclaration_silent [NestingLimit] (ha : a.InText)
    (hend : a.current.isEnding = false) (h : a.readDeclaration.Silent) :
    a.readDeclaration.InText ∧ ∃ d : DeclarationTree, d.type.arrays ≤ 1
      ∧ Readable d.tokens
      ∧ a.cursor.ahead = d.tokens ++ a.readDeclaration.cursor.ahead := by
  have hstart : a.unmarked.InText := ⟨ha.inside.congr rfl, ha.lexed⟩
  have hnamed := (steps_unmarked ha.inside).inside ha.inside
  have hbehind := List.ne_nil_of_mem
    (current_mem_behind_readNames hstart.inside hend)
  have htype := steps_readTypePart hnamed
  have hbehind' := htype.behind_ne_nil hnamed hbehind
  have hdone := steps_endDeclaration (htype.inside hnamed) hbehind'
  -- what is silent in the end was silent in every part
  have h₃ : a.readParts.Silent := (steps_declareParts ha.inside hend).silent h
  have h₂ := hdone.silent ⟨h₃.errors, h₃.short⟩
  have h₁ := htype.silent h₂
  obtain ⟨names, hread₁⟩ := readNames_silent hstart hend h₁
  have ha₁ := hread₁.inText hstart
  obtain ⟨colon, ty, harrays, hread₂⟩ :=
    readTypePart_silent ha₁ hread₁.passes.recovering h₂
  have ha₂ := hread₂.inText ha₁
  obtain ⟨semicolon, hread₃⟩ := endDeclaration_silent ha₂
    (hread₂.passes.recovering.trans hread₁.passes.recovering) hbehind'
    h₃.errors
  have hcursor : a.readDeclaration.cursor
      = a.unmarked.readNames.2.readTypePart.2.endDeclaration.cursor :=
    cursor_declare ..
  obtain ⟨hinside, hlexed⟩ := hread₃.inText ha₂
  have hread := hread₁.trans (hread₂.trans hread₃)
  refine ⟨⟨hinside.congr hcursor, by rw [hcursor]; exact hlexed⟩,
    ⟨names, colon, ty, semicolon⟩, harrays, hread.readable, ?_⟩
  have hahead : a.cursor.ahead = _ := hread.passes.ahead
  rw [hcursor, hahead]
  simp [DeclarationTree.tokens]

theorem readBlock_silent [NestingLimit] (ha : a.InText)
    (h : a.readBlock.Silent) :
    a.readBlock.InText ∧ ∃ ds : List DeclarationTree,
      Readable (ds.flatMap DeclarationTree.tokens) ∧ a.cursor.ahead
        = ds.flatMap DeclarationTree.tokens ++ a.readBlock.cursor.ahead := by
  fun_induction readBlock a with
  | case1 a hname ih =>
    have hend := isEnding_of_unreadName hname
    have hread := (steps_readDeclaration ha.inside hend).inside ha.inside
    have hsilent := (steps_readBlock hread).silent h
    obtain ⟨ha', d, -, hreadable, hd⟩ :=
      readDeclaration_silent ha hend hsilent
    obtain ⟨hdone, ds, hreadable', hds⟩ := ih ha' h
    refine ⟨hdone, d :: ds, ?_⟩
    rw [List.flatMap_cons, List.append_assoc, ← hds]
    exact ⟨hreadable.append hreadable', hd⟩
  | case2 a hname =>
    exact ⟨ha, [], readable_nil, rfl⟩

/-- A section in which nothing was found is written as the grammar says, up
to the mark of the end. -/
theorem readSection_silent [NestingLimit] (ha : a.InText)
    (h : a.readSection.Silent) :
    ∃ (s : SectionTree) (last : Token) (rest : List Token),
      last.isEnding = true ∧ Readable s.tokens
        ∧ a.cursor.ahead = s.tokens ++ last :: rest := by
  fun_induction readSection a with
  | case1 a hhead =>
    obtain ⟨rest, hrest⟩ := ha.inside.exists_ahead
    rw [hrest] at hhead
    cases hhead
  | case2 a t hhead hend =>
    obtain ⟨rest, hrest⟩ := ha.inside.exists_ahead
    rw [hrest] at hhead
    obtain rfl := Option.some.inj hhead
    exact ⟨⟨[]⟩, a.current, rest, beq_iff_eq.2 hend, readable_nil, hrest⟩
  | case3 a t hhead hend hvar ih =>
    obtain ⟨rest, hrest⟩ := ha.inside.exists_ahead
    rw [hrest] at hhead
    obtain rfl := Option.some.inj hhead
    have hword := reads_atKeyword ha.inside hvar
    have hnext := hword.inText ha
    have hblock := (steps_readBlock hnext.inside).inside hnext.inside
    have hsilent := (steps_readSection hblock).silent h
    obtain ⟨ha', ds, hreadable, hds⟩ := readBlock_silent hnext hsilent
    obtain ⟨⟨blocks⟩, last, rest', hlast, hreadable', hahead⟩ := ih ha' h
    refine ⟨⟨⟨⟨a.current, hvar⟩, ds⟩ :: blocks⟩, last, rest', hlast,
      (hword.readable.append hreadable).append hreadable', ?_⟩
    rw [hword.passes.ahead, hds, hahead]
    simp [SectionTree.tokens, BlockTree.tokens]
  | case4 a t hhead hend hvar ih =>
    have hstray := (steps_passStray ha.inside).inside ha.inside
    exact absurd h.errors ((steps_readSection hstray).errors_ne_nil
      (errors_report_ne_nil _ _ _))

end VarSection.Analysis
