/-
What is recorded of types, also where the analysis fails. A type that is
recorded is well-formed (`VarType.WellFormed`): one of the words for types, a
string, or an array whose elements are no array. Its values may be faulty.
Bounds may be the wrong way round, and a size may be none that a string can
have. But a reader of a type yields its values and its faults together
(`Yields`): each value was written, as a number that has been passed, and each
fault is among what the reader found, with the values that it is about.

What readers yield one after another adds up (`Yields.trans`), so the faults of
all types that are recorded are, in their order, among the findings of the
whole analysis. No two of them share a finding.
-/
import VarSection.Proofs.Analysis.Typed

namespace VarSection

open Analysis

-- ==================================================== types and their values

namespace IndexRange

/-- The bounds of an index range. -/
def bounds (r : IndexRange) : List Int := [r.low, r.high]

/-- What is wrong with an index range: its bounds may be the wrong way
round. -/
def faults (r : IndexRange) : List Cause :=
  if r.low > r.high then [.boundsInverted r.low r.high] else []

end IndexRange

namespace VarType

/-- What is wrong with the size of a string: no string may have it. -/
def sizeFaults (size : Int) : List Cause :=
  if stringSizeMin ≤ size ∧ size ≤ stringSizeMax then []
  else [.sizeOutOfRange size]

/-- The bounds and sizes of a type. -/
def values : VarType → List Int
  | .string size => size.toList
  | .array ranges element =>
    ranges.flatMap IndexRange.bounds ++ element.values
  | .scalar _ | .unknown | .missing => []

/-- What is wrong with the bounds and sizes of a type. -/
def faults : VarType → List Cause
  | .string size => size.toList.flatMap sizeFaults
  | .array ranges element =>
    ranges.flatMap IndexRange.faults ++ element.faults
  | .scalar _ | .unknown | .missing => []

end VarType

/-- Whether a finding is about bounds or a size that are kept as written. -/
def Cause.isOfValues : Cause → Bool
  | .boundsInverted _ _ | .sizeOutOfRange _ => true
  | _ => false

theorem VarType.isOfValues_of_mem_faults {type : VarType} {cause : Cause}
    (h : cause ∈ type.faults) : cause.isOfValues = true := by
  induction type with
  | scalar name => cases h
  | string size =>
    obtain ⟨n, -, hn⟩ := List.mem_flatMap.1 h
    unfold sizeFaults at hn
    split at hn
    · cases hn
    · rw [List.mem_singleton.1 hn]
      rfl
  | array ranges element ih =>
    rcases List.mem_append.1 h with h | h
    · obtain ⟨r, -, hr⟩ := List.mem_flatMap.1 h
      unfold IndexRange.faults at hr
      split at hr
      · rw [List.mem_singleton.1 hr]
        rfl
      · cases hr
    · exact ih h
  | unknown => cases h
  | missing => cases h

namespace Analysis

variable {a b c : Analysis} {read more : List Int}
  {causes found : List Cause} {table : List Token}

-- ======================================================= what a reader yields

/-- From one state to another values were read, each from a number that has
been passed, and faults were found, each by a finding of its own. -/
structure Yields [NestingLimit] (a : Analysis) (values : List Int)
    (faults : List Cause) (b : Analysis) : Prop where
  steps : Steps a b
  values : ∀ n ∈ values, ∃ t ∈ b.cursor.behind, t.kind = .number
    ∧ Numeral.isInteger t.text = true ∧ Numeral.value t.text = n
  faults : ∃ errors, b.errors = errors ++ a.errors
    ∧ faults.Sublist (errors.reverse.map (·.cause))

namespace Yields

/-- Steps on which nothing is read that could be at fault. -/
theorem ofSteps [NestingLimit] (h : Steps a b) : Yields a [] [] b := by
  obtain ⟨errors, herrors⟩ := h.errors_suffix
  exact ⟨h, by simp, errors, herrors.symm, List.nil_sublist _⟩

/-- What is yielded in a row adds up. -/
theorem trans [NestingLimit] (h : Yields a read causes b)
    (h' : Yields b more found c) (ha : a.Inside) :
    Yields a (read ++ more) (causes ++ found) c := by
  refine ⟨h.steps.trans h'.steps, fun n hn => ?_, ?_⟩
  · rcases List.mem_append.1 hn with hn | hn
    · obtain ⟨t, ht, hnumber⟩ := h.values n hn
      exact ⟨t, h'.steps.mem_behind (h.steps.inside ha) ht, hnumber⟩
    · exact h'.values n hn
  · obtain ⟨errors, herrors, hfaults⟩ := h.faults
    obtain ⟨others, hothers, hfound⟩ := h'.faults
    refine ⟨others ++ errors, by rw [hothers, herrors, List.append_assoc], ?_⟩
    rw [List.reverse_append, List.map_append]
    exact hfaults.append hfound

/-- Steps in front yield nothing. -/
theorem after [NestingLimit] (h : Yields b read causes c) (hsteps : Steps a b)
    (ha : a.Inside) : Yields a read causes c :=
  (ofSteps hsteps).trans h ha

/-- Steps behind yield nothing. -/
theorem before [NestingLimit] (h : Yields a read causes b)
    (hsteps : Steps b c) (ha : a.Inside) : Yields a read causes c := by
  have hall := h.trans (ofSteps hsteps) ha
  rw [List.append_nil, List.append_nil] at hall
  exact hall

end Yields

-- ==================================================== ranges and sizes

/-- An integer that is passed can be looked up. -/
theorem exists_behind_of_atInteger [NestingLimit] (ha : a.Inside)
    (h : a.atInteger = true) (hsteps : Steps a.next b) :
    ∃ t ∈ b.cursor.behind, t.kind = .number
      ∧ Numeral.isInteger t.text = true
      ∧ Numeral.value t.text = Numeral.value a.current.text := by
  refine ⟨a.current, ?_, kind_of_atInteger h, ?_, rfl⟩
  · exact hsteps.mem_behind ((steps_next a).inside ha)
      (current_mem_behind_next ha (isEnding_of_atInteger h))
  · unfold atInteger at h
    rw [Bool.and_eq_true] at h
    exact h.2

/-- An index range that is read is read from two integers with a symbol
between them, and nothing is found but that its bounds are the wrong way
round. -/
theorem readRange_cases (a : Analysis) :
    a.readRange.1 = none
      ∨ ∃ r : IndexRange, a.readRange.1 = some r
        ∧ a.atInteger = true ∧ Numeral.value a.current.text = r.low
        ∧ a.next.next.atInteger = true
        ∧ Numeral.value a.next.next.current.text = r.high
        ∧ a.readRange.2.cursor = a.next.next.next.cursor
        ∧ ∃ errors, a.readRange.2.errors = errors ++ a.errors
          ∧ errors.map (·.cause) = r.faults := by
  unfold readRange
  simp only
  split
  · exact .inl rfl
  next hlow =>
    split
    · exact .inl rfl
    · split
      · exact .inl rfl
      next hhigh =>
        rw [Bool.not_eq_true', Bool.not_eq_false] at hlow hhigh
        refine .inr ⟨_, rfl, hlow, rfl, hhigh, rfl, ?_, ?_⟩
        · split <;> simp
        · unfold IndexRange.faults
          split
          · exact ⟨[_], by simp [report]; rfl, rfl⟩
          · exact ⟨[], by simp, rfl⟩

theorem yields_readRange [NestingLimit] (ha : a.Inside) :
    Yields a (a.readRange.1.toList.flatMap IndexRange.bounds)
      (a.readRange.1.toList.flatMap IndexRange.faults) a.readRange.2 := by
  have hsteps := steps_readRange ha
  rcases readRange_cases a with
    hnone | ⟨r, hsome, hlow, hlow', hhigh, hhigh', hcursor, errors, herrors,
      hfaults⟩
  · rw [hnone]
    exact .ofSteps hsteps
  · have hmiddle := (steps_next a).trans (steps_next a.next)
    have hrest := (steps_next a.next).trans (steps_next a.next.next)
    have hbounds : ∀ n ∈ r.bounds, ∃ t ∈ a.readRange.2.cursor.behind,
        t.kind = .number ∧ Numeral.isInteger t.text = true
          ∧ Numeral.value t.text = n := by
      rw [hcursor]
      simp only [IndexRange.bounds, List.forall_mem_cons]
      rw [← hlow', ← hhigh']
      refine ⟨exists_behind_of_atInteger ha hlow hrest, ?_, by simp⟩
      exact exists_behind_of_atInteger (hmiddle.inside ha) hhigh .refl
    rw [hsome, Option.toList_some, List.flatMap_singleton,
      List.flatMap_singleton]
    refine ⟨hsteps, hbounds, errors, herrors, ?_⟩
    rw [List.map_reverse, hfaults]
    unfold IndexRange.faults
    split <;> exact List.Sublist.refl _

theorem yields_readRangeOrSkip [NestingLimit] (ha : a.Inside) :
    Yields a (a.readRangeOrSkip.1.toList.flatMap IndexRange.bounds)
      (a.readRangeOrSkip.1.toList.flatMap IndexRange.faults)
      a.readRangeOrSkip.2 := by
  have hread := yields_readRange ha
  unfold readRangeOrSkip
  simp only
  split
  · exact hread.before (steps_skipToRangeBoundary _) ha
  · exact hread

theorem yields_readRanges [NestingLimit] (ha : a.Inside) :
    Yields a (a.readRanges.1.flatMap IndexRange.bounds)
      (a.readRanges.1.flatMap IndexRange.faults) a.readRanges.2 := by
  fun_induction readRanges a with
  | case1 a read a' hcomma more ih =>
    have hread := (yields_readRangeOrSkip ha).before (steps_next _) ha
    rw [List.flatMap_append, List.flatMap_append]
    exact hread.trans (ih (hread.steps.inside ha)) ha
  | case2 a read a' hcomma hend =>
    exact (yields_readRangeOrSkip ha).before (steps_passBracket _) ha
  | case3 a read a' hcomma hend a'' hcomma' more ih =>
    have hread := (yields_readRangeOrSkip ha).before
      ((steps_skipAfterRange _).trans (steps_next _)) ha
    rw [List.flatMap_append, List.flatMap_append]
    exact hread.trans (ih (hread.steps.inside ha)) ha
  | case4 a read a' hcomma hend a'' hcomma' =>
    exact (yields_readRangeOrSkip ha).before
      ((steps_skipAfterRange _).trans (steps_passBracket _)) ha

theorem yields_readArrayRanges [NestingLimit] (ha : a.Inside) :
    Yields a (a.readArrayRanges.1.flatMap IndexRange.bounds)
      (a.readArrayRanges.1.flatMap IndexRange.faults)
      a.readArrayRanges.2 := by
  unfold readArrayRanges
  have hword := steps_next a
  simp only
  split
  · have hopen := hword.trans (steps_next a.next)
    exact (yields_readRanges (hopen.inside ha)).after hopen ha
  · have hreport := hword.trans ((steps_reportHere a.next
      .arrayBracketExpected).trans (steps_recover _))
    split
    · exact (yields_readRanges (hreport.inside ha)).after hreport ha
    · exact .ofSteps (hreport.trans ((steps_skipToRangeBoundary _).trans
        (steps_passBracket _)))

/-- Behind its bracket a string is read with a size that is an integer, and
otherwise without one. -/
theorem readStringType_cases (a : Analysis) :
    a.readStringType.1 = .string none
      ∨ (a.next.atInteger = true ∧ ∃ n, Numeral.value a.next.current.text = n
        ∧ a.readStringType = closeSize (some n)
          (if stringSizeMin ≤ n ∧ n ≤ stringSizeMax then
            (a.next.next.readInteger a.next.current).2
          else (a.next.next.readInteger a.next.current).2.report
            a.next.current.pos (.sizeOutOfRange n))) := by
  unfold readStringType
  simp only
  split
  · exact .inl rfl
  · split
    next hsize => exact .inr ⟨hsize, _, rfl, rfl⟩
    next =>
      left
      split <;> split <;> rfl

theorem yields_readStringType [NestingLimit] (ha : a.Inside) :
    Yields a a.readStringType.1.values a.readStringType.1.faults
      a.readStringType.2 := by
  have hsteps := steps_readStringType ha
  rcases readStringType_cases a with hnone | ⟨hsize, n, hvalue, hread⟩
  · rw [hnone]
    exact .ofSteps hsteps
  · have hopen := steps_next a
    have hinside := hopen.inside ha
    have hpass := steps_next a.next
    have hbehind := current_mem_behind_next hinside
      (isEnding_of_atInteger hsize)
    have hinteger := steps_readInteger hbehind (kind_of_atInteger hsize)
    have hall := hopen.trans (hpass.trans hinteger)
    have hnumber := exists_behind_of_atInteger hinside hsize hinteger
    rw [hvalue] at hnumber
    have hjudged : Yields a [n] (VarType.sizeFaults n)
        (if stringSizeMin ≤ n ∧ n ≤ stringSizeMax then
          (a.next.next.readInteger a.next.current).2
        else (a.next.next.readInteger a.next.current).2.report
          a.next.current.pos (.sizeOutOfRange n)) := by
      unfold VarType.sizeFaults
      split
      · exact ⟨hall, by simpa using hnumber, [], by simp, .refl _⟩
      · have hreport := steps_report (mem_seen_of_behind
          (hinteger.mem_behind (hpass.inside hinside) hbehind))
          (.sizeOutOfRange n)
        exact ⟨hall.trans hreport, by simpa using hnumber,
          [⟨.syntactic, a.next.current.pos, .sizeOutOfRange n⟩],
          by simp [report], .refl _⟩
    rw [hread]
    show Yields a [n] ([n].flatMap VarType.sizeFaults) _
    rw [List.flatMap_singleton]
    exact hjudged.before (steps_closeSize ..) ha

-- ==================================================================== types

theorem yields_readSimpleType [NestingLimit] (ha : a.Inside) :
    Yields a a.readSimpleType.1.values a.readSimpleType.1.faults
      a.readSimpleType.2 := by
  have hsteps := steps_readSimpleType ha
  unfold readSimpleType at hsteps ⊢
  simp only at hsteps ⊢
  split
  · exact .ofSteps (steps_next a)
  · split
    · have hnext := steps_next a
      exact (yields_readStringType (hnext.inside ha)).after hnext ha
    · exact .ofSteps (steps_refuseType ha)

/-- The elements of an array are read behind its ranges, so their values and
faults come behind those of the ranges. An array that is an element is read
and reported, but what it yields is not kept. -/
theorem yields_readType [NestingLimit] {depth : Nat} (ha : a.Inside)
    (hdepth : depth ≤ arrayWords a.cursor.behind) :
    Yields a (a.readType depth).1.values (a.readType depth).1.faults
      (a.readType depth).2 := by
  revert ha hdepth
  refine readType.induct
    (fun depth a => a.Inside → depth ≤ arrayWords a.cursor.behind →
      Yields a (readType depth a).1.values (readType depth a).1.faults
        (readType depth a).2)
    (fun depth ranges a => depth < arrayWords a.cursor.behind →
      ∀ start : Analysis, start.Inside →
      Yields start (ranges.flatMap IndexRange.bounds)
        (ranges.flatMap IndexRange.faults) a →
      Yields start (readElements depth ranges a).1.values
        (readElements depth ranges a).1.faults (readElements depth ranges a).2)
    ?array ?array' ?simple ?of ?missing ?none depth a
  case array =>
    intro depth a harray ranges hnested ih ha hdepth
    have hsteps := steps_readType ha hdepth
    rw [readType_of_nested hnested harray] at hsteps ⊢
    exact .ofSteps hsteps
  case array' =>
    intro depth a harray ranges hnested ih ha hdepth
    obtain rfl := Nat.eq_zero_of_not_pos hnested
    obtain ⟨-, hpassed⟩ := steps_enterArray ha harray hdepth
    rw [readType_of_array harray]
    simp only [ranges, descend_zero] at ih hpassed ⊢
    exact ih hpassed a ha (yields_readArrayRanges ha)
  case simple =>
    intro depth a harray ha _
    rw [readType_of_simple depth harray]
    exact yields_readSimpleType ha
  case of =>
    intro depth ranges a hof ih hdepth start hstart hranges
    rw [readElements_of_of depth ranges hof]
    have hnext := steps_next a
    have hword := hranges.before hnext hstart
    exact hword.trans (ih (hword.steps.inside hstart) (Nat.le_trans hdepth
      (hnext.arrayWords_le (hranges.steps.inside hstart)))) hstart
  case missing =>
    intro depth ranges a hof hstarts ih hdepth start hstart hranges
    rw [readElements_of_missing depth ranges hof hstarts]
    have hmissing := steps_missingOf a
    have hword := hranges.before hmissing hstart
    exact hword.trans (ih (hword.steps.inside hstart) (Nat.le_trans hdepth
      (hmissing.arrayWords_le (hranges.steps.inside hstart)))) hstart
  case none =>
    intro depth ranges a hof hstarts hdepth start hstart hranges
    rw [readElements_of_none depth ranges hof hstarts]
    exact (hranges.before (steps_missingOf a) hstart).trans
      (.ofSteps .refl) hstart

theorem yields_readTypePart [NestingLimit] (ha : a.Inside) :
    Yields a a.readTypePart.1.values a.readTypePart.1.faults
      a.readTypePart.2 := by
  have hunknown := steps_reportUnknown ha a.current.line
  have hinside := hunknown.inside ha
  rw [readTypePart_eq]
  unfold readColon
  split
  · have hcolon := hunknown.trans (steps_next _)
    exact (yields_readType (hcolon.inside ha) (Nat.zero_le _)).after hcolon ha
  · have hcolon := hunknown.trans (steps_missColon hinside
      (a.reportUnknown a.current.line).1)
    split
    · exact (yields_readType (hcolon.inside ha) (Nat.zero_le _)).after hcolon ha
    · exact .ofSteps (hcolon.trans (steps_recover _))

-- ============================================================== whole runs

/-- The values of all types that are recorded, in the order of the table. -/
def recordedValues (a : Analysis) : List Int :=
  a.declared.flatMap (·.type.values)

/-- The faults of all types that are recorded, in the order of the table. -/
def recordedFaults (a : Analysis) : List Cause :=
  a.declared.flatMap (·.type.faults)

/-- All that was recorded since the beginning of a table has names and a
well-formed type, and was yielded by what was read since then. -/
structure Recorded [NestingLimit] (table : List Token) (a : Analysis) :
    Prop where
  inside : a.Inside
  wellFormed : ∀ d ∈ a.declarations, d.names ≠ [] ∧ d.type.WellFormed
  yields : Yields (ofTable table) a.recordedValues a.recordedFaults a

/-- Steps that enter no declaration. -/
theorem Recorded.steps [NestingLimit] (h : Recorded table a)
    (hfresh : (ofTable table).Inside) (hsteps : Steps a b)
    (hdeclarations : b.declarations = a.declarations) :
    Recorded table b := by
  have hyields := h.yields.before hsteps hfresh
  refine ⟨hsteps.inside h.inside, by rw [hdeclarations]; exact h.wellFormed,
    ?_⟩
  unfold recordedValues recordedFaults declared
  rw [hdeclarations]
  exact hyields

/-- The values and faults of a declaration come behind those that were
recorded before. -/
theorem Recorded.readDeclaration [NestingLimit] (h : Recorded table a)
    (hfresh : (ofTable table).Inside) (hend : a.current.isEnding = false) :
    Recorded table a.readDeclaration := by
  have ha := h.inside
  have hnames := steps_unmarked ha
  have htype := (yields_readTypePart (hnames.inside ha)).after hnames ha
  have hall := htype.before
    ((steps_enterParts ha hend).trans (steps_declareParts ha hend)) ha
  have hdeclarations := declarations_readDeclaration ha hend
  refine ⟨hall.steps.inside ha, ?_, ?_⟩
  · rw [hdeclarations]
    refine List.forall_mem_cons.2 ⟨⟨?_, wellFormed_readTypePart _⟩,
      h.wellFormed⟩
    exact List.cons_ne_nil _ _
  · have hyields := h.yields.trans hall hfresh
    unfold recordedValues recordedFaults declared at hyields ⊢
    rw [hdeclarations, List.reverse_cons, List.flatMap_append,
      List.flatMap_append, List.flatMap_singleton, List.flatMap_singleton]
    exact hyields

theorem lasts_recorded [NestingLimit] (hfresh : (ofTable table).Inside) :
    Lasts (Recorded table) where
  inside h := h.inside
  next h _ := h.steps hfresh (steps_next _) (declarations_next _)
  stray h _ := h.steps hfresh (steps_passStray h.inside)
    (declarations_next _)
  declaration h hend := h.readDeclaration hfresh hend

theorem Recorded.run [NestingLimit] (h : ∃ t ∈ table, t.isEnding = true) :
    Recorded table (ofTable table).run := by
  have hfresh := Inside.ofTable h
  refine (lasts_recorded hfresh).readSection ⟨hfresh, ?_, .ofSteps .refl⟩
  exact fun d hd => absurd hd List.not_mem_nil

end Analysis

/-- An analysis of any table with a mark of the end records well-formed types,
also where it fails, each with at least one name. The bounds that are the
wrong way round and the sizes that no string can have are, in the order in
which they are recorded, among the findings, and so there are at least as many
findings on values. Every bound and every size was written as an integer in
front of the first mark of the end. -/
theorem recorded_types_accounted [NestingLimit]
    (h : ∃ t ∈ table, t.isEnding = true) :
    let a := (ofTable table).run
    (∀ d ∈ a.declared, d.names ≠ [] ∧ d.type.WellFormed)
      ∧ a.recordedFaults.Sublist (a.findings.map (·.cause))
      ∧ a.recordedFaults.length ≤ a.findings.countP (·.cause.isOfValues)
      ∧ ∀ d ∈ a.declared, ∀ n ∈ d.type.values,
          ∃ t ∈ table.take (table.findIdx (·.isEnding)), t.kind = .number
            ∧ Numeral.isInteger t.text = true
            ∧ Numeral.value t.text = n := by
  intro a
  have hrecorded : Recorded table a := .run h
  obtain ⟨errors, herrors, hfaults⟩ := hrecorded.yields.faults
  have hfindings : a.findings = errors.reverse := by
    unfold findings
    rw [herrors]
    exact congrArg List.reverse (List.append_nil errors)
  rw [← hfindings] at hfaults
  have hvalues : ∀ cause ∈ a.recordedFaults, cause.isOfValues = true := by
    intro cause hcause
    obtain ⟨d, -, hd⟩ := List.mem_flatMap.1 hcause
    exact VarType.isOfValues_of_mem_faults hd
  refine ⟨fun d hd => hrecorded.wellFormed d (List.mem_reverse.1 hd), hfaults,
    ?_, fun d hd n hn => ?_⟩
  · have hcount := hfaults.countP_le (p := Cause.isOfValues)
    rw [List.countP_eq_length.2 hvalues, List.countP_map] at hcount
    exact hcount
  · obtain ⟨t, ht, hnumber⟩ :=
      hrecorded.yields.values n (List.mem_flatMap.2 ⟨d, hd, hn⟩)
    refine ⟨t, ?_, hnumber⟩
    rw [← behind_run h]
    exact List.mem_reverse.2 ht

/-- The lexemes of `var a: array[5..1, 7..2] of string[300`. -/
def brokenOffArray : List Token :=
  [⟨.keyword, "var", ⟨1, 1⟩⟩, ⟨.identifier, "a", ⟨1, 5⟩⟩,
    ⟨.symbol, ":", ⟨1, 6⟩⟩, ⟨.keyword, "array", ⟨1, 8⟩⟩,
    ⟨.symbol, "[", ⟨1, 13⟩⟩, ⟨.number, "5", ⟨1, 14⟩⟩,
    ⟨.symbol, "..", ⟨1, 15⟩⟩, ⟨.number, "1", ⟨1, 17⟩⟩,
    ⟨.symbol, ",", ⟨1, 18⟩⟩, ⟨.number, "7", ⟨1, 20⟩⟩,
    ⟨.symbol, "..", ⟨1, 21⟩⟩, ⟨.number, "2", ⟨1, 23⟩⟩,
    ⟨.symbol, "]", ⟨1, 24⟩⟩, ⟨.keyword, "of", ⟨1, 26⟩⟩,
    ⟨.keyword, "string", ⟨1, 29⟩⟩, ⟨.symbol, "[", ⟨1, 35⟩⟩,
    ⟨.number, "300", ⟨1, 36⟩⟩, ⟨.ending, [], ⟨1, 39⟩⟩]

open scoped UsualNesting

/-- Of an array that is broken off both ranges and the size of its elements
are recorded, and all three are found to be at fault. -/
theorem recorded_types_accounted_brokenOff :
    let type : VarType := .array [⟨5, 1⟩, ⟨7, 2⟩] (.string (some 300))
    let a := (ofTable brokenOffArray).run
    (∃ t ∈ brokenOffArray, t.isEnding = true)
      ∧ a.declared = [⟨[⟨"a", ⟨1, 5⟩⟩], type, ⟨1, 5⟩⟩]
      ∧ type.WellFormed
      ∧ [Cause.boundsInverted 5 1, .boundsInverted 7 2,
          .sizeOutOfRange 300].Sublist (a.findings.map (·.cause))
      ∧ 3 ≤ a.findings.countP (·.cause.isOfValues)
      ∧ ∀ n ∈ [5, 1, 7, 2, 300], ∃ t ∈ brokenOffArray, t.kind = .number
          ∧ Numeral.value t.text = n := by
  intro type a
  have hends : ∃ t ∈ brokenOffArray, t.isEnding = true :=
    ⟨⟨.ending, [], ⟨1, 39⟩⟩, by simp [brokenOffArray], rfl⟩
  have hdeclared : a.declared = [⟨[⟨"a", ⟨1, 5⟩⟩], type, ⟨1, 5⟩⟩] := by
    decide +kernel
  have hfaults : a.recordedFaults = type.faults := by
    unfold recordedFaults
    rw [hdeclared, List.flatMap_singleton]
  obtain ⟨hformed, hsublist, hcount, hvalues⟩ :=
    recorded_types_accounted hends
  rw [hfaults] at hsublist hcount
  rw [hdeclared, List.forall_mem_singleton] at hformed hvalues
  refine ⟨hends, hdeclared, hformed.2, hsublist, hcount, fun n hn => ?_⟩
  obtain ⟨t, ht, hkind, -, hvalue⟩ := hvalues n hn
  exact ⟨t, List.mem_of_mem_take ht, hkind, hvalue⟩

end VarSection
