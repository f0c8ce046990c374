/-
The first mark of the end. Whatever a table holds, as long as a mark of the
end is in it, an analysis keeps to the lexemes in front of the first one
(`run_keepsTo_firstEnding`): from step to step its place moves forward or
stays, never beyond that mark, and it ends there. No fault is noted on the
way but a number with too many digits or arrays that are nested too deep, and
nothing behind the mark makes a difference.

The first part holds of every elementary step, so it needs no reader. For
the last part two tables with a common beginning are a fork at the mark: an
analysis of the one and an analysis of the other record the same all along
(`walk_recordsAlike`).
-/
import VarSection.Proofs.Analysis.Sections
import VarSection.Proofs.Grammar.Nesting

namespace VarSection

open Analysis

variable {a b c : Analysis} {table : List Token}

-- ============================================== the place on its way

/-- The place is as far in front of the first mark of the end as what lies
ahead tells. -/
theorem Analysis.Inside.findIdx_toList (ha : a.Inside) :
    a.cursor.toList.findIdx (·.isEnding)
      = a.cursor.position + a.cursor.ahead.findIdx (·.isEnding) := by
  have hbehind : a.cursor.behind.reverse.findIdx (·.isEnding)
      = a.cursor.behind.reverse.length :=
    List.findIdx_eq_length.2 fun t ht =>
      ha.behind t (List.mem_reverse.1 ht)
  unfold Cursor.toList Cursor.position
  rw [List.findIdx_append, hbehind, if_neg (Nat.lt_irrefl _), ha.overrun,
    List.length_reverse]
  omega

/-- Inside its table an analysis has not passed the first mark of the
end. -/
theorem Analysis.Inside.position_le (ha : a.Inside) :
    a.cursor.position ≤ a.cursor.toList.findIdx (·.isEnding) := by
  rw [ha.findIdx_toList]
  omega

/-- A mark of the end that is looked at is the first one. -/
theorem Analysis.Inside.position_eq (ha : a.Inside)
    (hend : a.current.isEnding = true) :
    a.cursor.position = a.cursor.toList.findIdx (·.isEnding) := by
  obtain ⟨rest, hrest⟩ := ha.exists_ahead
  rw [ha.findIdx_toList, hrest, List.findIdx_cons, hend]
  rfl

/-- The place moves forward or stays. -/
theorem Analysis.Step.position_le [NestingLimit] (h : Step a b) :
    a.cursor.position ≤ b.cursor.position := by
  rcases h.cursor with hcursor | ⟨-, hcursor⟩
  · exact Nat.le_of_eq (congrArg Cursor.position hcursor.symm)
  · rw [hcursor, Cursor.position_advance]
    omega

/-- A fault is noted only of a number with too many digits that lies behind
the place, or of an array behind which there are too many others. -/
theorem Analysis.Steps.fault_of_halt? [NestingLimit] (h : Steps a b)
    (ha : a.Inside) (hclean : a.halt? = none) {note : Halt}
    (hnote : b.halt? = some note) :
    (∃ t ∈ b.cursor.behind, t.kind = .number
        ∧ integerDigitsMax < Numeral.digitCount t.text
        ∧ note.fault = .tooManyDigits (Numeral.digitCount t.text))
      ∨ nestingMax + 1 < arrayWords b.seen
        ∧ note.fault = .nestedTooDeep := by
  obtain ⟨c, hc, hrest, hnotes⟩ := h.exists_notes hclean hnote
  have hinside := hc.inside ha
  cases hfault : note.fault with
  | tooManyDigits digits =>
    rw [hfault] at hnotes
    cases hnotes with
    | @digits t ht hkind hdigits =>
      exact .inl ⟨t, hrest.mem_behind hinside ht, hkind, hdigits, rfl⟩
  | nestedTooDeep =>
    rw [hfault] at hnotes
    cases hnotes with
    | nesting hword hwords =>
      have hseen : arrayWords c.seen = arrayWords c.cursor.behind + 1 :=
        List.countP_cons_of_pos (current_of_unreadKeyword hword).1
      have hle : arrayWords c.seen ≤ arrayWords b.seen :=
        (hrest.seen_sublist hinside).countP_le
      exact .inr ⟨by omega, rfl⟩
  | outsideTable => rw [hfault] at hnotes; cases hnotes
  | outsideText => rw [hfault] at hnotes; cases hnotes
  | nothingBefore => rw [hfault] at hnotes; cases hnotes

-- ===================================== tables with a common beginning

/-- Two analyses have recorded the same. -/
structure Analysis.RecordsAlike (a b : Analysis) : Prop where
  errors : b.errors = a.errors
  recovering : b.recovering = a.recovering
  symbols : b.symbols = a.symbols
  declarations : b.declarations = a.declarations
  halt? : b.halt? = a.halt?

namespace Analysis.RecordsAlike

theorem next (h : a.RecordsAlike b) : a.next.RecordsAlike b.next where
  errors := by rw [errors_next, errors_next, h.errors]
  recovering := by rw [recovering_next, recovering_next, h.recovering]
  symbols := by rw [symbols_next, symbols_next, h.symbols]
  declarations := by
    rw [declarations_next, declarations_next, h.declarations]
  halt? := by rw [halt?_next, halt?_next, h.halt?]

theorem report (h : a.RecordsAlike b) (pos : Position) (cause : Cause) :
    (a.report pos cause).RecordsAlike (b.report pos cause) where
  errors := congrArg (_ :: ·) h.errors
  recovering := h.recovering
  symbols := h.symbols
  declarations := h.declarations
  halt? := h.halt?

theorem enter (h : a.RecordsAlike b) (d : Declaration) :
    (a.enter d).RecordsAlike (b.enter d) where
  errors := h.errors
  recovering := h.recovering
  symbols := h.symbols
  declarations := congrArg (d :: ·) h.declarations
  halt? := h.halt?

theorem declare (h : a.RecordsAlike b) (names : List Identifier)
    (type : VarType) :
    (a.declare names type).RecordsAlike (b.declare names type) := by
  induction names generalizing a b with
  | nil => exact h
  | cons n names ih =>
    rw [declare_cons, declare_cons]
    refine ih ?_
    unfold declareName
    rw [h.symbols]
    split
    · exact h.report _ _
    · exact ⟨h.errors, h.recovering, rfl, h.declarations, h.halt?⟩

end Analysis.RecordsAlike

/-- The fork of two tables with a common beginning that ends with the first
mark of the end. -/
def Fork.upTo (common : List Token) (stop : Token) (rest rest' : List Token)
    (hcommon : ∀ t ∈ common, t.isEnding = false)
    (hstop : stop.isEnding = true) : Fork :=
  ⟨0, common, stop, rest, stop, rest', hcommon, hstop,
    .inl (Token.shift_zero stop).symm⟩

namespace Fork

/-- Both tables of a fork have the same lexemes up to the stop. -/
structure Joint (p : Fork) : Prop where
  lines : p.lines = 0
  stop : p.stop' = p.stop

variable {p : Fork} {t t' : Token}

namespace Joint

theorem move (hp : p.Joint) (t : Token) : p.move t = t := by
  unfold Fork.move
  rw [hp.lines, Token.shift_zero]

theorem eq_of_matches (hp : p.Joint) (h : p.Matches t t') : t' = t := by
  cases h with
  | lexeme => exact hp.move t
  | stop => exact hp.stop

theorem not_goesOn (hp : p.Joint) : ¬p.GoesOn :=
  Fork.not_goesOn (by rw [hp.stop, hp.lines, Token.shift_zero])

theorem eq_of_paired (hp : p.Joint) {d d' : Diagnostic}
    (h : p.Paired d d') : d' = d := by
  cases h with
  | lexeme => rw [hp.move]
  | behind => rw [hp.move]
  | stop hcause hcause' hsame =>
    rw [hp.stop, hsame.resolve_right hp.not_goesOn]

/-- Along tables with a common beginning the same is found. -/
theorem exists_found (hp : p.Joint) {base base' all all' : List Diagnostic}
    (h : p.Grown base base' all all') :
    ∃ found, all = found ++ base ∧ all' = found ++ base' := by
  induction h with
  | refl => exact ⟨[], rfl, rfl⟩
  | @cons e e' all all' he _ ih =>
    obtain ⟨found, rfl, rfl⟩ := ih
    refine ⟨e :: found, rfl, ?_⟩
    rw [hp.eq_of_paired he]
    rfl

theorem map_shift (hp : p.Joint) (names : List Identifier) :
    names.map (·.shift p.lines) = names := by
  rw [hp.lines]
  exact List.map_id'' Identifier.shift_zero names

theorem ready (hp : p.Joint) (h : a.RecordsAlike b) : p.Ready a b where
  hits hmatches _ := by
    rw [hp.eq_of_matches hmatches, hits_congr h.errors]
  clear hgoes _ := absurd hgoes hp.not_goesOn

/-- What is read alike of two tables with a common beginning is recorded
alike. -/
theorem recordsAlike (hp : p.Joint) (h : a.RecordsAlike b)
    (halong : p.Along a.unmarked b.unmarked c d) : c.RecordsAlike d where
  errors := by
    obtain ⟨found, hall, hall'⟩ := hp.exists_found halong.grown
    rw [hall, hall']
    exact congrArg (found ++ ·) h.errors
  recovering := halong.recovering
  symbols := by
    rw [halong.symbols, halong.symbols']
    exact h.symbols
  declarations := by
    rw [halong.declarations, halong.declarations']
    exact h.declarations
  halt? := by
    obtain ⟨fault?, hhalt, hhalt'⟩ := halong.halts
    rw [hhalt, hhalt']
    unfold noted
    rw [show b.unmarked.halt? = a.unmarked.halt? from h.halt?,
      show b.unmarked.symbols = a.unmarked.symbols from h.symbols,
      show b.unmarked.declarations = a.unmarked.declarations from
        h.declarations]

/-- Along two tables with a common beginning the same is recorded. -/
theorem walk_recordsAlike [NestingLimit] (hp : p.Joint) :
    p.Walk fun a b => p.Alike a b ∧ a.RecordsAlike b where
  alike h := h.1
  next h hend := ⟨h.1.next hend, h.2.next⟩
  stray := by
    intro a b h hend
    refine ⟨h.1.passStray hend, ?_⟩
    have hcurrent := (h.1.current_of_notEnding hend).2.trans (hp.move _)
    unfold passStray
    rw [hcurrent]
    exact h.2.next.report _ _
  declaration := by
    intro a b h hend
    obtain ⟨names, type, c, d, hnames, hnames', htype, htype', halong, hparts,
      hparts'⟩ := h.1.readParts hend (hp.ready h.2.next)
    have hrecords := hp.recordsAlike h.2 halong
    rw [readDeclaration_eq, readDeclaration_eq, hparts, hparts', hnames,
      hnames', htype, htype', hp.map_shift]
    refine ⟨halong.alike.declare .., RecordsAlike.declare ?_ _ _⟩
    unfold Declaration.shift
    rw [hp.map_shift, hp.lines, Position.shift_zero]
    exact hrecords.enter _

end Joint

end Fork

-- ========================================================== the whole run

/-- Where the first mark of the end stands. -/
theorem findIdx_of_firstEnding {common rest : List Token} {stop : Token}
    (hcommon : ∀ t ∈ common, t.isEnding = false)
    (hstop : stop.isEnding = true) :
    (common ++ stop :: rest).findIdx (·.isEnding) = common.length := by
  rw [List.findIdx_append, List.findIdx_eq_length.2 hcommon,
    if_neg (Nat.lt_irrefl _), List.findIdx_cons, hstop]
  exact Nat.zero_add _

/-- A table with a mark of the end has a first one. -/
theorem exists_firstEnding (h : ∃ t ∈ table, t.isEnding = true) :
    ∃ common stop rest, table = common ++ stop :: rest
      ∧ (∀ t ∈ common, t.isEnding = false) ∧ stop.isEnding = true := by
  obtain ⟨stop, hfind⟩ := Option.isSome_iff_exists.1
    (List.find?_isSome.2 h)
  obtain ⟨hstop, common, rest, rfl, hcommon⟩ :=
    List.find?_eq_some_iff_append.1 hfind
  refine ⟨common, stop, rest, rfl, fun t ht => ?_, hstop⟩
  rw [← Bool.not_eq_true']
  exact hcommon t ht

/-- An analysis ends at the first mark of the end. -/
theorem position_run [NestingLimit] (h : ∃ t ∈ table, t.isEnding = true) :
    (ofTable table).run.cursor.position
      = table.findIdx (·.isEnding) := by
  have hstart := Inside.ofTable h
  have hsteps := steps_readSection hstart
  rw [run_ofTable, (hsteps.inside hstart).position_eq
    (current_readSection hstart), hsteps.toList]
  rfl

/-- What an analysis has passed when it ends are the lexemes in front of the
first mark of the end. -/
theorem behind_run [NestingLimit] (h : ∃ t ∈ table, t.isEnding = true) :
    (ofTable table).run.cursor.behind.reverse
      = table.take (table.findIdx (·.isEnding)) := by
  have hstart := Inside.ofTable h
  have hsteps := steps_readSection hstart
  have hlength := position_run h
  have htable : (ofTable table).run.cursor.behind.reverse
      ++ (ofTable table).run.cursor.ahead = table := hsteps.toList
  unfold Cursor.position at hlength
  rw [run_ofTable, (hsteps.inside hstart).overrun, Nat.add_zero,
    ← List.length_reverse, ← run_ofTable] at hlength
  rw [← hlength]
  exact List.prefix_iff_eq_take.1 ⟨_, htable⟩

/-- The faults that an analysis may note: a number in front of the first mark
of the end has too many digits, or arrays are nested too deep, with so many
words for arrays in front of the mark. -/
theorem fault_of_run [NestingLimit] (h : ∃ t ∈ table, t.isEnding = true)
    {note : Halt} (hnote : (ofTable table).run.halt? = some note) :
    (∃ t ∈ table.take (table.findIdx (·.isEnding)), t.kind = .number
        ∧ integerDigitsMax < Numeral.digitCount t.text
        ∧ note.fault = .tooManyDigits (Numeral.digitCount t.text))
      ∨ nestingMax + 1 < arrayWords (table.take (table.findIdx (·.isEnding)))
        ∧ note.fault = .nestedTooDeep := by
  have hstart := Inside.ofTable h
  rw [← behind_run h]
  rcases (steps_readSection hstart).fault_of_halt? hstart rfl hnote with
    ⟨t, ht, hfault⟩ | ⟨hwords, hfault⟩
  · exact .inl ⟨t, List.mem_reverse.2 ht, hfault⟩
  · right
    unfold arrayWords seen at hwords
    rw [List.countP_cons_of_neg (by
      rw [Token.isKeyword_eq_false_of_kind (by
        rw [Token.kind_of_isEnding (current_readSection hstart)]; decide)]
      decide)] at hwords
    unfold arrayWords
    rw [List.countP_reverse]
    exact ⟨hwords, hfault⟩

/-- Two tables that begin alike up to the first mark of the end are analysed
alike. -/
theorem recordsAlike_run [NestingLimit] {common rest rest' : List Token}
    {stop : Token} (hcommon : ∀ t ∈ common, t.isEnding = false)
    (hstop : stop.isEnding = true) :
    (ofTable (common ++ stop :: rest)).run.RecordsAlike
      (ofTable (common ++ stop :: rest')).run := by
  have hp : (Fork.upTo common stop rest rest' hcommon hstop).Joint :=
    ⟨rfl, rfl⟩
  have hstart : (Fork.upTo common stop rest rest' hcommon hstop).Alike
      (ofTable (common ++ stop :: rest))
      (ofTable (common ++ stop :: rest')) := by
    refine ⟨⟨common, rfl, rfl, ?_⟩, rfl, rfl, rfl⟩
    rw [List.map_id'' hp.move]
    rfl
  obtain ⟨c, ⟨-, hrecords⟩, hread, -, hahead⟩ :=
    hp.walk_recordsAlike.readSection ⟨hstart, rfl, rfl, rfl, rfl, rfl⟩
  rw [readSection_of_ending hahead (Token.kind_of_isEnding hstop)] at hread
  rw [run_ofTable, run_ofTable, hread]
  exact hrecords

/-- An analysis of any table with a mark of the end keeps to the lexemes in
front of the first one. It is a sequence of elementary steps, each of which
moves the place forward or leaves it, and none beyond that mark; it ends at
the mark; the only faults that it may note are a number in front of the mark
with too many digits, and arrays that are nested deeper than there is room
for, with so many words for arrays in front of the mark; and of all tables
that begin alike up to the mark the same is recorded. -/
theorem run_keepsTo_firstEnding [NestingLimit] (table : List Token)
    (h : ∃ t ∈ table, t.isEnding = true) :
    Steps (ofTable table) (ofTable table).run
      ∧ (∀ b c, Steps (ofTable table) b → Step b c →
          b.cursor.position ≤ c.cursor.position
            ∧ c.cursor.position ≤ table.findIdx (·.isEnding))
      ∧ (ofTable table).run.cursor.position = table.findIdx (·.isEnding)
      ∧ (∀ note, (ofTable table).run.halt? = some note →
          (∃ t ∈ table.take (table.findIdx (·.isEnding)), t.kind = .number
              ∧ integerDigitsMax < Numeral.digitCount t.text
              ∧ note.fault = .tooManyDigits (Numeral.digitCount t.text))
            ∨ nestingMax + 1
                < arrayWords (table.take (table.findIdx (·.isEnding)))
              ∧ note.fault = .nestedTooDeep)
      ∧ ∀ table', table.take (table.findIdx (·.isEnding) + 1) <+: table' →
          (ofTable table).run.RecordsAlike (ofTable table').run
            ∧ (ofTable table').run.cursor.position
              = (ofTable table).run.cursor.position := by
  have hstart := Inside.ofTable h
  have hsteps := steps_readSection hstart
  refine ⟨hsteps, fun b c hb hstep => ⟨hstep.position_le, ?_⟩,
    position_run h, fun note => fault_of_run h, fun table' htable' => ?_⟩
  · have hc := hb.tail hstep
    have hle := (hc.inside hstart).position_le
    rw [hc.toList] at hle
    exact hle
  · obtain ⟨common, stop, rest, rfl, hcommon, hstop⟩ := exists_firstEnding h
    rw [findIdx_of_firstEnding hcommon hstop, List.take_append,
      Nat.add_sub_cancel_left, List.take_of_length_le (Nat.le_succ _)]
      at htable'
    obtain ⟨rest', rfl⟩ := htable'
    rw [show List.take 1 (stop :: rest) = [stop] from rfl,
      List.append_assoc, List.singleton_append]
    have hends : ∃ t ∈ common ++ stop :: rest', t.isEnding = true :=
      ⟨stop, List.mem_append_right _ List.mem_cons_self, hstop⟩
    refine ⟨recordsAlike_run hcommon hstop, ?_⟩
    rw [position_run hends, position_run h,
      findIdx_of_firstEnding hcommon hstop,
      findIdx_of_firstEnding hcommon hstop]

/-- A table that breaks off behind a colon and goes on behind its first mark
of the end. -/
def earlyEnding : List Token :=
  [⟨.keyword, "var", ⟨1, 1⟩⟩, ⟨.identifier, "a", ⟨1, 5⟩⟩,
    ⟨.symbol, ":", ⟨1, 6⟩⟩, ⟨.ending, [], ⟨1, 7⟩⟩,
    ⟨.symbol, ",", ⟨9, 9⟩⟩, ⟨.ending, [], ⟨1, 1⟩⟩]

open scoped UsualNesting

/-- Its analysis ends at the first mark, and does not depend on what stands
behind. -/
theorem keepsTo_earlyEnding :
    (∃ t ∈ earlyEnding, t.isEnding = true)
      ∧ (ofTable earlyEnding).run.cursor.position = 3
      ∧ (ofTable earlyEnding).run.RecordsAlike
          (ofTable (earlyEnding.take 4)).run := by
  have hends : ∃ t ∈ earlyEnding, t.isEnding = true :=
    ⟨⟨.ending, [], ⟨1, 7⟩⟩, by decide, rfl⟩
  obtain ⟨-, -, hposition, -, hrecords⟩ :=
    run_keepsTo_firstEnding earlyEnding hends
  exact ⟨hends, hposition, (hrecords _ (List.prefix_refl _)).1⟩

/-- An analysis may note another fault than a number with too many digits:
where there is no such number, arrays may be nested too deep. -/
theorem halt_of_nestedText :
    ∃ table note, tokenize (nestedText 600) = .ok table
      ∧ (∃ t ∈ table, t.isEnding = true) ∧ Readable table
      ∧ (ofTable table).run.halt? = some note
      ∧ note.fault = .nestedTooDeep := by
  obtain ⟨s, last, htable, hreadable, -⟩ := exists_tree_of_nestedText 600
  obtain ⟨tokens, q, hscans, heq⟩ := tokenize_eq_ok_iff.1 htable
  obtain ⟨rfl, hlast⟩ := List.append_inj' heq rfl
  obtain rfl := List.singleton_inj.1 hlast
  have hcheck := check_nestedText (n := 600) (by decide)
  obtain ⟨note, hnote⟩ :=
    Option.ne_none_iff_exists'.1 (halted_of_check hscans hcheck)
  rw [check_of_halted hscans hnote] at hcheck
  exact ⟨_, note, htable, Token.mark_ends _ q,
    hreadable.append (readable_mark q), hnote, Except.error.inj hcheck⟩

end VarSection
