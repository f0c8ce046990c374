/-
An analysis that is used again. Whatever was done to it before, the analysis
of the whole table starts from the beginning and clears what was recorded. One
thing it does not clear, the recovery mark. But no reader looks at the mark
before the next declaration has cleared it (`readDeclaration_withMark`), and
outside of declarations there is nothing to be read but the words that open
blocks and stray lexemes. So the mark that is found makes no difference
(`readSection_withMark`), and it is even left as it was only where no
declaration is read.

What was done before are operations in any number and order (`Driven`). They
move the place and record, but the table stays the same (`Stands.perform`).
-/
import VarSection.Analysis.Operation
import VarSection.Proofs.Analysis.Step

namespace VarSection.Analysis

variable {a b : Analysis} {table : List Token}

-- ===================================================== the recovery mark

/-- A state with the recovery mark set or cleared. -/
def withMark (value : Bool) (a : Analysis) : Analysis :=
  { a with recovering := value }

/-- A declaration is read without a look at the mark that it finds. -/
theorem readDeclaration_withMark [NestingLimit] (value : Bool)
    (a : Analysis) :
    (a.withMark value).readDeclaration = a.readDeclaration := rfl

theorem next_withMark (value : Bool) (a : Analysis) :
    (a.withMark value).next = a.next.withMark value := by
  show (if a.current.isEnding then a.withMark value else _) = _
  unfold next
  split <;> rfl

theorem passStray_withMark (value : Bool) (a : Analysis) :
    (a.withMark value).passStray = a.passStray.withMark value := by
  show (a.withMark value).next.report _ _ = _
  rw [next_withMark]
  rfl

theorem halt_withMark (value : Bool) (a : Analysis) (fault : Fault) :
    (a.withMark value).halt fault = (a.halt fault).withMark value := by
  unfold halt
  cases hnote : a.halt? with
  | none => simp [withMark, hnote]
  | some note => simp [withMark, hnote]

theorem declarations_halt (a : Analysis) (fault : Fault) :
    (a.halt fault).declarations = a.declarations := by
  unfold halt
  split <;> rfl

/-- Behind the last lexeme of a table nothing is read. -/
theorem readSection_of_none [NestingLimit] (h : a.cursor.ahead.head? = none) :
    a.readSection = a.halt .outsideTable := by
  rw [readSection]
  split
  next => rfl
  next t ht => simp [h] at ht

/-- A block that has a declaration is read without a look at the mark. -/
theorem readBlock_withMark [NestingLimit] (value : Bool) (a : Analysis) :
    (a.withMark value).readBlock = a.readBlock
      ∨ (a.readBlock = a
        ∧ (a.withMark value).readBlock = a.withMark value) := by
  by_cases hname : a.unreadName = true
  · left
    have hname' : (a.withMark value).unreadName = true := hname
    rw [readBlock, dif_pos hname', readDeclaration_withMark,
      readBlock.eq_def a, dif_pos hname]
  · right
    have hname' : ¬ (a.withMark value).unreadName = true := hname
    constructor
    · rw [readBlock, dif_neg hname]
    · rw [readBlock, dif_neg hname']

/-- The rest of a section is read without a look at the mark that it begins
with. If the mark makes a difference afterwards, it is only the mark itself,
and no declaration was read. -/
theorem readSection_withMark [NestingLimit] (value : Bool) (a : Analysis) :
    (a.withMark value).readSection = a.readSection
      ∨ ((a.withMark value).readSection = a.readSection.withMark value
        ∧ a.readSection.declarations = a.declarations) := by
  fun_induction readSection a with
  | case1 a hhead =>
    right
    rw [readSection_of_none (a := a.withMark value) hhead, halt_withMark]
    exact ⟨rfl, declarations_halt a _⟩
  | case2 a t hhead hend =>
    right
    obtain ⟨rest, hrest⟩ := List.head?_eq_some_iff.1 hhead
    exact ⟨readSection_of_ending (a := a.withMark value) hrest hend, rfl⟩
  | case3 a t hhead hend hvar ih =>
    obtain ⟨rest, hrest⟩ := List.head?_eq_some_iff.1 hhead
    rw [readSection_of_var (a := a.withMark value) hrest hvar, next_withMark]
    rcases readBlock_withMark value a.next with hread | ⟨hnone, hkept⟩
    · left
      rw [hread]
    · rw [hnone] at ih
      rw [hkept, hnone]
      rw [declarations_next] at ih
      exact ih
  | case4 a t hhead hend hvar ih =>
    obtain ⟨rest, hrest⟩ := List.head?_eq_some_iff.1 hhead
    rw [readSection_of_stray (a := a.withMark value) hrest hend
      (eq_false_of_ne_true hvar), passStray_withMark]
    have hdeclarations : a.passStray.declarations = a.declarations :=
      declarations_next a
    rw [hdeclarations] at ih
    exact ih

/-- The analysis of a whole table leaves what it leaves of a fresh state,
except that the mark may be another if there is no declaration. -/
theorem run_eq_withMark [NestingLimit] (htable : a.cursor.toList = table) :
    ∃ value, a.run = (ofTable table).run.withMark value
      ∧ ((ofTable table).run.declared ≠ [] → a.run = (ofTable table).run) := by
  have hrun : a.run = ((ofTable table).withMark a.recovering).readSection :=
    congrArg (fun t => ((ofTable t).withMark a.recovering).readSection) htable
  rw [hrun, run_ofTable]
  rcases readSection_withMark a.recovering (ofTable table) with
    hsame | ⟨hmark, hnone⟩
  · exact ⟨(ofTable table).readSection.recovering, hsame, fun _ => hsame⟩
  · refine ⟨a.recovering, hmark, fun hdeclared => absurd ?_ hdeclared⟩
    exact List.reverse_eq_nil_iff.2 hnone

-- ================================================== what was done before

/-- A place inside a given table. -/
structure Stands (table : List Token) (a : Analysis) : Prop where
  inside : a.Inside
  toList : a.cursor.toList = table

namespace Stands

theorem congr (h : Stands table a) (hcursor : b.cursor = a.cursor) :
    Stands table b :=
  ⟨h.inside.congr hcursor, by rw [hcursor]; exact h.toList⟩

theorem steps [NestingLimit] (h : Stands table a) (hsteps : Steps a b) :
    Stands table b :=
  ⟨hsteps.inside h.inside, hsteps.toList.trans h.toList⟩

/-- In front of the first lexeme a fault is noted, and the place is kept. -/
theorem synchronizeHere [NestingLimit] (h : Stands table a) :
    Stands table a.synchronizeHere := by
  cases hhead : a.cursor.behind.head? with
  | none =>
    rw [synchronizeHere_of_front h.inside hhead]
    exact h.congr (cursor_halt ..)
  | some t =>
    rw [synchronizeHere_of_behind h.inside hhead]
    exact h.steps (steps_synchronize h.inside t.line)

theorem endDeclaration [NestingLimit] (h : Stands table a) :
    Stands table a.endDeclaration := by
  unfold Analysis.endDeclaration
  have hread := h.steps (steps_reportUnknown h.inside a.current.line)
  simp only
  split
  · have hnext := hread.steps (steps_next _)
    exact hnext.steps (steps_reportUnknown hnext.inside _)
  · split
    · exact hread.synchronizeHere
    · have hreport := hread.congr
        (cursor_reportAfterPrevious _ .semicolonExpected)
      split
      · exact hreport
      · exact hreport.synchronizeHere

/-- A declaration that is read where none begins, too, keeps the table. -/
theorem readDeclaration [NestingLimit] (h : Stands table a) :
    Stands table a.readDeclaration := by
  have hnames := h.steps (steps_unmarked h.inside)
  have htype := hnames.steps (steps_readTypePart hnames.inside)
  exact htype.endDeclaration.congr (cursor_declare ..)

theorem enterArray [NestingLimit] (h : Stands table a) (depth : Nat) :
    Stands table (a.descend depth).readArrayRanges.2 := by
  have hentered := h.congr (cursor_descend depth a)
  exact hentered.steps (steps_readArrayRanges hentered.inside)

/-- A type that is read as if arrays were around it keeps the table, whether
they are or not. -/
theorem readType [NestingLimit] (h : Stands table a) (depth : Nat) :
    Stands table (a.readType depth).2 := by
  revert h
  refine readType.induct
    (fun depth a => Stands table a → Stands table (a.readType depth).2)
    (fun depth ranges a => Stands table a →
      Stands table (a.readElements depth ranges).2)
    ?array ?array' ?simple ?of ?missing ?none depth a
  case array =>
    intro depth a harray ranges hnested ih h
    rw [readType_of_nested hnested harray]
    exact (ih (h.enterArray depth)).congr (cursor_report ..)
  case array' =>
    intro depth a harray ranges hnested ih h
    obtain rfl := Nat.eq_zero_of_not_pos hnested
    rw [readType_of_array harray]
    exact ih (h.enterArray 0)
  case simple =>
    intro depth a harray h
    rw [readType_of_simple depth harray]
    exact h.steps (steps_readSimpleType h.inside)
  case of =>
    intro depth ranges a hof ih h
    rw [readElements_of_of depth ranges hof]
    exact ih (h.steps (steps_next a))
  case missing =>
    intro depth ranges a hof hstarts ih h
    rw [readElements_of_missing depth ranges hof hstarts]
    exact ih (h.steps (steps_missingOf a))
  case none =>
    intro depth ranges a hof hstarts h
    rw [readElements_of_none depth ranges hof hstarts]
    exact h.steps (steps_missingOf a)

theorem readElements [NestingLimit] (h : Stands table a) (depth : Nat)
    (ranges : List IndexRange) :
    Stands table (a.readElements depth ranges).2 := by
  have hnext := h.steps (steps_next a)
  have hmissing := h.steps (steps_missingOf a)
  rw [Analysis.readElements]
  split
  · exact hnext.readType (depth + 1)
  · split
    · exact hmissing.readType (depth + 1)
    · exact hmissing

theorem readArrayType [NestingLimit] (h : Stands table a) :
    Stands table a.readArrayType.2 :=
  (h.enterArray 0).readElements 0 _

/-- The analysis of the whole table begins in front of it. -/
theorem run [NestingLimit] (h : Stands table a) : Stands table a.run := by
  have hfresh : (ofTable table).Inside := by
    obtain ⟨t, ht, hend⟩ := h.inside.ahead
    refine Inside.ofTable ⟨t, ?_, hend⟩
    rw [← h.toList]
    exact List.mem_append_right _ ht
  obtain ⟨value, hrun, -⟩ := run_eq_withMark h.toList
  have hdone : Stands table (ofTable table).run :=
    steps ⟨hfresh, rfl⟩ (steps_readSection hfresh)
  exact hdone.congr (by rw [hrun]; rfl)

/-- Every operation keeps the table, and the place inside it. -/
theorem perform [NestingLimit] (h : Stands table a) (op : Operation) :
    Stands table (op.perform a).2 := by
  have ha := h.inside
  cases op with
  | next => exact h.steps (steps_next a)
  | previous => exact h.congr (cursor_lookBack a)
  | onLineOfPrevious => exact h.congr (cursor_lookBack a)
  | report pos cause => exact h.congr (cursor_report ..)
  | expect pos cause => exact h.congr (cursor_expect ..)
  | reportAfterPrevious cause =>
    exact h.congr (cursor_reportAfterPrevious ..)
  | reportUnknown line => exact h.steps (steps_reportUnknown ha _)
  | synchronize line => exact h.steps (steps_synchronize ha line)
  | run => exact h.run
  | readDeclaration => exact h.readDeclaration
  | readNames => exact h.steps (steps_readNames ha)
  | readName => exact h.steps (steps_readName ha)
  | endDeclaration => exact h.endDeclaration
  | declare names common => exact h.congr (cursor_declare ..)
  | readType depth => exact h.readType depth
  | readStringType => exact h.steps (steps_readStringType ha)
  | readArrayType => exact h.readArrayType
  | readRanges => exact h.steps (steps_readRanges ha)
  | readRange => exact h.steps (steps_readRange ha)
  | skipToRangeBoundary => exact h.steps (steps_skipToRangeBoundary a)
  | setRecovering value => exact h.congr rfl
  | current | following | atKind | atSymbol | atKeyword | atInteger
  | startsType | startsDeclaration => exact h

/-- A table with a lexeme has no operation that begins with a fault. -/
theorem apply_eq [NestingLimit] (h : Stands table a) (op : Operation) :
    op.apply a = match (op.perform a).2.halt? with
      | some note => .error note
      | none => .ok (op.perform a) := by
  obtain ⟨rest, hrest⟩ := h.inside.exists_ahead
  have hnonempty : a.cursor.toList.isEmpty = false := by
    unfold Cursor.toList
    rw [hrest]
    simp
  cases hnote : (op.perform a).2.halt? with
  | none => simp [Operation.apply, hnonempty, hnote]
  | some note => simp [Operation.apply, hnonempty, hnote]

theorem apply_run_eq [NestingLimit] (h : Stands table a) :
    Operation.run.apply a = match a.run.halt? with
      | some note => .error note
      | none => .ok (.flag a.run.isClean, a.run) :=
  h.apply_eq .run

end Stands

/-- The states of an analysis of a table that has been driven from outside
by operations. An operation that ends with a fault is left in the middle;
of the state in which it is left only the table is known. -/
inductive Driven [NestingLimit] (table : List Token) : Analysis → Prop
  | fresh : Driven table (ofTable table)
  | done {a b : Analysis} {op : Operation} {answer : Answer}
      (ha : Driven table a) (hop : op.apply a = .ok (answer, b)) :
      Driven table b
  | interrupted {a b : Analysis} {op : Operation} {note : Halt}
      (ha : Driven table a) (hop : op.apply a = .error note)
      (hb : Stands table b) : Driven table b

/-- Operations keep the table, and the place inside it. -/
theorem Driven.stands [NestingLimit] (hfresh : (ofTable table).Inside)
    (h : Driven table a) : Stands table a := by
  induction h with
  | fresh => exact ⟨hfresh, rfl⟩
  | @done a b op answer ha hop ih =>
    have hperform := ih.perform op
    rw [ih.apply_eq op] at hop
    split at hop
    next => cases hop
    next =>
      rw [Except.ok.inj hop] at hperform
      exact hperform
  | interrupted ha hop hb ih => exact hb

/-- An operation without a fault leads on. -/
theorem Driven.perform [NestingLimit] (hfresh : (ofTable table).Inside)
    (h : Driven table a) (op : Operation)
    (hop : (op.perform a).2.halt? = none) :
    Driven table (op.perform a).2 := by
  have happly : op.apply a = .ok (op.perform a) := by
    rw [(h.stands hfresh).apply_eq, hop]
  exact h.done happly

/-- An operation with a fault leads anywhere in the table. -/
theorem Driven.broken [NestingLimit] (hfresh : (ofTable table).Inside)
    (h : Driven table a) (op : Operation)
    (hop : (op.perform a).2.halt? ≠ none) (hb : Stands table b) :
    Driven table b := by
  obtain ⟨note, hnote⟩ := Option.ne_none_iff_exists'.1 hop
  have happly : op.apply a = .error note := by
    rw [(h.stands hfresh).apply_eq, hnote]
  exact h.interrupted happly hb

/-- An analysis of a whole table forgets what was done before. Whatever
operations an analysis of the table was driven by, with whatever faults, the
analysis of the whole table ends as that of a fresh state does: with the
same answer, findings, symbols and declarations, or with the same fault and
the same record before it. Only the recovery mark can be another, and only
where the table has no declaration. -/
theorem run_afresh [NestingLimit] (htable : ∃ t ∈ table, t.isEnding = true)
    (ha : Driven table a) :
    ∃ value, Operation.run.apply a
        = (Operation.run.apply (ofTable table)).map
            (fun done => (done.1, done.2.withMark value))
      ∧ ((ofTable table).run.declared ≠ [] →
        Operation.run.apply a = Operation.run.apply (ofTable table)) := by
  have hfresh := Inside.ofTable htable
  have hstands := ha.stands hfresh
  have hstands' : Stands table (ofTable table) := ⟨hfresh, rfl⟩
  obtain ⟨value, hrun, hsame⟩ := run_eq_withMark hstands.toList
  rw [hstands.apply_run_eq, hstands'.apply_run_eq]
  refine ⟨value, ?_, fun hdeclared => by rw [hsame hdeclared]⟩
  rw [hrun]
  cases hnote : (ofTable table).run.halt? with
  | some note => simp [withMark, hnote, Except.map]
  | none => simp [withMark, hnote, Except.map, isClean]

open scoped UsualNesting

/-- A declaration without its comma and its colon. A fault in front of the
table, an analysis of the whole table and a recovery mark that is set by hand
leave no trace. -/
theorem run_afresh_marked :
    let table : List Token :=
      [⟨.keyword, "var", ⟨1, 1⟩⟩, ⟨.identifier, "a", ⟨1, 5⟩⟩,
        ⟨.identifier, "b", ⟨1, 7⟩⟩, ⟨.keyword, "char", ⟨1, 9⟩⟩,
        ⟨.symbol, ";", ⟨1, 13⟩⟩, ⟨.ending, [], ⟨1, 14⟩⟩]
    ∃ a, Driven table a ∧ a.recovering = true ∧ a.errors ≠ []
      ∧ a.cursor.position = 5 ∧ a.declared ≠ []
      ∧ Operation.run.apply a = Operation.run.apply (ofTable table) := by
  intro table
  have htable : ∃ t ∈ table, t.isEnding = true :=
    ⟨⟨.ending, [], ⟨1, 14⟩⟩, by simp [table], rfl⟩
  have hfresh := Inside.ofTable htable
  let broken : Analysis :=
    { ofTable table with errors := [⟨.syntactic, ⟨1, 1⟩, .semicolonExpected⟩] }
  have hbroken : Driven table broken :=
    Driven.fresh.broken hfresh .endDeclaration (by decide +kernel)
      (Stands.congr ⟨hfresh, rfl⟩ rfl)
  have hmarked := hbroken.perform hfresh (.setRecovering true) rfl
  have hrun := hmarked.perform hfresh .run (by decide +kernel)
  have hagain := hrun.perform hfresh (.setRecovering true) (by decide +kernel)
  refine ⟨_, hagain, rfl, by decide +kernel, by decide +kernel,
    by decide +kernel, ?_⟩
  obtain ⟨value, -, hsame⟩ := run_afresh htable hagain
  exact hsame (by decide +kernel)

end VarSection.Analysis
