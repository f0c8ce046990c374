/-
Names over a whole run. The declarations of an analysis offer their names to
the table of symbols one after another (`Analysis.offered`), whatever
recovery made of them: names that are no names, and types that could not be
read. The table holds the first symbol of each name, in this order, and each
later one is found just once and told of the first (`run_tallies`).

Only two things count for this. The parts of a declaration are read without
a look at the symbols, and the findings on them are on something else
(`records_readParts`); and where a table answers for all symbols that were
offered, entering one more name reports it or puts it last
(`Tallies.declare`).

In a table made from a text the names stand in reading order. A name begins
at a lexeme that is passed before the next one is looked for, so all names
offered lie in front of the place (`Rising`), and the first of two equal
names stands in front of the second.
-/
import VarSection.Proofs.Analysis.Ending
import VarSection.Proofs.Analysis.Resuming
import VarSection.Proofs.Grammar.Diagnosis

namespace VarSection

open Analysis Grammar

-- ==================================================== symbols in their order

/-- The symbols that a declaration offers to the table. -/
def Declaration.offered (d : Declaration) : List (Symbol Position) :=
  d.names.map fun n => ⟨n.name, d.type, n.pos⟩

/-- The symbols that the declarations of an analysis offered, in order. -/
def Analysis.offered (a : Analysis) : List (Symbol Position) :=
  a.declared.flatMap Declaration.offered

namespace Grammar

/-- Of symbols that are declared one after another, behind those seen
before, the first ones of their names. -/
def firstSymbols (seen : List (Symbol Position)) :
    List (Symbol Position) → List (Symbol Position)
  | [] => []
  | s :: rest =>
    if (firstNamed? seen s.name).isNone then
      s :: firstSymbols (seen ++ [s]) rest
    else firstSymbols (seen ++ [s]) rest

theorem firstSymbols_append (seen xs ys : List (Symbol Position)) :
    firstSymbols seen (xs ++ ys)
      = firstSymbols seen xs ++ firstSymbols (seen ++ xs) ys := by
  induction xs generalizing seen with
  | nil => rw [List.append_nil]; rfl
  | cons s xs ih =>
    rw [List.cons_append, firstSymbols, firstSymbols, ih, ← List.append_cons]
    split <;> rfl

theorem firstSymbols_sublist (seen symbols : List (Symbol Position)) :
    (firstSymbols seen symbols).Sublist symbols := by
  induction symbols generalizing seen with
  | nil => exact .slnil
  | cons s symbols ih =>
    rw [firstSymbols]
    split
    · exact (ih _).cons_cons s
    · exact (ih _).cons s

/-- Each symbol is the first of its name or told of the first. -/
theorem length_firstSymbols (seen symbols : List (Symbol Position)) :
    (redeclarations seen symbols).length + (firstSymbols seen symbols).length
      = symbols.length := by
  induction symbols generalizing seen with
  | nil => rfl
  | cons s symbols ih =>
    have hrest := ih (seen ++ [s])
    rw [redeclarations, firstSymbols, redeclaration?, List.length_append,
      List.length_cons]
    cases firstNamed? seen s.name with
    | none =>
      simp only [Option.map_none, Option.toList_none, Option.isNone_none,
        if_true, List.length_nil, List.length_cons]
      omega
    | some first =>
      simp only [Option.map_some, Option.toList_some, Option.isNone_some,
        Bool.false_eq_true, if_false, List.length_singleton]
      omega

/-- A symbol is told of the first one of its name in front of it. -/
theorem exists_of_mem_redeclarations {seen symbols : List (Symbol Position)}
    {d : Diagnostic} (hd : d ∈ redeclarations seen symbols) :
    ∃ before s after first, symbols = before ++ s :: after
      ∧ firstNamed? (seen ++ before) s.name = some first
      ∧ d = ⟨.syntactic, s.place, .redeclared s.name first.place⟩ := by
  induction symbols generalizing seen with
  | nil => cases hd
  | cons s symbols ih =>
    rw [redeclarations, redeclaration?] at hd
    rcases List.mem_append.1 hd with hd | hd
    · rw [Option.mem_toList, Option.map_eq_some_iff] at hd
      obtain ⟨first, hfirst, rfl⟩ := hd
      exact ⟨[], s, symbols, first, rfl, by rw [List.append_nil, hfirst], rfl⟩
    · obtain ⟨before, t, after, first, rfl, hfirst, rfl⟩ := ih hd
      rw [← List.append_cons] at hfirst
      exact ⟨s :: before, t, after, first, rfl, hfirst, rfl⟩

theorem isRedeclared_of_mem_redeclarations
    {seen symbols : List (Symbol Position)} {d : Diagnostic}
    (hd : d ∈ redeclarations seen symbols) : d.cause.isRedeclared = true := by
  obtain ⟨before, s, after, first, -, -, rfl⟩ :=
    exists_of_mem_redeclarations hd
  rfl

end Grammar

-- ====================================================== entering names

/-- A symbol under the lower case of its name. -/
def Symbol.keyed (s : Symbol Position) : Text × Symbol Position :=
  (Text.lower s.name, s)

/-- A new symbol is put in front of all that a table has. -/
theorem SymbolTable.entries_define_of_new {t : SymbolTable Position}
    {s : Symbol Position} (h : (t.define s).1 = none) :
    (t.define s).2.entries = s.keyed :: t.entries := by
  rw [define_fst] at h
  rw [define_of_none h]
  rfl

namespace Analysis

variable {a b c : Analysis} {seen : List (Symbol Position)}

/-- Where a table answers for the symbols seen before, declaring names adds
the first ones of their names. -/
theorem entries_declare_of_holds (names : List Identifier) (type : VarType)
    (h : a.symbols.Holds seen) :
    (a.declare names type).symbols.entries.reverse
      = a.symbols.entries.reverse
        ++ (firstSymbols seen
            (names.map fun n => ⟨n.name, type, n.pos⟩)).map Symbol.keyed := by
  induction names generalizing a seen with
  | nil => exact (List.append_nil _).symm
  | cons n names ih =>
    rw [List.map_cons, firstSymbols, declare_cons]
    cases hfirst : firstNamed? seen n.name with
    | some first =>
      obtain ⟨hdefine, hholds⟩ := SymbolTable.define_of_held
        (s := ⟨n.name, type, n.pos⟩) h hfirst
      rw [declareName_of_held hdefine]
      exact ih (a := a.report n.pos (.redeclared n.name first.place)) hholds
    | none =>
      obtain ⟨hdefine, hholds⟩ := SymbolTable.define_of_new
        (s := ⟨n.name, type, n.pos⟩) h hfirst
      rw [declareName_of_new hdefine, ih hholds,
        SymbolTable.entries_define_of_new hdefine, List.reverse_cons,
        List.append_assoc]
      rfl

/-- The findings of an analysis on names that were declared before, in the
order in which they were made. -/
def redeclared (a : Analysis) : List Diagnostic :=
  a.findings.filter fun d => d.cause.isRedeclared

/-- Of the symbols that were offered the table holds the first ones of
their names, and every other is found to be told of the first. -/
structure Tallies (a : Analysis) : Prop where
  entries : a.symbols.entries.reverse
    = (firstSymbols [] a.offered).map Symbol.keyed
  holds : a.symbols.Holds a.offered
  redeclared : a.redeclared = redeclarations [] a.offered

theorem Tallies.toList_symbols (h : a.Tallies) :
    a.symbols.toList = firstSymbols [] a.offered := by
  unfold SymbolTable.toList
  rw [← List.map_reverse, h.entries, List.map_map]
  exact List.map_id _

/-- One more declaration offers its names behind all others. -/
theorem offered_of_declarations {d : Declaration}
    (h : b.declarations = d :: a.declarations) :
    b.offered = a.offered ++ d.offered := by
  unfold offered declared
  rw [h, List.reverse_cons, List.flatMap_append, List.flatMap_singleton]

/-- What makes no finding on names and keeps the symbols and the
declarations keeps the tally. -/
theorem Tallies.congr (h : a.Tallies) (hsymbols : b.symbols = a.symbols)
    (hdeclarations : b.declarations = a.declarations)
    (hredeclared : b.redeclared = a.redeclared) : b.Tallies := by
  have hoffered : b.offered = a.offered := by
    unfold offered declared
    rw [hdeclarations]
  refine ⟨?_, ?_, ?_⟩
  · rw [hsymbols, hoffered]
    exact h.entries
  · rw [hsymbols, hoffered]
    exact h.holds
  · rw [hredeclared, hoffered]
    exact h.redeclared

theorem Tallies.ofTable (table : List Token) : (ofTable table).Tallies :=
  ⟨rfl, SymbolTable.holds_empty, rfl⟩

/-- A declaration is entered together with its names. -/
theorem Tallies.declare (h : a.Tallies) (d : Declaration) :
    ((a.enter d).declare d.names d.type).Tallies := by
  obtain ⟨herrors, hsymbols, hdeclarations, -⟩ :=
    declare_of_holds (a := a.enter d) d.names d.type h.holds
  have hoffered : ((a.enter d).declare d.names d.type).offered
      = a.offered ++ d.offered := offered_of_declarations hdeclarations
  refine ⟨?_, ?_, ?_⟩
  · rw [entries_declare_of_holds (a := a.enter d) d.names d.type h.holds,
      hoffered, firstSymbols_append, List.map_append, ← h.entries]
    rfl
  · rw [hoffered]
    exact hsymbols
  · have hnew : (redeclarations a.offered d.offered).filter
        (fun e => e.cause.isRedeclared) = redeclarations a.offered d.offered :=
      List.filter_eq_self.2 fun e he => isRedeclared_of_mem_redeclarations he
    unfold Analysis.redeclared findings
    rw [herrors, hoffered, redeclarations_append, ← h.redeclared,
      List.reverse_append, List.reverse_reverse, List.filter_append]
    exact congrArg (_ ++ ·) hnew

-- ======================================================= one declaration

/-- What two analyses find in lockstep is not on names. -/
theorem redeclared_of_grown {p : Fork} {a b c d : Analysis}
    (h : p.Grown a.errors b.errors c.errors d.errors) :
    c.redeclared = a.redeclared := by
  unfold redeclared findings
  generalize c.errors = all at h
  generalize d.errors = all' at h
  induction h with
  | refl => rfl
  | cons hd _ ih =>
    rw [List.reverse_cons, List.filter_append, ih, List.filter_cons_of_neg
      (by rw [hd.isRedeclared.1]; decide)]
    exact List.append_nil _

/-- Any analysis goes in lockstep with itself. -/
theorem Inside.exists_joint (ha : a.Inside) :
    ∃ p : Fork, p.Joint ∧ p.Alike a a := by
  obtain ⟨xs, stop, rest, hahead, hxs, hstop⟩ := exists_firstEnding ha.ahead
  have hcommon : ∀ t ∈ a.cursor.behind.reverse ++ xs, t.isEnding = false := by
    intro t ht
    rcases List.mem_append.1 ht with ht | ht
    · exact ha.behind t (List.mem_reverse.1 ht)
    · exact hxs t ht
  have hp : (Fork.upTo _ stop rest rest hcommon hstop).Joint := ⟨rfl, rfl⟩
  refine ⟨_, hp, ⟨xs, rfl, hahead, ?_⟩, ?_, ha.overrun, ha.overrun⟩
  · rw [List.map_id'' hp.move]
    exact hahead
  · rw [funext hp.move]
    exact Option.map_id'.symm

/-- The parts of a declaration are read without entering a symbol, and
nothing is found on names. -/
theorem records_readParts [NestingLimit] (ha : a.Inside)
    (hend : a.current.isEnding = false) :
    ∃ c : Analysis, a.readParts = c.enter
        ⟨a.unmarked.readNames.1, a.unmarked.readNames.2.readTypePart.1,
          a.current.pos⟩
      ∧ c.symbols = a.symbols ∧ c.declarations = a.declarations
      ∧ c.redeclared = a.redeclared := by
  obtain ⟨p, hp, halike⟩ := ha.exists_joint
  obtain ⟨names, type, c, d, rfl, -, rfl, -, halong, hparts, -⟩ :=
    halike.readParts hend (hp.ready ⟨rfl, rfl, rfl, rfl, rfl⟩)
  exact ⟨c, hparts, halong.symbols, halong.declarations,
    redeclared_of_grown halong.grown⟩

/-- What a declaration declares comes in front of all that was declared
before. -/
theorem declarations_readDeclaration [NestingLimit] (ha : a.Inside)
    (hend : a.current.isEnding = false) :
    a.readDeclaration.declarations
      = ⟨a.unmarked.readNames.1, a.unmarked.readNames.2.readTypePart.1,
          a.current.pos⟩ :: a.declarations := by
  obtain ⟨c, hparts, -, hdeclarations, -⟩ := records_readParts ha hend
  rw [readDeclaration_eq, declarations_declare, hparts]
  exact congrArg (_ :: ·) hdeclarations

/-- A declaration is tallied with the symbols that it offers. -/
theorem Tallies.readDeclaration [NestingLimit] (h : a.Tallies) (ha : a.Inside)
    (hend : a.current.isEnding = false) : a.readDeclaration.Tallies := by
  obtain ⟨c, hparts, hsymbols, hdeclarations, hredeclared⟩ :=
    records_readParts ha hend
  rw [readDeclaration_eq, hparts]
  exact (h.congr hsymbols hdeclarations hredeclared).declare
    ⟨a.unmarked.readNames.1, a.unmarked.readNames.2.readTypePart.1,
      a.current.pos⟩

/-- Stray lexemes are found, but not on account of names. -/
theorem redeclared_passStray (a : Analysis) :
    a.passStray.redeclared = a.redeclared := by
  unfold passStray redeclared findings report
  simp only [errors_next, List.reverse_cons, List.filter_append]
  split <;> exact List.append_nil _

-- ============================================================ whole runs

/-- A property of analyses that is kept by all that a section does. -/
structure Lasts [NestingLimit] (P : Analysis → Prop) : Prop where
  inside : ∀ {a}, P a → a.Inside
  next : ∀ {a}, P a → a.current.isEnding = false → P a.next
  stray : ∀ {a}, P a → a.current.isEnding = false → P a.passStray
  declaration : ∀ {a}, P a → a.current.isEnding = false →
    P a.readDeclaration

namespace Lasts

variable {P : Analysis → Prop}

theorem readBlock [NestingLimit] (hP : Lasts P) (h : P a) :
    P a.readBlock := by
  fun_induction Analysis.readBlock a with
  | case1 a hname ih =>
    exact ih (hP.declaration h (isEnding_of_unreadName hname))
  | case2 a hname => exact h

theorem readSection [NestingLimit] (hP : Lasts P) (h : P a) :
    P a.readSection := by
  have hcurrent : ∀ {a : Analysis} {t : Token},
      a.cursor.ahead.head? = some t → a.current = t := by
    intro a t hhead
    obtain ⟨rest, hrest⟩ := List.head?_eq_some_iff.1 hhead
    exact current_of_ahead hrest
  fun_induction Analysis.readSection a with
  | case1 a hhead =>
    obtain ⟨rest, hrest⟩ := (hP.inside h).exists_ahead
    rw [hrest] at hhead
    cases hhead
  | case2 a t hhead hend => exact h
  | case3 a t hhead hend hvar ih =>
    refine ih (hP.readBlock (hP.next h ?_))
    rw [hcurrent hhead]
    exact Token.isEnding_eq_false_of_kind hend
  | case4 a t hhead hend hvar ih =>
    refine ih (hP.stray h ?_)
    rw [hcurrent hhead]
    exact Token.isEnding_eq_false_of_kind hend

end Lasts

/-- The tally lasts over a whole section. -/
theorem lasts_tallies [NestingLimit] :
    Lasts fun a => a.Inside ∧ a.Tallies where
  inside h := h.1
  next h _ := ⟨(steps_next _).inside h.1, h.2.congr (symbols_next _)
    (declarations_next _) (by
      unfold redeclared findings
      rw [errors_next])⟩
  stray h _ := ⟨(steps_passStray h.1).inside h.1,
    h.2.congr (symbols_next _) (declarations_next _)
      (redeclared_passStray _)⟩
  declaration h hend := ⟨(steps_readDeclaration h.1 hend).inside h.1,
    h.2.readDeclaration h.1 hend⟩

-- ==================================================== names in reading order

/-- A lexeme that is passed stands in front of the place. -/
theorem Settled.before_of_behind (ha : a.Settled) {t : Token}
    (ht : t ∈ a.cursor.behind) : t.pos.Before a.current.pos := by
  obtain ⟨rest, hrest⟩ := ha.inside.exists_ahead
  obtain ⟨l, r, hsplit⟩ := List.append_of_mem (List.mem_reverse.2 ht)
  have hlexed := ha.lexed
  unfold Cursor.toList at hlexed
  rw [hrest, hsplit, List.append_assoc] at hlexed
  exact hlexed.right_of_append.before (ha.inside.behind t ht) _
    (List.mem_append_right _ List.mem_cons_self)

/-- The place never goes back. -/
theorem Steps.current_le [NestingLimit] (h : Steps a b) (ha : a.Settled) :
    a.current.pos.le b.current.pos = true :=
  (h.settled ha).pos_le (h.mem_seen ha.inside (current_mem_seen a))

/-- Passing the current lexeme moves the place. -/
theorem Settled.before_next [NestingLimit] (ha : a.Settled)
    (hend : a.current.isEnding = false) :
    a.current.pos.Before a.next.current.pos :=
  ((steps_next a).settled ha).before_of_behind
    (current_mem_behind_next ha.inside hend)

/-- A name begins at the place, and the place moves on behind it. -/
theorem Settled.before_readName [NestingLimit] (ha : a.Settled)
    (hend : a.current.isEnding = false) :
    a.readName.1.pos.Before a.readName.2.current.pos :=
  (ha.before_next hend).trans_le ((steps_readName_of_next
    ha.inside).current_le ((steps_next a).settled ha))

/-- Names in reading order between two places. -/
structure Rising (lower : Position) (names : List Identifier)
    (upper : Position) : Prop where
  order : names.Pairwise fun m n => m.pos.Before n.pos
  lower : ∀ n ∈ names, lower.le n.pos = true
  upper : ∀ n ∈ names, n.pos.Before upper

theorem Rising.nil (lower upper : Position) : Rising lower [] upper :=
  ⟨.nil, fun _ hn => absurd hn List.not_mem_nil,
    fun _ hn => absurd hn List.not_mem_nil⟩

/-- One name stands in front of others. -/
theorem Rising.cons {lower middle upper : Position} {n : Identifier}
    {names : List Identifier} (hlower : lower.le n.pos = true)
    (hn : n.pos.Before middle) (hupper : middle.le upper = true)
    (hnames : Rising middle names upper) :
    Rising lower (n :: names) upper where
  order := List.pairwise_cons.2
    ⟨fun m hm => hn.trans_le (hnames.lower m hm), hnames.order⟩
  lower := List.forall_mem_cons.2 ⟨hlower, fun m hm =>
    Position.le_trans hlower (Position.le_trans hn.le (hnames.lower m hm))⟩
  upper := List.forall_mem_cons.2 ⟨hn.trans_le hupper, hnames.upper⟩

/-- Names behind commas stand in reading order, behind the place and in
front of where it is afterwards. -/
theorem Settled.rising_readMoreNames [NestingLimit] (ha : a.Settled) :
    Rising a.current.pos a.readMoreNames.1
      a.readMoreNames.2.current.pos := by
  fun_induction readMoreNames a with
  | case1 a hcomma hname name more ih =>
    have hnext := (steps_next a).settled ha
    have hread := (steps_readName hnext.inside).settled hnext
    exact .cons ((steps_next a).current_le ha)
      (hnext.before_readName (isEnding_of_atNameAfter hname))
      ((steps_readMoreNames hread.inside).current_le hread) (ih hread)
  | case2 a hcomma hname => exact .nil ..
  | case3 a hcomma => exact .nil ..

theorem Settled.rising_readNames [NestingLimit] (ha : a.Settled)
    (hend : a.current.isEnding = false) :
    Rising a.current.pos a.readNames.1 a.readNames.2.current.pos := by
  have hread := (steps_readName ha.inside).settled ha
  exact .cons (Position.le_refl _) (ha.before_readName hend)
    ((steps_readMoreNames hread.inside).current_le hread)
    hread.rising_readMoreNames

/-- In a table made from a text the names that were offered stand in reading
order, and in front of the place. -/
structure Orderly (a : Analysis) : Prop where
  settled : a.Settled
  order : a.offered.Pairwise fun s t => s.place.Before t.place
  passed : ∀ s ∈ a.offered, s.place.Before a.current.pos

/-- Steps that enter no declaration. -/
theorem Orderly.steps [NestingLimit] (h : a.Orderly) (hsteps : Steps a b)
    (hdeclarations : b.declarations = a.declarations) : b.Orderly := by
  have hoffered : b.offered = a.offered := by
    unfold offered declared
    rw [hdeclarations]
  refine ⟨hsteps.settled h.settled, ?_, ?_⟩
  · rw [hoffered]
    exact h.order
  · rw [hoffered]
    exact fun s hs => (h.passed s hs).trans_le (hsteps.current_le h.settled)

theorem Orderly.readDeclaration [NestingLimit] (h : a.Orderly)
    (hend : a.current.isEnding = false) : a.readDeclaration.Orderly := by
  have hsteps := steps_readDeclaration h.settled.inside hend
  have hstart : a.unmarked.Settled :=
    (Step.setRecovering a false).settled h.settled
  have hnames := hstart.rising_readNames hend
  have hrest := ((steps_readParts h.settled.inside hend).trans
    (steps_declareParts h.settled.inside hend)).current_le
    ((steps_unmarked h.settled.inside).settled h.settled)
  have hoffered := offered_of_declarations
    (declarations_readDeclaration h.settled.inside hend)
  refine ⟨hsteps.settled h.settled, ?_, ?_⟩
  · rw [hoffered, List.pairwise_append]
    unfold Declaration.offered
    refine ⟨h.order, List.pairwise_map.2 hnames.order, fun s hs t ht => ?_⟩
    obtain ⟨n, hn, rfl⟩ := List.mem_map.1 ht
    exact (h.passed s hs).trans_le (hnames.lower n hn)
  · rw [hoffered]
    intro s hs
    rcases List.mem_append.1 hs with hs | hs
    · exact (h.passed s hs).trans_le (hsteps.current_le h.settled)
    · obtain ⟨n, hn, rfl⟩ := List.mem_map.1 hs
      exact (hnames.upper n hn).trans_le hrest

/-- Reading order lasts over a whole section. -/
theorem lasts_orderly [NestingLimit] : Lasts Orderly where
  inside h := h.settled.inside
  next h _ := h.steps (steps_next _) (declarations_next _)
  stray h _ := h.steps (steps_passStray h.settled.inside)
    (declarations_next _)
  declaration h hend := h.readDeclaration hend

theorem Orderly.ofTable {table : List Token} (hlexed : Lexed table)
    (hends : ∃ t ∈ table, t.isEnding = true) : (ofTable table).Orderly :=
  ⟨.ofTable hlexed hends, .nil, fun _ hs => absurd hs List.not_mem_nil⟩

end Analysis

-- ============================================================= the tally

theorem Analysis.Tallies.run [NestingLimit] {table : List Token}
    (h : ∃ t ∈ table, t.isEnding = true) :
    (Analysis.ofTable table).run.Tallies :=
  (lasts_tallies.readSection ⟨.ofTable h, .ofTable table⟩).2

/-- After an analysis of any table with a mark of the end, the table of
symbols holds the first symbol of each name that its declarations offer, in
their order, and each later symbol is found once, where it stands, and told
of the first. So these findings and the symbols that are held make up all
that were offered. In a text all names stand in reading order, and a name is
always told of one in front of it. -/
theorem run_tallies [NestingLimit] (table : List Token)
    (h : ∃ t ∈ table, t.isEnding = true) :
    let a := (ofTable table).run
    a.symbols.toList = firstSymbols [] a.offered
      ∧ a.symbols.keys
        = (firstSymbols [] a.offered).map (fun s => Text.lower s.name)
      ∧ a.redeclared = redeclarations [] a.offered
      ∧ a.redeclared.length + a.symbols.size = a.offered.length
      ∧ ∀ text, tokenize text = .ok table →
          (a.offered.Pairwise fun s t => s.place.Before t.place)
            ∧ ∀ d ∈ a.redeclared, ∃ name first,
                d.cause = .redeclared name first ∧ first.Before d.pos := by
  intro a
  have htally : a.Tallies := .run h
  refine ⟨htally.toList_symbols, ?_, htally.redeclared, ?_,
    fun text htext => ?_⟩
  · unfold SymbolTable.keys
    rw [← List.map_reverse, htally.entries, List.map_map]
    rfl
  · have hlength := congrArg List.length htally.entries
    rw [List.length_reverse, List.length_map] at hlength
    unfold SymbolTable.size
    rw [hlength, htally.redeclared, length_firstSymbols]
  · obtain ⟨tokens, q, hscans, rfl⟩ := tokenize_eq_ok_iff.1 htext
    have horderly : a.Orderly :=
      lasts_orderly.readSection (.ofTable hscans.lexed h)
    refine ⟨horderly.order, fun d hd => ?_⟩
    rw [htally.redeclared] at hd
    obtain ⟨before, s, after, first, hsplit, hfirst, rfl⟩ :=
      exists_of_mem_redeclarations hd
    refine ⟨s.name, first.place, rfl, ?_⟩
    have horder := horderly.order
    rw [hsplit, List.pairwise_append] at horder
    exact horder.2.2 first (List.mem_of_find?_eq_some hfirst) s
      List.mem_cons_self

/-- The lexemes of `var a, 1ё: real; A, 1Ё: array;`. -/
def gluedNames : List Token :=
  [⟨.keyword, "var", ⟨1, 1⟩⟩, ⟨.identifier, "a", ⟨1, 5⟩⟩,
    ⟨.symbol, ",", ⟨1, 6⟩⟩, ⟨.number, "1", ⟨1, 8⟩⟩, ⟨.unknown, "ё", ⟨1, 9⟩⟩,
    ⟨.symbol, ":", ⟨1, 10⟩⟩, ⟨.keyword, "real", ⟨1, 12⟩⟩,
    ⟨.symbol, ";", ⟨1, 16⟩⟩, ⟨.identifier, "A", ⟨1, 18⟩⟩,
    ⟨.symbol, ",", ⟨1, 19⟩⟩, ⟨.number, "1", ⟨1, 21⟩⟩,
    ⟨.unknown, "Ё", ⟨1, 22⟩⟩, ⟨.symbol, ":", ⟨1, 23⟩⟩,
    ⟨.keyword, "array", ⟨1, 25⟩⟩, ⟨.symbol, ";", ⟨1, 30⟩⟩, .mark ⟨1, 31⟩]

open scoped UsualNesting

/-- Names that are no names, of lexemes glued together and with a type that
cannot be read, are tallied like any other. -/
theorem run_tallies_gluedNames :
    let a := (ofTable gluedNames).run
    (∃ t ∈ gluedNames, t.isEnding = true)
      ∧ tokenize "var a, 1ё: real; A, 1Ё: array;" = .ok gluedNames
      ∧ a.symbols.toList = firstSymbols [] a.offered
      ∧ a.symbols.keys = ["a", "1ё"]
      ∧ a.redeclared = [⟨.syntactic, ⟨1, 18⟩, .redeclared "A" ⟨1, 5⟩⟩,
          ⟨.syntactic, ⟨1, 21⟩, .redeclared "1Ё" ⟨1, 8⟩⟩]
      ∧ a.redeclared.length + a.symbols.size = a.offered.length
      ∧ a.offered.Pairwise fun s t => s.place.Before t.place := by
  intro a
  have hends : ∃ t ∈ gluedNames, t.isEnding = true :=
    ⟨.mark ⟨1, 31⟩, by decide, rfl⟩
  have htext : tokenize "var a, 1ё: real; A, 1Ё: array;"
      = .ok gluedNames := by decide +kernel
  obtain ⟨hsymbols, hkeys, hredeclared, hcount, horder⟩ :=
    run_tallies gluedNames hends
  refine ⟨hends, htext, hsymbols, hkeys.trans ?_, hredeclared.trans ?_,
    hcount, (horder _ htext).1⟩
  · decide +kernel
  · decide +kernel

end VarSection
