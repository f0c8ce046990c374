/-
The place of an analysis, and passages over its table. A place is `Inside`
a table as long as the first mark of the end lies ahead. From there an
analysis always looks at an unread lexeme, so nothing is sought outside the
table, and looking back finds no fault.

`Passes a ts found b` says of two states that exactly the lexemes `ts` lie
between them, that exactly the findings `found` were made on the way, in
this order, and that all else stayed as it was. Passages compose
(`Passes.trans`), and what is skipped after a fault is a passage: its
lexemes are a run that the table decides, its findings one for each unknown
symbol of the run.
-/
import VarSection.Analysis.Section

namespace VarSection

-- ======================================================= single lexemes

namespace Token

variable {t : Token}

theorem kind_of_isSymbol {s : Text} (h : t.isSymbol s = true) :
    t.kind = .symbol := by
  unfold isSymbol at h
  rw [Bool.and_eq_true, beq_iff_eq] at h
  exact h.1

theorem kind_of_isKeyword {w : Text} (h : t.isKeyword w = true) :
    t.kind = .keyword := by
  unfold isKeyword at h
  rw [Bool.and_eq_true, beq_iff_eq] at h
  exact h.1

/-- Of any two symbols a lexeme is at most one. -/
theorem isSymbol_eq_of_isSymbol {s : Text} (h : t.isSymbol s = true)
    (s' : Text) : t.isSymbol s' = (s == s') := by
  unfold isSymbol at h ⊢
  rw [Bool.and_eq_true, beq_iff_eq, beq_iff_eq] at h
  rw [h.1, h.2]
  rfl

/-- Of any two keywords a lexeme is at most one. -/
theorem isKeyword_eq_of_isKeyword {w : Text} (h : t.isKeyword w = true)
    (w' : Text) : t.isKeyword w' = (w == w') := by
  unfold isKeyword at h ⊢
  rw [Bool.and_eq_true, beq_iff_eq, beq_iff_eq] at h
  rw [h.1, h.2]
  rfl

theorem isSymbol_eq_false_of_ne {s s' : Text} (h : t.isSymbol s = true)
    (hne : s ≠ s') : t.isSymbol s' = false := by
  rw [isSymbol_eq_of_isSymbol h]
  exact beq_eq_false_iff_ne.2 hne

theorem isKeyword_eq_false_of_ne {w w' : Text} (h : t.isKeyword w = true)
    (hne : w ≠ w') : t.isKeyword w' = false := by
  rw [isKeyword_eq_of_isKeyword h]
  exact beq_eq_false_iff_ne.2 hne

theorem isSymbol_eq_false_of_kind (h : t.kind ≠ .symbol) (s : Text) :
    t.isSymbol s = false := by
  unfold isSymbol
  rw [beq_eq_false_iff_ne.2 h, Bool.false_and]

theorem isKeyword_eq_false_of_kind (h : t.kind ≠ .keyword) (w : Text) :
    t.isKeyword w = false := by
  unfold isKeyword
  rw [beq_eq_false_iff_ne.2 h, Bool.false_and]

theorem isEnding_eq_false_of_kind (h : t.kind ≠ .ending) :
    t.isEnding = false :=
  beq_eq_false_iff_ne.2 h

theorem kind_ne_of_isEnding_eq_false (h : t.isEnding = false) :
    t.kind ≠ .ending :=
  beq_eq_false_iff_ne.1 h

theorem kind_of_isEnding (h : t.isEnding = true) : t.kind = .ending :=
  beq_iff_eq.1 h

theorem isEnding_of_isSymbol {s : Text} (h : t.isSymbol s = true) :
    t.isEnding = false :=
  isEnding_eq_false_of_kind (by rw [kind_of_isSymbol h]; decide)

theorem isEnding_of_isKeyword {w : Text} (h : t.isKeyword w = true) :
    t.isEnding = false :=
  isEnding_eq_false_of_kind (by rw [kind_of_isKeyword h]; decide)

end Token

/-- How many lexemes of a table are the word that arrays begin with. -/
def arrayWords (table : List Token) : Nat :=
  table.countP (·.isKeyword "array")

namespace Analysis

variable {a b c : Analysis} {t : Token} {rest : List Token}

-- ===================================================== places in a table

/-- The place lies in the table, and the first mark of the end is still
ahead. -/
structure Inside (a : Analysis) : Prop where
  overrun : a.cursor.overrun = 0
  behind : ∀ t ∈ a.cursor.behind, t.isEnding = false
  ahead : ∃ t ∈ a.cursor.ahead, t.isEnding = true

theorem current_of_ahead (h : a.cursor.ahead = t :: rest) :
    a.current = t := by
  unfold current
  rw [h]

theorem upcoming_of_ahead (h : a.cursor.ahead = t :: rest) :
    a.upcoming = t :: rest := by
  unfold upcoming
  rw [h]

theorem next_of_ahead (h : a.cursor.ahead = t :: rest)
    (ht : t.isEnding = false) :
    a.next = { a with
      cursor := ⟨t :: a.cursor.behind, rest, a.cursor.overrun⟩ } := by
  unfold next Cursor.advance
  rw [current_of_ahead h, ht, h]
  rfl

theorem next_of_ending (h : a.current.isEnding = true) : a.next = a := by
  unfold next
  rw [if_pos h]

namespace Inside

/-- There is always an unread lexeme to look at. -/
theorem exists_ahead (h : a.Inside) :
    ∃ rest, a.cursor.ahead = a.current :: rest := by
  obtain ⟨t, ht, -⟩ := h.ahead
  cases hahead : a.cursor.ahead with
  | nil =>
    rw [hahead] at ht
    cases ht
  | cons u rest => exact ⟨rest, by rw [current_of_ahead hahead]⟩

theorem upcoming (h : a.Inside) : a.upcoming = a.cursor.ahead := by
  obtain ⟨rest, hrest⟩ := h.exists_ahead
  rw [upcoming_of_ahead hrest, hrest]

theorem previous? (h : a.Inside) :
    a.previous? = a.cursor.behind.head? := by
  unfold Analysis.previous?
  rw [if_pos h.overrun]

theorem lookBack (h : a.Inside) : a.lookBack = a := by
  unfold Analysis.lookBack
  rw [if_pos h.overrun]

/-- Whatever keeps the place keeps it inside the table. -/
theorem congr (h : a.Inside) (hcursor : b.cursor = a.cursor) : b.Inside :=
  ⟨by rw [hcursor]; exact h.overrun, by rw [hcursor]; exact h.behind,
    by rw [hcursor]; exact h.ahead⟩

theorem ofTable {table : List Token}
    (h : ∃ t ∈ table, t.isEnding = true) : (ofTable table).Inside :=
  ⟨rfl, fun _ ht => absurd ht List.not_mem_nil, h⟩

end Inside

-- ========================================================= what is found

/-- Whether the latest finding lies at a place. -/
def hits (a : Analysis) (pos : Position) : Bool :=
  a.errors.head?.any (·.pos == pos)

theorem expect_eq (a : Analysis) (pos : Position) (cause : Cause) :
    a.expect pos cause = if a.hits pos then a else a.report pos cause := rfl

@[simp] theorem hits_report (a : Analysis) (pos pos' : Position)
    (cause : Cause) : (a.report pos cause).hits pos' = (pos == pos') := rfl

theorem hits_congr {a b : Analysis} (h : b.errors = a.errors)
    (pos : Position) : b.hits pos = a.hits pos := by
  unfold hits
  rw [h]

-- what passing a lexeme leaves as it was

@[simp] theorem errors_next (a : Analysis) : a.next.errors = a.errors := by
  unfold next; split <;> rfl

@[simp] theorem recovering_next (a : Analysis) :
    a.next.recovering = a.recovering := by
  unfold next; split <;> rfl

@[simp] theorem symbols_next (a : Analysis) :
    a.next.symbols = a.symbols := by
  unfold next; split <;> rfl

@[simp] theorem declarations_next (a : Analysis) :
    a.next.declarations = a.declarations := by
  unfold next; split <;> rfl

@[simp] theorem halt?_next (a : Analysis) : a.next.halt? = a.halt? := by
  unfold next; split <;> rfl

@[simp] theorem errors_halt (a : Analysis) (fault : Fault) :
    (a.halt fault).errors = a.errors := by
  unfold halt; split <;> rfl

@[simp] theorem errors_descend [NestingLimit] (depth : Nat) (a : Analysis) :
    (a.descend depth).errors = a.errors := by
  unfold descend; split <;> simp

@[simp] theorem errors_readInteger (a : Analysis) (number : Token) :
    (a.readInteger number).2.errors = a.errors := by
  unfold readInteger; simp only; split <;> simp

-- ============================================================== passages

/-- Between two states lie exactly these lexemes, exactly these findings
were made on the way, and all else stayed as it was. -/
structure Passes (a : Analysis) (ts : List Token) (found : List Diagnostic)
    (b : Analysis) : Prop where
  notEnding : ∀ t ∈ ts, t.isEnding = false
  ahead : a.cursor.ahead = ts ++ b.cursor.ahead
  behind : b.cursor.behind = ts.reverse ++ a.cursor.behind
  overrun : b.cursor.overrun = a.cursor.overrun
  errors : b.errors = found.reverse ++ a.errors
  recovering : b.recovering = a.recovering
  symbols : b.symbols = a.symbols
  declarations : b.declarations = a.declarations
  halt? : b.halt? = a.halt?

namespace Passes

variable {ts us : List Token} {found more : List Diagnostic}

theorem refl (a : Analysis) : Passes a [] [] a :=
  ⟨fun _ ht => absurd ht List.not_mem_nil, rfl, rfl, rfl, rfl, rfl, rfl, rfl,
    rfl⟩

theorem trans (h : Passes a ts found b) (h' : Passes b us more c) :
    Passes a (ts ++ us) (found ++ more) c where
  notEnding t ht := (List.mem_append.1 ht).elim (h.notEnding t)
    (h'.notEnding t)
  ahead := by rw [h.ahead, h'.ahead, List.append_assoc]
  behind := by
    rw [h'.behind, h.behind, List.reverse_append, List.append_assoc]
  overrun := h'.overrun.trans h.overrun
  errors := by
    rw [h'.errors, h.errors, List.reverse_append, List.append_assoc]
  recovering := h'.recovering.trans h.recovering
  symbols := h'.symbols.trans h.symbols
  declarations := h'.declarations.trans h.declarations
  halt? := h'.halt?.trans h.halt?

/-- A passage stays inside the table. -/
theorem inside (h : Passes a ts found b) (ha : a.Inside) : b.Inside where
  overrun := h.overrun.trans ha.overrun
  behind t ht := by
    rw [h.behind] at ht
    rcases List.mem_append.1 ht with ht | ht
    · exact h.notEnding t (List.mem_reverse.1 ht)
    · exact ha.behind t ht
  ahead := by
    obtain ⟨t, ht, hend⟩ := ha.ahead
    rw [h.ahead] at ht
    rcases List.mem_append.1 ht with ht | ht
    · rw [h.notEnding t ht] at hend
      cases hend
    · exact ⟨t, ht, hend⟩

/-- A passage keeps the table. -/
theorem toList (h : Passes a ts found b) :
    b.cursor.toList = a.cursor.toList := by
  unfold Cursor.toList
  rw [h.behind, h.ahead, List.reverse_append, List.reverse_reverse,
    List.append_assoc]

/-- What a passage leaves ahead, where its lexemes are known. -/
theorem ahead_eq (h : Passes a ts found b)
    (hahead : a.cursor.ahead = ts ++ rest) : b.cursor.ahead = rest :=
  List.append_cancel_left (h.ahead.symm.trans hahead)

/-- What is left ahead behind a single lexeme. -/
theorem ahead_tail (h : Passes a [t] found b)
    (hahead : a.cursor.ahead = t :: rest) : b.cursor.ahead = rest :=
  h.ahead_eq (hahead.trans rfl)

end Passes

theorem passes_next (h : a.cursor.ahead = t :: rest)
    (ht : t.isEnding = false) : Passes a [t] [] a.next := by
  rw [next_of_ahead h ht]
  refine ⟨fun u hu => ?_, h, rfl, rfl, rfl, rfl, rfl, rfl, rfl⟩
  rw [List.mem_singleton.1 hu]
  exact ht

theorem passes_report (a : Analysis) (pos : Position) (cause : Cause) :
    Passes a [] [⟨.syntactic, pos, cause⟩] (a.report pos cause) :=
  ⟨fun _ ht => absurd ht List.not_mem_nil, rfl, rfl, rfl, rfl, rfl, rfl, rfl,
    rfl⟩

theorem passes_nextBy {run : List Token}
    (h : a.cursor.ahead = run ++ rest)
    (hrun : ∀ t ∈ run, t.isEnding = false) :
    Passes a run [] (nextBy run.length a) := by
  induction run generalizing a with
  | nil => exact .refl a
  | cons t run ih =>
    have hnext := passes_next h (hrun t List.mem_cons_self)
    exact hnext.trans (ih (hnext.ahead_eq h) fun u hu =>
      hrun u (List.mem_cons_of_mem t hu))

-- ====================================================== looking at a lexeme

theorem atSymbol_of_ahead (h : a.cursor.ahead = t :: rest) (s : Text) :
    a.atSymbol s = t.isSymbol s := by
  unfold atSymbol
  rw [current_of_ahead h]

theorem atKeyword_of_ahead (h : a.cursor.ahead = t :: rest) (w : Text) :
    a.atKeyword w = t.isKeyword w := by
  unfold atKeyword
  rw [current_of_ahead h]

theorem atKind_of_ahead (h : a.cursor.ahead = t :: rest) (kind : Kind) :
    a.atKind kind = (t.kind == kind) := by
  unfold atKind
  rw [current_of_ahead h]

theorem unreadSymbol_of_ahead (h : a.cursor.ahead = t :: rest) (s : Text) :
    a.unreadSymbol s = t.isSymbol s := by
  unfold unreadSymbol
  rw [h]
  rfl

theorem unreadKeyword_of_ahead (h : a.cursor.ahead = t :: rest) (w : Text) :
    a.unreadKeyword w = t.isKeyword w := by
  unfold unreadKeyword
  rw [h]
  rfl

theorem unreadName_of_ahead (h : a.cursor.ahead = t :: rest) :
    a.unreadName = (t.kind == .identifier) := by
  unfold unreadName
  rw [h]
  rfl

theorem atInteger_of_ahead (h : a.cursor.ahead = t :: rest) :
    a.atInteger = (t.kind == .number && Numeral.isInteger t.text) := by
  unfold atInteger
  rw [atKind_of_ahead h, current_of_ahead h]

theorem isEnding_of_atSymbol {s : Text} (h : a.atSymbol s = true) :
    a.current.isEnding = false :=
  Token.isEnding_of_isSymbol h

theorem isEnding_of_startsType (h : a.startsType = true) :
    a.current.isEnding = false := by
  unfold startsType atKind at h
  rw [Bool.and_eq_true, beq_iff_eq] at h
  exact Token.isEnding_eq_false_of_kind (by rw [h.1]; decide)

/-- A lexeme other than the mark of the end is passed. -/
theorem passes_current (ha : a.Inside) (hend : a.current.isEnding = false) :
    Passes a [a.current] [] a.next := by
  obtain ⟨rest, hrest⟩ := ha.exists_ahead
  exact passes_next hrest hend

theorem unreadSymbol_eq (ha : a.Inside) (s : Text) :
    a.unreadSymbol s = a.atSymbol s := by
  obtain ⟨rest, hrest⟩ := ha.exists_ahead
  rw [unreadSymbol_of_ahead hrest]
  rfl

theorem unreadKeyword_eq (ha : a.Inside) (w : Text) :
    a.unreadKeyword w = a.atKeyword w := by
  obtain ⟨rest, hrest⟩ := ha.exists_ahead
  rw [unreadKeyword_of_ahead hrest]
  rfl

-- ================================================ what is skipped on a fault

/-- The findings on a run of lexemes: one for each unknown symbol. -/
def unknownFindings (run : List Token) : List Diagnostic :=
  (run.filter fun t => t.kind == .unknown).map fun t =>
    ⟨.syntactic, t.pos, .unknownSymbol t.text⟩

theorem unknownFindings_append (run run' : List Token) :
    unknownFindings (run ++ run')
      = unknownFindings run ++ unknownFindings run' := by
  unfold unknownFindings
  rw [List.filter_append, List.map_append]

/-- A lexeme makes a finding just when it is an unknown symbol. -/
theorem unknownFindings_singleton (t : Token) :
    unknownFindings [t]
      = if t.kind == .unknown then
          [⟨.syntactic, t.pos, .unknownSymbol t.text⟩]
        else [] := by
  unfold unknownFindings
  rw [List.filter_cons]
  split <;> rfl

theorem passes_passToken (h : a.cursor.ahead = t :: rest)
    (ht : t.isEnding = false) :
    Passes a [t] (unknownFindings [t]) (a.passToken t) := by
  rw [unknownFindings_singleton]
  unfold passToken
  have hnext := passes_next h ht
  split
  · exact hnext.trans (passes_report _ _ _)
  · exact hnext

theorem passes_pass {run : List Token} (h : a.cursor.ahead = run ++ rest)
    (hrun : ∀ t ∈ run, t.isEnding = false) :
    Passes a run (unknownFindings run) (a.pass run) := by
  induction run generalizing a with
  | nil => exact .refl a
  | cons t run ih =>
    have hhead := passes_passToken h (hrun t List.mem_cons_self)
    have htail := ih (hhead.ahead_eq h) fun u hu =>
      hrun u (List.mem_cons_of_mem t hu)
    rw [← List.singleton_append, unknownFindings_append]
    exact hhead.trans htail

/-- No mark of the end is an unknown symbol. -/
theorem notEnding_of_mem_unknownRun {line : Int} {unread : List Token}
    (h : t ∈ unknownRun line unread) :
    t.kind = .unknown ∧ t.line = line ∧ t.isEnding = false := by
  have hall := List.all_eq_true.1 (List.all_takeWhile
    (p := fun t : Token => t.kind == .unknown && t.line == line)
    (l := unread)) t h
  rw [Bool.and_eq_true, beq_iff_eq, beq_iff_eq] at hall
  exact ⟨hall.1, hall.2,
    Token.isEnding_eq_false_of_kind (by rw [hall.1]; decide)⟩

theorem passes_reportUnknown_of_ahead (h : a.cursor.ahead = t :: rest)
    (line : Int) :
    Passes a (unknownRun line (t :: rest))
      (unknownFindings (unknownRun line (t :: rest)))
      (a.reportUnknown line).2 := by
  unfold reportUnknown
  rw [upcoming_of_ahead h]
  obtain ⟨us, hus⟩ := List.takeWhile_prefix (l := t :: rest)
    (fun t : Token => t.kind == .unknown && t.line == line)
  exact passes_pass (h.trans hus.symm) fun u hu =>
    (notEnding_of_mem_unknownRun hu).2.2

theorem passes_reportUnknown (ha : a.Inside) (line : Int) :
    Passes a (unknownRun line a.cursor.ahead)
      (unknownFindings (unknownRun line a.cursor.ahead))
      (a.reportUnknown line).2 := by
  obtain ⟨rest, hrest⟩ := ha.exists_ahead
  rw [hrest]
  exact passes_reportUnknown_of_ahead hrest line

theorem reportUnknown_fst (ha : a.Inside) (line : Int) :
    (a.reportUnknown line).1
      = !(unknownRun line a.cursor.ahead).isEmpty := by
  unfold reportUnknown
  rw [ha.upcoming]

theorem unknownRun_of_head (hkind : t.kind ≠ .unknown) (line : Int)
    (rest : List Token) : unknownRun line (t :: rest) = [] := by
  unfold unknownRun
  rw [List.takeWhile_cons_of_neg]
  rw [beq_eq_false_iff_ne.2 hkind, Bool.false_and]
  exact Bool.false_ne_true

/-- Where no unknown symbol is at the place, none is reported. -/
theorem reportUnknown_of_head (h : a.cursor.ahead = t :: rest)
    (hkind : t.kind ≠ .unknown) (line : Int) :
    a.reportUnknown line = (false, a) := by
  unfold reportUnknown
  rw [upcoming_of_ahead h, unknownRun_of_head hkind]
  rfl

theorem brokenRun_prefix (line : Int) (unread : List Token) :
    brokenRun line unread <+: unread := by
  induction unread with
  | nil => exact List.nil_prefix
  | cons t rest ih =>
    unfold brokenRun
    split
    · exact List.nil_prefix
    · split
      · exact ⟨rest, rfl⟩
      · exact List.cons_prefix_cons.2 ⟨rfl, ih⟩

theorem notEnding_of_mem_brokenRun {line : Int} {unread : List Token}
    (h : t ∈ brokenRun line unread) : t.isEnding = false := by
  induction unread with
  | nil => cases h
  | cons u rest ih =>
    unfold brokenRun at h
    split at h
    · cases h
    next hstop =>
      have hu : u.isEnding = false := by
        cases hend : u.isEnding with
        | false => rfl
        | true => rw [hend] at hstop; exact absurd rfl hstop
      split at h
      · rw [List.mem_singleton.1 h]
        exact hu
      · rcases List.mem_cons.1 h with rfl | h
        · exact hu
        · exact ih h

/-- What `synchronize` passes: the rest of the broken declaration, and if
that ends with a semicolon the unknown symbols behind it. -/
def synchronizedRun (line : Int) (unread : List Token) : List Token :=
  let run := brokenRun line unread
  match run.getLast? with
  | some t =>
    if t.isSymbol ";" then
      run ++ unknownRun t.line (unread.drop run.length)
    else run
  | none => run

theorem passes_synchronize (ha : a.Inside) (line : Int) :
    Passes a (synchronizedRun line a.cursor.ahead)
      (unknownFindings (synchronizedRun line a.cursor.ahead))
      (a.synchronize line) := by
  unfold synchronize synchronizedRun
  rw [ha.upcoming]
  obtain ⟨rest, hrest⟩ := brokenRun_prefix line a.cursor.ahead
  have hpass := passes_pass hrest.symm fun t ht =>
    notEnding_of_mem_brokenRun ht
  simp only
  cases hlast : (brokenRun line a.cursor.ahead).getLast? with
  | none => exact hpass
  | some t =>
    simp only
    by_cases hsymbol : t.isSymbol ";" = true
    · rw [if_pos hsymbol, if_pos hsymbol]
      have hdrop : a.cursor.ahead.drop (brokenRun line a.cursor.ahead).length
          = (a.pass (brokenRun line a.cursor.ahead)).cursor.ahead := by
        rw [hpass.ahead_eq hrest.symm]
        conv => lhs; rw [← hrest]
        rw [List.drop_left' (by rw [hrest])]
      rw [hdrop]
      rw [unknownFindings_append]
      exact hpass.trans (passes_reportUnknown (hpass.inside ha) t.line)
    · rw [if_neg hsymbol, if_neg hsymbol]
      exact hpass

/-- What is left of a broken index range. -/
def brokenRange (unread : List Token) : List Token :=
  unread.takeWhile fun t => !t.isRangeBoundary

theorem passes_skipToRangeBoundary (ha : a.Inside) :
    Passes a (brokenRange a.cursor.ahead) [] a.skipToRangeBoundary := by
  unfold skipToRangeBoundary brokenRange
  rw [ha.upcoming]
  obtain ⟨rest, hrest⟩ := List.takeWhile_prefix (l := a.cursor.ahead)
    (fun t : Token => !t.isRangeBoundary)
  refine passes_nextBy hrest.symm fun t ht => ?_
  have hall := List.all_eq_true.1 (List.all_takeWhile
    (p := fun t : Token => !t.isRangeBoundary) (l := a.cursor.ahead)) t ht
  cases hend : t.isEnding with
  | false => rfl
  | true =>
    unfold Token.isRangeBoundary at hall
    rw [hend] at hall
    cases hall

-- ============================================================ glued names

theorem gluedRun_isPrefix (last : Token) (unread : List Token) :
    gluedRun last unread <+: unread := by
  induction unread generalizing last with
  | nil => exact List.nil_prefix
  | cons t rest ih =>
    unfold gluedRun
    split
    · exact List.cons_prefix_cons.2 ⟨rfl, ih t⟩
    · exact List.nil_prefix

theorem notEnding_of_mem_gluedRun {last : Token} {unread : List Token}
    (h : t ∈ gluedRun last unread) : t.isEnding = false := by
  induction unread generalizing last with
  | nil => cases h
  | cons u rest ih =>
    unfold gluedRun at h
    split at h
    next hglued =>
      rcases List.mem_cons.1 h with rfl | h
      · refine Token.isEnding_eq_false_of_kind fun hend => ?_
        rw [hend] at hglued
        exact absurd hglued.2 (by decide)
      · exact ih h
    next => cases h

theorem isEnding_of_atNameAfter {comma : Token}
    (h : a.atNameAfter comma = true) : a.current.isEnding = false := by
  refine Token.isEnding_eq_false_of_kind fun hend => ?_
  unfold atNameAfter at h
  rw [hend] at h
  cases h

-- ================================================ types, branch by branch

/-- Behind a comma there are more index ranges. -/
theorem readRanges_of_comma
    (hcomma : a.readRangeOrSkip.2.unreadSymbol "," = true) :
    a.readRanges
      = (a.readRangeOrSkip.1.toList
          ++ a.readRangeOrSkip.2.next.readRanges.1,
        a.readRangeOrSkip.2.next.readRanges.2) := by
  rw [readRanges, dif_pos hcomma]

/-- At the bracket, or where no range could be read, the ranges end. -/
theorem readRanges_of_last
    (hcomma : ¬ a.readRangeOrSkip.2.unreadSymbol "," = true)
    (hlast : (a.readRangeOrSkip.2.atSymbol "]"
      || a.readRangeOrSkip.1.isNone) = true) :
    a.readRanges
      = (a.readRangeOrSkip.1.toList, a.readRangeOrSkip.2.passBracket) := by
  rw [readRanges, dif_neg hcomma, if_pos hlast]

/-- What stands behind a range is skipped, and if a comma is found there
are more. -/
theorem readRanges_of_resumed
    (hcomma : ¬ a.readRangeOrSkip.2.unreadSymbol "," = true)
    (hlast : ¬ (a.readRangeOrSkip.2.atSymbol "]"
      || a.readRangeOrSkip.1.isNone) = true)
    (hskip : a.readRangeOrSkip.2.skipAfterRange.unreadSymbol "," = true) :
    a.readRanges
      = (a.readRangeOrSkip.1.toList
          ++ a.readRangeOrSkip.2.skipAfterRange.next.readRanges.1,
        a.readRangeOrSkip.2.skipAfterRange.next.readRanges.2) := by
  rw [readRanges, dif_neg hcomma, if_neg hlast, dif_pos hskip]

theorem readRanges_of_broken
    (hcomma : ¬ a.readRangeOrSkip.2.unreadSymbol "," = true)
    (hlast : ¬ (a.readRangeOrSkip.2.atSymbol "]"
      || a.readRangeOrSkip.1.isNone) = true)
    (hskip : ¬ a.readRangeOrSkip.2.skipAfterRange.unreadSymbol ","
      = true) :
    a.readRanges = (a.readRangeOrSkip.1.toList,
      a.readRangeOrSkip.2.skipAfterRange.passBracket) := by
  rw [readRanges, dif_neg hcomma, if_neg hlast, dif_neg hskip]

section nesting

variable [NestingLimit]

/-- An array that is no element is its ranges and its elements. -/
theorem readType_of_array (harray : a.unreadKeyword "array" = true) :
    a.readType 0
      = (a.descend 0).readArrayRanges.2.readElements 0
        (a.descend 0).readArrayRanges.1 := by
  rw [readType, dif_pos harray]
  rfl

/-- An array that is an element is read as any other, and refused. -/
theorem readType_of_nested {depth : Nat} (hdepth : 0 < depth)
    (harray : a.unreadKeyword "array" = true) :
    a.readType depth
      = (.unknown, ((a.descend depth).readArrayRanges.2.readElements depth
          (a.descend depth).readArrayRanges.1).2.report a.current.pos
            .nestedArray) := by
  rw [readType, dif_pos harray]
  exact if_pos hdepth

theorem readType_of_simple (depth : Nat)
    (harray : ¬ a.unreadKeyword "array" = true) :
    a.readType depth = a.readSimpleType := by
  rw [readType, dif_neg harray]

/-- Behind the word in front of them the elements have a type. -/
theorem readElements_of_of (depth : Nat) (ranges : List IndexRange)
    (hof : a.atKeyword "of" = true) :
    a.readElements depth ranges
      = (.array ranges (a.next.readType (depth + 1)).1,
        (a.next.readType (depth + 1)).2) := by
  rw [readElements, if_pos hof]

/-- Where that word is missing the type may stand all the same. -/
theorem readElements_of_missing (depth : Nat) (ranges : List IndexRange)
    (hof : ¬ a.atKeyword "of" = true) (hstarts : a.startsType = true) :
    a.readElements depth ranges
      = (.array ranges (a.missingOf.readType (depth + 1)).1,
        (a.missingOf.readType (depth + 1)).2) := by
  rw [readElements, if_neg hof, if_pos hstarts]

theorem readElements_of_none (depth : Nat) (ranges : List IndexRange)
    (hof : ¬ a.atKeyword "of" = true) (hstarts : ¬ a.startsType = true) :
    a.readElements depth ranges = (.array ranges .unknown, a.missingOf) := by
  rw [readElements, if_neg hof, if_neg hstarts]

end nesting

-- ============================================ the parts of a declaration

/-- A state without the recovery mark; so every declaration begins. -/
def unmarked (a : Analysis) : Analysis := { a with recovering := false }

/-- Whatever a passage does not look at it leaves alone, the recovery mark
as well. -/
theorem Passes.unmarked {ts : List Token} {found : List Diagnostic}
    (h : Passes a ts found b) : Passes a.unmarked ts found b.unmarked :=
  ⟨h.notEnding, h.ahead, h.behind, h.overrun, h.errors, rfl, h.symbols,
    h.declarations, h.halt?⟩

/-- A state with one more declaration. -/
def enter (d : Declaration) (a : Analysis) : Analysis :=
  { a with declarations := d :: a.declarations }

/-- The state in which the names of a declaration are entered: its parts
are read, and the declaration itself is entered. -/
def readParts [NestingLimit] (a : Analysis) : Analysis :=
  let names := a.unmarked.readNames
  let type := names.2.readTypePart
  type.2.endDeclaration.enter ⟨names.1, type.1, a.current.pos⟩

theorem readDeclaration_eq [NestingLimit] (a : Analysis) :
    a.readDeclaration = a.readParts.declare a.unmarked.readNames.1
      a.unmarked.readNames.2.readTypePart.1 := rfl

/-- Enters one name into the table of symbols, or reports it. -/
def declareName (type : VarType) (a : Analysis) (n : Identifier) :
    Analysis :=
  match a.symbols.define ⟨n.name, type, n.pos⟩ with
  | (some first, _) => a.report n.pos (.redeclared n.name first.place)
  | (none, symbols) => { a with symbols }

theorem declare_cons (n : Identifier) (names : List Identifier)
    (type : VarType) (a : Analysis) :
    a.declare (n :: names) type = (a.declareName type n).declare names type :=
  rfl

-- ================================================ the head of a section

variable [NestingLimit]

/-- A section ends at the mark of the end. -/
theorem readSection_of_ending (h : a.cursor.ahead = t :: rest)
    (ht : t.kind = .ending) : a.readSection = a := by
  have hhead : a.cursor.ahead.head? = some t := by rw [h]; rfl
  rw [readSection]
  split
  next hnone => rw [hhead] at hnone; cases hnone
  next u hu =>
    rw [hhead] at hu
    rw [← Option.some.inj hu, dif_pos ht]

/-- At its word a block is read. -/
theorem readSection_of_var (h : a.cursor.ahead = t :: rest)
    (ht : t.isKeyword "var" = true) :
    a.readSection = a.next.readBlock.readSection := by
  have hhead : a.cursor.ahead.head? = some t := by rw [h]; rfl
  rw [readSection]
  split
  next hnone => rw [hhead] at hnone; cases hnone
  next u hu =>
    rw [hhead] at hu
    rw [← Option.some.inj hu, dif_neg (by
      rw [Token.kind_of_isKeyword ht]; decide), if_pos ht]

/-- Anything else is passed. -/
theorem readSection_of_stray (h : a.cursor.ahead = t :: rest)
    (hend : t.kind ≠ .ending) (hvar : t.isKeyword "var" = false) :
    a.readSection = a.passStray.readSection := by
  have hhead : a.cursor.ahead.head? = some t := by rw [h]; rfl
  rw [readSection]
  split
  next hnone => rw [hhead] at hnone; cases hnone
  next u hu =>
    rw [hhead] at hu
    rw [← Option.some.inj hu, dif_neg hend, if_neg (by rw [hvar]; decide)]

end Analysis

end VarSection
