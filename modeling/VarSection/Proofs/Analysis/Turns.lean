/-
A run, turn by turn. At its top a section does one of three things: it passes
the word that opens a block, it reads a declaration, or it passes a lexeme
that stands outside all blocks. Each is a turn, kept with the state in which
it was taken, and the turns of an analysis (`Analysis.turns`) are those that
reading the section takes, in their order (`leads_turns`).

What an analysis has passed, found and declared only ever grows. So the turns
of a run cut each of the three into what every single turn adds, without gap
or overlap (`Leads.eq_append_added`), and whatever holds in front of a
section and is kept by its turns holds in front of each of them
(`Lasts.turns`). A statement on all declarations that a run reads is thus a
statement on one declaration, read in a state of which the invariants of the
run are known.
-/
import VarSection.Proofs.Analysis.Declaring

namespace VarSection

open Analysis

-- ================================================================== turns

/-- One turn of a section, in the state in which it is taken. -/
inductive Turn where
  /-- the word that opens a block is passed -/
  | opening (a : Analysis)
  /-- a declaration is read and entered -/
  | declaration (a : Analysis)
  /-- a lexeme outside all blocks is reported and passed -/
  | stray (a : Analysis)

namespace Analysis

/-- The lexemes that an analysis has passed, in the order of the table. -/
def passed (a : Analysis) : List Token := a.cursor.behind.reverse

/-- The turns in which a block is read. -/
def blockTurns [NestingLimit] (a : Analysis) : List Turn :=
  if _hname : a.unreadName then
    .declaration a :: a.readDeclaration.blockTurns
  else []
termination_by a.left
decreasing_by exact left_readDeclaration_lt_of_name _hname

/-- The turns in which the rest of a section is read. -/
def turns [NestingLimit] (a : Analysis) : List Turn :=
  match _hhead : a.cursor.ahead.head? with
  | none => []
  | some t =>
    if _hend : t.kind = .ending then []
    else if t.isKeyword "var" then
      .opening a :: (a.next.blockTurns ++ a.next.readBlock.turns)
    else .stray a :: a.passStray.turns
termination_by a.left
decreasing_by
  · exact Nat.lt_of_le_of_lt (left_readBlock_le _)
      (left_next_lt _hhead _hend)
  · exact Nat.lt_of_le_of_lt (Nat.le_of_eq (left_congr rfl))
      (left_next_lt _hhead _hend)

end Analysis

namespace Turn

/-- The state in which a turn is taken. -/
def before : Turn → Analysis
  | .opening a => a
  | .declaration a => a
  | .stray a => a

/-- The state that a turn leads to. -/
def after [NestingLimit] : Turn → Analysis
  | .opening a => a.next
  | .declaration a => a.readDeclaration
  | .stray a => a.passStray

/-- Whether a turn is taken where the section takes it. -/
def Due : Turn → Prop
  | .opening a => a.atKeyword "var" = true
  | .declaration a => a.unreadName = true
  | .stray a => a.current.isEnding = false ∧ a.atKeyword "var" = false

/-- What a turn adds to something that only grows. -/
def added [NestingLimit] {α : Type} (f : Analysis → List α) (t : Turn) :
    List α :=
  (f t.after).drop (f t.before).length

/-- The lexemes that a turn passes. -/
def lexemes [NestingLimit] (t : Turn) : List Token := t.added Analysis.passed

/-- The findings that a turn makes. -/
def found [NestingLimit] (t : Turn) :
    List Diagnostic := t.added Analysis.findings

/-- The declarations that a turn enters. -/
def declared [NestingLimit] (t : Turn) :
    List Declaration := t.added Analysis.declared

variable {t : Turn}

/-- No turn is taken at the mark of the end. -/
theorem Due.isEnding (h : t.Due) : t.before.current.isEnding = false := by
  cases t with
  | opening a => exact Token.isEnding_of_isKeyword h
  | declaration a => exact isEnding_of_unreadName h
  | stray a => exact h.1

theorem Due.steps [NestingLimit] (h : t.Due) (ha : t.before.Inside) :
    Steps t.before t.after := by
  cases t with
  | opening a => exact steps_next a
  | declaration a => exact steps_readDeclaration ha h.isEnding
  | stray a => exact steps_passStray ha

/-- What a turn adds comes behind all that was there. -/
theorem eq_append_added [NestingLimit] {α : Type} {f : Analysis → List α}
    (h : f t.before <+: f t.after) : f t.after = f t.before ++ t.added f := by
  obtain ⟨rest, hrest⟩ := h
  unfold added
  rw [← hrest, List.drop_left]

/-- What comes behind all that was there is what a turn adds. -/
theorem added_eq [NestingLimit] {α : Type} {f : Analysis → List α}
    {xs : List α} (h : f t.after = f t.before ++ xs) : t.added f = xs := by
  unfold added
  rw [h, List.drop_left]

/-- What a turn keeps it adds nothing to. -/
theorem added_eq_nil [NestingLimit] {α : Type} {f : Analysis → List α}
    (h : f t.after = f t.before) : t.added f = [] :=
  added_eq (h.trans (List.append_nil _).symm)

end Turn

namespace Analysis

variable {a b c : Analysis} {ts us : List Turn}

-- ========================================================= turns in a row

/-- Turns lead from one state to another, each from where the one before it
has led. -/
inductive Leads [NestingLimit] : Analysis → List Turn → Analysis → Prop
  | nil (a : Analysis) : Leads a [] a
  | cons (t : Turn) {ts : List Turn} {b : Analysis}
      (h : Leads t.after ts b) : Leads t.before (t :: ts) b

theorem Leads.append [NestingLimit] (h : Leads a ts b) (h' : Leads b us c) :
    Leads a (ts ++ us) c := by
  induction h with
  | nil => exact h'
  | cons t _ ih => exact .cons t (ih h')

/-- What only grows is cut by turns into what each of them adds. -/
theorem Leads.eq_append_added [NestingLimit] {α : Type}
    {f : Analysis → List α} (h : Leads a ts b)
    (hgrows : ∀ t ∈ ts, f t.before <+: f t.after) :
    f b = f a ++ ts.flatMap (·.added f) := by
  induction h with
  | nil => exact (List.append_nil _).symm
  | cons t _ ih =>
    rw [ih fun u hu => hgrows u (List.mem_cons_of_mem t hu),
      Turn.eq_append_added (hgrows t List.mem_cons_self), List.flatMap_cons,
      List.append_assoc]

/-- A block is read in its turns. -/
theorem leads_blockTurns [NestingLimit] (a : Analysis) :
    Leads a a.blockTurns a.readBlock := by
  fun_induction readBlock a with
  | case1 a hname ih =>
    rw [blockTurns, dif_pos hname]
    exact .cons (.declaration a) ih
  | case2 a hname =>
    rw [blockTurns, dif_neg hname]
    exact .nil a

/-- Passing any lexeme but the mark of the end leaves less unread. -/
theorem Inside.left_next_lt (ha : a.Inside)
    (hend : a.current.isEnding = false) : a.next.left < a.left := by
  obtain ⟨rest, hrest⟩ := ha.exists_ahead
  apply Analysis.left_next_lt (t := a.current)
  · rw [hrest]
    rfl
  · exact Token.kind_ne_of_isEnding_eq_false hend

/-- A section is read in its turns. -/
theorem leads_turns [NestingLimit] (ha : a.Inside) :
    Leads a a.turns a.readSection := by
  fun_induction Analysis.turns a with
  | case1 a hnone =>
    -- inside its table something always lies ahead
    obtain ⟨rest, hrest⟩ := ha.exists_ahead
    rw [hrest] at hnone
    cases hnone
  | case2 a t hhead hend =>
    obtain ⟨rest, hrest⟩ := List.head?_eq_some_iff.1 hhead
    rw [readSection_of_ending hrest hend]
    exact .nil a
  | case3 a t hhead hend hvar ih =>
    obtain ⟨rest, hrest⟩ := List.head?_eq_some_iff.1 hhead
    have hnext := (steps_next a).inside ha
    rw [readSection_of_var hrest hvar]
    apply Leads.cons (.opening a)
    exact (leads_blockTurns a.next).append
      (ih ((steps_readBlock hnext).inside hnext))
  | case4 a t hhead hend hvar ih =>
    obtain ⟨rest, hrest⟩ := List.head?_eq_some_iff.1 hhead
    rw [readSection_of_stray hrest hend (eq_false_of_ne_true hvar)]
    exact .cons (.stray a) (ih ((steps_passStray ha).inside ha))

-- ====================================================== what turns rely on

variable {P : Analysis → Prop}

theorem Lasts.blockTurns [NestingLimit] (hP : Lasts P) (h : P a) :
    ∀ t ∈ a.blockTurns, P t.before ∧ t.Due := by
  fun_induction Analysis.blockTurns a with
  | case1 a hname ih =>
    refine List.forall_mem_cons.2 ⟨⟨h, hname⟩, ?_⟩
    exact ih (hP.declaration h (isEnding_of_unreadName hname))
  | case2 a hname => exact fun t ht => absurd ht List.not_mem_nil

/-- What lasts over a section holds where each of its turns is taken, and
each is taken where it is due. -/
theorem Lasts.turns [NestingLimit] (hP : Lasts P) (h : P a) :
    ∀ t ∈ a.turns, P t.before ∧ t.Due := by
  fun_induction Analysis.turns a with
  | case1 | case2 => exact fun t ht => absurd ht List.not_mem_nil
  | case3 a t hhead hend hvar ih =>
    obtain ⟨rest, hrest⟩ := List.head?_eq_some_iff.1 hhead
    have hdue : (Turn.opening a).Due := by
      rw [Turn.Due, atKeyword_of_ahead hrest, hvar]
    have hnext := hP.next h hdue.isEnding
    refine List.forall_mem_cons.2 ⟨⟨h, hdue⟩, fun u hu => ?_⟩
    rcases List.mem_append.1 hu with hu | hu
    · exact hP.blockTurns hnext u hu
    · exact ih (hP.readBlock hnext) u hu
  | case4 a t hhead hend hvar ih =>
    obtain ⟨rest, hrest⟩ := List.head?_eq_some_iff.1 hhead
    have hdue : (Turn.stray a).Due := by
      rw [Turn.Due, atKeyword_of_ahead hrest, current_of_ahead hrest]
      exact ⟨Token.isEnding_eq_false_of_kind hend, eq_false_of_ne_true hvar⟩
    exact List.forall_mem_cons.2
      ⟨⟨h, hdue⟩, ih (hP.stray h hdue.isEnding)⟩

/-- What steps lead to lasts: each turn goes on from where steps have led. -/
theorem lasts_steps [NestingLimit] (ha : a.Inside) : Lasts (Steps a) where
  inside h := h.inside ha
  next h _ := h.trans (steps_next _)
  stray h _ := h.trans (steps_passStray (h.inside ha))
  declaration h hend :=
    h.trans (steps_readDeclaration (h.inside ha) hend)

-- ====================================================== what turns add

theorem Passes.passed {xs : List Token} {found : List Diagnostic}
    (h : Passes a xs found b) : b.passed = a.passed ++ xs := by
  unfold Analysis.passed
  rw [h.behind, List.reverse_append, List.reverse_reverse]

/-- What keeps the place passes nothing. -/
theorem passed_congr (h : b.cursor = a.cursor) : b.passed = a.passed := by
  unfold passed
  rw [h]

/-- What has been passed stays passed. -/
theorem Step.isPrefix_passed [NestingLimit] (h : Step a b) :
    a.passed <+: b.passed := by
  unfold passed
  rcases h.cursor with hcursor | ⟨-, hcursor⟩
  · exact hcursor ▸ List.prefix_rfl
  · rw [hcursor, List.reverse_prefix]
    unfold Cursor.advance
    split
    · exact List.suffix_cons ..
    · exact List.suffix_rfl

theorem Steps.isPrefix_passed [NestingLimit] (h : Steps a b) :
    a.passed <+: b.passed := by
  induction h with
  | refl => exact List.prefix_rfl
  | tail _ hstep ih => exact ih.trans hstep.isPrefix_passed

/-- What is passed on the way lay ahead, in this order. -/
theorem Steps.ahead_of_passed [NestingLimit] {ts : List Token} (h : Steps a b)
    (hpassed : b.passed = a.passed ++ ts) :
    a.cursor.ahead = ts ++ b.cursor.ahead := by
  have htable := h.toList
  unfold Cursor.toList at htable
  unfold passed at hpassed
  rw [hpassed, List.append_assoc] at htable
  exact (List.append_cancel_left htable).symm

end Analysis

namespace Turn

variable {t : Turn}

theorem Due.isPrefix_passed [NestingLimit] (h : t.Due)
    (ha : t.before.Inside) :
    t.before.passed <+: t.after.passed :=
  (h.steps ha).isPrefix_passed

theorem Due.isPrefix_findings [NestingLimit] (h : t.Due)
    (ha : t.before.Inside) :
    t.before.findings <+: t.after.findings :=
  List.reverse_prefix.2 (h.steps ha).errors_suffix

/-- What a turn passes lay ahead of it. -/
theorem Due.ahead [NestingLimit] (h : t.Due) (ha : t.before.Inside) :
    t.before.cursor.ahead = t.lexemes ++ t.after.cursor.ahead :=
  (h.steps ha).ahead_of_passed (eq_append_added (h.isPrefix_passed ha))

/-- A turn passes the current lexeme first. -/
theorem Due.lexemes_eq [NestingLimit] (h : t.Due) (ha : t.before.Inside) :
    ∃ more, t.lexemes = t.before.current :: more := by
  obtain ⟨rest, hrest⟩ := ha.exists_ahead
  have hless : t.after.left < t.before.left := by
    cases t with
    | opening a => exact ha.left_next_lt h.isEnding
    | declaration a => exact left_readDeclaration_lt_of_name h
    | stray a => exact ha.left_next_lt h.isEnding
  have hahead := h.ahead ha
  cases hlexemes : t.lexemes with
  | nil =>
    unfold left at hless
    rw [hahead, hlexemes, List.nil_append] at hless
    omega
  | cons first more =>
    rw [hrest, hlexemes, List.cons_append] at hahead
    exact ⟨more, by rw [(List.cons.inj hahead).1]⟩

/-- In its turn a declaration is entered behind all others. -/
theorem declared_declaration [NestingLimit] {a : Analysis}
    (h : (Turn.declaration a).Due) (ha : a.Inside) :
    a.readDeclaration.declared = a.declared
      ++ [⟨a.unmarked.readNames.1, a.unmarked.readNames.2.readTypePart.1,
        a.current.pos⟩] := by
  unfold Analysis.declared
  rw [declarations_readDeclaration ha (isEnding_of_unreadName h),
    List.reverse_cons]

theorem declared_next (a : Analysis) : a.next.declared = a.declared := by
  unfold Analysis.declared
  rw [declarations_next]

theorem Due.isPrefix_declared [NestingLimit] (h : t.Due)
    (ha : t.before.Inside) :
    t.before.declared <+: t.after.declared := by
  cases t with
  | opening a =>
    exact (declared_next a).symm ▸ List.prefix_rfl
  | declaration a => exact ⟨_, (declared_declaration h ha).symm⟩
  | stray a =>
    exact (declared_next a).symm ▸ List.prefix_rfl

end Turn

-- ============================================================= whole runs

/-- Each turn of an analysis is taken in a state that steps have led to, and
is due there. -/
theorem due_of_mem_turns [NestingLimit] {table : List Token}
    (h : ∃ t ∈ table, t.isEnding = true) :
    ∀ t ∈ (ofTable table).turns, Steps (ofTable table) t.before ∧ t.Due :=
  (lasts_steps (.ofTable h)).turns .refl

theorem inside_of_mem_turns [NestingLimit] {table : List Token}
    (h : ∃ t ∈ table, t.isEnding = true) :
    ∀ t ∈ (ofTable table).turns, t.before.Inside :=
  fun t ht => (due_of_mem_turns h t ht).1.inside (.ofTable h)

/-- What is kept by every turn is kept by turns in a row. -/
theorem Analysis.Leads.keeps [NestingLimit] {P : Analysis → Prop}
    {a b : Analysis} {ts : List Turn} (h : Leads a ts b) (ha : P a)
    (hts : ∀ t ∈ ts, P t.before → P t.after) : P b := by
  induction h with
  | nil => exact ha
  | cons t _ ih =>
    apply ih (hts t List.mem_cons_self ha)
    exact fun u hu => hts u (List.mem_cons_of_mem t hu)

/-- What holds in front of a table and is kept by every turn that is due holds
at the end of the analysis. -/
theorem run_of_turns [NestingLimit] {table : List Token} {P : Analysis → Prop}
    (h : ∃ t ∈ table, t.isEnding = true) (hfresh : P (ofTable table))
    (hturn : ∀ t : Turn, t.before.Inside → t.Due → P t.before → P t.after) :
    P (ofTable table).run := by
  have hleads := leads_turns (Inside.ofTable h)
  rw [← run_ofTable] at hleads
  apply hleads.keeps hfresh
  intro t ht
  exact hturn t (inside_of_mem_turns h t ht) (due_of_mem_turns h t ht).2

/-- The turns of an analysis cut the lexemes in front of the mark of the end,
the findings and the declarations into what each of them adds. -/
theorem run_eq_turns [NestingLimit] {table : List Token}
    (h : ∃ t ∈ table, t.isEnding = true) :
    table.take (table.findIdx (·.isEnding))
        = (ofTable table).turns.flatMap Turn.lexemes
      ∧ (ofTable table).run.findings
        = (ofTable table).turns.flatMap Turn.found
      ∧ (ofTable table).run.declared
        = (ofTable table).turns.flatMap Turn.declared := by
  have hleads := leads_turns (Inside.ofTable h)
  have hdue : ∀ t ∈ (ofTable table).turns, t.Due := fun t ht =>
    (due_of_mem_turns h t ht).2
  have hinside := inside_of_mem_turns h
  rw [← run_ofTable] at hleads
  refine ⟨?_, ?_, ?_⟩
  · rw [← behind_run h]
    exact hleads.eq_append_added (f := passed) fun t ht =>
      (hdue t ht).isPrefix_passed (hinside t ht)
  · exact hleads.eq_append_added (f := findings) fun t ht =>
      (hdue t ht).isPrefix_findings (hinside t ht)
  · exact hleads.eq_append_added (f := declared) fun t ht =>
      (hdue t ht).isPrefix_declared (hinside t ht)

end VarSection
