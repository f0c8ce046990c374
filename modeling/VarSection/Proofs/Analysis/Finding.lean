/-
How often a finding is made. A lexeme can be found faulty more than once,
because a reader may report it and leave it to the next one. The readers
follow each other in a fixed order, so the findings at one place follow each
other by their rank (`Cause.rank`): an opening bracket is missed before a
bound, a bound before the word in front of the elements, and so on up to the
name or the stray lexeme that the place turns out to be.

A stage of an analysis is a place with a rank, and stages are ordered as
they are reached. Each reader leads from a stage to a stage and makes its
findings in between, each of them once (`Finds`). Readers that follow each
other compose (`Finds.trans`), so all findings of an analysis are different.

One lexeme is found twice for the same reason. An unknown symbol in the
place of a type is reported, and if it begins a line it is not passed; the
end of the declaration reports it again. So a finding is noted with a mark
that tells whether its lexeme was left (`Note`), and the two are different
as notes.

Findings on a colon or a semicolon that is missing are made behind a lexeme
that has been passed already. They keep no order with the others and are
listed apart.
-/
import Mathlib.Order.Defs.PartialOrder
import VarSection.Proofs.Analysis.Citing

namespace VarSection

open Analysis

-- ================================================================== stages

/-- How far the reading at a place has come when a finding is made. -/
def Cause.rank : Cause → Nat
  | .nameExpected => 0
  | .arrayBracketExpected => 1
  | .lowerBoundExpected => 2
  | .dotsExpected => 2
  | .upperBoundExpected => 2
  | .boundsInverted .. => 2
  | .commaOrBracketExpected => 3
  | .ofExpected => 4
  | .typeExpected => 5
  | .invalidType _ => 5
  | .nestedArray => 5
  | .sizeExpected => 5
  | .sizeOutOfRange _ => 5
  | .sizeBracketExpected => 5
  | _ => 7

/-- A place, and how far the reading at it has come. -/
structure Stage where
  pos : Position
  rank : Nat

namespace Stage

/-- Stages in the order in which they are reached. -/
instance : Preorder Stage where
  le s t := s.pos.Before t.pos ∨ s.pos = t.pos ∧ s.rank ≤ t.rank
  lt s t := s.pos.Before t.pos ∨ s.pos = t.pos ∧ s.rank < t.rank
  le_refl s := .inr ⟨rfl, Nat.le_refl _⟩
  le_trans s t u h h' := by
    rcases h with h | ⟨h, hrank⟩
    · rcases h' with h' | ⟨h', -⟩
      · exact .inl (h.trans_le h'.le)
      · exact .inl (h' ▸ h)
    · rcases h' with h' | ⟨h', hrank'⟩
      · exact .inl (h ▸ h')
      · exact .inr ⟨h.trans h', hrank.trans hrank'⟩
  lt_iff_le_not_ge s t := by
    have hback : ∀ {p q : Position}, p.Before q → ¬ q.Before p := by
      intro p q h h'
      exact (h.trans_le h'.le).ne rfl
    constructor
    · rintro (h | ⟨h, hrank⟩)
      · exact ⟨.inl h, fun h' => h'.elim (hback h) fun h' => h.ne h'.1.symm⟩
      · refine ⟨.inr ⟨h, hrank.le⟩, fun h' => h'.elim ?_ ?_⟩
        · exact fun h' => h'.ne h.symm
        · exact fun h' => Nat.not_le.2 hrank h'.2
    · rintro ⟨h | ⟨h, hrank⟩, hnot⟩
      · exact .inl h
      · refine .inr ⟨h, Nat.lt_of_not_le fun hle => hnot (.inr ⟨h.symm, hle⟩)⟩

theorem lt_of_before {s t : Stage} (h : s.pos.Before t.pos) : s < t := .inl h

theorem le_of_rank {p : Position} {m n : Nat} (h : m ≤ n) :
    (⟨p, m⟩ : Stage) ≤ ⟨p, n⟩ := .inr ⟨rfl, h⟩

theorem lt_of_rank {p : Position} {m n : Nat} (h : m < n) :
    (⟨p, m⟩ : Stage) < ⟨p, n⟩ := .inr ⟨rfl, h⟩

end Stage

-- =================================================================== notes

/-- A finding on an unknown symbol that stands on another line than the
lexeme in front of it. -/
def BeginsLine (table : List Token) (d : Diagnostic) : Prop :=
  ∃ before t u after, table = before ++ t :: u :: after
    ∧ t.line ≠ u.line ∧ u.kind = .unknown
    ∧ d = ⟨.syntactic, u.pos, .unknownSymbol u.text⟩

/-- A finding at a lexeme, and whether the lexeme was left where a type was
expected. -/
structure Note where
  finding : Diagnostic
  left : Bool
deriving DecidableEq

namespace Note

/-- A lexeme that was left is found again when it is passed. -/
def rank (n : Note) : Nat := if n.left then 6 else n.finding.cause.rank

/-- The stage at which a finding is made. -/
def stage (n : Note) : Stage := ⟨n.finding.pos, n.rank⟩

/-- A note cites its table, and only what begins a line was left. -/
structure Sound (table : List Token) (n : Note) : Prop where
  cites : Cites table n.finding
  left : n.left = true → BeginsLine table n.finding

theorem sound_passed {table : List Token} {d : Diagnostic}
    (h : Cites table d) : Sound table ⟨d, false⟩ :=
  ⟨h, fun hleft => by cases hleft⟩

end Note

/-- Notes on a table between two stages: they are all different, and sound. -/
structure Noted (table : List Token) (s t : Stage) (notes : List Note) :
    Prop where
  nodup : notes.Nodup
  lower : ∀ n ∈ notes, s ≤ n.stage
  upper : ∀ n ∈ notes, n.stage < t
  sound : ∀ n ∈ notes, n.Sound table

namespace Noted

variable {table : List Token} {s s' t t' u : Stage} {n : Note}
  {notes more : List Note}

theorem nil (table : List Token) (s t : Stage) : Noted table s t [] :=
  ⟨.nil, fun _ hn => absurd hn List.not_mem_nil,
    fun _ hn => absurd hn List.not_mem_nil,
    fun _ hn => absurd hn List.not_mem_nil⟩

theorem mono (h : Noted table s t notes) (hs : s' ≤ s) (ht : t ≤ t') :
    Noted table s' t' notes :=
  ⟨h.nodup, fun n hn => hs.trans (h.lower n hn),
    fun n hn => (h.upper n hn).trans_le ht, h.sound⟩

/-- A note at the first stage is different from all that are made behind
it. -/
theorem cons (h : Noted table s t notes) (hn : n.Sound table)
    (hs : n.stage < s) (ht : n.stage < t) :
    Noted table n.stage t (n :: notes) where
  nodup := List.nodup_cons.2
    ⟨fun hmem => lt_irrefl _ (hs.trans_le (h.lower n hmem)), h.nodup⟩
  lower := List.forall_mem_cons.2
    ⟨le_refl _, fun x hx => hs.le.trans (h.lower x hx)⟩
  upper := List.forall_mem_cons.2 ⟨ht, h.upper⟩
  sound := List.forall_mem_cons.2 ⟨hn, h.sound⟩

/-- Notes are different where a stage parts them. -/
theorem append (h : Noted table s t notes) (h' : Noted table t u more)
    (hs : s ≤ t) (hu : t ≤ u) : Noted table s u (more ++ notes) where
  nodup := by
    rw [List.nodup_append]
    refine ⟨h'.nodup, h.nodup, fun x hx y hy hxy => ?_⟩
    subst hxy
    exact lt_irrefl _ ((h'.lower x hx).trans_lt (h.upper x hy))
  lower := List.forall_mem_append.2
    ⟨fun n hn => hs.trans (h'.lower n hn), h.lower⟩
  upper := List.forall_mem_append.2
    ⟨h'.upper, fun n hn => (h.upper n hn).trans_le hu⟩
  sound := List.forall_mem_append.2 ⟨h'.sound, h.sound⟩

end Noted

/-- Whether a finding is made behind a lexeme. -/
def Cause.isBehindLexeme : Cause → Bool
  | .colonExpected => true
  | .semicolonExpected => true
  | _ => false

theorem Cause.isBehindLexeme_of_isAtLexeme {cause : Cause}
    (h : cause.isAtLexeme = true) : cause.isBehindLexeme = false := by
  cases cause with
  | colonExpected => cases h
  | semicolonExpected => cases h
  | _ => rfl

/-- Every finding is made at a lexeme, behind one, or on a name that was
declared before. -/
theorem Cause.trichotomy (cause : Cause) :
    cause.isAtLexeme = true ∨ cause.isBehindLexeme = true
      ∨ cause.isRedeclared = true := by
  cases cause <;> simp [Cause.isAtLexeme, Cause.isBehindLexeme,
    Cause.isRedeclared]

namespace Analysis

/-- The findings of an analysis that are made at lexemes, latest first. -/
def atLexemes (a : Analysis) : List Diagnostic :=
  a.errors.filter (·.cause.isAtLexeme)

/-- The findings of an analysis that are made behind lexemes, latest
first. -/
def behindLexemes (a : Analysis) : List Diagnostic :=
  a.errors.filter (·.cause.isBehindLexeme)

variable {a b c : Analysis} {t : Token} {cause : Cause} {pos : Position}
  {l m n : Nat} {behind behind' : List Diagnostic}

theorem atLexemes_report (h : cause.isAtLexeme = true) :
    (a.report pos cause).atLexemes
      = ⟨.syntactic, pos, cause⟩ :: a.atLexemes :=
  List.filter_cons_of_pos h

theorem behindLexemes_report (h : cause.isAtLexeme = true) :
    (a.report pos cause).behindLexemes = a.behindLexemes :=
  List.filter_cons_of_neg (by
    rw [Cause.isBehindLexeme_of_isAtLexeme h]
    exact Bool.false_ne_true)

/-- A place of an analysis with a rank. -/
def stage (a : Analysis) (l : Nat) : Stage := ⟨a.current.pos, l⟩

/-- An analysis leads from a stage at the place of `a` to a stage at the
place of `b`. In between it makes findings at lexemes, all different as
notes, and the findings `behind` behind lexemes. -/
structure Finds [NestingLimit] (l m : Nat) (behind : List Diagnostic)
    (a b : Analysis) :
    Prop where
  steps : Steps a b
  le : a.stage l ≤ b.stage m
  behind : b.behindLexemes = behind ++ a.behindLexemes
  notes : ∃ notes, Noted a.cursor.toList (a.stage l) (b.stage m) notes
    ∧ b.atLexemes = notes.map (·.finding) ++ a.atLexemes

namespace Finds

theorem settled [NestingLimit] (h : Finds l m behind a b) (ha : a.Settled) :
    b.Settled :=
  h.steps.settled ha

/-- What makes no finding and keeps the place. -/
theorem still [NestingLimit] (hsteps : Steps a b)
    (hcursor : b.cursor = a.cursor) (hat : b.atLexemes = a.atLexemes)
    (hbehind : b.behindLexemes = a.behindLexemes) (l : Nat) :
    Finds l l [] a b := by
  refine ⟨hsteps, ?_, hbehind, [], .nil .., hat⟩
  unfold stage
  rw [current_congr hcursor]

theorem refl [NestingLimit] (a : Analysis) (l : Nat) : Finds l l [] a a :=
  still .refl rfl rfl rfl l

/-- Two readers, one after another. -/
theorem trans [NestingLimit] (h : Finds l m behind a b)
    (h' : Finds m n behind' b c) :
    Finds l n (behind' ++ behind) a c := by
  obtain ⟨notes, hnoted, hlist⟩ := h.notes
  obtain ⟨more, hnoted', hlist'⟩ := h'.notes
  rw [h.steps.toList] at hnoted'
  refine ⟨h.steps.trans h'.steps, h.le.trans h'.le, ?_, more ++ notes,
    hnoted.append hnoted' h.le h'.le, ?_⟩
  · rw [h'.behind, h.behind, List.append_assoc]
  · rw [hlist', hlist, List.map_append, List.append_assoc]

/-- A reader may set out earlier and arrive later. -/
theorem mono [NestingLimit] {l' m' : Nat} (h : Finds l m behind a b)
    (hl : l' ≤ l) (hm : m ≤ m') : Finds l' m' behind a b := by
  obtain ⟨notes, hnoted, hlist⟩ := h.notes
  have hlower : a.stage l' ≤ a.stage l := Stage.le_of_rank hl
  have hupper : b.stage m ≤ b.stage m' := Stage.le_of_rank hm
  exact ⟨h.steps, hlower.trans (h.le.trans hupper), h.behind, notes,
    hnoted.mono hlower hupper, hlist⟩

end Finds

-- ==================================================== the basic operations

theorem atLexemes_next (a : Analysis) : a.next.atLexemes = a.atLexemes := by
  unfold atLexemes
  rw [errors_next]

theorem behindLexemes_next (a : Analysis) :
    a.next.behindLexemes = a.behindLexemes := by
  unfold behindLexemes
  rw [errors_next]

/-- Passing a lexeme leads to any stage behind it. -/
theorem Settled.finds_next [NestingLimit] (ha : a.Settled)
    (hend : a.current.isEnding = false) (l m : Nat) :
    Finds l m [] a a.next :=
  ⟨steps_next a, (Stage.lt_of_before (ha.before_next hend)).le,
    behindLexemes_next a, [], .nil .., atLexemes_next a⟩

theorem finds_recover [NestingLimit] (a : Analysis) (l : Nat) :
    Finds l l [] a a.recover :=
  .still (steps_recover a) rfl rfl rfl l

/-- A finding at the current lexeme is made at its own stage. -/
theorem finds_note [NestingLimit] (left : Bool) (hat : cause.isAtLexeme = true)
    (hsound : Note.Sound a.cursor.toList
      ⟨⟨.syntactic, a.current.pos, cause⟩, left⟩)
    (hrank : Note.rank ⟨⟨.syntactic, a.current.pos, cause⟩, left⟩ = l) :
    Finds l (l + 1) [] a (a.report a.current.pos cause) := by
  subst hrank
  refine ⟨steps_reportHere a cause, Stage.le_of_rank (Nat.le_succ _),
    behindLexemes_report hat, [⟨⟨.syntactic, a.current.pos, cause⟩, left⟩],
    ?_, atLexemes_report hat⟩
  have hupper := Stage.lt_of_rank (p := a.current.pos)
    (Nat.lt_succ_self (Note.rank ⟨⟨.syntactic, a.current.pos, cause⟩, left⟩))
  exact (Noted.nil _ _ _).cons hsound hupper hupper

/-- A fault that quotes nothing is found at the current lexeme. -/
theorem Settled.finds_fault [NestingLimit] (ha : a.Settled) (cause : Cause)
    (hat : cause.isAtLexeme = true) (hquoted : cause.quoted? = none) :
    Finds cause.rank (cause.rank + 1) [] a
      (a.report a.current.pos cause).recover :=
  (finds_note false hat
    (Note.sound_passed (.place ha.inside.current_mem hquoted))
    rfl).trans (finds_recover _ _)

/-- It may have been found already. -/
theorem Settled.finds_expected [NestingLimit] (ha : a.Settled) (cause : Cause)
    (hat : cause.isAtLexeme = true) (hquoted : cause.quoted? = none) :
    Finds cause.rank (cause.rank + 1) [] a
      (a.expect a.current.pos cause).recover := by
  unfold expect
  split
  · exact (finds_recover a _).mono (Nat.le_refl _) (Nat.le_succ _)
  · exact ha.finds_fault cause hat hquoted

/-- A finding at a lexeme may be made late, when more has been read. -/
theorem Settled.finds_late [NestingLimit] (ha : a.Settled)
    (hend : a.current.isEnding = false) (h : Finds l m behind a.next b)
    (cause : Cause) (hat : cause.isAtLexeme = true)
    (hcites : Cites a.cursor.toList ⟨.syntactic, a.current.pos, cause⟩) :
    Finds cause.rank m behind a (b.report a.current.pos cause) := by
  have hafter : a.stage cause.rank < a.next.stage l :=
    Stage.lt_of_before (ha.before_next hend)
  have hsteps := (steps_next a).trans h.steps
  obtain ⟨notes, hnoted, hlist⟩ := h.notes
  rw [(steps_next a).toList] at hnoted
  refine ⟨hsteps.trans (steps_report
      (hsteps.mem_seen ha.inside (current_mem_seen a)) cause),
    hafter.le.trans h.le, ?_, _ :: notes,
    hnoted.cons (Note.sound_passed hcites) hafter (hafter.trans_le h.le), ?_⟩
  · rw [behindLexemes_report hat, h.behind, behindLexemes_next]
  · rw [atLexemes_report hat, hlist, atLexemes_next]
    rfl

end Analysis

end VarSection
