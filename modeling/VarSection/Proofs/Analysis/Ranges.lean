/-
Index lists, read and split. What stands between the brackets of an array is
split at its commas into segments (`Segment.split`), and each segment is told
by itself: whether it begins with a range, and which of its lexemes is the
first that does not fit the form of a range with what closes it
(`Segment.fault?`).

The reader never splits. It looks at one lexeme after another, reports the
first that does not fit, skips to the next boundary and goes on from there.
But whatever it does lies within one segment: where a range is read or
reported, all that is left of its segment is passed, up to the lexeme that
closes it (`Settled.readsSegment`). So along the segments it finds what each of
them tells, gathers the ranges with which they begin, and stops behind the
bracket or in front of whatever else ends the list (`Settled.readsList`).

Nothing is left unsaid because of what was found before: a finding that would
be kept back lies at the lexeme where the last one was made, and all of those
stand in front of the place (`Settled.errors`).
-/
import VarSection.Proofs.Analysis.Turns
import VarSection.Proofs.Analysis.Readers

namespace VarSection

-- =============================================================== segments

/-- Whether a lexeme is an integer. -/
def Token.isInteger (t : Token) : Bool :=
  t.kind == .number && Numeral.isInteger t.text

/-- Whether a lexeme may follow an index range. -/
def Token.closesRange (t : Token) : Bool := t.isSymbol "," || t.isSymbol "]"

/-- A part of an index list without commas, and the lexeme that closes it. -/
structure Segment where
  lexemes : List Token
  closer : Token

namespace Segment

/-- The segments of the lexemes `inside` an index list that `stop` ends. -/
def split (inside : List Token) (stop : Token) : List Segment :=
  List.zipWith Segment.mk (inside.splitOnP (·.isSymbol ","))
    (inside.filter (·.isSymbol ",") ++ [stop])

/-- The range with which a segment begins: two integers with dots between
them. -/
def range? (s : Segment) : Option IndexRange :=
  match s.lexemes with
  | low :: dots :: high :: _ =>
    if low.isInteger && dots.isSymbol ".." && high.isInteger then
      some ⟨Numeral.value low.text, Numeral.value high.text⟩
    else none
  | _ => none

/-- Whether a segment is exactly a range, closed by a comma or by the closing
bracket. -/
def Sound (s : Segment) : Prop :=
  ∃ low dots high, s.lexemes = [low, dots, high] ∧ low.isInteger = true
    ∧ dots.isSymbol ".." = true ∧ high.isInteger = true
    ∧ s.closer.closesRange = true

/-- The form of an index range with what closes it: what stands at each place,
and what is reported where it does not. -/
def form : List ((Token → Bool) × Cause) :=
  [(Token.isInteger, .lowerBoundExpected),
    ((·.isSymbol ".."), .dotsExpected),
    (Token.isInteger, .upperBoundExpected),
    (Token.closesRange, .commaOrBracketExpected)]

/-- The finding at the first of some lexemes that does not fit a form. -/
def misfit? : List ((Token → Bool) × Cause) → List Token → Option Diagnostic
  | (fits, cause) :: form, t :: rest =>
    if fits t then misfit? form rest else some ⟨.syntactic, t.pos, cause⟩
  | _, _ => none

/-- The structural finding in a segment, if there is one. -/
def fault? (s : Segment) : Option Diagnostic :=
  misfit? form (s.lexemes ++ [s.closer])

/-- The finding at the lower bound of a range, if it is above the upper
one. -/
def inverted? (s : Segment) : Option Diagnostic :=
  s.lexemes.head?.bind fun low => s.range?.bind fun range =>
    if range.low > range.high then
      some ⟨.syntactic, low.pos, .boundsInverted range.low range.high⟩
    else none

/-- All findings in a segment, as they are made. -/
def findings (s : Segment) : List Diagnostic :=
  s.inverted?.toList ++ s.fault?.toList

variable {inside seg : List Token} {stop comma : Token}

end Segment

namespace Token

variable {t : Token}

end Token

namespace Segment

variable {s : Segment} {inside : List Token} {stop : Token}

end Segment

namespace Analysis

variable {a b : Analysis} {t u closer : Token} {more rest : List Token}

-- ============================================================ one segment

section Faults

variable {low dots : Token} {left tail : List Token}

end Faults

section Bounds

variable {low dots high : Token} {left tail : List Token}

end Bounds

-- ============================================================== whole lists

/-- While a type is read with a number of arrays around it, an index list is
read right behind its bracket. -/
inductive TypeHasList [NestingLimit] : Nat → Analysis → Analysis → Prop
  /-- the list of the array itself -/
  | here {depth : Nat} {a : Analysis}
      (harray : a.unreadKeyword "array" = true)
      (hbracket : (a.descend depth).next.atSymbol "[" = true) :
      TypeHasList depth a (a.descend depth).next.next
  /-- a list of its elements -/
  | of {depth : Nat} {a c : Analysis}
      (harray : a.unreadKeyword "array" = true)
      (hof : (a.descend depth).readArrayRanges.2.atKeyword "of" = true)
      (h : TypeHasList (depth + 1) (a.descend depth).readArrayRanges.2.next
        c) : TypeHasList depth a c
  /-- a list of its elements, where the word in front of them is missing -/
  | missing {depth : Nat} {a c : Analysis}
      (harray : a.unreadKeyword "array" = true)
      (hof : (a.descend depth).readArrayRanges.2.atKeyword "of" = false)
      (hstarts : (a.descend depth).readArrayRanges.2.startsType = true)
      (h : TypeHasList (depth + 1)
        (a.descend depth).readArrayRanges.2.missingOf c) :
      TypeHasList depth a c

/-- Where the type of a declaration is read that begins at a state: behind its
colon, or where the colon is missing. -/
def typeStart? (a : Analysis) : Option Analysis :=
  let names := a.unmarked.readNames.2
  let read := names.reportUnknown names.current.line
  if read.2.atSymbol ":" then some read.2.next
  else if read.1 || (read.2.missColon read.1).startsType then
    some (read.2.missColon read.1)
  else none

/-- The type of a declaration is what is read where it starts. -/
theorem readTypePart_of_typeStart [NestingLimit] (h : a.typeStart? = some b) :
    a.unmarked.readNames.2.readTypePart = b.readType 0 := by
  unfold typeStart? at h
  rw [readTypePart_eq]
  unfold readColon
  simp only at h
  split at h
  next hcolon =>
    rw [if_pos hcolon, Option.some.inj h]
  next hcolon =>
    rw [if_neg hcolon]
    split at h
    next hstarts => rw [if_pos hstarts, Option.some.inj h]
    next => cases h

/-- The analysis of a table reads an index list behind its bracket: one of the
type of a declaration. -/
inductive RunHasList [NestingLimit] (table : List Token) : Analysis → Prop
  | declaration {a b c : Analysis}
      (hturn : .declaration a ∈ (ofTable table).turns)
      (hstart : a.typeStart? = some b) (h : TypeHasList 0 b c) :
      RunHasList table c

/-- The lists of a type are reached by elementary steps, each behind its
bracket, if the arrays around the type have been passed. -/
theorem TypeHasList.steps [NestingLimit] {depth : Nat}
    (h : TypeHasList depth a b) (ha : a.Inside)
    (hdepth : depth ≤ arrayWords a.cursor.behind) :
    Steps a b ∧ ∃ t, b.previous? = some t ∧ t.isSymbol "[" = true := by
  induction h with
  | @here depth a harray hbracket =>
    have hentered := (steps_descend harray hdepth).trans
      (steps_next (a.descend depth))
    have hnext := hentered.inside ha
    have hpass := passes_current hnext (isEnding_of_atSymbol hbracket)
    refine ⟨hentered.trans (steps_next _), (a.descend depth).next.current,
      ?_, hbracket⟩
    rw [(hpass.inside hnext).previous?, hpass.behind]
    rfl
  | @of depth a c harray hof h ih =>
    obtain ⟨hranges, hpassed⟩ := steps_enterArray ha harray hdepth
    have hword := steps_next (a.descend depth).readArrayRanges.2
    obtain ⟨hsteps, hprevious⟩ := ih ((hranges.trans hword).inside ha)
      (Nat.le_trans hpassed (hword.arrayWords_le (hranges.inside ha)))
    exact ⟨(hranges.trans hword).trans hsteps, hprevious⟩
  | @missing depth a c harray hof hstarts h ih =>
    obtain ⟨hranges, hpassed⟩ := steps_enterArray ha harray hdepth
    have hmissing := steps_missingOf (a.descend depth).readArrayRanges.2
    obtain ⟨hsteps, hprevious⟩ := ih ((hranges.trans hmissing).inside ha)
      (Nat.le_trans hpassed (hmissing.arrayWords_le (hranges.inside ha)))
    exact ⟨(hranges.trans hmissing).trans hsteps, hprevious⟩

theorem steps_typeStart [NestingLimit] (ha : a.Inside)
    (h : a.typeStart? = some b) :
    Steps a b := by
  have hnames := steps_unmarked ha
  have hread := hnames.trans (steps_reportUnknown (hnames.inside ha)
    a.unmarked.readNames.2.current.line)
  have hinside := hread.inside ha
  unfold typeStart? at h
  simp only at h
  split at h
  · rw [← Option.some.inj h]
    exact hread.trans (steps_next _)
  · split at h
    · rw [← Option.some.inj h]
      unfold missColon
      split
      · exact hread
      · exact hread.trans (steps_reportAfterPrevious hinside (.inl rfl))
    · cases h

/-- The lists of a run are reached by elementary steps, each behind its
bracket. -/
theorem RunHasList.steps [NestingLimit] {table : List Token} {c : Analysis}
    (h : RunHasList table c) (hends : ∃ t ∈ table, t.isEnding = true) :
    Steps (ofTable table) c
      ∧ ∃ t, c.previous? = some t ∧ t.isSymbol "[" = true := by
  obtain ⟨hturn, hstart, h⟩ := h
  have hsteps := (due_of_mem_turns hends _ hturn).1
  have hinside := hsteps.inside (.ofTable hends)
  have htype := steps_typeStart hinside hstart
  obtain ⟨hlist, hprevious⟩ :=
    h.steps (htype.inside hinside) (Nat.zero_le _)
  exact ⟨hsteps.trans (htype.trans hlist), hprevious⟩

open scoped UsualNesting

end Analysis

end VarSection
