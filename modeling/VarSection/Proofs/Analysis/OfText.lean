/-
Analyses of tables made from texts. Where the numbers of a text are short and
there is room for its arrays, no fault is noted and its check gives a report
(`check_of_readable`). Arrays that are nested too deep are the only fault of a
text with short numbers (`fault_of_check`).

The lexemes of a text stand in reading order without overlap, and a finding
is only made at a lexeme that has been seen, or right behind one that has
been passed. So no finding lies ahead of the place (`Settled`), and this is
kept by every elementary step.
-/
import VarSection.Proofs.Analysis.Step
import VarSection.Proofs.Scanner.Places

namespace VarSection

/-- Arranging findings keeps them. -/
theorem Report.mem_errors_ofFindings {errors : List Diagnostic}
    {symbols : SymbolTable Position} {declarations : List Declaration}
    {d : Diagnostic} :
    d ∈ (Report.ofFindings errors symbols declarations).errors
      ↔ d ∈ errors :=
  List.mem_mergeSort

/-- An analysis of the table of a text begins inside the table. -/
theorem inside_ofMark (tokens : List Token) (q : Position) :
    (Analysis.ofTable (tokens ++ [.mark q])).Inside :=
  .ofTable (Token.mark_ends tokens q)

section check

variable [NestingLimit]

/-- In an analysis of a table with short numbers and few arrays no fault is
noted. -/
theorem halt?_of_readable {tokens : List Token} {q : Position}
    (hreadable : Readable (tokens ++ [.mark q]))
    (hwords : arrayWords (tokens ++ [.mark q]) ≤ nestingMax + 1) :
    (Analysis.ofTable (tokens ++ [.mark q])).run.halt? = none :=
  (Analysis.steps_readSection (inside_ofMark tokens q)).halt?_eq_none rfl
    hreadable hwords

/-- A check without a fault gives the report of its analysis. -/
theorem check_of_unhalted {text : Text} {tokens : List Token} {q : Position}
    (hscans : Scans .start text tokens q)
    (hunhalted : (Analysis.ofTable (tokens ++ [.mark q])).run.halt? = none) :
    check text = .ok (.ofFindings
      (Analysis.ofTable (tokens ++ [.mark q])).run.findings
      (Analysis.ofTable (tokens ++ [.mark q])).run.symbols
      (Analysis.ofTable (tokens ++ [.mark q])).run.declared) := by
  rw [check_of_scans hscans]
  unfold Analysis.report?
  rw [hunhalted]

/-- A check with a fault gives the fault. -/
theorem check_of_halted {text : Text} {tokens : List Token} {q : Position}
    {note : Halt} (hscans : Scans .start text tokens q)
    (hnote : (Analysis.ofTable (tokens ++ [.mark q])).run.halt? = some note) :
    check text = .error note.fault := by
  rw [check_of_scans hscans]
  unfold Analysis.report?
  rw [hnote]

theorem check_of_readable {text : Text} {table : List Token}
    (h : tokenize text = .ok table) (hreadable : Readable table)
    (hwords : arrayWords table ≤ nestingMax + 1) :
    check text = .ok (.ofFindings (Analysis.ofTable table).run.findings
      (Analysis.ofTable table).run.symbols
      (Analysis.ofTable table).run.declared) := by
  obtain ⟨tokens, q, hscans, rfl⟩ := tokenize_eq_ok_iff.1 h
  exact check_of_unhalted hscans (halt?_of_readable hreadable hwords)

/-- The fault of a text with short numbers is that its arrays are nested too
deep. -/
theorem fault_of_check {text : Text} {table : List Token} {fault : Fault}
    (h : tokenize text = .ok table) (hreadable : Readable table)
    (hfault : check text = .error fault) :
    fault = .nestedTooDeep ∧ nestingMax + 1 < arrayWords table := by
  obtain ⟨tokens, q, hscans, rfl⟩ := tokenize_eq_ok_iff.1 h
  cases hnote : (Analysis.ofTable (tokens ++ [.mark q])).run.halt? with
  | none =>
    rw [check_of_unhalted hscans hnote] at hfault
    cases hfault
  | some note =>
    rw [check_of_halted hscans hnote] at hfault
    obtain rfl := Except.error.inj hfault
    exact (Analysis.steps_readSection (inside_ofMark tokens q)).fault_eq rfl
      hreadable hnote

/-- If a text has a report, its analysis noted no fault. -/
theorem unhalted_of_check {text : Text} {tokens : List Token} {q : Position}
    {report : Report} (hscans : Scans .start text tokens q)
    (h : check text = .ok report) :
    (Analysis.ofTable (tokens ++ [.mark q])).run.halt? = none := by
  cases hnote : (Analysis.ofTable (tokens ++ [.mark q])).run.halt? with
  | none => rfl
  | some note =>
    rw [check_of_halted hscans hnote] at h
    cases h

/-- If a text has no report, its analysis noted a fault. -/
theorem halted_of_check {text : Text} {tokens : List Token} {q : Position}
    {fault : Fault} (hscans : Scans .start text tokens q)
    (h : check text = .error fault) :
    (Analysis.ofTable (tokens ++ [.mark q])).run.halt? ≠ none := by
  intro hnone
  rw [check_of_unhalted hscans hnone] at h
  cases h

/-- A check with a fault of a text with short numbers tells of arrays nested
too deep. -/
theorem nestedTooDeep_of_halted {text : Text} {tokens : List Token}
    {q : Position} (hscans : Scans .start text tokens q)
    (hreadable : Readable (tokens ++ [.mark q]))
    (h : (Analysis.ofTable (tokens ++ [.mark q])).run.halt? ≠ none) :
    check text = .error .nestedTooDeep := by
  obtain ⟨note, hnote⟩ := Option.ne_none_iff_exists'.1 h
  have hcheck := check_of_halted hscans hnote
  rw [hcheck, (fault_of_check (tokenize_eq_ok_iff.2 ⟨_, _, hscans, rfl⟩)
    hreadable hcheck).1]

/-- What a report on a text tells is what the analysis of its table has
found. -/
theorem report_of_scans {text : Text} {tokens : List Token} {q : Position}
    {report : Report} (hscans : Scans .start text tokens q)
    (h : check text = .ok report) :
    report = .ofFindings
      (Analysis.ofTable (tokens ++ [.mark q])).run.findings
      (Analysis.ofTable (tokens ++ [.mark q])).run.symbols
      (Analysis.ofTable (tokens ++ [.mark q])).run.declared := by
  rw [check_of_scans hscans] at h
  unfold Analysis.report? at h
  split at h
  next => cases h
  next => exact (Except.ok.inj h).symm

/-- An analysis makes findings of its own stage only. -/
theorem Analysis.Steps.syntactic {a b : Analysis} (h : Steps a b)
    (ha : ∀ d ∈ a.errors, d.severity = .syntactic) :
    ∀ d ∈ b.errors, d.severity = .syntactic := by
  induction h with
  | refl => exact ha
  | tail _ hstep ih =>
    cases hstep with
    | next => rw [errors_next]; exact ih
    | report => exact List.forall_mem_cons.2 ⟨rfl, ih⟩
    | reportBehind => exact List.forall_mem_cons.2 ⟨rfl, ih⟩
    | setRecovering => exact ih
    | halt => rw [errors_halt]; exact ih
    | enter => exact ih
    | define => exact ih

end check

-- ========================================================= reading order

theorem Token.pos_le_endPos (t : Token) : t.pos.le t.endPos = true :=
  Position.le_right t.pos t.text.length

namespace Analysis

variable {a b : Analysis} {t : Token}

/-- In a table made from a text no finding lies ahead of the place. -/
structure Settled (a : Analysis) : Prop where
  inside : a.Inside
  lexed : Lexed a.cursor.toList
  errors : ∀ d ∈ a.errors, d.pos.le a.current.pos = true

namespace Settled

/-- What has been passed ends in front of the place. -/
theorem endPos_le (ha : a.Settled) (ht : t ∈ a.cursor.behind) :
    t.endPos.le a.current.pos = true := by
  obtain ⟨rest, hrest⟩ := ha.inside.exists_ahead
  have horder := ha.lexed.order
  unfold Cursor.toList at horder
  rw [hrest] at horder
  exact (List.pairwise_append.1 horder).2.2 t (List.mem_reverse.2 ht) _
    List.mem_cons_self

theorem pos_le (ha : a.Settled) (ht : t ∈ a.seen) :
    t.pos.le a.current.pos = true := by
  rcases List.mem_cons.1 ht with rfl | ht
  · exact Position.le_refl _
  · exact Position.le_trans t.pos_le_endPos (ha.endPos_le ht)

/-- What lies behind the current lexeme stands strictly behind it. -/
theorem before (ha : a.Settled) (hend : a.current.isEnding = false)
    (ht : t ∈ a.next.cursor.ahead) : a.current.pos.Before t.pos := by
  obtain ⟨rest, hrest⟩ := ha.inside.exists_ahead
  have hlexed := ha.lexed
  unfold Cursor.toList at hlexed
  rw [hrest] at hlexed
  rw [(passes_next hrest hend).ahead_tail hrest] at ht
  exact hlexed.right_of_append.before hend t ht

/-- No finding lies at a place that is still ahead. -/
theorem hits_eq_false (ha : a.Settled) {pos : Position}
    (hpos : a.current.pos.Before pos) : a.hits pos = false := by
  unfold hits
  cases herrors : a.errors with
  | nil => rfl
  | cons d errors =>
    have hd := ha.errors d (by rw [herrors]; exact List.mem_cons_self)
    exact beq_eq_false_iff_ne.2 (Position.Before.of_le hd hpos).ne

theorem ofTable {table : List Token} (hlexed : Lexed table)
    (hends : ∃ t ∈ table, t.isEnding = true) :
    (Analysis.ofTable table).Settled :=
  ⟨.ofTable hends, hlexed, fun _ hd => absurd hd List.not_mem_nil⟩

end Settled

/-- A step makes no finding ahead of the place, and leaves none behind
it. -/
theorem Step.settled [NestingLimit] (h : Step a b) (ha : a.Settled) :
    b.Settled := by
  refine ⟨h.inside ha.inside, by rw [h.toList]; exact ha.lexed, ?_⟩
  cases h with
  | next =>
    intro d hd
    rw [errors_next] at hd
    by_cases hend : a.current.isEnding = false
    · have hinside := (steps_next a).inside ha.inside
      obtain ⟨rest, hrest⟩ := hinside.exists_ahead
      refine Position.le_trans (ha.errors d hd) (ha.before hend ?_).le
      rw [hrest]
      exact List.mem_cons_self
    · rw [Bool.not_eq_false] at hend
      rw [next_of_ending hend]
      exact ha.errors d hd
  | report ht cause =>
    intro d hd
    rcases List.mem_cons.1 hd with rfl | hd
    · exact ha.pos_le ht
    · exact ha.errors d hd
  | reportBehind ht hcause =>
    intro d hd
    rcases List.mem_cons.1 hd with rfl | hd
    · exact ha.endPos_le (List.mem_of_mem_head? ht)
    · exact ha.errors d hd
  | setRecovering => exact ha.errors
  | halt =>
    rw [errors_halt, current_congr (cursor_halt ..)]
    exact ha.errors
  | enter => exact ha.errors
  | define => exact ha.errors

theorem Steps.settled [NestingLimit] (h : Steps a b) (ha : a.Settled) :
    b.Settled := by
  induction h with
  | refl => exact ha
  | tail _ hstep ih => exact hstep.settled ih

end Analysis

end VarSection
