/-
How often a report tells of one thing. All notes of an analysis are
different, so a finding is made once, or twice when its lexeme was left
where a type was expected and found again at the end of the declaration.
Only an unknown symbol is left like that, and only when it begins a line
(`check_repeats`).
-/
import VarSection.Proofs.Analysis.Accounting
import VarSection.Proofs.Scanner.Comments

namespace VarSection

open Analysis

-- ================================================================ counting

/-- Of two notes on one finding one was left, so it begins a line. -/
theorem Noted.count_le {table : List Token} {s t : Stage}
    {notes : List Note} (h : Noted table s t notes) (d : Diagnostic) :
    (notes.map (·.finding)).count d ≤ 1
      ∨ ((notes.map (·.finding)).count d = 2 ∧ BeginsLine table d) := by
  have hcount : (notes.map (·.finding)).count d
      = notes.count ⟨d, false⟩ + notes.count ⟨d, true⟩ := by
    clear h
    induction notes with
    | nil => rfl
    | cons n notes ih =>
      rw [List.map_cons, List.count_cons, List.count_cons, List.count_cons, ih]
      cases n with
      | mk e left =>
        cases left <;> by_cases he : e = d <;> simp [he] <;> omega
  have hpassed := List.nodup_iff_count.1 h.nodup ⟨d, false⟩
  have hleft := List.nodup_iff_count.1 h.nodup ⟨d, true⟩
  by_cases hmem : (⟨d, true⟩ : Note) ∈ notes
  · by_cases htwo : (notes.map (·.finding)).count d ≤ 1
    · exact .inl htwo
    · exact .inr ⟨by omega, (h.sound _ hmem).left rfl⟩
  · have hzero := List.count_eq_zero_of_not_mem hmem
    exact .inl (by omega)

/-- Symbols in reading order are told of in reading order. -/
theorem Grammar.redeclarations_increasing
    {seen symbols : List (Symbol Position)}
    (h : symbols.Pairwise fun s t => s.place.Before t.place) :
    (Grammar.redeclarations seen symbols).Pairwise
      fun d e => d.pos.Before e.pos := by
  induction symbols generalizing seen with
  | nil => exact .nil
  | cons s symbols ih =>
    obtain ⟨hfirst, hrest⟩ := List.pairwise_cons.1 h
    rw [Grammar.redeclarations, List.pairwise_append]
    refine ⟨?_, ih hrest, fun d hd e he => ?_⟩
    · cases Grammar.redeclaration? seen s with
      | none => exact .nil
      | some d => exact List.pairwise_singleton ..
    · rw [Grammar.redeclaration?, Option.mem_toList,
        Option.map_eq_some_iff] at hd
      obtain ⟨first, -, rfl⟩ := hd
      obtain ⟨before, t, after, first', hsplit, -, rfl⟩ :=
        Grammar.exists_of_mem_redeclarations he
      exact hfirst t (by
        rw [hsplit]; exact List.mem_append_right _ List.mem_cons_self)

/-- A finding is counted among those of its sort. -/
theorem count_filter_cause {p : Cause → Bool} {d : Diagnostic}
    (h : p d.cause = true) (errors : List Diagnostic) :
    (errors.filter (p ·.cause)).count d = errors.count d :=
  List.count_filter (p := fun e : Diagnostic => p e.cause) h

/-- In a run on a table made from a text a finding is made once; only an
unknown symbol that begins a line can be found twice. -/
theorem Analysis.count_errors_le [NestingLimit] {table : List Token}
    (hlexed : Lexed table) (hends : ∃ t ∈ table, t.isEnding = true)
    (d : Diagnostic) :
    (ofTable table).run.errors.count d ≤ 1
      ∨ ((ofTable table).run.errors.count d = 2 ∧ BeginsLine table d) := by
  have haccounts := Accounts.run hlexed hends
  rcases d.cause.trichotomy with hat | hbehind | hredeclared
  · obtain ⟨behind, hfinds⟩ := haccounts.finds
    obtain ⟨notes, hnoted, hlist⟩ := hfinds.notes
    have hnone : (ofTable table).atLexemes = [] := rfl
    rw [hnone, List.append_nil] at hlist
    have hcount := hnoted.count_le d
    rw [← hlist, atLexemes, count_filter_cause hat] at hcount
    exact hcount
  · have hcount := List.nodup_iff_count.1 haccounts.nodup d
    rw [behindLexemes, count_filter_cause hbehind] at hcount
    exact .inl hcount
  · have horderly : (ofTable table).run.Orderly :=
      lasts_orderly.readSection (.ofTable hlexed hends)
    have hnodup : (ofTable table).run.redeclared.Nodup := by
      rw [(Tallies.run hends).redeclared]
      refine (Grammar.redeclarations_increasing horderly.order).imp ?_
      exact fun hbefore hsame => hbefore.ne (congrArg Diagnostic.pos hsame)
    have hcount := List.nodup_iff_count.1 hnodup d
    rw [redeclared, count_filter_cause hredeclared, findings,
      List.count_reverse] at hcount
    exact .inl hcount

-- ================================================================= reports

/-- A report tells of every finding once, but for unknown symbols: one that
stands on another line than the lexeme in front of it can be told of twice,
and not more often. -/
theorem check_repeats [NestingLimit] {text : Text} {report : Report}
    (h : check text = .ok report) (d : Diagnostic) :
    report.errors.count d ≤ 1
      ∨ (report.errors.count d = 2
        ∧ ∃ table before t u after, tokenize text = .ok table
          ∧ table = before ++ t :: u :: after ∧ t.line ≠ u.line
          ∧ u.kind = .unknown
          ∧ d = ⟨.syntactic, u.pos, .unknownSymbol u.text⟩) := by
  obtain ⟨tokens, q, hscans, rfl⟩ | ⟨pos, rfl⟩ := check_cases h
  · have hends := Token.mark_ends tokens q
    have hcount : (Report.arrange
          (ofTable (tokens ++ [.mark q])).run.findings).count d
        = (ofTable (tokens ++ [.mark q])).run.errors.count d := by
      unfold Report.arrange
      rw [(List.mergeSort_perm _ _).count_eq, findings, List.count_reverse]
    change (Report.arrange _).count d ≤ 1
      ∨ (Report.arrange _).count d = 2 ∧ _
    rw [hcount]
    rcases count_errors_le hscans.lexed hends d with hone | ⟨htwo, hleft⟩
    · exact .inl hone
    · obtain ⟨before, t, u, after, htable, hline, hkind, hd⟩ := hleft
      exact .inr ⟨htwo, _, before, t, u, after,
        tokenize_eq_ok_iff.2 ⟨tokens, q, hscans, rfl⟩, htable, hline, hkind,
        hd⟩
  · exact .inl (List.nodup_iff_count.1 (List.pairwise_singleton ..) d)

/-- The lexemes of `var a:` with `#` on the next line. -/
def hashTable : List Token :=
  [⟨.keyword, "var", ⟨1, 1⟩⟩, ⟨.identifier, "a", ⟨1, 5⟩⟩,
    ⟨.symbol, ":", ⟨1, 6⟩⟩, ⟨.unknown, "#", ⟨2, 1⟩⟩, .mark ⟨2, 2⟩]

/-- The finding on the symbol in the second line. -/
def strayHash : Diagnostic := ⟨.syntactic, ⟨2, 1⟩, .unknownSymbol "#"⟩

open scoped UsualNesting

/-- In the place of a type the symbol is reported and left, and at the end of
the declaration it is reported again. -/
theorem check_hashTable : ∃ report, check "var a:\n#" = .ok report
    ∧ report.errors.count strayHash = 2 := by
  have htable : tokenize "var a:\n#" = .ok hashTable := by decide +kernel
  have hcheck := check_of_readable htable (by
    unfold Readable
    decide +kernel) (by decide +kernel)
  have hfindings : (ofTable hashTable).run.findings
      = [strayHash, strayHash] := by decide +kernel
  refine ⟨_, hcheck, ?_⟩
  show (Report.arrange _).count strayHash = 2
  unfold Report.arrange
  rw [hfindings, (List.mergeSort_perm _ _).count_eq]
  decide

/-- So a report can tell of one thing twice. -/
theorem check_repeats_strayHash : ∃ report,
    check "var a:\n#" = .ok report ∧ ¬ report.errors.Nodup := by
  obtain ⟨report, hreport, htwo⟩ := check_hashTable
  refine ⟨report, hreport, fun hnodup => ?_⟩
  have hone := List.nodup_iff_count.1 hnodup strayHash
  omega

/-- And it is an unknown symbol that stands on another line than the lexeme
in front of it. -/
theorem check_repeats_beginsLine : ∃ report,
    check "var a:\n#" = .ok report ∧ report.errors.count strayHash = 2
      ∧ ∃ table before t u after, tokenize "var a:\n#" = .ok table
        ∧ table = before ++ t :: u :: after ∧ t.line ≠ u.line
        ∧ u.kind = .unknown
        ∧ strayHash = ⟨.syntactic, u.pos, .unknownSymbol u.text⟩ := by
  obtain ⟨report, hreport, htwo⟩ := check_hashTable
  rcases check_repeats hreport strayHash with hone | hboth
  · omega
  · exact ⟨report, hreport, hboth⟩

end VarSection
