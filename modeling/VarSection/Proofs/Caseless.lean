/-
A check does not see the case of ASCII letters. Of a folded text it gives the
folded report of the text (`check_foldCase`): the text is scanned into the
folded lexemes, they are analysed in the same steps, and findings are
arranged by their places alone. So texts that are alike have reports that
fold into one, and folding takes nothing from a report but the case of what
is cited in it (`check_alike`).
-/
import Mathlib.Data.List.Forall2
import VarSection.Proofs.Analysis.Folding
import VarSection.Proofs.Analysis.OfText

namespace VarSection

-- ========================================================== folded reports

namespace Report

/-- A report with all texts of the source folded. -/
def foldCase (r : Report) : Report :=
  ⟨r.errors.map Diagnostic.foldCase, r.symbols.foldCase,
    r.declarations.map Declaration.foldCase⟩

theorem arrange_foldCase (errors : List Diagnostic) :
    arrange (errors.map Diagnostic.foldCase)
      = (arrange errors).map Diagnostic.foldCase := by
  unfold arrange
  rw [List.map_mergeSort]
  exact fun _ _ _ _ => rfl

theorem ofFindings_foldCase (errors : List Diagnostic)
    (symbols : SymbolTable Position) (declarations : List Declaration) :
    ofFindings (errors.map Diagnostic.foldCase) symbols.foldCase
        (declarations.map Declaration.foldCase)
      = (ofFindings errors symbols declarations).foldCase := by
  unfold ofFindings
  rw [arrange_foldCase]
  rfl

end Report

theorem Analysis.report?_foldCase (a : Analysis) :
    a.foldCase.report? = a.report?.map Report.foldCase := by
  have hfindings : a.foldCase.findings
      = a.findings.map Diagnostic.foldCase := List.map_reverse.symm
  have hdeclared : a.foldCase.declared
      = a.declared.map Declaration.foldCase := List.map_reverse.symm
  have hhalt : a.foldCase.halt? = a.halt?.map Halt.foldCase := rfl
  unfold report?
  rw [hfindings, hdeclared, hhalt]
  cases a.halt? with
  | some note => rfl
  | none => exact congrArg Except.ok (Report.ofFindings_foldCase ..)

/-- A folded text is checked like the text: with the same fault, or with the
folded report. -/
theorem check_foldCase [NestingLimit] (text : Text) :
    check (Text.foldCase text) = (check text).map Report.foldCase := by
  unfold check
  rw [Scanner.ofText_foldCase, Scanner.scan_foldCase]
  simp only [Scanner.table_foldCase, Scanner.findings_foldCase,
    Analysis.ofTable_foldCase, Analysis.run_foldCase,
    Analysis.report?_foldCase]
  split
  · rfl
  · exact congrArg Except.ok (Report.ofFindings_foldCase _ .empty [])

-- =========================================================== alike reports

/-- Findings of one stage at one place, with messages that are alike. -/
structure Diagnostic.Alike (d d' : Diagnostic) : Prop where
  severity : d.severity = d'.severity
  pos : d.pos = d'.pos
  message : d.message.Alike d'.message

/-- Names that are alike, written at one place. -/
structure Identifier.Alike (n n' : Identifier) : Prop where
  name : n.name.Alike n'.name
  pos : n.pos = n'.pos

/-- Declarations of one type at one place, with names that are alike. -/
structure Declaration.Alike (d d' : Declaration) : Prop where
  names : List.Forall₂ Identifier.Alike d.names d'.names
  type : d.type = d'.type
  pos : d.pos = d'.pos

/-- Symbols of one type at one place, with names that are alike. -/
structure Symbol.Alike (s s' : Symbol Position) : Prop where
  name : s.name.Alike s'.name
  type : s.type = s'.type
  place : s.place = s'.place

/-- Reports that agree but for the case of what they cite: entry by entry
in the findings, the symbols and the declarations. -/
structure Report.Alike (r r' : Report) : Prop where
  success : r.success = r'.success
  errors : List.Forall₂ Diagnostic.Alike r.errors r'.errors
  symbols : List.Forall₂ Symbol.Alike r.symbols.toList r'.symbols.toList
  declarations :
    List.Forall₂ Declaration.Alike r.declarations r'.declarations

/-- Lists that a function makes equal agree entry by entry as far as the
function tells. -/
theorem forall₂_of_map_eq {α β : Type} {f : α → β} {R : α → α → Prop}
    (hR : ∀ x y, f x = f y → R x y) {l l' : List α}
    (h : l.map f = l'.map f) : List.Forall₂ R l l' := by
  have hall : List.Forall₂ (· = ·) (l.map f) (l'.map f) := by
    rw [List.forall₂_eq_eq_eq]
    exact h
  rw [List.forall₂_map_left_iff, List.forall₂_map_right_iff] at hall
  exact hall.imp hR

theorem Diagnostic.Alike.of_foldCase {d d' : Diagnostic}
    (h : d.foldCase = d'.foldCase) : d.Alike d' := by
  obtain ⟨severity, pos, cause⟩ := d
  obtain ⟨severity', pos', cause'⟩ := d'
  obtain ⟨hseverity, hpos, hcause⟩ := Diagnostic.mk.inj h
  refine ⟨hseverity, hpos, ?_⟩
  have hmessage := cause.message_foldCase
  rw [hcause] at hmessage
  exact hmessage.symm.trans cause'.message_foldCase

theorem Identifier.Alike.of_foldCase (n n' : Identifier)
    (h : n.foldCase = n'.foldCase) : n.Alike n' := by
  obtain ⟨hname, hpos⟩ := Identifier.mk.inj h
  exact ⟨hname, hpos⟩

theorem Declaration.Alike.of_foldCase (d d' : Declaration)
    (h : d.foldCase = d'.foldCase) : d.Alike d' := by
  obtain ⟨hnames, htype, hpos⟩ := Declaration.mk.inj h
  exact ⟨forall₂_of_map_eq Identifier.Alike.of_foldCase hnames, htype, hpos⟩

theorem Symbol.Alike.of_foldCase (s s' : Symbol Position)
    (h : s.foldCase = s'.foldCase) : s.Alike s' := by
  obtain ⟨hname, htype, hplace⟩ := Symbol.mk.inj h
  exact ⟨hname, htype, hplace⟩

theorem Report.Alike.of_foldCase {r r' : Report}
    (h : r.foldCase = r'.foldCase) : r.Alike r' := by
  obtain ⟨herrors, hsymbols, hdeclarations⟩ := Report.mk.inj h
  have htables := congrArg SymbolTable.toList hsymbols
  rw [SymbolTable.toList_foldCase, SymbolTable.toList_foldCase] at htables
  have hsuccess := congrArg List.isEmpty herrors
  rw [List.isEmpty_map, List.isEmpty_map] at hsuccess
  exact ⟨hsuccess, forall₂_of_map_eq (fun _ _ => .of_foldCase) herrors,
    forall₂_of_map_eq Symbol.Alike.of_foldCase htables,
    forall₂_of_map_eq Declaration.Alike.of_foldCase hdeclarations⟩

/-- Texts that agree code point by code point up to the case of ASCII letters
have the same fault, or else reports that agree but for the case of what
they cite. -/
theorem check_alike [NestingLimit] {s t : Text} (h : s.Alike t) :
    (∃ fault, check s = .error fault ∧ check t = .error fault)
      ∨ ∃ r r', check s = .ok r ∧ check t = .ok r' ∧ r.Alike r' := by
  have hfold : (check s).map Report.foldCase
      = (check t).map Report.foldCase := by
    rw [← check_foldCase, ← check_foldCase, h]
  cases hs : check s with
  | error fault =>
    cases ht : check t with
    | error fault' =>
      rw [hs, ht] at hfold
      exact .inl ⟨fault, rfl, congrArg _ (Except.error.inj hfold).symm⟩
    | ok r' =>
      rw [hs, ht] at hfold
      cases hfold
  | ok r =>
    cases ht : check t with
    | error fault' =>
      rw [hs, ht] at hfold
      cases hfold
    | ok r' =>
      rw [hs, ht] at hfold
      exact .inr ⟨r, r', rfl, rfl, .of_foldCase (Except.ok.inj hfold)⟩

open scoped UsualNesting

/-- Two texts that differ in the case of words and names. A sigma ends both
names, which makes them one name twice, and no valid one. -/
theorem check_alike_sigma :
    let s : Text := "VAR AΣ, aΣ: Integer;"
    let t : Text := "var aΣ, AΣ: INTEGER;"
    s.Alike t ∧ s ≠ t
      ∧ ∃ r r', check s = .ok r ∧ check t = .ok r' ∧ r.Alike r'
        ∧ ⟨.syntactic, ⟨1, 5⟩, .invalidName "AΣ"⟩ ∈ r.errors
        ∧ ⟨.syntactic, ⟨1, 9⟩, .redeclared "aΣ" ⟨1, 5⟩⟩ ∈ r.errors
        ∧ r.declarations = [⟨[⟨"AΣ", ⟨1, 5⟩⟩, ⟨"aΣ", ⟨1, 9⟩⟩],
          .scalar "integer", ⟨1, 5⟩⟩] := by
  intro s t
  let table : List Token :=
    [⟨.keyword, "VAR", ⟨1, 1⟩⟩, ⟨.identifier, "A", ⟨1, 5⟩⟩,
      ⟨.unknown, "Σ", ⟨1, 6⟩⟩, ⟨.symbol, ",", ⟨1, 7⟩⟩,
      ⟨.identifier, "a", ⟨1, 9⟩⟩, ⟨.unknown, "Σ", ⟨1, 10⟩⟩,
      ⟨.symbol, ":", ⟨1, 11⟩⟩, ⟨.keyword, "Integer", ⟨1, 13⟩⟩,
      ⟨.symbol, ";", ⟨1, 20⟩⟩, .mark ⟨1, 21⟩]
  have htable : tokenize s = .ok table := by decide +kernel
  have hreadable : Readable table := by
    unfold Readable
    decide +kernel
  have hs := check_of_readable htable hreadable (by decide +kernel)
  have halike : s.Alike t := by decide +kernel
  obtain ⟨fault, hfault, -⟩ | ⟨r, r', hr, hr', hreports⟩ := check_alike halike
  · rw [hs] at hfault
    cases hfault
  · rw [hs] at hr
    obtain rfl := Except.ok.inj hr
    exact ⟨halike, by decide, _, r', hs, hr', hreports,
      Report.mem_errors_ofFindings.2 (by decide +kernel),
      Report.mem_errors_ofFindings.2 (by decide +kernel),
      by decide +kernel⟩

end VarSection
