/-
Rendering declarations and checking them again. What is written of
declarations is read as trees that stand for them (`Written`), and that the
trees are read without a finding is a matter of their meaning alone: a type
tree is at fault just when the type it stands for cannot be declared
(`TypeTree.declarable_iff`). So declarations that can stand in one section are
accepted however they are joined (`reproduced_of_declarable`).

In the other direction what an accepted text declares can stand in one
section (`declarable_of_success`). That its numbers are short is no
assumption there: a check that gives a report has read all of them.
-/
import VarSection.Proofs.Grammar.Acceptance
import VarSection.Proofs.Grammar.Written

namespace VarSection

open Grammar

-- ================================================== trees and their meaning

namespace Grammar

/-- A short integer has a magnitude that can be written. -/
theorem natAbs_lt_of_readable {n : IntegerLeaf} {tokens : List Token}
    (h : Readable tokens) (hn : n.val ∈ tokens) :
    n.value.natAbs < 10 ^ integerDigitsMax := by
  apply Nat.lt_of_lt_of_le (Numeral.natAbs_value_lt n.val.text)
  exact Nat.pow_le_pow_right (by decide) (h n.val hn n.2)

theorem RangeTree.declarable_iff {r : RangeTree} (h : Readable r.tokens) :
    r.value.Declarable ↔ r.Ordered := by
  constructor
  · intro hr
    exact hr.ordered
  · intro hordered
    refine ⟨hordered, ?_, ?_⟩
    · exact natAbs_lt_of_readable h (by simp [tokens])
    · exact natAbs_lt_of_readable h (by simp [tokens])

theorem SimpleTree.simple_iff (s : SimpleTree) :
    s.type.Simple ↔ ∀ n ∈ s.sizes, SizeAdmitted n := by
  cases s with
  | scalar word =>
    constructor
    · intro _ n hn
      cases hn
    · intro _
      exact word.2.2
  | string word =>
    constructor
    · intro _ n hn
      cases hn
    · intro _
      trivial
  | sized word left size right =>
    constructor
    · intro hsize n hn
      rw [List.mem_singleton.1 hn]
      exact hsize
    · intro hsizes
      exact hsizes size (List.mem_singleton_self size)

/-- A type is at fault just when it stands for one that cannot be
declared. -/
theorem TypeTree.declarable_iff {ty : TypeTree} (h : Readable ty.tokens) :
    ty.type.Declarable
      ↔ ty.IsFlat ∧ (∀ r ∈ ty.ranges, r.Ordered)
        ∧ ∀ n ∈ ty.sizes, SizeAdmitted n := by
  cases ty with
  | simple s =>
    have hsimple : VarType.Declarable s.type ↔ s.type.Simple := by
      cases s <;> exact Iff.rfl
    show VarType.Declarable s.type ↔ True ∧ (∀ r ∈ [], _) ∧ _
    rw [hsimple, s.simple_iff]
    simp [sizes]
  | array word left items right of element =>
    have hranges : (∀ r ∈ items.items.map RangeTree.value, r.Declarable)
        ↔ ∀ r ∈ items.items, r.Ordered := by
      rw [List.forall_mem_map]
      refine forall₂_congr fun r hr => RangeTree.declarable_iff ?_
      intro t ht
      apply h
      simp [tokens, CommaList.mem_tokens hr ht]
    have hne : items.items.map RangeTree.value ≠ [] := by
      simp [CommaList.items]
    cases element with
    | simple s =>
      show _ ≠ [] ∧ _ ∧ s.type.Simple
        ↔ True ∧ (∀ r ∈ items.items ++ [], _) ∧ ∀ n ∈ s.sizes, _
      rw [hranges, s.simple_iff, List.append_nil]
      simp [hne]
    | array =>
      show _ ≠ [] ∧ _ ∧ VarType.Simple .unknown ↔ False ∧ _
      simp [VarType.Simple]

theorem SectionTree.mem_tokens {s : SectionTree} {d : DeclarationTree}
    {t : Token} (hd : d ∈ s.declarations) (ht : t ∈ d.tokens) :
    t ∈ s.tokens := by
  obtain ⟨b, hb, hd⟩ := List.mem_flatMap.1 hd
  apply List.mem_flatMap.2
  refine ⟨b, hb, List.mem_cons_of_mem _ ?_⟩
  exact List.mem_flatMap.2 ⟨d, hd, ht⟩

/-- A section is valid just when it stands for types that can be declared, of
different names. -/
theorem SectionTree.valid_iff {s : SectionTree} (h : Readable s.tokens) :
    s.Valid ↔ (∀ d ∈ s.declarations, d.type.type.Declarable)
      ∧ (s.names.map Text.lower).Nodup := by
  have htypes : ∀ d ∈ s.declarations, d.type.type.Declarable
      ↔ d.type.IsFlat ∧ (∀ r ∈ d.type.ranges, r.Ordered)
        ∧ ∀ n ∈ d.type.sizes, SizeAdmitted n := by
    intro d hd
    apply TypeTree.declarable_iff
    intro t ht
    apply h t
    apply mem_tokens hd
    simp [DeclarationTree.tokens, ht]
  constructor
  · intro hvalid
    refine ⟨?_, hvalid.distinct⟩
    intro d hd
    exact (htypes d hd).2 ⟨hvalid.flat d hd, hvalid.ordered d hd,
      hvalid.admitted d hd⟩
  · rintro ⟨hdeclarable, hdistinct⟩
    refine ⟨?_, ?_, ?_, hdistinct⟩
    · intro d hd
      exact ((htypes d hd).1 (hdeclarable d hd)).1
    · intro d hd
      exact ((htypes d hd).1 (hdeclarable d hd)).2.1
    · intro d hd
      exact ((htypes d hd).1 (hdeclarable d hd)).2.2

theorem SectionTree.names_eq (s : SectionTree) :
    s.names
      = (s.declarations.map (·.declaration.content)).flatMap (·.1) := by
  unfold names
  rw [List.flatMap_map]
  rfl

/-- The names in a table made from a text can be declared. -/
theorem isName_of_wellCut {n : NameLeaf} (h : n.val.WellCut) :
    n.val.text.IsName := by
  have hvalid := h.name n.2
  unfold isValidName at hvalid
  rw [Bool.and_eq_true, Bool.not_eq_true'] at hvalid
  obtain ⟨hstart, hchars⟩ :=
    Analysis.nameChars_of_isName h.oneLine hvalid.1
  exact ⟨⟨hstart, hchars⟩, hvalid.2⟩

end Grammar

-- ============================================================= whole texts

/-- What the analysis of a table records that a valid tree derives. -/
theorem declared_of_tree [NestingLimit] {text : Text} {s : SectionTree}
    {q : Position} (hscans : Scans .start text s.tokens q)
    (hreadable : Readable (s.tokens ++ [.mark q])) (hvalid : s.Valid) :
    (Analysis.ofTable (s.tokens ++ [.mark q])).run.declared
      = s.declarations.map DeclarationTree.declaration := by
  have hend : (Token.mark q).kind = .ending := rfl
  have hroom : s.HasRoom := fun d hd => (hvalid.flat d hd).hasRoom
  have hrecords := Analysis.records_of_tree s hroom hend fun t ht =>
    hscans.lexed.legible hreadable t (List.mem_append_left _ ht)
  unfold Analysis.declared
  rw [hrecords.declarations, List.reverse_append, List.reverse_reverse]
  rfl

/-- Whether declarations, rendered in any way behind the word for a section,
are accepted and declared again with the same names and types, in the same
order. -/
def Reproduced [NestingLimit] (ds : List Declaration) : Prop :=
  ∀ w, Rendered ds w →
    ∃ report, check ("var " ++ w) = .ok report ∧ report.success = true
      ∧ report.declarations.map Declaration.content
        = ds.map Declaration.content

theorem reproduced_of_declarable [NestingLimit] {ds : List Declaration}
    (h : Declarable ds) : Reproduced ds := by
  intro w hw
  obtain ⟨s, q, hcontents, hscans, hshort⟩ :=
    exists_section_of_rendered hw h.each
  have hreadable := hshort.append (readable_mark q)
  have hvalid : s.Valid := by
    apply (SectionTree.valid_iff hshort).2
    constructor
    · intro d hd
      have hmem : d.declaration.content ∈ ds.map Declaration.content := by
        rw [← hcontents]
        exact List.mem_map_of_mem hd
      obtain ⟨d', hd', hsame⟩ := List.mem_map.1 hmem
      have htype : d'.type = d.type.type := congrArg Prod.snd hsame
      rw [← htype]
      exact (h.each d' hd').type
    · have hdistinct := h.distinct
      rw [s.names_eq, hcontents, List.flatMap_map]
      exact hdistinct
  obtain ⟨report, hcheck, hsuccess⟩ := (success_iff_quiet hscans).2
    ((quiet_iff_valid s hscans hreadable).2 hvalid)
  refine ⟨report, hcheck, hsuccess, ?_⟩
  · rw [report_of_scans hscans hcheck]
    show List.map _ (Analysis.ofTable _).run.declared = _
    rw [declared_of_tree hscans hreadable hvalid, List.map_map]
    exact hcontents

/-- What an accepted text declares can stand in one section. -/
theorem declarable_of_success [NestingLimit] {text : Text} {report : Report}
    (h : check text = .ok report) (hsuccess : report.success = true) :
    Declarable report.declarations := by
  by_cases hscans : ∃ tokens q, Scans .start text tokens q
  · obtain ⟨tokens, q, hscans⟩ := hscans
    have hquiet := (success_iff_quiet hscans).1 ⟨report, h, hsuccess⟩
    obtain ⟨s, rfl, hshort⟩ := exists_tree_of_quiet hscans hquiet
    have hreadable := hshort.append (readable_mark q)
    have hvalid := (quiet_iff_valid s hscans hreadable).1 hquiet
    obtain ⟨htypes, hdistinct⟩ := (SectionTree.valid_iff hshort).1 hvalid
    rw [report_of_scans hscans h]
    show Declarable (Analysis.ofTable _).run.declared
    rw [declared_of_tree hscans hreadable hvalid]
    refine ⟨?_, ?_⟩
    · intro d hd
      obtain ⟨tree, htree, rfl⟩ := List.mem_map.1 hd
      refine ⟨List.cons_ne_nil _ _, ?_, htypes tree htree⟩
      intro n hn
      obtain ⟨leaf, hleaf, rfl⟩ := List.mem_map.1 hn
      apply isName_of_wellCut
      apply hscans.wellCut
      apply SectionTree.mem_tokens htree
      exact List.mem_append_left _
        (CommaList.mem_tokens hleaf (List.mem_singleton_self _))
    · rw [s.names_eq, List.flatMap_map] at hdistinct
      rw [List.flatMap_map]
      exact hdistinct
  · obtain ⟨report', hcheck, hfailed⟩ := check_of_not_scans hscans
    rw [hcheck] at h
    cases h
    rw [hfailed] at hsuccess
    cases hsuccess

/-- Rendering declarations and checking them again is the identity: on those
that can stand in one section, and so on what any accepted text declares. -/
theorem check_reproduces [NestingLimit] :
    (∀ ds, Declarable ds → Reproduced ds)
      ∧ ∀ text report, check text = .ok report → report.success = true →
        Reproduced report.declarations := by
  constructor
  · intro ds h
    exact reproduced_of_declarable h
  · intro text report h hsuccess
    apply reproduced_of_declarable
    exact declarable_of_success h hsuccess

open scoped UsualNesting

/-- Negative bounds, a word with an underscore, a size, both separators; and
an accepted text with leading zeros, a negative zero, a comment and two
sections. -/
theorem check_reproduces_twoTexts :
    let ds : List Declaration :=
      [⟨[⟨"a", .start⟩, ⟨"_B9", .start⟩],
          .array [⟨-10, 6⟩, ⟨6, 9⟩] (.string (some 255)), .start⟩,
        ⟨[⟨"of_", .start⟩], .scalar "char", .start⟩,
        ⟨[⟨"c", .start⟩], .string none, .start⟩]
    let w : Text := "a, _B9: array[-10..6, 6..9] of string[255]; of_: char;\n"
      ++ "c: string;"
    let text : Text := "VAR X(*x*),y : Array [-00..007] OF Real; var Z:CHAR;"
    Declarable ds ∧ Rendered ds w
      ∧ (∃ report, check ("var " ++ w) = .ok report ∧ report.success = true
        ∧ report.declarations.map Declaration.content
          = ds.map Declaration.content)
      ∧ ∃ report, check text = .ok report ∧ report.success = true
        ∧ Rendered report.declarations
          "X, y: array[0..7] of real;\nZ: char;"
        ∧ Reproduced report.declarations := by
  intro ds w text
  have hds : Declarable ds := by decide +kernel
  have hrendered : Rendered ds w := by
    have hw : w = ds[0].written ++ .char ' ' :: (ds[1].written
        ++ .char '\n' :: ds[2].written) := by decide +kernel
    rw [hw]
    exact .more (by decide) (.inl rfl)
      (.more (by decide) (.inr rfl) (.last _))
  let found : List Declaration :=
    [⟨[⟨"X", ⟨1, 5⟩⟩, ⟨"y", ⟨1, 12⟩⟩], .array [⟨0, 7⟩] (.scalar "real"),
        ⟨1, 5⟩⟩,
      ⟨[⟨"Z", ⟨1, 46⟩⟩], .scalar "char", ⟨1, 46⟩⟩]
  have hcheck : (check text).toOption.map
      (fun report => (report.success, report.declarations))
        = some (true, found) := by decide +kernel
  obtain ⟨report, hreport, hfound⟩ := Option.map_eq_some_iff.1 hcheck
  have htext : check text = .ok report := by
    cases hresult : check text with
    | error fault =>
      rw [hresult] at hreport
      cases hreport
    | ok report' =>
      rw [hresult] at hreport
      rw [Option.some.inj hreport]
  obtain ⟨hsuccess, hdeclared⟩ := Prod.mk.inj hfound
  have hrendered' : Rendered report.declarations
      "X, y: array[0..7] of real;\nZ: char;" := by
    have hw : ("X, y: array[0..7] of real;\nZ: char;" : Text)
        = found[0].written ++ .char '\n' :: found[1].written := by
      decide +kernel
    rw [hdeclared, hw]
    exact .more (by decide) (.inr rfl) (.last _)
  exact ⟨hds, hrendered, check_reproduces.1 ds hds w hrendered, report, htext,
    hsuccess, hrendered', check_reproduces.2 text report htext hsuccess⟩

end VarSection
