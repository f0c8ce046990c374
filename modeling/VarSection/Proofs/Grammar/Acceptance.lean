/-
Which texts are accepted: those whose lexemes are derived from the grammar
by a valid tree, and no others (`success_iff_derivable`).

From a tree to acceptance, the findings on a derived text are those that
its tree owes, and a valid tree owes none (`SectionTree.faults_eq_nil_iff`).
There is always room for its arrays, since none is inside another. In the
other direction an analysis that found nothing has read a tree
(`readSection_silent`); of that tree it found what it owes, so the tree is
valid. Validity thus enters both directions as the same statement, that the
list of findings owed is empty.
-/
import VarSection.Proofs.Analysis.OfText
import VarSection.Proofs.Grammar.Nesting
import VarSection.Proofs.Grammar.Silent

namespace VarSection

namespace Grammar

-- ==================================================== trees that owe nothing

/-- What the grammar leaves open and a text has to respect: no array has
arrays for its elements, bounds are in order, sizes of strings are
admitted, and no name is declared twice, in upper or lower case. -/
structure SectionTree.Valid (s : SectionTree) : Prop where
  flat : ∀ d ∈ s.declarations, d.type.IsFlat
  ordered : ∀ d ∈ s.declarations, ∀ r ∈ d.type.ranges, r.Ordered
  admitted : ∀ d ∈ s.declarations, ∀ n ∈ d.type.sizes, SizeAdmitted n
  distinct : (s.names.map Text.lower).Nodup

theorem RangeTree.faults_eq_nil_iff (r : RangeTree) :
    r.faults = [] ↔ r.Ordered := by
  unfold faults
  split
  next h => exact ⟨fun _ => h, fun _ => rfl⟩
  next h => exact ⟨fun hnil => absurd hnil (List.cons_ne_nil _ _),
    fun hordered => absurd hordered h⟩

theorem SimpleTree.faults_eq_nil_iff (s : SimpleTree) :
    s.faults = [] ↔ ∀ n ∈ s.sizes, SizeAdmitted n := by
  unfold faults
  rw [List.flatMap_eq_nil_iff]
  refine forall₂_congr fun n hn => ?_
  split
  next h => exact ⟨fun _ => h, fun _ => rfl⟩
  next h => exact ⟨fun hnil => absurd hnil (List.cons_ne_nil _ _),
    fun hadmitted => absurd hadmitted h⟩

namespace TypeTree

/-- Whether a type may stand where it stands: an array not inside another,
and its elements no arrays. -/
def Fits (nested : Bool) (ty : TypeTree) : Prop :=
  ty.IsFlat ∧ (nested = true → ∃ s, ty = .simple s)

theorem faults_eq_nil_iff (ty : TypeTree) (nested : Bool) :
    ty.faults nested = []
      ↔ ty.Fits nested ∧ (∀ r ∈ ty.ranges, r.Ordered)
        ∧ ∀ n ∈ ty.sizes, SizeAdmitted n := by
  induction ty generalizing nested with
  | simple s =>
    have hfits : Fits nested (.simple s) := ⟨trivial, fun _ => ⟨s, rfl⟩⟩
    rw [show faults nested (.simple s) = s.faults from rfl,
      SimpleTree.faults_eq_nil_iff]
    exact ⟨fun h => ⟨hfits, fun r hr => absurd hr List.not_mem_nil, h⟩,
      fun h => h.2.2⟩
  | array word left ranges right of element ih =>
    have hranges : ranges.items.flatMap RangeTree.faults = []
        ↔ ∀ r ∈ ranges.items, r.Ordered := by
      rw [List.flatMap_eq_nil_iff]
      exact forall₂_congr fun r _ => r.faults_eq_nil_iff
    have hflat : Fits false (.array word left ranges right of element)
        ↔ element.Fits true := by
      cases element with
      | simple s =>
        exact ⟨fun _ => ⟨trivial, fun _ => ⟨s, rfl⟩⟩,
          fun _ => ⟨trivial, fun hnested => absurd hnested Bool.false_ne_true⟩⟩
      | array =>
        refine ⟨fun hfits => hfits.1.elim, fun hfits => ?_⟩
        obtain ⟨s, hs⟩ := hfits.2 rfl
        cases hs
    cases nested with
    | false =>
      show _ ++ [] = [] ↔ _
      rw [List.append_nil, List.append_eq_nil_iff, hranges, ih true, hflat]
      rw [show TypeTree.ranges (.array word left ranges right of element)
          = ranges.items ++ element.ranges from rfl, List.forall_mem_append]
      exact ⟨fun h => ⟨h.2.1, ⟨h.1, h.2.2.1⟩, h.2.2.2⟩,
        fun h => ⟨h.2.1.1, h.1, h.2.1.2, h.2.2⟩⟩
    | true =>
      refine ⟨fun hnil => ?_, fun hfits => ?_⟩
      · exact absurd (List.append_eq_nil_iff.1 hnil).2 (List.cons_ne_nil _ _)
      · obtain ⟨s, hs⟩ := hfits.1.2 rfl
        cases hs

end TypeTree

/-- No finding is owed to a name that none of the symbols has. -/
theorem redeclaration?_eq_none_iff {seen : List (Symbol Position)}
    {s : Symbol Position} :
    redeclaration? seen s = none
      ↔ Text.lower s.name ∉ seen.map fun s => Text.lower s.name := by
  unfold redeclaration? firstNamed?
  rw [Option.map_eq_none_iff, List.find?_eq_none]
  simp only [beq_iff_eq, List.mem_map, not_exists, not_and]

/-- No findings are owed to names just when they are different from each
other, and none of them was seen before. -/
theorem redeclarations_eq_nil_iff_new (seen symbols : List (Symbol Position)) :
    redeclarations seen symbols = []
      ↔ (symbols.map fun s => Text.lower s.name).Nodup
        ∧ ∀ s ∈ symbols, redeclaration? seen s = none := by
  induction symbols generalizing seen with
  | nil => exact ⟨fun _ => ⟨.nil, fun s hs => absurd hs List.not_mem_nil⟩,
      fun _ => rfl⟩
  | cons s symbols ih =>
    have hlater : ∀ u : Symbol Position, redeclaration? (seen ++ [s]) u = none
        ↔ redeclaration? seen u = none
          ∧ Text.lower u.name ≠ Text.lower s.name := by
      intro u
      rw [redeclaration?_eq_none_iff, redeclaration?_eq_none_iff,
        List.map_append, List.mem_append, not_or, List.map_singleton,
        List.mem_singleton]
    have hhead : Text.lower s.name
          ∉ symbols.map (fun s => Text.lower s.name)
        ↔ ∀ u ∈ symbols, Text.lower u.name ≠ Text.lower s.name := by
      simp only [List.mem_map, not_exists, not_and]
    rw [redeclarations, List.append_eq_nil_iff, Option.toList_eq_nil_iff, ih,
      List.map_cons, List.nodup_cons, List.forall_mem_cons, hhead]
    simp only [hlater]
    exact ⟨fun h => ⟨⟨fun u hu => (h.2.2 u hu).2, h.2.1⟩, h.1,
        fun u hu => (h.2.2 u hu).1⟩,
      fun h => ⟨h.2.1, h.1.2, fun u hu => ⟨h.2.2 u hu, h.1.1 u hu⟩⟩⟩

/-- No findings are owed to names just when all are different, from each
other and from those seen before. -/
theorem redeclarations_eq_nil_iff (seen symbols : List (Symbol Position))
    (hseen : (seen.map fun s => Text.lower s.name).Nodup) :
    redeclarations seen symbols = []
      ↔ ((seen ++ symbols).map fun s => Text.lower s.name).Nodup := by
  rw [redeclarations_eq_nil_iff_new, List.map_append, List.nodup_append]
  simp only [redeclaration?_eq_none_iff]
  refine ⟨fun h => ⟨hseen, h.1, ?_⟩, fun h => ⟨h.2.1, ?_⟩⟩
  · intro name hname name' hname' heq
    obtain ⟨s, hs, rfl⟩ := List.mem_map.1 hname'
    exact h.2 s hs (heq ▸ hname)
  · intro s hs hmem
    exact h.2.2 _ hmem _ (List.mem_map_of_mem hs) rfl

/-- No findings are owed to declarations just when none are to their types
and none to their names. -/
theorem faultsFrom_eq_nil_iff (seen : List (Symbol Position))
    (ds : List DeclarationTree) :
    faultsFrom seen ds = []
      ↔ (∀ d ∈ ds, d.type.faults false = [])
        ∧ redeclarations seen (ds.flatMap DeclarationTree.symbols) = [] := by
  induction ds generalizing seen with
  | nil => exact ⟨fun _ => ⟨fun d hd => absurd hd List.not_mem_nil, rfl⟩,
      fun _ => rfl⟩
  | cons d ds ih =>
    rw [faultsFrom, List.append_eq_nil_iff, List.append_eq_nil_iff, ih,
      List.flatMap_cons, redeclarations_append, List.append_eq_nil_iff,
      List.forall_mem_cons]
    exact ⟨fun h => ⟨⟨h.1.1, h.2.1⟩, h.1.2, h.2.2⟩,
      fun h => ⟨⟨h.1.1, h.2.1⟩, h.1.2, h.2.2⟩⟩

/-- A tree owes nothing just when it is valid. -/
theorem SectionTree.faults_eq_nil_iff (s : SectionTree) :
    s.faults = [] ↔ s.Valid := by
  have hnames : ([] ++ s.declarations.flatMap DeclarationTree.symbols).map
        (fun s : Symbol Position => Text.lower s.name)
      = s.names.map Text.lower := by
    unfold SectionTree.names DeclarationTree.symbols
    simp [List.map_flatMap, Function.comp_def]
  have hfits : ∀ d : DeclarationTree,
      d.type.Fits false ↔ d.type.IsFlat := fun d =>
    ⟨fun h => h.1, fun h => ⟨h, fun hnested => by cases hnested⟩⟩
  unfold faults
  rw [faultsFrom_eq_nil_iff,
    redeclarations_eq_nil_iff [] _ List.nodup_nil, hnames]
  simp only [TypeTree.faults_eq_nil_iff, hfits]
  exact ⟨fun h => ⟨fun d hd => (h.1 d hd).1, fun d hd => (h.1 d hd).2.1,
      fun d hd => (h.1 d hd).2.2, h.2⟩,
    fun h => ⟨fun d hd => ⟨h.flat d hd, h.ordered d hd, h.admitted d hd⟩,
      h.distinct⟩⟩

end Grammar

open Grammar

-- ============================================================= whole texts

/-- The first mark of the end in a table is its last lexeme. -/
theorem eq_of_append_mark {tokens us rest : List Token} {q : Position}
    {last : Token} (hcut : ∀ t ∈ tokens, t.isEnding = false)
    (hlast : last.isEnding = true)
    (h : tokens ++ [.mark q] = us ++ last :: rest) : us = tokens := by
  rcases List.append_eq_append_iff.1 h with ⟨w, rfl, hw⟩ | ⟨w, rfl, hw⟩
  · cases w with
    | nil => exact List.append_nil _
    | cons t w => cases w <;> cases hw
  · cases w with
    | nil => exact (List.append_nil _).symm
    | cons t w =>
      rw [(List.cons.inj hw).1, hcut t (List.mem_append_right _
        List.mem_cons_self)] at hlast
      cases hlast

/-- Where an analysis of a text found nothing and noted no fault, the lexemes
of the text are derived from the grammar, and its numbers are short. -/
theorem exists_tree_of_quiet [NestingLimit] {text : Text}
    {tokens : List Token} {q : Position} (hscans : Scans .start text tokens q)
    (h : (Analysis.ofTable (tokens ++ [.mark q])).run.Quiet) :
    ∃ s : SectionTree, tokens = s.tokens ∧ Readable tokens := by
  have hintext : (Analysis.ofTable (tokens ++ [.mark q])).InText :=
    ⟨.ofTable (Token.mark_ends tokens q), hscans.lexed⟩
  rw [Analysis.run_ofTable] at h
  obtain ⟨s, last, rest, hlast, hreadable, hahead⟩ :=
    Analysis.readSection_silent hintext h.silent
  have htokens := eq_of_append_mark (fun t ht =>
    (hscans.wellCut t ht).notEnding) hlast hahead
  exact ⟨s, htokens.symm, htokens ▸ hreadable⟩

/-- Of a table that a tree derives nothing is found, and no fault is noted,
just when the tree is valid. -/
theorem quiet_iff_valid [NestingLimit] {text : Text} {q : Position}
    (s : SectionTree) (hscans : Scans .start text s.tokens q)
    (hreadable : Readable (s.tokens ++ [.mark q])) :
    (Analysis.ofTable (s.tokens ++ [.mark q])).run.Quiet ↔ s.Valid := by
  have hend : (Token.mark q).kind = .ending := rfl
  have hlegible : ∀ t ∈ s.tokens, t.Legible := fun t ht =>
    hscans.lexed.legible hreadable t (List.mem_append_left _ ht)
  have hsilent : s.HasRoom →
      ((Analysis.ofTable (s.tokens ++ [.mark q])).run.errors = []
        ↔ s.Valid) := by
    intro hroom
    rw [(Analysis.records_of_tree s hroom hend hlegible).errors]
    show s.faults.reverse ++ [] = [] ↔ _
    rw [List.append_nil, List.reverse_eq_nil_iff,
      SectionTree.faults_eq_nil_iff]
  constructor
  · intro hquiet
    exact (hsilent (hasRoom_of_unhalted s hlegible hquiet.halt?)).1
      hquiet.errors
  · intro hvalid
    have hroom : s.HasRoom := fun d hd => (hvalid.flat d hd).hasRoom
    exact ⟨(hsilent hroom).2 hvalid,
      (Analysis.records_of_tree s hroom hend hlegible).halt?⟩

/-- A check of a text with a table finds nothing just when its analysis is
quiet. -/
theorem success_iff_quiet [NestingLimit] {text : Text} {tokens : List Token}
    {q : Position} (hscans : Scans .start text tokens q) :
    (∃ report, check text = .ok report ∧ report.success = true)
      ↔ (Analysis.ofTable (tokens ++ [.mark q])).run.Quiet := by
  cases hnote : (Analysis.ofTable (tokens ++ [.mark q])).run.halt? with
  | none =>
    have hcheck := check_of_unhalted hscans hnote
    constructor
    · rintro ⟨report, hreport, hsuccess⟩
      rw [← Except.ok.inj (hcheck.symm.trans hreport),
        Report.success_ofFindings, List.isEmpty_iff, Analysis.findings,
        List.reverse_eq_nil_iff] at hsuccess
      exact ⟨hsuccess, hnote⟩
    · intro hquiet
      refine ⟨_, hcheck, ?_⟩
      rw [Report.success_ofFindings, List.isEmpty_iff, Analysis.findings,
        List.reverse_eq_nil_iff]
      exact hquiet.errors
  | some note =>
    constructor
    · rintro ⟨report, hreport, -⟩
      rw [check_of_halted hscans hnote] at hreport
      cases hreport
    · intro hquiet
      rw [hquiet.halt?] at hnote
      cases hnote

/-- In a text with short runs of digits a check finds nothing just when the
lexemes of the text are derived from the grammar by a valid tree. Where it
has no report at all, arrays are nested too deep. -/
theorem success_iff_derivable [NestingLimit] {text : Text}
    (hruns : text.DigitRunsAtMost integerDigitsMax) :
    ((∃ report, check text = .ok report ∧ report.success = true)
        ↔ ∃ (s : SectionTree) (last : Token),
          tokenize text = .ok (s.tokens ++ [last]) ∧ s.Valid)
      ∧ ∀ fault, check text = .error fault → fault = .nestedTooDeep := by
  by_cases hscans : ∃ tokens q, Scans .start text tokens q
  · obtain ⟨tokens, q, hscans⟩ := hscans
    have hreadable := hscans.readable hruns
    have htable : tokenize text = .ok (tokens ++ [.mark q]) :=
      tokenize_eq_ok_iff.2 ⟨tokens, q, hscans, rfl⟩
    refine ⟨?_, fun fault hfault =>
      (fault_of_check htable hreadable hfault).1⟩
    rw [success_iff_quiet hscans]
    constructor
    · intro hquiet
      obtain ⟨s, rfl, -⟩ := exists_tree_of_quiet hscans hquiet
      exact ⟨s, .mark q, htable,
        (quiet_iff_valid s hscans hreadable).1 hquiet⟩
    · rintro ⟨s, last, hderived, hvalid⟩
      have heq := Except.ok.inj (htable.symm.trans hderived)
      obtain ⟨rfl, -⟩ := List.append_inj' heq rfl
      exact (quiet_iff_valid s hscans hreadable).2 hvalid
  · obtain ⟨report, hcheck, hfailed⟩ := check_of_not_scans hscans
    refine ⟨⟨fun ⟨report', hcheck', hsuccess⟩ => ?_, fun hderived => ?_⟩,
      fun fault hfault => ?_⟩
    · rw [← Except.ok.inj (hcheck.symm.trans hcheck'), hfailed] at hsuccess
      cases hsuccess
    · obtain ⟨s, last, htable, -⟩ := hderived
      obtain ⟨tokens, q, htokens, -⟩ := tokenize_eq_ok_iff.1 htable
      exact absurd ⟨tokens, q, htokens⟩ hscans
    · rw [hcheck] at hfault
      cases hfault

/-- The tree of
`var a: array[-1..1] of string[255]; (* b *) var B: char;`. -/
def twoBlocksTree : SectionTree :=
  ⟨[⟨varAt ⟨1, 1⟩,
      [⟨⟨nameAt "a" ⟨1, 5⟩, []⟩, symbolAt ":" ⟨1, 6⟩,
        .array (arrayAt ⟨1, 8⟩) (symbolAt "[" ⟨1, 13⟩)
          ⟨⟨integerAt "-1" ⟨1, 14⟩, symbolAt ".." ⟨1, 16⟩,
            integerAt "1" ⟨1, 18⟩⟩, []⟩
          (symbolAt "]" ⟨1, 19⟩) (ofAt ⟨1, 21⟩)
          (.simple (.sized (stringAt ⟨1, 24⟩)
            (symbolAt "[" ⟨1, 30⟩) (integerAt "255" ⟨1, 31⟩)
            (symbolAt "]" ⟨1, 34⟩))),
        symbolAt ";" ⟨1, 35⟩⟩]⟩,
    ⟨varAt ⟨1, 45⟩,
      [⟨⟨nameAt "B" ⟨1, 49⟩, []⟩, symbolAt ":" ⟨1, 50⟩,
        .simple (.scalar (scalarAt "char" ⟨1, 52⟩ rfl)),
        symbolAt ";" ⟨1, 56⟩⟩]⟩]⟩

open scoped UsualNesting

/-- Two blocks with a comment between them are accepted. -/
theorem success_of_twoBlocksTree :
    let text : Text :=
      "var a: array[-1..1] of string[255]; (* b *) var B: char;"
    text.DigitRunsAtMost integerDigitsMax
      ∧ tokenize text = .ok (twoBlocksTree.tokens ++ [.mark ⟨1, 57⟩])
      ∧ twoBlocksTree.Valid
      ∧ ∃ report, check text = .ok report ∧ report.success = true := by
  intro text
  have hruns : text.DigitRunsAtMost integerDigitsMax := fun run hrun _ =>
    Nat.le_trans hrun.length_le (by decide +kernel)
  have htable : tokenize text
      = .ok (twoBlocksTree.tokens ++ [.mark ⟨1, 57⟩]) := by decide +kernel
  have hvalid : twoBlocksTree.Valid :=
    twoBlocksTree.faults_eq_nil_iff.1 (by decide +kernel)
  exact ⟨hruns, htable, hvalid, (success_iff_derivable hruns).1.2
    ⟨twoBlocksTree, _, htable, hvalid⟩⟩

end VarSection
