/-
Derived texts with arrays inside arrays. There is room for so many of them
and no more. Where there is room, all is read as written. Otherwise a fault
is noted at the first array that there is no room for, whatever stands around
it, and a fault that is noted stays (`Steps.unhalted`). So of a derived text
either everything is found that its tree owes, or the text has no report at
all (`findings_of_derivation`).
-/
import VarSection.Proofs.Grammar.Diagnosis
import VarSection.Proofs.Grammar.Written

namespace VarSection

open Grammar

namespace Analysis

variable [NestingLimit] {a : Analysis} {u : Token} {rest : List Token}
  {seen : List (Symbol Position)}

/-- Entering an array that there is no room for notes a fault. -/
theorem halt?_descend_of_lt {depth : Nat} (h : nestingMax < depth)
    (a : Analysis) : (a.descend depth).halt? ≠ none := by
  unfold descend halt
  rw [if_pos h]
  cases hnote : a.halt? with
  | none => exact Option.some_ne_none _
  | some note =>
    rw [hnote]
    exact Option.some_ne_none _

/-- A written type that there is no room for is not read without a fault. -/
theorem halt?_readType_of_tree (ty : TypeTree) {depth : Nat}
    (hfull : nestingMax + 1 < depth + ty.arrays)
    (hdepth : depth ≤ nestingMax + 1) (ha : a.Inside)
    (hwords : depth ≤ arrayWords a.cursor.behind)
    (h : a.cursor.ahead = ty.tokens ++ u :: rest)
    (hlegible : ∀ t ∈ ty.tokens, t.Legible) :
    (a.readType depth).2.halt? ≠ none := by
  induction ty generalizing a depth with
  | simple s => exact absurd hdepth (Nat.not_le.2 hfull)
  | array word left ranges right of element ih =>
    have hfull' : nestingMax + 1 < depth + (element.arrays + 1) := hfull
    have h₀ : a.cursor.ahead = word.val :: left.val ::
        (ranges.tokens RangeTree.tokens
          ++ right.val :: (of.val :: (element.tokens ++ u :: rest))) := by
      rw [h]
      simp [TypeTree.tokens]
    have harray : a.unreadKeyword "array" = true := by
      rw [unreadKeyword_of_ahead h₀, word.2]
    rcases Nat.lt_or_ge nestingMax depth with hlimit | hlimit
    · exact fun hnone => halt?_descend_of_lt hlimit a
        ((steps_readType_of_descend ha harray hwords).unhalted hnone)
    · obtain ⟨hsteps, hpassed⟩ := steps_enterArray ha harray hwords
      rw [descend_of_le hlimit] at hsteps hpassed
      have hinside := hsteps.inside ha
      obtain ⟨-, hpass⟩ := readArrayRanges_of_tree h₀ fun t ht =>
        hlegible t (by simp [TypeTree.tokens, ht])
      have hof : a.readArrayRanges.2.cursor.ahead
          = of.val :: (element.tokens ++ u :: rest) :=
        hpass.ahead_eq (by rw [h₀]; simp)
      have hdeeper : depth + 1 ≤ nestingMax + 1 := Nat.succ_le_succ hlimit
      have helement := ih (by omega) hdeeper ((steps_next _).inside hinside)
        (Nat.le_trans hpassed ((steps_next _).arrayWords_le hinside))
        ((passes_keyword hof).ahead_eq hof) fun t ht =>
          hlegible t (by simp [TypeTree.tokens, ht])
      have helements : (a.readArrayRanges.2.readElements depth
            a.readArrayRanges.1).2
          = (a.readArrayRanges.2.next.readType (depth + 1)).2 := by
        rw [readElements_of_of _ _ (by rw [atKeyword_of_ahead hof, of.2])]
      rcases Nat.eq_zero_or_pos depth with rfl | hnested
      · rw [readType_of_array harray, descend_of_le hlimit, helements]
        exact helement
      · rw [readType_of_nested hnested harray, descend_of_le hlimit,
          helements]
        exact helement

/-- Nor is a declaration of such a type. -/
theorem halt?_readDeclaration_of_tree (d : DeclarationTree)
    (hfull : ¬ d.type.HasRoom) (ha : a.Inside)
    (h : a.cursor.ahead = d.tokens ++ u :: rest)
    (hlegible : ∀ t ∈ d.tokens, t.Legible) :
    a.readDeclaration.halt? ≠ none := by
  obtain ⟨names, colon, ty, semicolon⟩ := d
  have hfull' : nestingMax + 1 < 0 + ty.arrays := by
    rw [Nat.zero_add]
    exact Nat.not_le.1 hfull
  have hahead : a.unmarked.cursor.ahead = names.tokens (fun n => [n.val])
      ++ colon.val :: (ty.tokens ++ semicolon.val :: u :: rest) := by
    show a.cursor.ahead = _
    rw [h]
    simp [DeclarationTree.tokens]
  obtain ⟨-, hnames⟩ := readNames_of_colon hahead fun n hn =>
    hlegible n.val (List.mem_append_left _
      (CommaList.mem_tokens hn List.mem_cons_self))
  have h₁ := hnames.ahead_eq hahead
  have hnamed := (steps_unmarked ha).inside ha
  have hcolon := passes_symbol h₁
  have htype := halt?_readType_of_tree ty hfull' (Nat.zero_le _)
    (hcolon.inside hnamed) (Nat.zero_le _) (hcolon.ahead_tail h₁)
    fun t ht => hlegible t (List.mem_append_right _
      (List.mem_cons_of_mem _ (List.mem_append_left _ ht)))
  have hpart : a.unmarked.readNames.2.readTypePart
      = a.unmarked.readNames.2.next.readType 0 := by
    unfold readTypePart
    simp only
    rw [reportUnknown_of_head h₁
        (by rw [Token.kind_of_isSymbol colon.2]; decide),
      if_pos (by rw [atSymbol_of_ahead h₁, colon.2])]
  have hname : a.current.isEnding = false := by
    have hfirst : a.cursor.ahead = names.first.val :: _ := h
    rw [current_of_ahead hfirst]
    exact Token.isEnding_eq_false_of_kind
      (by rw [names.first.2]; decide)
  intro hnone
  have hparts := (steps_declareParts ha hname).unhalted hnone
  have hread := (steps_enterParts ha hname).unhalted hparts
  rw [hpart] at hread
  exact htype hread

end Analysis

/-- Of a list with an item that fails there is a first one that does. -/
theorem exists_first_not {α : Type} {p : α → Prop} {l : List α}
    (h : ¬ ∀ x ∈ l, p x) :
    ∃ before x after, l = before ++ x :: after ∧ ¬ p x
      ∧ ∀ y ∈ before, p y := by
  induction l with
  | nil => exact absurd (fun x hx => absurd hx List.not_mem_nil) h
  | cons x l ih =>
    by_cases hx : p x
    · obtain ⟨before, y, after, rfl, hy, hbefore⟩ :=
        ih fun hall => h (List.forall_mem_cons.2 ⟨hx, hall⟩)
      exact ⟨x :: before, y, after, rfl, hy,
        List.forall_mem_cons.2 ⟨hx, hbefore⟩⟩
    · exact ⟨[], x, l, rfl, hx, fun y hy => absurd hy List.not_mem_nil⟩

namespace Analysis

variable [NestingLimit] {a : Analysis} {u : Token} {rest : List Token}
  {seen : List (Symbol Position)}

/-- Nor is a block with such a declaration. -/
theorem halt?_readBlock_of_tree (ds : List DeclarationTree)
    (hfull : ¬ ∀ d ∈ ds, d.type.HasRoom) (ha : a.Inside)
    (h : a.cursor.ahead = ds.flatMap DeclarationTree.tokens ++ u :: rest)
    (hlegible : ∀ d ∈ ds, ∀ t ∈ d.tokens, t.Legible)
    (hseen : a.symbols.Holds seen) : a.readBlock.halt? ≠ none := by
  obtain ⟨before, d, after, rfl, hd, hbefore⟩ := exists_first_not hfull
  have hmem : d ∈ before ++ d :: after :=
    List.mem_append_right _ List.mem_cons_self
  obtain ⟨v, rest', hrest'⟩ : ∃ v rest',
      after.flatMap DeclarationTree.tokens ++ u :: rest = v :: rest' := by
    cases after with
    | nil => exact ⟨u, rest, rfl⟩
    | cons d' after => exact ⟨d'.names.first.val, _, rfl⟩
  have h₀ : a.cursor.ahead = before.flatMap DeclarationTree.tokens
      ++ (d.tokens ++ v :: rest') := by
    rw [h, List.flatMap_append, List.flatMap_cons, List.append_assoc,
      List.append_assoc, hrest']
  obtain ⟨c, hahead, -, hread, hinside⟩ := readBlock_of_front before hbefore
    (u := d.names.first.val) h₀ (by rw [d.names.first.2]; decide)
    (fun d' hd' => hlegible d' (List.mem_append_left _ hd')) hseen
  have hc := hinside ha
  have hname : c.unreadName = true := by
    rw [unreadName_of_ahead (t := d.names.first.val) hahead, d.names.first.2]
    rfl
  rw [hread, readBlock, dif_pos hname]
  intro hnone
  have hdone := (steps_readDeclaration hc
    (isEnding_of_unreadName hname)).inside hc
  exact halt?_readDeclaration_of_tree d hd hc hahead (hlegible d hmem)
    ((steps_readBlock hdone).unhalted hnone)

/-- Nor is a section with such a block. -/
theorem halt?_readSection_of_tree (blocks : List BlockTree) {last : Token}
    (hfull : ¬ ∀ block ∈ blocks, ∀ d ∈ block.declarations, d.type.HasRoom)
    (ha : a.Inside)
    (h : a.cursor.ahead = blocks.flatMap BlockTree.tokens ++ last :: rest)
    (hlegible : ∀ t ∈ blocks.flatMap BlockTree.tokens, t.Legible)
    (hseen : a.symbols.Holds seen) : a.readSection.halt? ≠ none := by
  obtain ⟨before, block, after, rfl, hblock, hbefore⟩ :=
    exists_first_not hfull
  obtain ⟨word, ds⟩ := block
  have hmem : ∀ t ∈ BlockTree.tokens ⟨word, ds⟩, t.Legible := fun t ht =>
    hlegible t (List.mem_flatMap.2
      ⟨⟨word, ds⟩, List.mem_append_right _ List.mem_cons_self, ht⟩)
  obtain ⟨v, rest', hrest'⟩ : ∃ v rest',
      after.flatMap BlockTree.tokens ++ last :: rest = v :: rest' := by
    cases after with
    | nil => exact ⟨last, rest, rfl⟩
    | cons block after => exact ⟨block.word.val, _, rfl⟩
  have h₀ : a.cursor.ahead = before.flatMap BlockTree.tokens
      ++ word.val :: (ds.flatMap DeclarationTree.tokens ++ v :: rest') := by
    rw [h, List.flatMap_append, List.flatMap_cons, List.append_assoc,
      List.append_assoc, hrest']
    rfl
  obtain ⟨c, hahead, hrecords, hread, hinside⟩ :=
    readSection_of_front before hbefore h₀
      (.inl (Token.kind_of_isKeyword word.2))
      (fun t ht => hlegible t (by
        rw [List.flatMap_append]; exact List.mem_append_left _ ht)) hseen
  have hword := passes_keyword hahead
  have hc := hword.inside (hinside ha)
  rw [hread, readSection_of_var hahead word.2]
  intro hnone
  refine halt?_readBlock_of_tree ds hblock hc (hword.ahead_tail hahead)
    (fun d hd t ht => hmem t (List.mem_cons_of_mem _
      (List.mem_flatMap.2 ⟨d, hd, ht⟩)))
    (by rw [hword.symbols]; exact hrecords.symbols) ?_
  have hblock := (steps_readBlock hc).inside hc
  exact (steps_readSection hblock).unhalted hnone

end Analysis

-- ============================================================= whole texts

/-- A derived table that is analysed without a fault leaves room for its
arrays. -/
theorem hasRoom_of_unhalted [NestingLimit] (s : SectionTree) {q : Position}
    (hlegible : ∀ t ∈ s.tokens, t.Legible)
    (h : (Analysis.ofTable (s.tokens ++ [.mark q])).run.halt? = none) :
    s.HasRoom := by
  by_contra hfull
  have hahead : (Analysis.ofTable (s.tokens ++ [.mark q])).cursor.ahead
      = s.blocks.flatMap BlockTree.tokens ++ Token.mark q :: [] := rfl
  refine Analysis.halt?_readSection_of_tree s.blocks
    (fun hroom => hfull fun d hd => ?_) (inside_ofMark s.tokens q) hahead
    hlegible SymbolTable.holds_empty h
  obtain ⟨block, hblock, hd⟩ := List.mem_flatMap.1 hd
  exact hroom block hblock d hd

/-- A derived text without room for its arrays has no report. -/
theorem check_of_fullTree [NestingLimit] {text : Text} (s : SectionTree)
    {last : Token} (htable : tokenize text = .ok (s.tokens ++ [last]))
    (hreadable : Readable s.tokens) (hfull : ¬ s.HasRoom) :
    check text = .error .nestedTooDeep := by
  obtain ⟨⟨q, rfl, hscans⟩, hlegible⟩ :=
    legible_of_tokenize htable hreadable
  obtain ⟨note, hnote⟩ := Option.ne_none_iff_exists'.1
    (mt (hasRoom_of_unhalted s hlegible) hfull)
  have hfault := check_of_halted hscans hnote
  rw [hfault, (fault_of_check htable
    (hreadable.append (readable_mark q)) hfault).1]

/-- In a text whose lexemes are derived from the grammar exactly the
findings that its tree owes are made, in the order of the tree, and each
declaration is recorded as written, if there is room for its arrays. If there
is not, the text has no report: the fault is noted that its arrays are nested
too deep. -/
theorem findings_of_derivation [NestingLimit] {text : Text} (s : SectionTree)
    {last : Token} (htable : tokenize text = .ok (s.tokens ++ [last]))
    (hreadable : Readable s.tokens) :
    let a := (Analysis.ofTable (s.tokens ++ [last])).run
    (s.HasRoom →
      a.halt? = none
        ∧ a.findings = s.faults
        ∧ a.declared = s.declarations.map DeclarationTree.declaration
        ∧ check text = .ok (.ofFindings s.faults a.symbols
            (s.declarations.map DeclarationTree.declaration)))
      ∧ (¬ s.HasRoom → check text = .error .nestedTooDeep) :=
  ⟨findings_of_tree s htable hreadable,
    check_of_fullTree s htable hreadable⟩

/-- The tree of `var a, A: array[2..1] of array[1..2] of string[0];`. -/
def faultyTree : SectionTree :=
  ⟨[⟨varAt ⟨1, 1⟩,
    [⟨⟨nameAt "a" ⟨1, 5⟩, [(symbolAt "," ⟨1, 6⟩, nameAt "A" ⟨1, 8⟩)]⟩,
      symbolAt ":" ⟨1, 9⟩,
      .array (arrayAt ⟨1, 11⟩) (symbolAt "[" ⟨1, 16⟩)
        ⟨⟨integerAt "2" ⟨1, 17⟩, symbolAt ".." ⟨1, 18⟩,
          integerAt "1" ⟨1, 20⟩⟩, []⟩
        (symbolAt "]" ⟨1, 21⟩) (ofAt ⟨1, 23⟩)
        (.array (arrayAt ⟨1, 26⟩) (symbolAt "[" ⟨1, 31⟩)
          ⟨⟨integerAt "1" ⟨1, 32⟩, symbolAt ".." ⟨1, 33⟩,
            integerAt "2" ⟨1, 35⟩⟩, []⟩
          (symbolAt "]" ⟨1, 36⟩) (ofAt ⟨1, 38⟩)
          (.simple (.sized (stringAt ⟨1, 41⟩)
            (symbolAt "[" ⟨1, 47⟩) (integerAt "0" ⟨1, 48⟩)
            (symbolAt "]" ⟨1, 49⟩)))),
      symbolAt ";" ⟨1, 50⟩⟩]⟩]⟩

open scoped UsualNesting

/-- Bounds, size, nesting and a name are all at fault, and are found in this
order. -/
theorem findings_of_faultyTree :
    tokenize "var a, A: array[2..1] of array[1..2] of string[0];"
        = .ok (faultyTree.tokens ++ [.mark ⟨1, 51⟩])
      ∧ Readable faultyTree.tokens ∧ faultyTree.HasRoom
      ∧ (Analysis.ofTable
          (faultyTree.tokens ++ [.mark ⟨1, 51⟩])).run.findings
        = [⟨.syntactic, ⟨1, 17⟩, .boundsInverted 2 1⟩,
          ⟨.syntactic, ⟨1, 48⟩, .sizeOutOfRange 0⟩,
          ⟨.syntactic, ⟨1, 26⟩, .nestedArray⟩,
          ⟨.syntactic, ⟨1, 8⟩, .redeclared "A" ⟨1, 5⟩⟩] := by
  have htable : tokenize "var a, A: array[2..1] of array[1..2] of string[0];"
      = .ok (faultyTree.tokens ++ [.mark ⟨1, 51⟩]) := by decide +kernel
  have hreadable : Readable faultyTree.tokens := by
    unfold Readable
    decide +kernel
  have hroom : faultyTree.HasRoom := by decide +kernel
  obtain ⟨-, hfindings, -⟩ :=
    (findings_of_derivation faultyTree htable hreadable).1 hroom
  refine ⟨htable, hreadable, hroom, ?_⟩
  rw [hfindings]
  decide +kernel

/-- Arrays over one range, so many of them inside each other. -/
def nestedArray : Nat → VarType
  | 0 => .scalar "char"
  | n + 1 => .array [⟨1, 2⟩] (nestedArray n)

/-- The text of a variable of such a type. -/
def nestedText (n : Nat) : Text :=
  "var a: " ++ ((nestedArray n).written ++ ";")

/-- The text of nested arrays is read as nested arrays. -/
theorem readAs_nestedArray (n : Nat) (p : Position) (rest : Text)
    (hrest : rest.head?.any isNameChar = false) :
    ∃ (ty : TypeTree) (q : Position), ty.arrays = n
      ∧ ReadAs p (nestedArray n).written rest ty.tokens q := by
  induction n generalizing p with
  | zero =>
    have hsimple : (nestedArray 0).Simple := by decide
    obtain ⟨s, q, -, hread⟩ := spells_simple hsimple p rest hrest
    exact ⟨.simple s, q, rfl, hread⟩
  | succ n ih =>
    have hranges := spells_list IndexRange.written
      (List.cons_ne_nil (⟨1, 2⟩ : IndexRange) [])
      fun r hr => spells_range (by
        obtain rfl := List.mem_singleton.1 hr
        decide +kernel)
    obtain ⟨word, left, q₁, hopening⟩ := readAs_arrayOpening p
      (Text.joinWith ", " ([⟨1, 2⟩].map IndexRange.written)
        ++ ("] of " ++ ((nestedArray n).written ++ rest)))
    obtain ⟨items, q₂, -, hread⟩ :=
      hranges q₁ ("] of " ++ ((nestedArray n).written ++ rest)) rfl
    obtain ⟨right, of, q₃, hclosing⟩ :=
      readAs_arrayClosing q₂ ((nestedArray n).written ++ rest)
    obtain ⟨element, q₄, harrays, hread'⟩ := ih q₃
    refine ⟨.array word left items right of element, q₄,
      congrArg (· + 1) harrays, ?_⟩
    have hall := ((hopening.trans hread).trans hclosing).trans hread'
    simpa [nestedArray, VarType.written, TypeTree.tokens, List.append_assoc]
      using hall

/-- The text of a variable of nested arrays is read as a block. -/
theorem readAs_nestedText (n : Nat) (p : Position) (rest : Text) :
    ∃ (block : BlockTree) (d : DeclarationTree) (q : Position),
      block.declarations = [d] ∧ d.type.arrays = n
        ∧ ReadAs p (nestedText n) rest block.tokens q := by
  obtain ⟨word, q₁, hword⟩ := readAs_keyword (w := "var") (by decide) p
    (" " ++ ("a" ++ (": " ++ ((nestedArray n).written ++ (";" ++ rest))))) rfl
  obtain ⟨q₂, hspace⟩ := readAs_space q₁
    ("a" ++ (": " ++ ((nestedArray n).written ++ (";" ++ rest))))
  have hvalid : Text.IsName "a" := by decide
  obtain ⟨name, q₃, -, hname⟩ := spells_name hvalid q₂
    (": " ++ ((nestedArray n).written ++ (";" ++ rest))) rfl
  obtain ⟨colon, q₄, hcolon⟩ := readAs_colon q₃
    ((nestedArray n).written ++ (";" ++ rest))
  obtain ⟨ty, q₅, harrays, htype⟩ :=
    readAs_nestedArray n q₄ (";" ++ rest) rfl
  obtain ⟨semicolon, q₆, hsemicolon⟩ :=
    readAs_symbol (s := ";") (by decide) q₅ rest
  refine ⟨⟨word, [⟨⟨name, []⟩, colon, ty, semicolon⟩]⟩,
    ⟨⟨name, []⟩, colon, ty, semicolon⟩, q₆, rfl, harrays, ?_⟩
  have hall := ((((hword.trans hspace).trans hname).trans hcolon).trans
    htype).trans hsemicolon
  have htext : nestedText n = "var" ++ " " ++ "a" ++ ": "
      ++ (nestedArray n).written ++ ";" := by
    unfold nestedText
    rw [show ("var a: " : Text) = "var" ++ " " ++ "a" ++ ": " by decide,
      ← List.append_assoc]
  rw [htext]
  simpa [BlockTree.tokens, DeclarationTree.tokens, CommaList.tokens,
    CommaList.moreTokens] using hall

/-- Such a text is derived from the grammar. -/
theorem exists_tree_of_nestedText (n : Nat) :
    ∃ (s : SectionTree) (last : Token),
      tokenize (nestedText n) = .ok (s.tokens ++ [last]) ∧ Readable s.tokens
        ∧ ∃ d ∈ s.declarations, d.type.arrays = n := by
  obtain ⟨block, d, q, hblock, harrays, hread⟩ :=
    readAs_nestedText n .start []
  have hscans := hread.scans (.done q)
  have hreadable := hread.readable
  have htokens : SectionTree.tokens ⟨[block]⟩ = block.tokens :=
    List.flatMap_singleton ..
  have hd : d ∈ SectionTree.declarations ⟨[block]⟩ :=
    List.mem_flatMap.2 ⟨block, List.mem_singleton_self _,
      hblock ▸ List.mem_singleton_self d⟩
  rw [List.append_nil, List.append_nil, ← htokens] at hscans
  rw [← htokens] at hreadable
  exact ⟨⟨[block]⟩, .mark q, tokenize_eq_ok_iff.2 ⟨_, q, hscans, rfl⟩,
    hreadable, d, hd, harrays⟩

/-- A variable of more arrays than there is room for has no report. -/
theorem check_nestedText [NestingLimit] {n : Nat} (h : nestingMax + 1 < n) :
    check (nestedText n) = .error .nestedTooDeep := by
  obtain ⟨s, last, htable, hreadable, d, hd, harrays⟩ :=
    exists_tree_of_nestedText n
  refine check_of_fullTree s htable hreadable fun hroom => ?_
  have hle : d.type.arrays ≤ nestingMax + 1 := hroom d hd
  omega

/-- A text of so many nested arrays is derived, and no finding is made. -/
theorem derived_without_report :
    ∃ (s : SectionTree) (last : Token),
      tokenize (nestedText 600) = .ok (s.tokens ++ [last])
        ∧ Readable s.tokens
        ∧ ∀ report, check (nestedText 600) ≠ .ok report := by
  obtain ⟨s, last, htable, hreadable, -⟩ := exists_tree_of_nestedText 600
  refine ⟨s, last, htable, hreadable, fun report hreport => ?_⟩
  rw [check_nestedText (by decide)] at hreport
  cases hreport

end VarSection
