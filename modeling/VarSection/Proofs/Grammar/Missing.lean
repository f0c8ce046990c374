/-
A section with one separator missing. Where the lexemes of a valid section
are read without one of its separators, exactly one finding is made, in the
place where the separator is missed, and everything is recorded as if it
were there (`run_withoutSeparator`).

Each separator is missed in a branch of its own, and in each of them the
analysis goes on at once: what it looks for next is what stands there. Only
the recovery mark tells the two analyses apart until the declaration has
ended, so of a passage with a gap it is left out of account (`Crosses`).
-/
import VarSection.Proofs.Analysis.Declaring
import VarSection.Proofs.Grammar.Acceptance
import VarSection.Proofs.Grammar.Separators

namespace VarSection

open Grammar

namespace Analysis

variable {a b c : Analysis} {t u : Token} {before after rest : List Token}

-- ================================================== passages across a gap

/-- Between two states lie exactly these lexemes, exactly these findings were
made on the way, and all else but the recovery mark stayed as it was. -/
abbrev Crosses (a : Analysis) (ts : List Token) (found : List Diagnostic)
    (b : Analysis) : Prop :=
  Passes a.unmarked ts found b.unmarked

/-- Where nothing was found yet, the first finding is not left out. -/
theorem crosses_expect (h : a.errors = []) (pos : Position) (cause : Cause) :
    Crosses a [] [⟨.syntactic, pos, cause⟩] (a.expect pos cause).recover := by
  have hreport : a.expect pos cause = a.report pos cause := by
    rw [expect_eq, if_neg]
    unfold hits
    rw [h]
    exact Bool.false_ne_true
  rw [hreport]
  exact (passes_report a pos cause).unmarked

/-- The lexeme in front of the place is the last one passed. -/
theorem Passes.behind_head? {ts : List Token} {found : List Diagnostic}
    (h : Passes a ts found b) (hlast : ts.getLast? = some t) :
    b.cursor.behind.head? = some t := by
  rw [h.behind, List.head?_append, List.head?_reverse, hlast, Option.some_or]

/-- Inside its table an analysis looks back at the lexeme in front of the
place. -/
theorem reportAfterPrevious_of_behind (ha : a.Inside)
    (hbehind : a.cursor.behind.head? = some t) (cause : Cause) :
    a.reportAfterPrevious cause = a.report t.endPos cause := by
  unfold reportAfterPrevious
  simp only [ha.lookBack, ha.previous?, hbehind]

/-- Nothing of a broken declaration is left where a block opens. -/
theorem synchronize_of_var (h : a.cursor.ahead = u :: rest)
    (hvar : u.isKeyword "var" = true) (line : Int) :
    a.synchronize line = a := by
  have hrun : brokenRun line (u :: rest) = [] := by
    unfold brokenRun
    rw [hvar]
    simp
  unfold synchronize
  rw [upcoming_of_ahead h, hrun]
  rfl

-- ================================================================= types

/-- A size without its bracket is kept. -/
theorem readSimpleType_of_gap {s : SimpleTree}
    (hparted : s.PartedAt before t after)
    (h : a.cursor.ahead = before ++ (after ++ u :: rest))
    (hu : u.isSymbol ";" = true) (hfaults : s.faults = [])
    (hlegible : ∀ t ∈ s.tokens, t.Legible) (herrors : a.errors = []) :
    ∃ d : Diagnostic, (after ++ u :: rest).head?.map Token.pos = some d.pos
      ∧ a.readSimpleType.1 = s.type
      ∧ Crosses a (before ++ after) [d] a.readSimpleType.2 := by
  cases hparted with
  | size word left size right =>
    obtain ⟨c, hpass, hread⟩ := readSimpleType_of_size h
      (hlegible _ (by simp [SimpleTree.tokens]))
    have hahead : c.cursor.ahead = u :: rest := hpass.ahead_eq h
    have hadmitted : (if SizeAdmitted size then []
        else [findingAt size.val (.sizeOutOfRange size.value)]) = [] := by
      simpa [SimpleTree.faults, SimpleTree.sizes] using hfaults
    rw [hadmitted] at hpass
    have hclean : c.errors = [] := hpass.errors.trans herrors
    have hclose : closeSize (some size.value) c = (.string (some size.value),
        (c.expect u.pos .sizeBracketExpected).recover) := by
      unfold closeSize
      rw [if_neg (by
        rw [atSymbol_of_ahead hahead,
          Token.isSymbol_eq_false_of_ne hu (by decide)]
        exact Bool.false_ne_true), current_of_ahead hahead]
    rw [hread, hclose]
    exact ⟨⟨.syntactic, u.pos, .sizeBracketExpected⟩, rfl, rfl,
      hpass.unmarked.trans (crosses_expect hclean _ _)⟩

theorem unreadKeyword_of_gap {s : SimpleTree}
    (hparted : s.PartedAt before t after)
    (h : a.cursor.ahead = before ++ rest) :
    a.unreadKeyword "array" = false := by
  cases hparted with
  | size word =>
    rw [unreadKeyword_of_ahead h]
    exact Token.isKeyword_eq_false_of_ne word.2 (by decide)

/-- The ranges of an array are read without their opening bracket. -/
theorem readArrayRanges_of_unopened {word : KeywordOf "array"}
    {ranges : CommaList RangeTree} {right : SymbolOf "]"}
    (h : a.cursor.ahead = word.val ::
      (ranges.tokens RangeTree.tokens ++ right.val :: rest))
    (hlegible : ∀ t ∈ ranges.tokens RangeTree.tokens, t.Legible) :
    a.readArrayRanges.1 = ranges.items.map RangeTree.value
      ∧ Crosses a (word.val :: (ranges.tokens RangeTree.tokens ++ [right.val]))
        (⟨.syntactic, ranges.first.low.val.pos, .arrayBracketExpected⟩
          :: ranges.items.flatMap RangeTree.faults) a.readArrayRanges.2 := by
  have hword := passes_keyword h
  have h₁ : a.next.cursor.ahead = ranges.first.tokens
      ++ (CommaList.moreTokens RangeTree.tokens ranges.more
        ++ right.val :: rest) := by
    rw [← List.append_assoc]
    exact hword.ahead_tail h
  have hlow : ranges.first.low.val ∈ ranges.tokens RangeTree.tokens :=
    List.mem_append_left _ List.mem_cons_self
  have hreport := (passes_report a.next ranges.first.low.val.pos
    .arrayBracketExpected).unmarked
  obtain ⟨hvalues, hpasses⟩ := readRanges_of_tree
    (a := (a.next.report ranges.first.low.val.pos
      .arrayBracketExpected).recover) ranges.first ranges.more right h₁
    hlegible
  unfold readArrayRanges
  simp only
  rw [if_neg (by
      rw [atSymbol_of_ahead h₁, Token.isSymbol_eq_false_of_kind
        (by rw [ranges.first.low.2]; decide)]
      decide),
    current_of_ahead h₁, if_pos (atInteger_of_leaf
      (a := (a.next.report ranges.first.low.val.pos
        .arrayBracketExpected).recover) h₁ (hlegible _ hlow)),
    hvalues, CommaList.map_items, CommaList.flatMap_items]
  have hall := hword.unmarked.trans (hreport.trans hpasses.unmarked)
  unfold CommaList.tokens
  rw [List.append_assoc]
  exact ⟨rfl, hall⟩

/-- The ranges of an array are read without their closing bracket. -/
theorem readArrayRanges_of_unclosed {word : KeywordOf "array"}
    {left : SymbolOf "["} {ranges : CommaList RangeTree} {of : KeywordOf "of"}
    (h : a.cursor.ahead = word.val :: left.val ::
      (ranges.tokens RangeTree.tokens ++ of.val :: rest))
    (hfaults : ranges.items.flatMap RangeTree.faults = [])
    (hlegible : ∀ t ∈ ranges.tokens RangeTree.tokens, t.Legible)
    (herrors : a.errors = []) :
    a.readArrayRanges.1 = ranges.items.map RangeTree.value
      ∧ Crosses a (word.val :: left.val :: ranges.tokens RangeTree.tokens)
        [⟨.syntactic, of.val.pos, .commaOrBracketExpected⟩]
        a.readArrayRanges.2 := by
  have hword := passes_keyword h
  have h₁ := hword.ahead_tail h
  have hleft := passes_symbol h₁
  have h₂ : a.next.next.cursor.ahead = ranges.first.tokens
      ++ (CommaList.moreTokens RangeTree.tokens ranges.more
        ++ of.val :: rest) := by
    rw [← List.append_assoc]
    exact hleft.ahead_eq h₁
  have hsymbol : ∀ s : Text, of.val.isSymbol s = false :=
    Token.isSymbol_eq_false_of_kind
      (by rw [Token.kind_of_isKeyword of.2]; decide)
  obtain ⟨c, hpass, hread⟩ := readRanges_of_items ranges.first ranges.more h₂
    (hsymbol _) (by unfold Token.isRangeBoundary; rw [of.2]; simp) hlegible
  rw [CommaList.flatMap_items] at hfaults
  rw [hfaults] at hpass
  have hall := hword.trans (hleft.trans hpass)
  have hclean : c.errors = [] := hall.errors.trans herrors
  unfold readArrayRanges
  simp only
  rw [if_pos (by rw [atSymbol_of_ahead h₁, left.2]), hread,
    if_neg (by rw [hsymbol]; exact Bool.false_ne_true), CommaList.map_items]
  have hcross := hall.unmarked.trans (crosses_expect hclean of.val.pos
    .commaOrBracketExpected)
  rw [List.append_nil] at hcross
  exact ⟨rfl, hcross⟩

/-- An array owes nothing only where it is no element, and where neither its
ranges nor its elements do. -/
theorem faults_array_eq_nil {word : KeywordOf "array"} {left : SymbolOf "["}
    {ranges : CommaList RangeTree} {right : SymbolOf "]"}
    {of : KeywordOf "of"} {element : TypeTree} {nested : Bool}
    (h : (TypeTree.array word left ranges right of element).faults nested
      = []) :
    nested = false ∧ ranges.items.flatMap RangeTree.faults = []
      ∧ element.faults true = [] := by
  unfold TypeTree.faults at h
  rw [List.append_eq_nil_iff, List.append_eq_nil_iff] at h
  refine ⟨?_, h.1⟩
  cases nested with
  | false => rfl
  | true => exact absurd h.2 (List.cons_ne_nil _ _)

theorem faults_array_of_depth {word : KeywordOf "array"} {left : SymbolOf "["}
    {ranges : CommaList RangeTree} {right : SymbolOf "]"}
    {of : KeywordOf "of"} {element : TypeTree} {depth : Nat}
    (h : (TypeTree.array word left ranges right of element).faults (0 < depth)
      = []) :
    depth = 0 ∧ ranges.items.flatMap RangeTree.faults = []
      ∧ element.faults true = [] := by
  obtain ⟨hnested, hparts⟩ := faults_array_eq_nil h
  exact ⟨Nat.eq_zero_of_not_pos (of_decide_eq_false hnested), hparts⟩

/-- An element without a fault is no array. -/
theorem arrays_of_faults_eq_nil {element : TypeTree}
    (h : element.faults true = []) : element.arrays = 0 := by
  cases element with
  | simple => rfl
  | array => exact absurd (faults_array_eq_nil h).1 (by decide)

/-- For declarations without a fault there is room. -/
theorem hasRoom_of_faultsFrom [NestingLimit] {seen : List (Symbol Position)}
    {ds : List DeclarationTree} (h : faultsFrom seen ds = []) :
    ∀ d ∈ ds, d.type.HasRoom := by
  induction ds generalizing seen with
  | nil => exact fun d hd => absurd hd List.not_mem_nil
  | cons d ds ih =>
    rw [faultsFrom, List.append_eq_nil_iff, List.append_eq_nil_iff,
      TypeTree.faults_eq_nil_iff] at h
    exact List.forall_mem_cons.2 ⟨h.1.1.1.1.hasRoom, ih h.2⟩

/-- For blocks without a fault there is room. -/
theorem hasRoom_of_blocks [NestingLimit] {seen : List (Symbol Position)}
    {blocks : List BlockTree}
    (h : faultsFrom seen (blocks.flatMap BlockTree.declarations) = []) :
    ∀ block ∈ blocks, ∀ d ∈ block.declarations, d.type.HasRoom :=
  fun block hblock d hd => hasRoom_of_faultsFrom h d
    (List.mem_flatMap.2 ⟨block, hblock, hd⟩)

/-- Behind its ranges, however they are read, an array is read as written. -/
theorem readType_of_ranges [NestingLimit] (of : KeywordOf "of")
    (element : TypeTree) {ranges : List IndexRange} {ts : List Token}
    {found : List Diagnostic}
    (harray : a.unreadKeyword "array" = true)
    (hranges : a.readArrayRanges.1 = ranges)
    (hcross : Crosses a ts found a.readArrayRanges.2)
    (h : a.cursor.ahead = ts ++ of.val :: (element.tokens ++ u :: rest))
    (hu : u.isSymbol "[" = false) (hfaults : element.faults true = [])
    (hlegible : ∀ t ∈ element.tokens, t.Legible) :
    (a.readType 0).1 = .array ranges element.elementType
      ∧ Crosses a (ts ++ of.val :: element.tokens) found
        (a.readType 0).2 := by
  have hof : a.readArrayRanges.2.cursor.ahead
      = of.val :: (element.tokens ++ u :: rest) := hcross.ahead_eq h
  have hnext := passes_keyword hof
  have hroom := arrays_of_faults_eq_nil hfaults
  obtain ⟨htype, hpass⟩ := readType_of_tree element 1 (by omega)
    (hnext.ahead_tail hof) hu hlegible
  rw [show element.faults (0 < 1) = [] from hfaults] at hpass
  rw [readType_of_array harray, descend_zero, hranges,
    readElements_of_of _ _ (by rw [atKeyword_of_ahead hof, of.2]), htype]
  have hall := hcross.trans (hnext.trans hpass).unmarked
  rw [List.append_nil, List.append_nil] at hall
  exact ⟨rfl, hall⟩

/-- A type begins where one is written. -/
theorem startsType_of_tree (ty : TypeTree)
    (h : a.cursor.ahead = ty.tokens ++ rest) : a.startsType = true := by
  have hstarts : ∀ {t : Token} {ts : List Token}, a.cursor.ahead = t :: ts →
      t.kind = .keyword → Text.lower t.text ∈ typeKeywords →
        a.startsType = true := by
    intro t ts hahead hkind hword
    unfold startsType
    rw [atKind_of_ahead hahead, current_of_ahead hahead, hkind,
      List.contains_iff_mem.2 hword]
    rfl
  have hkeyword : ∀ {w : Text} (x : KeywordOf w) {ts : List Token},
      a.cursor.ahead = x.val :: ts → w ∈ typeKeywords →
        a.startsType = true := by
    intro w x ts hahead hw
    have hx := x.2
    unfold Token.isKeyword at hx
    rw [Bool.and_eq_true, beq_iff_eq, beq_iff_eq] at hx
    exact hstarts hahead hx.1 (by rw [hx.2]; exact hw)
  cases ty with
  | simple s =>
    cases s with
    | scalar word =>
      exact hstarts (t := word.val) h word.2.1
        ((by decide : scalarTypes ⊆ typeKeywords) word.2.2)
    | string word => exact hkeyword word h (by decide)
    | sized word => exact hkeyword word h (by decide)
  | array word => exact hkeyword word h (by decide)

/-- No type begins with the word in front of elements. -/
theorem not_atKeyword_of_startsType (h : a.startsType = true) :
    ¬ a.atKeyword "of" = true := by
  intro hof
  unfold startsType at h
  unfold atKeyword Token.isKeyword at hof
  rw [Bool.and_eq_true, beq_iff_eq (a := Text.lower _)] at hof
  rw [hof.2, Bool.and_eq_true] at h
  exact absurd h.2 (by decide)

/-- A type is read as written without one of its separators, and what is
found lies at the lexeme behind the gap. -/
theorem readType_of_gap [NestingLimit] {ty : TypeTree} {depth : Nat}
    (hparted : ty.PartedAt before t after)
    (h : a.cursor.ahead = before ++ (after ++ u :: rest))
    (hu : u.isSymbol ";" = true) (hfaults : ty.faults (0 < depth) = [])
    (hlegible : ∀ t ∈ ty.tokens, t.Legible) (herrors : a.errors = []) :
    ∃ d : Diagnostic, (after ++ u :: rest).head?.map Token.pos = some d.pos
      ∧ (a.readType depth).1
        = (if 0 < depth then ty.elementType else ty.type)
      ∧ Crosses a (before ++ after) [d] (a.readType depth).2 := by
  have hbracket : u.isSymbol "[" = false :=
    Token.isSymbol_eq_false_of_ne hu (by decide)
  induction hparted generalizing a depth with
  | simple hparted =>
    obtain ⟨d, hd, htype, hcross⟩ :=
      readSimpleType_of_gap hparted h hu hfaults hlegible herrors
    rw [readType_of_simple depth (by
      rw [unreadKeyword_of_gap hparted h]
      exact Bool.false_ne_true)]
    refine ⟨d, hd, ?_, hcross⟩
    rw [htype]
    split <;> rfl
  | left word left ranges right of element =>
    obtain ⟨rfl, hranges, helement⟩ := faults_array_of_depth hfaults
    have h₀ : a.cursor.ahead = word.val ::
        (ranges.tokens RangeTree.tokens
          ++ right.val :: of.val :: (element.tokens ++ u :: rest)) := by
      simpa using h
    obtain ⟨hvalues, hcross⟩ := readArrayRanges_of_unopened h₀ fun t ht =>
      hlegible t (by simp [TypeTree.tokens, ht])
    rw [hranges] at hcross
    have h₁ : a.cursor.ahead
        = (word.val :: (ranges.tokens RangeTree.tokens ++ [right.val]))
          ++ of.val :: (element.tokens ++ u :: rest) := by
      rw [h₀]
      simp
    obtain ⟨htype, hall⟩ := readType_of_ranges of element
      (by rw [unreadKeyword_of_ahead h₀, word.2]) hvalues hcross h₁ hbracket
      helement fun t ht => hlegible t (by simp [TypeTree.tokens, ht])
    exact ⟨_, rfl, htype, by simpa using hall⟩
  | right word left ranges right of element =>
    obtain ⟨rfl, hranges, helement⟩ := faults_array_of_depth hfaults
    have h₀ : a.cursor.ahead = word.val :: left.val ::
        (ranges.tokens RangeTree.tokens
          ++ of.val :: (element.tokens ++ u :: rest)) := by
      simpa using h
    obtain ⟨hvalues, hcross⟩ := readArrayRanges_of_unclosed h₀ hranges
      (fun t ht => hlegible t (by simp [TypeTree.tokens, ht])) herrors
    obtain ⟨htype, hall⟩ := readType_of_ranges of element
      (by rw [unreadKeyword_of_ahead h₀, word.2]) hvalues hcross h₀ hbracket
      helement fun t ht => hlegible t (by simp [TypeTree.tokens, ht])
    exact ⟨_, rfl, htype, by simpa using hall⟩
  | of word left ranges right of element =>
    obtain ⟨rfl, hranges, helement⟩ := faults_array_of_depth hfaults
    have h₀ : a.cursor.ahead = word.val :: left.val ::
        (ranges.tokens RangeTree.tokens
          ++ right.val :: (element.tokens ++ u :: rest)) := by
      simpa using h
    obtain ⟨hvalues, hpass⟩ := readArrayRanges_of_tree h₀ fun t ht =>
      hlegible t (by simp [TypeTree.tokens, ht])
    rw [hranges] at hpass
    have h₁ : a.readArrayRanges.2.cursor.ahead
        = element.tokens ++ u :: rest := hpass.ahead_eq (by rw [h₀]; simp)
    obtain ⟨head, tail, hhead, hkind⟩ := element.exists_head
    have h₂ : a.readArrayRanges.2.cursor.ahead
        = head :: (tail ++ u :: rest) := by
      rw [h₁, hhead]
      rfl
    have hstarts := startsType_of_tree element h₁
    have hroom := arrays_of_faults_eq_nil helement
    have hmissing := crosses_expect (hpass.errors.trans herrors) head.pos
      .ofExpected
    obtain ⟨htype, hpasses⟩ := readType_of_tree
      (a := (a.readArrayRanges.2.expect head.pos .ofExpected).recover)
      element 1 (by omega) (by rw [cursor_recover, cursor_expect, h₁])
      hbracket fun t ht => hlegible t (by simp [TypeTree.tokens, ht])
    rw [show element.faults (0 < 1) = [] from helement] at hpasses
    refine ⟨⟨.syntactic, head.pos, .ofExpected⟩, by rw [hhead]; rfl, ?_⟩
    rw [readType_of_array (by rw [unreadKeyword_of_ahead h₀, word.2]),
      descend_zero, readElements_of_missing _ _
        (not_atKeyword_of_startsType hstarts) hstarts]
    unfold missingOf
    rw [current_of_ahead h₂, htype, hvalues]
    refine ⟨rfl, ?_⟩
    have hall := hpass.unmarked.trans (hmissing.trans hpasses.unmarked)
    simpa using hall
  | element word left ranges right of hparted ih =>
    obtain ⟨rfl, hranges, helement⟩ := faults_array_of_depth hfaults
    rename_i element before after t
    have h₀ : a.cursor.ahead = word.val :: left.val ::
        (ranges.tokens RangeTree.tokens
          ++ right.val :: (of.val :: (before ++ (after ++ u :: rest)))) := by
      simpa using h
    obtain ⟨hvalues, hpass⟩ := readArrayRanges_of_tree h₀ fun t ht =>
      hlegible t (by simp [TypeTree.tokens, ht])
    rw [hranges] at hpass
    have h₁ : a.readArrayRanges.2.cursor.ahead
        = of.val :: (before ++ (after ++ u :: rest)) :=
      hpass.ahead_eq (by rw [h₀]; simp)
    have hnext := passes_keyword h₁
    have hfront := hpass.trans hnext
    have hnested : element.faults (0 < 1) = [] := helement
    obtain ⟨d, hd, htype, hcross⟩ := ih (hnext.ahead_tail h₁) hnested
      (fun t ht => hlegible t (by simp [TypeTree.tokens, ht]))
      (hfront.errors.trans herrors)
    refine ⟨d, hd, ?_⟩
    rw [readType_of_array (by rw [unreadKeyword_of_ahead h₀, word.2]),
      descend_zero,
      readElements_of_of _ _ (by rw [atKeyword_of_ahead h₁, of.2]), htype,
      hvalues]
    refine ⟨rfl, ?_⟩
    have hall := hfront.unmarked.trans hcross
    simpa using hall

-- ========================================================== declarations

/-- Behind its names the type of a declaration is read without the colon. -/
theorem readTypePart_of_noColon [NestingLimit] (ty : TypeTree)
    (hroom : ty.HasRoom) (h : a.cursor.ahead = ty.tokens ++ u :: rest)
    (hu : u.isSymbol "[" = false) (hmark : a.recovering = false)
    (ha : a.Inside)
    (hbehind : a.cursor.behind.head? = some t)
    (hlegible : ∀ t ∈ ty.tokens, t.Legible) :
    a.readTypePart.1 = ty.type
      ∧ Passes a ty.tokens
        (⟨.syntactic, t.endPos, .colonExpected⟩ :: ty.faults false)
        a.readTypePart.2 := by
  obtain ⟨head, tail, hhead, hkind⟩ := ty.exists_head
  have hahead : a.cursor.ahead = head :: (tail ++ u :: rest) := by
    rw [h, hhead]
    rfl
  have hstarts : (a.report t.endPos .colonExpected).startsType = true :=
    startsType_of_tree ty h
  have hreport := passes_report a t.endPos .colonExpected
  obtain ⟨htype, hpass⟩ := readType_of_tree ty 0
    (by rw [Nat.zero_add]; exact hroom) (hreport.ahead_eq h) hu hlegible
  unfold readTypePart
  simp only
  rw [reportUnknown_of_head hahead (by rw [hkind]; decide)]
  rw [if_neg (by
    rw [atSymbol_of_ahead hahead, Token.isSymbol_eq_false_of_kind
      (by rw [hkind]; decide)]
    exact Bool.false_ne_true)]
  simp only [hmark, Bool.or_false, Bool.false_or, Bool.false_eq_true,
    if_false, reportAfterPrevious_of_behind ha hbehind, hstarts, if_true]
  rw [htype]
  exact ⟨rfl, hreport.trans hpass⟩

/-- The colon and the type of a declaration are read, where the type has a
gap. -/
theorem readTypePart_of_gap [NestingLimit] (colon : SymbolOf ":")
    {ty : TypeTree} (hparted : ty.PartedAt before t after)
    (h : a.cursor.ahead = colon.val :: (before ++ (after ++ u :: rest)))
    (hu : u.isSymbol ";" = true) (hfaults : ty.faults false = [])
    (hlegible : ∀ t ∈ ty.tokens, t.Legible) (herrors : a.errors = []) :
    ∃ d : Diagnostic, (after ++ u :: rest).head?.map Token.pos = some d.pos
      ∧ a.readTypePart.1 = ty.type
      ∧ Crosses a (colon.val :: (before ++ after)) [d] a.readTypePart.2 := by
  have hcolon := passes_symbol h
  have houter : ty.faults (0 < 0) = [] := hfaults
  obtain ⟨d, hd, htype, hcross⟩ := readType_of_gap hparted
    (hcolon.ahead_tail h) hu houter hlegible (hcolon.errors.trans herrors)
  unfold readTypePart
  simp only
  rw [reportUnknown_of_head h (by rw [Token.kind_of_isSymbol colon.2]; decide)]
  rw [if_pos (by rw [atSymbol_of_ahead h, colon.2]), htype]
  exact ⟨d, hd, rfl, hcolon.unmarked.trans hcross⟩

/-- Whether a lexeme stands where a declaration has ended: a name, the word
that opens a block, or the mark of the end. -/
def Follows (u : Token) : Prop :=
  u.kind = .identifier ∨ u.isKeyword "var" = true ∨ u.kind = .ending

theorem Follows.kind (h : Follows u) :
    u.kind ≠ .unknown ∧ u.kind ≠ .symbol := by
  rcases h with h | h | h
  · rw [h]
    decide
  · rw [Token.kind_of_isKeyword h]
    decide
  · rw [h]
    decide

/-- A declaration ends without its semicolon where another one or another
block follows, or nothing. -/
theorem endDeclaration_of_noSemicolon (h : a.cursor.ahead = u :: rest)
    (hu : Follows u) (hmark : a.recovering = false)
    (ha : a.Inside)
    (hbehind : a.cursor.behind.head? = some t) :
    Passes a [] [⟨.syntactic, t.endPos, .semicolonExpected⟩]
      a.endDeclaration := by
  have hreport := passes_report a t.endPos .semicolonExpected
  have hahead := hreport.ahead_eq h
  have hstay : ¬ (u.kind = .identifier ∨ u.kind = .ending) →
      (a.report t.endPos .semicolonExpected).synchronizeHere
        = a.report t.endPos .semicolonExpected := by
    intro hother
    have hvar : u.isKeyword "var" = true :=
      hu.elim (fun hname => absurd (.inl hname) hother) fun hu =>
        hu.elim id fun hend => absurd (.inr hend) hother
    rw [synchronizeHere_of_behind (hreport.inside ha) hbehind,
      synchronize_of_var hahead hvar]
  unfold endDeclaration
  simp only
  rw [reportUnknown_of_head h hu.kind.1]
  rw [if_neg (by
    rw [atSymbol_of_ahead h, Token.isSymbol_eq_false_of_kind hu.kind.2]
    exact Bool.false_ne_true)]
  simp only [hmark, Bool.or_false, Bool.false_eq_true, if_false,
    reportAfterPrevious_of_behind ha hbehind, atKind_of_ahead hahead,
    Bool.or_eq_true, beq_iff_eq]
  split
  next => exact hreport
  next hother =>
    rw [hstay hother]
    exact hreport

/-- Without the colon the names end at the type, if that is not written right
behind one of them. -/
theorem readNames_of_noColon {names : CommaList NameLeaf} {ty : TypeTree}
    (h : a.cursor.ahead = names.tokens (fun n => [n.val])
      ++ (ty.tokens ++ rest))
    (hapart : ∀ n ∈ names.items, ∀ v ∈ ty.tokens, v.pos ≠ n.val.endPos)
    (hlegible : ∀ n ∈ names.items, n.val.Legible) :
    a.readNames.1 = names.items.map (fun n => ⟨n.val.text, n.val.pos⟩)
      ∧ Passes a (names.tokens fun n => [n.val]) [] a.readNames.2 := by
  obtain ⟨head, tail, hhead, hkind⟩ := ty.exists_head
  rw [hhead, List.cons_append] at h
  refine readNames_of_tree names h (Token.isSymbol_eq_false_of_kind
    (by rw [hkind]; decide) _) (fun n hn => ?_) hlegible
  unfold gluedRun
  rw [if_neg fun hglued => hapart n hn head
    (by rw [hhead]; exact List.mem_cons_self) hglued.1]

/-- The semicolon of a declaration is passed, and nothing with it where the
declaration is followed as it should be. -/
theorem endDeclaration_of_semicolon (semicolon : SymbolOf ";")
    (h : a.cursor.ahead = semicolon.val :: u :: rest) (hu : Follows u) :
    Passes a [semicolon.val] [] a.endDeclaration := by
  have hpass := endDeclaration_of_tree semicolon h
  rw [unknownRun_of_head hu.kind.1] at hpass
  exact hpass

/-- The three parts of a declaration are read without one of its separators,
and one finding is made, where that is missed. -/
theorem readParts_of_gap [NestingLimit] (d : DeclarationTree)
    (hparted : d.PartedAt before t after)
    (h : a.cursor.ahead = before ++ (after ++ u :: rest)) (hu : Follows u)
    (ha : a.Inside) (hmark : a.recovering = false) (herrors : a.errors = [])
    (hfaults : d.type.faults false = [])
    (hlegible : ∀ t ∈ d.tokens, t.Legible)
    (hapart : ∀ n ∈ d.names.items, ∀ v ∈ d.type.tokens, v.pos ≠ n.val.endPos)
    :
    ∃ f : Diagnostic, missedAt before t (after ++ u :: rest) = some f.pos
      ∧ a.readNames.1 = d.identifiers
      ∧ a.readNames.2.readTypePart.1 = d.type.type
      ∧ Crosses a (before ++ after) [f]
          a.readNames.2.readTypePart.2.endDeclaration := by
  have hnamed : ∀ n ∈ d.names.items, n.val.Legible := fun n hn =>
    hlegible n.val (List.mem_append_left _
      (CommaList.mem_tokens hn List.mem_cons_self))
  have htyped : ∀ t ∈ d.type.tokens, t.Legible := fun t ht =>
    hlegible t (List.mem_append_right _
      (List.mem_cons_of_mem _ (List.mem_append_left _ ht)))
  have hbracket : d.semicolon.val.isSymbol "[" = false :=
    Token.isSymbol_eq_false_of_ne d.semicolon.2 (by decide)
  have hroom : d.type.HasRoom :=
    ((d.type.faults_eq_nil_iff false).1 hfaults).1.1.hasRoom
  cases hparted with
  | colon =>
    have h₀ : a.cursor.ahead = d.names.tokens (fun n => [n.val])
        ++ (d.type.tokens ++ d.semicolon.val :: u :: rest) := by
      simpa using h
    obtain ⟨hnames, hpass₁⟩ := readNames_of_noColon h₀ hapart hnamed
    have hlast := List.getLast?_eq_some_getLast
      (l := d.names.tokens fun n => [n.val]) (List.cons_ne_nil _ _)
    obtain ⟨htype, hpass₂⟩ := readTypePart_of_noColon d.type hroom
      (hpass₁.ahead_eq h₀) hbracket (hpass₁.recovering.trans hmark)
      (hpass₁.inside ha) (hpass₁.behind_head? hlast) htyped
    rw [hfaults] at hpass₂
    have hfront := hpass₁.trans hpass₂
    have hpass₃ := endDeclaration_of_semicolon d.semicolon
      (hfront.ahead_eq (by rw [h₀, List.append_assoc])) hu
    refine ⟨_, ?_, hnames, htype,
      by simpa using (hfront.trans hpass₃).unmarked⟩
    unfold missedAt
    rw [d.colon.2, hlast]
    rfl
  | type hparted =>
    rename_i before after
    have h₀ : a.cursor.ahead = d.names.tokens (fun n => [n.val])
        ++ d.colon.val :: (before
          ++ (after ++ d.semicolon.val :: u :: rest)) := by
      simpa using h
    obtain ⟨hnames, hpass₁⟩ := readNames_of_colon h₀ hnamed
    obtain ⟨f, hf, htype, hcross⟩ := readTypePart_of_gap d.colon hparted
      (hpass₁.ahead_eq h₀) d.semicolon.2 hfaults htyped
      (hpass₁.errors.trans herrors)
    have hfront := hpass₁.unmarked.trans hcross
    have h₁ : a.unmarked.cursor.ahead = ((d.names.tokens fun n => [n.val])
        ++ d.colon.val :: (before ++ after))
          ++ d.semicolon.val :: u :: rest := by
      rw [show a.unmarked.cursor = a.cursor from rfl, h₀]
      simp
    have h₂ : a.readNames.2.readTypePart.2.cursor.ahead
        = d.semicolon.val :: u :: rest := hfront.ahead_eq h₁
    have hpass₃ := endDeclaration_of_semicolon d.semicolon h₂ hu
    refine ⟨f, ?_, hnames, htype,
      by simpa using hfront.trans hpass₃.unmarked⟩
    rw [hparted.missedAt, List.append_assoc]
    exact hf
  | semicolon =>
    have h₀ : a.cursor.ahead = d.names.tokens (fun n => [n.val])
        ++ d.colon.val :: (d.type.tokens ++ u :: rest) := by
      simpa using h
    obtain ⟨hnames, hpass₁⟩ := readNames_of_colon h₀ hnamed
    obtain ⟨htype, hpass₂⟩ := readTypePart_of_tree d.colon d.type hroom
      (hpass₁.ahead_eq h₀)
      (Token.isSymbol_eq_false_of_kind hu.kind.2 _) htyped
    rw [hfaults] at hpass₂
    have hfront := hpass₁.trans hpass₂
    have hlast := List.getLast?_eq_some_getLast
      (l := (d.names.tokens fun n => [n.val])
        ++ d.colon.val :: d.type.tokens) (List.cons_ne_nil _ _)
    have hpass₃ := endDeclaration_of_noSemicolon (hfront.ahead_eq h) hu
      (hfront.recovering.trans hmark) (hfront.inside ha)
      (hfront.behind_head? hlast)
    refine ⟨_, ?_, hnames, htype,
      by simpa using (hfront.trans hpass₃).unmarked⟩
    unfold missedAt
    rw [d.semicolon.2, Bool.or_true, if_pos rfl, hlast]
    rfl

-- =============================================================== sections

variable {seen : List (Symbol Position)}

/-- A declaration is recorded without one of its separators. -/
theorem readDeclaration_of_gap [NestingLimit] (d : DeclarationTree)
    (hparted : d.PartedAt before t after)
    (h : a.cursor.ahead = before ++ (after ++ u :: rest)) (hu : Follows u)
    (ha : a.Inside) (herrors : a.errors = [])
    (hfaults : faultsFrom seen [d] = [])
    (hlegible : ∀ t ∈ d.tokens, t.Legible)
    (hapart : ∀ n ∈ d.names.items, ∀ v ∈ d.type.tokens, v.pos ≠ n.val.endPos)
    (hseen : a.symbols.Holds seen) :
    ∃ f : Diagnostic, missedAt before t (after ++ u :: rest) = some f.pos
      ∧ a.readDeclaration.cursor.ahead = u :: rest
      ∧ Enters a seen [f] [d] a.readDeclaration := by
  rw [faultsFrom, faultsFrom, List.append_nil, List.append_eq_nil_iff]
    at hfaults
  obtain ⟨f, hf, hnames, htype, hcross⟩ := readParts_of_gap
    (a := a.unmarked) d hparted h hu (ha.congr rfl) rfl herrors hfaults.1
    hlegible hapart
  obtain ⟨front, hfront⟩ := hparted.exists_head
  have hfirst : a.cursor.ahead
      = d.names.first.val :: (front ++ (after ++ u :: rest)) := by
    rw [h, hfront]
    rfl
  obtain ⟨hahead, henters⟩ := enters_of_parts d hfirst hnames htype hcross
    hseen
  rw [hfaults.2, List.append_nil] at henters
  refine ⟨f, hf, List.append_cancel_left (hahead.symm.trans ?_), henters⟩
  rw [h, List.append_assoc]

/-- Passing lexemes without a finding enters nothing. -/
theorem Enters.of_passes {ts : List Token} {found : List Diagnostic}
    {ds : List DeclarationTree} (h : Passes a ts [] b)
    (h' : Enters b seen found ds c) : Enters a seen found ds c :=
  ⟨by rw [h'.errors, h.errors]; rfl, h'.symbols,
    by rw [h'.declarations, h.declarations], h'.halt?.trans h.halt?⟩

/-- Written declarations that owe nothing are entered without a finding. -/
theorem Records.enters_of_faultless {ds : List DeclarationTree}
    (h : Records a seen ds b) (hfaults : faultsFrom seen ds = []) :
    Enters a seen [] ds b := by
  rw [← hfaults]
  exact h.enters

/-- Behind the declarations of a block another block opens, or nothing
follows. -/
theorem exists_follows (ds : List DeclarationTree) (rest : List Token)
    (hu : u.isKeyword "var" = true ∨ u.kind = .ending) :
    ∃ v rest', Follows v
      ∧ ds.flatMap DeclarationTree.tokens ++ u :: rest = v :: rest' := by
  cases ds with
  | nil => exact ⟨u, rest, .inr hu, rfl⟩
  | cons d ds => exact ⟨d.names.first.val, _, .inl d.names.first.2, rfl⟩

/-- A block is read and recorded without one of its separators. -/
theorem readBlock_of_gap [NestingLimit] (ds : List DeclarationTree)
    (d : DeclarationTree) (ds' : List DeclarationTree)
    (hparted : d.PartedAt before t after)
    (h : a.cursor.ahead = ds.flatMap DeclarationTree.tokens ++ (before
      ++ (after ++ (ds'.flatMap DeclarationTree.tokens ++ u :: rest))))
    (hu : u.isKeyword "var" = true ∨ u.kind = .ending)
    (ha : a.Inside) (herrors : a.errors = [])
    (hfaults : faultsFrom seen (ds ++ d :: ds') = [])
    (hlegible : ∀ d' ∈ ds ++ d :: ds', ∀ t ∈ d'.tokens, t.Legible)
    (hapart : ∀ n ∈ d.names.items, ∀ v ∈ d.type.tokens,
      v.pos ≠ n.val.endPos) (hseen : a.symbols.Holds seen) :
    ∃ f : Diagnostic, missedAt before t
          (after ++ (ds'.flatMap DeclarationTree.tokens ++ u :: rest))
        = some f.pos
      ∧ a.readBlock.cursor.ahead = u :: rest
      ∧ Enters a seen [f] (ds ++ d :: ds') a.readBlock := by
  rw [List.append_cons, faultsFrom_append, faultsFrom_append,
    List.append_eq_nil_iff, List.append_eq_nil_iff] at hfaults
  obtain ⟨⟨hfaults₁, hfaults₂⟩, hfaults₃⟩ := hfaults
  obtain ⟨v, rest', hv, hrest'⟩ := exists_follows ds' rest hu
  obtain ⟨front, hfront⟩ := hparted.exists_head
  have h₀ : a.cursor.ahead = ds.flatMap DeclarationTree.tokens
      ++ d.names.first.val :: (front ++ (after ++ v :: rest')) := by
    rw [h, hrest', hfront]
    rfl
  have hname : d.names.first.val.kind = .identifier := d.names.first.2
  obtain ⟨b, hahead, hrecords, hread, hinside⟩ := readBlock_of_front ds
    (hasRoom_of_faultsFrom hfaults₁) h₀ (by rw [hname]; decide)
    (fun d' hd' => hlegible d' (List.mem_append_left _ hd')) hseen
  have henters := hrecords.enters_of_faultless hfaults₁
  have hgap : b.cursor.ahead = before ++ (after ++ v :: rest') := by
    rw [hahead, hfront]
    rfl
  obtain ⟨f, hf, hahead', henters'⟩ := readDeclaration_of_gap d hparted hgap hv
    (hinside ha) (henters.errors.trans herrors) hfaults₂
    (hlegible d (List.mem_append_right _ List.mem_cons_self)) hapart
    henters.symbols
  have hall := henters.trans henters'
  have hkind : u.kind ≠ .identifier ∧ u.kind ≠ .unknown := by
    rcases hu with hu | hu
    · rw [Token.kind_of_isKeyword hu]
      decide
    · rw [hu]
      decide
  obtain ⟨hahead'', hrecords''⟩ := readBlock_of_tree ds'
    (hasRoom_of_faultsFrom hfaults₃) (hahead'.trans hrest'.symm)
    hkind.1 hkind.2
    (fun d' hd' => hlegible d'
      (List.mem_append_right _ (List.mem_cons_of_mem _ hd'))) hall.symbols
  have hend : a.readBlock = b.readDeclaration.readBlock := by
    rw [hread]
    conv => lhs; rw [readBlock]
    rw [dif_pos (by rw [unreadName_of_ahead hahead, hname]; rfl)]
  rw [hrest', hend]
  have hblock := hall.trans (hrecords''.enters_of_faultless hfaults₃)
  exact ⟨f, hf, hahead'', by simpa using hblock⟩

/-- A section is read and recorded without one of its separators. -/
theorem readSection_of_gap [NestingLimit] (blocks blocks' : List BlockTree)
    (word : KeywordOf "var") (ds : List DeclarationTree)
    (d : DeclarationTree) (ds' : List DeclarationTree) {last : Token}
    (hparted : d.PartedAt before t after)
    (h : a.cursor.ahead = blocks.flatMap BlockTree.tokens
      ++ word.val :: (ds.flatMap DeclarationTree.tokens ++ (before
        ++ (after ++ (ds'.flatMap DeclarationTree.tokens
          ++ (blocks'.flatMap BlockTree.tokens ++ [last]))))))
    (hlast : last.kind = .ending) (ha : a.Inside) (herrors : a.errors = [])
    (hfaults : faultsFrom seen
      (blocks.flatMap BlockTree.declarations ++ ((ds ++ d :: ds')
        ++ blocks'.flatMap BlockTree.declarations)) = [])
    (hlegible : ∀ block ∈ blocks ++ ⟨word, ds ++ d :: ds'⟩ :: blocks',
      ∀ t ∈ block.tokens, t.Legible)
    (hapart : ∀ n ∈ d.names.items, ∀ v ∈ d.type.tokens,
      v.pos ≠ n.val.endPos) (hseen : a.symbols.Holds seen) :
    ∃ f : Diagnostic, missedAt before t
          (after ++ (ds'.flatMap DeclarationTree.tokens
            ++ (blocks'.flatMap BlockTree.tokens ++ [last]))) = some f.pos
      ∧ Enters a seen [f] (blocks.flatMap BlockTree.declarations
          ++ ((ds ++ d :: ds') ++ blocks'.flatMap BlockTree.declarations))
          a.readSection := by
  rw [faultsFrom_append, faultsFrom_append, List.append_eq_nil_iff,
    List.append_eq_nil_iff] at hfaults
  obtain ⟨hfaults₁, hfaults₂, hfaults₃⟩ := hfaults
  obtain ⟨v, rest', hv, hrest'⟩ : ∃ v rest',
      (v.isKeyword "var" = true ∨ v.kind = .ending)
      ∧ blocks'.flatMap BlockTree.tokens ++ [last] = v :: rest' := by
    cases blocks' with
    | nil => exact ⟨last, [], .inr hlast, rfl⟩
    | cons block blocks' => exact ⟨block.word.val, _, .inl block.word.2, rfl⟩
  -- the blocks in front of the gap
  obtain ⟨b, hahead, hrecords, hread, hinside⟩ := readSection_of_front blocks
    (hasRoom_of_blocks hfaults₁) h (.inl (Token.kind_of_isKeyword word.2))
    (fun t ht => by
      obtain ⟨block, hblock, ht⟩ := List.mem_flatMap.1 ht
      exact hlegible block (List.mem_append_left _ hblock) t ht) hseen
  have henters := hrecords.enters_of_faultless hfaults₁
  -- the block with the gap
  have hword := passes_keyword hahead
  have hnext := hword.ahead_tail hahead
  rw [hrest'] at hnext
  obtain ⟨f, hf, hahead', henters'⟩ := readBlock_of_gap ds d ds' hparted
    hnext hv (hword.inside (hinside ha))
    (hword.errors.trans (henters.errors.trans herrors)) hfaults₂
    (fun d' hd' t ht => hlegible ⟨word, ds ++ d :: ds'⟩
      (List.mem_append_right _ List.mem_cons_self) t
      (List.mem_cons_of_mem _ (List.mem_flatMap.2 ⟨d', hd', ht⟩))) hapart
    (by rw [hword.symbols]; exact henters.symbols)
  have hblock := henters'.of_passes hword
  -- the blocks behind it
  have hback := readSection_of_blocks blocks' (hasRoom_of_blocks hfaults₃)
    (hahead'.trans hrest'.symm) hlast
    (fun t ht => by
      obtain ⟨block, hblock, ht⟩ := List.mem_flatMap.1 ht
      exact hlegible block (List.mem_append_right _
        (List.mem_cons_of_mem _ hblock)) t ht) hblock.symbols
  have hall := henters.trans
    (hblock.trans (hback.enters_of_faultless hfaults₃))
  rw [hread, readSection_of_var hahead word.2, hrest']
  exact ⟨f, hf, by simpa using hall⟩

/-- In a text no name of a declaration is written right in front of its
type. -/
theorem apart_of_lexed {d : DeclarationTree} {front : List Token}
    (h : Lexed (front ++ (d.tokens ++ rest))) :
    ∀ n ∈ d.names.items, ∀ v ∈ d.type.tokens, v.pos ≠ n.val.endPos := by
  intro n hn v hv
  have hd := h.right_of_append
  unfold DeclarationTree.tokens at hd
  rw [List.append_assoc] at hd
  have hcolon : n.val.endPos.le d.colon.val.pos = true :=
    (List.pairwise_append.1 hd.order).2.2 n.val
      (CommaList.mem_tokens hn List.mem_cons_self) _ List.mem_cons_self
  have htype : d.colon.val.pos.Before v.pos :=
    hd.right_of_append.before (Token.isEnding_of_isSymbol d.colon.2) v
      (List.mem_append_left _ (List.mem_append_left _ hv))
  exact (Position.Before.of_le hcolon htype).ne.symm

/-- The table of symbols is told by the declarations. -/
theorem Tallies.symbols_eq (h : a.Tallies) (h' : b.Tallies)
    (hdeclared : a.declared = b.declared) : a.symbols = b.symbols := by
  have hoffered : a.offered = b.offered := by
    unfold offered
    rw [hdeclared]
  have hentries : a.symbols.entries = b.symbols.entries :=
    List.reverse_injective (h.entries.trans (by
      rw [hoffered]
      exact h'.entries.symm))
  cases ha : a.symbols
  cases hb : b.symbols
  rw [ha, hb] at hentries
  exact congrArg _ hentries

/-- What the analysis of a derived table without one of its separators finds
and records, where the tree owes nothing. -/
theorem enters_of_gap [NestingLimit] (s : SectionTree) {last : Token}
    (hlast : last.kind = .ending) (hparted : s.tokens = before ++ t :: after)
    (hsep : Separates before t) (hfaults : s.faults = [])
    (hlexed : Lexed (s.tokens ++ [last]))
    (hlegible : ∀ t ∈ s.tokens, t.Legible) :
    ∃ f : Diagnostic, missedAt before t (after ++ [last]) = some f.pos
      ∧ Enters (ofTable (before ++ (after ++ [last]))) [] [f] s.declarations
          (ofTable (before ++ (after ++ [last]))).run := by
  obtain ⟨blocks, word, ds, d, ds', blocks', inner, rest, hblocks, hinner,
    rfl, rfl⟩ := SectionTree.exists_partedAt hparted hsep
  have hdeclarations : s.declarations = blocks.flatMap BlockTree.declarations
      ++ ((ds ++ d :: ds') ++ blocks'.flatMap BlockTree.declarations) := by
    unfold SectionTree.declarations
    rw [hblocks, List.flatMap_append, List.flatMap_cons]
  have hfront : Lexed ((blocks.flatMap BlockTree.tokens
      ++ word.val :: ds.flatMap DeclarationTree.tokens) ++ (d.tokens
        ++ (ds'.flatMap DeclarationTree.tokens
          ++ (blocks'.flatMap BlockTree.tokens ++ [last])))) := by
    unfold SectionTree.tokens at hlexed
    rw [hblocks] at hlexed
    simpa [BlockTree.tokens] using hlexed
  have htable : (blocks.flatMap BlockTree.tokens
        ++ word.val :: (ds.flatMap DeclarationTree.tokens ++ inner))
        ++ ((rest ++ (ds'.flatMap DeclarationTree.tokens
          ++ blocks'.flatMap BlockTree.tokens)) ++ [last])
      = blocks.flatMap BlockTree.tokens
        ++ word.val :: (ds.flatMap DeclarationTree.tokens ++ (inner
          ++ (rest ++ (ds'.flatMap DeclarationTree.tokens
            ++ (blocks'.flatMap BlockTree.tokens ++ [last]))))) := by
    simp
  rw [htable, run_ofTable, hdeclarations]
  have hends : ∃ t ∈ blocks.flatMap BlockTree.tokens
        ++ word.val :: (ds.flatMap DeclarationTree.tokens ++ (inner
          ++ (rest ++ (ds'.flatMap DeclarationTree.tokens
            ++ (blocks'.flatMap BlockTree.tokens ++ [last]))))),
      t.isEnding = true :=
    ⟨last, by simp, beq_iff_eq.2 hlast⟩
  obtain ⟨f, hf, henters⟩ := readSection_of_gap blocks blocks' word ds d ds'
    hinner rfl hlast (.ofTable hends) rfl
    (by rw [← hdeclarations]; exact hfaults)
    (fun block hblock t ht => hlegible t (by
      unfold SectionTree.tokens
      rw [hblocks]
      exact List.mem_flatMap.2 ⟨block, hblock, ht⟩))
    (apart_of_lexed hfront) SymbolTable.holds_empty
  refine ⟨f, ?_, henters⟩
  have hne : inner ≠ [] := by
    obtain ⟨front, rfl⟩ := hinner.exists_head
    exact List.cons_ne_nil _ _
  rw [← List.cons_append, ← List.append_assoc, missedAt_of_front hne,
    List.append_assoc, List.append_assoc]
  exact hf

end Analysis

-- ============================================================= whole texts

/-- A section that is accepted is recorded just the same without any one of
its separators. The analysis makes one finding, in the place where the
separator is missed, and no other. -/
theorem run_withoutSeparator [NestingLimit] {text : Text}
    {table before after : List Token} {t : Token}
    (htable : tokenize text = .ok table)
    (hquiet : (Analysis.ofTable table).run.Quiet)
    (hsplit : table = before ++ t :: after) (hsep : Separates before t) :
    let a := (Analysis.ofTable (before ++ after)).run
    a.halt? = none
      ∧ (∃ d, a.findings = [d] ∧ missedAt before t after = some d.pos)
      ∧ a.declared = (Analysis.ofTable table).run.declared
      ∧ a.symbols = (Analysis.ofTable table).run.symbols := by
  obtain ⟨tokens, q, hscans, rfl⟩ := tokenize_eq_ok_iff.1 htable
  obtain ⟨s, rfl, hreadable⟩ := exists_tree_of_quiet hscans hquiet
  have hlegible := (legible_of_tokenize htable hreadable).2
  obtain ⟨-, hfound, hdeclared, -⟩ := findings_of_tree s htable hreadable
    (hasRoom_of_unhalted s hlegible hquiet.halt?)
  have hfaults : s.faults = [] := by
    rw [← hfound, Analysis.findings, hquiet.errors]
    rfl
  obtain ⟨rest, hrest, rfl⟩ : ∃ rest, s.tokens = before ++ t :: rest
      ∧ after = rest ++ [.mark q] := by
    rcases split_of_append hsplit with h | ⟨_, -, h⟩
    · exact h
    · rcases split_of_cons h with ⟨-, rfl, -⟩ | ⟨front, -, h'⟩
      · exact absurd hsep (not_separates_of_kind Kind.noConfusion
          Kind.noConfusion)
      · cases front <;> cases h'
  obtain ⟨f, hf, henters⟩ := Analysis.enters_of_gap s rfl hrest hsep hfaults
    hscans.lexed hlegible
  have hsame : (Analysis.ofTable (before ++ (rest ++ [.mark q]))).run.declared
      = (Analysis.ofTable (s.tokens ++ [.mark q])).run.declared := by
    rw [hdeclared, Analysis.declared, henters.declarations]
    show (_ ++ []).reverse = _
    rw [List.append_nil, List.reverse_reverse]
  refine ⟨henters.halt?, ⟨f, ?_, hf⟩, hsame, ?_⟩
  · rw [Analysis.findings, henters.errors]
    rfl
  · exact Analysis.Tallies.symbols_eq (.run ⟨.mark q, by simp, rfl⟩)
      (.run (Token.mark_ends s.tokens q)) hsame

/-- The lexemes of
`var a: array[-1..1] of string[255]; (* b *) var B: char;`. -/
def twoBlocks : List Token := twoBlocksTree.tokens ++ [.mark ⟨1, 57⟩]

open scoped UsualNesting

/-- Without the first semicolon the second block is still read, on the same
line. -/
theorem run_withoutSeparator_twoBlocks :
    tokenize "var a: array[-1..1] of string[255]; (* b *) var B: char;"
        = .ok twoBlocks
      ∧ (Analysis.ofTable twoBlocks).run.Quiet
      ∧ twoBlocks = twoBlocks.take 14
          ++ ⟨.symbol, ";", ⟨1, 35⟩⟩ :: twoBlocks.drop 15
      ∧ Separates (twoBlocks.take 14) ⟨.symbol, ";", ⟨1, 35⟩⟩
      ∧ ∃ d, (Analysis.ofTable
            (twoBlocks.take 14 ++ twoBlocks.drop 15)).run.findings = [d]
          ∧ d.pos = ⟨1, 35⟩ := by
  have htable : tokenize
      "var a: array[-1..1] of string[255]; (* b *) var B: char;"
        = .ok twoBlocks := by
    decide +kernel
  have hquiet : (Analysis.ofTable twoBlocks).run.Quiet :=
    ⟨by decide +kernel, Option.isNone_iff_eq_none.1 (by decide +kernel)⟩
  have hsplit : twoBlocks = twoBlocks.take 14
      ++ ⟨.symbol, ";", ⟨1, 35⟩⟩ :: twoBlocks.drop 15 := by
    decide +kernel
  have hsep : Separates (twoBlocks.take 14) ⟨.symbol, ";", ⟨1, 35⟩⟩ := by
    decide +kernel
  obtain ⟨-, ⟨d, hd, hpos⟩, -⟩ :=
    run_withoutSeparator htable hquiet hsplit hsep
  have hmissed : missedAt (twoBlocks.take 14) ⟨.symbol, ";", ⟨1, 35⟩⟩
      (twoBlocks.drop 15) = some ⟨1, 35⟩ := by
    decide +kernel
  exact ⟨htable, hquiet, hsplit, hsep, d, hd,
    Option.some.inj (hpos.symm.trans hmissed)⟩

end VarSection
