/-
How an analysis reads lexemes that are derived from the grammar. For each
kind of tree one statement: where the lexemes of the tree lie ahead, its
reader passes exactly them, makes exactly the findings that the tree owes,
and gives the meaning of the tree. The cases follow the trees, and each is
put together from passages by `Passes.trans`.

What follows a tree matters where a reader looks ahead. A string is taken
without a size only if no bracket follows, and a name ends only where
nothing goes on with it; in a derived section both are so.
-/
import VarSection.Proofs.Analysis.Passage
import VarSection.Proofs.Grammar.Tree
import VarSection.Proofs.Scanner.Places

namespace VarSection.Grammar

variable [NestingLimit]

/-- Whether there is room for all the arrays of a type. -/
def TypeTree.HasRoom (ty : TypeTree) : Prop := ty.arrays ≤ nestingMax + 1

instance (ty : TypeTree) : Decidable ty.HasRoom :=
  inferInstanceAs (Decidable (_ ≤ _))

/-- For an array that is in no other there is always room. -/
theorem TypeTree.IsFlat.hasRoom {ty : TypeTree} (h : ty.IsFlat) :
    ty.HasRoom :=
  Nat.le_trans h.arrays_le (Nat.le_add_left 1 nestingMax)

/-- Whether there is room for the types of all declarations. -/
def SectionTree.HasRoom (s : SectionTree) : Prop :=
  ∀ d ∈ s.declarations, d.type.HasRoom

instance (s : SectionTree) : Decidable s.HasRoom :=
  inferInstanceAs (Decidable (∀ d ∈ s.declarations, d.type.HasRoom))

theorem SectionTree.HasRoom.blocks {s : SectionTree} (h : s.HasRoom) :
    ∀ block ∈ s.blocks, ∀ d ∈ block.declarations, d.type.HasRoom :=
  fun block hblock d hd => h d (List.mem_flatMap.2 ⟨block, hblock, hd⟩)

end VarSection.Grammar

namespace VarSection.Analysis

open Grammar

variable {a : Analysis} {t u : Token} {rest : List Token}

-- ================================================= passing single leaves

theorem passes_symbol {s : Text} {x : SymbolOf s}
    (h : a.cursor.ahead = x.val :: rest) : Passes a [x.val] [] a.next :=
  passes_next h (Token.isEnding_of_isSymbol x.2)

theorem passes_keyword {w : Text} {x : KeywordOf w}
    (h : a.cursor.ahead = x.val :: rest) : Passes a [x.val] [] a.next :=
  passes_next h (Token.isEnding_of_isKeyword x.2)

theorem passes_name {n : NameLeaf} (h : a.cursor.ahead = n.val :: rest) :
    Passes a [n.val] [] a.next :=
  passes_next h (Token.isEnding_eq_false_of_kind (by rw [n.2]; decide))

theorem passes_integer {n : IntegerLeaf}
    (h : a.cursor.ahead = n.val :: rest) : Passes a [n.val] [] a.next :=
  passes_next h (Token.isEnding_eq_false_of_kind (by rw [n.2]; decide))

theorem atInteger_of_leaf {n : IntegerLeaf}
    (h : a.cursor.ahead = n.val :: rest) (hlegible : n.val.Legible) :
    a.atInteger = true := by
  rw [atInteger_of_ahead h, n.2, hlegible.integer n.2]
  rfl

/-- A legible number is read without a fault. -/
theorem readInteger_of_legible (a : Analysis) {n : IntegerLeaf}
    (hlegible : n.val.Legible) : a.readInteger n.val = (n.value, a) := by
  unfold readInteger
  simp only
  rw [if_neg (Nat.not_lt.2 (hlegible.digits n.2))]
  rfl

-- ================================================================== ranges

/-- A written range is read, and bounds in the wrong order are found. -/
theorem readRange_of_tree (r : RangeTree)
    (h : a.cursor.ahead = r.tokens ++ rest)
    (hlegible : ∀ t ∈ r.tokens, t.Legible) :
    a.readRange.1 = some r.value
      ∧ Passes a r.tokens r.faults a.readRange.2 := by
  have hlow : r.low.val.Legible := hlegible _ List.mem_cons_self
  have hhigh : r.high.val.Legible := hlegible _ (by simp [RangeTree.tokens])
  have h₀ : a.cursor.ahead = r.low.val :: r.dots.val :: r.high.val :: rest :=
    h
  have hpass₁ := passes_integer h₀
  have h₁ := hpass₁.ahead_eq h₀
  have hpass₂ := passes_symbol h₁
  have h₂ := hpass₂.ahead_eq h₁
  have hpass₃ := passes_integer h₂
  have hpass := hpass₁.trans (hpass₂.trans hpass₃)
  unfold readRange
  simp only [atInteger_of_leaf h₀ hlow, atSymbol_of_ahead h₁, r.dots.2,
    atInteger_of_leaf h₂ hhigh, current_of_ahead h₀, current_of_ahead h₂,
    readInteger_of_legible _ hlow, readInteger_of_legible _ hhigh,
    Bool.not_true, Bool.false_eq_true, if_false]
  refine ⟨rfl, ?_⟩
  unfold RangeTree.faults
  by_cases hle : r.Ordered
  · rw [if_pos hle, if_neg (Int.not_lt.2 hle)]
    exact hpass
  · rw [if_neg hle, if_pos (Int.not_le.1 hle)]
    exact hpass.trans (passes_report _ _ _)

theorem readRangeOrSkip_of_tree (r : RangeTree)
    (h : a.cursor.ahead = r.tokens ++ rest)
    (hlegible : ∀ t ∈ r.tokens, t.Legible) :
    a.readRangeOrSkip.1 = some r.value
      ∧ Passes a r.tokens r.faults a.readRangeOrSkip.2 := by
  obtain ⟨hvalue, hpass⟩ := readRange_of_tree r h hlegible
  unfold readRangeOrSkip
  simp only [hvalue]
  exact ⟨trivial, hpass⟩

/-- At the end of the ranges nothing is skipped. -/
theorem skipAfterRange_of_boundary (h : a.cursor.ahead = u :: rest)
    (hboundary : u.isRangeBoundary = true) :
    a.skipAfterRange = (a.expect u.pos .commaOrBracketExpected).recover := by
  have hahead : ((a.expect u.pos .commaOrBracketExpected).recover).cursor.ahead
      = u :: rest := by
    rw [cursor_recover, cursor_expect, h]
  unfold skipAfterRange skipToRangeBoundary
  rw [current_of_ahead h, upcoming_of_ahead hahead,
    List.takeWhile_cons_of_neg (by rw [hboundary]; decide)]
  rfl

/-- Written ranges are read up to what ends them. A closing bracket is
passed, and anything else is told to stand in its place. -/
theorem readRanges_of_items (first : RangeTree)
    (more : List (SymbolOf "," × RangeTree))
    (h : a.cursor.ahead = first.tokens
      ++ (CommaList.moreTokens RangeTree.tokens more ++ u :: rest))
    (hcomma : u.isSymbol "," = false) (hboundary : u.isRangeBoundary = true)
    (hlegible : ∀ t ∈ first.tokens
      ++ CommaList.moreTokens RangeTree.tokens more, t.Legible) :
    ∃ c, Passes a (first.tokens
          ++ CommaList.moreTokens RangeTree.tokens more)
        (first.faults ++ more.flatMap (·.2.faults)) c
      ∧ a.readRanges = (first.value :: more.map (·.2.value),
        if u.isSymbol "]" then c.next
        else (c.expect u.pos .commaOrBracketExpected).recover) := by
  obtain ⟨hvalue, hpass⟩ := readRangeOrSkip_of_tree first h fun t ht =>
    hlegible t (List.mem_append_left _ ht)
  have hafter := hpass.ahead_eq h
  induction more generalizing a first with
  | nil =>
    have hlast : a.readRangeOrSkip.2.cursor.ahead = u :: rest := hafter
    have hstop : ¬ a.readRangeOrSkip.2.unreadSymbol "," = true := by
      rw [unreadSymbol_of_ahead hlast, hcomma]
      exact Bool.false_ne_true
    refine ⟨a.readRangeOrSkip.2, ?_, ?_⟩
    · rw [CommaList.moreTokens, List.flatMap_nil, List.flatMap_nil,
        List.append_nil, List.append_nil]
      exact hpass
    by_cases hbracket : u.isSymbol "]" = true
    · rw [readRanges_of_last hstop
        (by rw [atSymbol_of_ahead hlast, hbracket]; rfl), hvalue,
        if_pos hbracket]
      unfold passBracket
      rw [if_pos (by rw [atSymbol_of_ahead hlast, hbracket])]
      rfl
    · have hahead : (a.readRangeOrSkip.2.expect u.pos
          .commaOrBracketExpected).recover.cursor.ahead = u :: rest := by
        rw [cursor_recover, cursor_expect, hlast]
      have hskip := skipAfterRange_of_boundary hlast hboundary
      rw [readRanges_of_broken hstop
        (by rw [atSymbol_of_ahead hlast, hvalue]; simpa using hbracket)
        (by
          rw [hskip, unreadSymbol_of_ahead hahead, hcomma]
          exact Bool.false_ne_true),
        hskip, hvalue, if_neg hbracket]
      unfold passBracket
      rw [if_neg (by rw [atSymbol_of_ahead hahead]; exact hbracket)]
      rfl
  | cons item more ih =>
    obtain ⟨comma, second⟩ := item
    have hnext : a.readRangeOrSkip.2.cursor.ahead
        = comma.val :: (second.tokens
          ++ (CommaList.moreTokens RangeTree.tokens more ++ u :: rest)) := by
      rw [hafter]
      simp [CommaList.moreTokens]
    have hstep := passes_symbol hnext
    have hahead := hstep.ahead_eq hnext
    have hlegible' : ∀ t ∈ second.tokens
        ++ CommaList.moreTokens RangeTree.tokens more, t.Legible := by
      intro t ht
      apply hlegible
      rw [CommaList.moreTokens, List.flatMap_cons, List.cons_append]
      exact List.mem_append_right _ (List.mem_cons_of_mem _ ht)
    obtain ⟨hvalue', hpass'⟩ := readRangeOrSkip_of_tree second hahead
      fun t ht => hlegible' t (List.mem_append_left _ ht)
    obtain ⟨c, hpasses, hread⟩ := ih second hahead hlegible' hvalue' hpass'
      (hpass'.ahead_eq hahead)
    refine ⟨c, ?_, ?_⟩
    · have hall := hpass.trans (hstep.trans hpasses)
      simpa [CommaList.moreTokens, List.append_assoc] using hall
    · rw [readRanges_of_comma (by
        rw [unreadSymbol_of_ahead hnext, comma.2]), hread, hvalue]
      rfl

/-- Written ranges are read up to the closing bracket and with it. -/
theorem readRanges_of_tree (first : RangeTree)
    (more : List (SymbolOf "," × RangeTree)) (right : SymbolOf "]")
    (h : a.cursor.ahead = first.tokens
      ++ (CommaList.moreTokens RangeTree.tokens more ++ right.val :: rest))
    (hlegible : ∀ t ∈ first.tokens
      ++ CommaList.moreTokens RangeTree.tokens more, t.Legible) :
    a.readRanges.1 = first.value :: more.map (·.2.value)
      ∧ Passes a (first.tokens
          ++ (CommaList.moreTokens RangeTree.tokens more ++ [right.val]))
        (first.faults ++ more.flatMap (·.2.faults)) a.readRanges.2 := by
  obtain ⟨c, hpass, hread⟩ := readRanges_of_items first more h
    (Token.isSymbol_eq_false_of_ne right.2 (by decide))
    (by unfold Token.isRangeBoundary; rw [right.2]; simp) hlegible
  rw [hread, if_pos right.2]
  refine ⟨rfl, ?_⟩
  have hright : c.cursor.ahead = right.val :: rest :=
    hpass.ahead_eq (by rw [h, List.append_assoc])
  have hall := hpass.trans (passes_symbol hright)
  rwa [List.append_nil, List.append_assoc] at hall

-- =================================================================== types

/-- The size of a string ends at its bracket. -/
theorem closeSize_of_bracket (size : Option Int) (right : SymbolOf "]")
    (h : a.cursor.ahead = right.val :: rest) :
    closeSize size a = (.string size, a.next) := by
  unfold closeSize
  rw [if_pos (by rw [atSymbol_of_ahead h, right.2])]

/-- The word for a string is read with what may follow it. -/
theorem readSimpleType_of_string {word : KeywordOf "string"}
    (h : a.cursor.ahead = word.val :: rest) :
    a.readSimpleType = a.next.readStringType := by
  have hlower : Text.lower word.val.text = "string" := by
    have hword := word.2
    unfold Token.isKeyword at hword
    rw [Bool.and_eq_true, beq_iff_eq, beq_iff_eq] at hword
    exact hword.2
  unfold readSimpleType
  simp only
  rw [current_of_ahead h, hlower, if_neg (by
    rw [show scalarTypes.contains ("string" : Text) = false by decide,
      Bool.and_false]
    exact Bool.false_ne_true)]
  rw [if_pos (by rw [atKeyword_of_ahead h, word.2])]

/-- The size of a string is read up to what should be its closing bracket,
and a size that is not admitted is found. -/
theorem readSimpleType_of_size {word : KeywordOf "string"}
    {left : SymbolOf "["} {size : IntegerLeaf}
    (h : a.cursor.ahead = word.val :: left.val :: size.val :: rest)
    (hlegible : size.val.Legible) :
    ∃ c, Passes a [word.val, left.val, size.val]
        (if SizeAdmitted size then []
          else [findingAt size.val (.sizeOutOfRange size.value)]) c
      ∧ a.readSimpleType = closeSize (some size.value) c := by
  have hpass₁ := passes_keyword h
  have h₁ := hpass₁.ahead_tail h
  have hpass₂ := passes_symbol h₁
  have h₂ := hpass₂.ahead_tail h₁
  have hpass := hpass₁.trans (hpass₂.trans (passes_integer h₂))
  rw [readSimpleType_of_string h]
  unfold readStringType
  simp only [atSymbol_of_ahead h₁, left.2, atInteger_of_leaf h₂ hlegible,
    current_of_ahead h₂, readInteger_of_legible _ hlegible,
    Bool.not_true, Bool.false_eq_true, if_false, if_true]
  refine ⟨_, ?_, rfl⟩
  by_cases hsize : stringSizeMin ≤ size.value ∧ size.value ≤ stringSizeMax
  · rw [if_pos (c := SizeAdmitted size) hsize, if_pos hsize]
    exact hpass
  · rw [if_neg (c := SizeAdmitted size) hsize, if_neg hsize]
    exact hpass.trans (passes_report _ _ _)

/-- A written type that is no array is read, where no bracket follows it. -/
theorem readSimpleType_of_tree (s : SimpleTree)
    (h : a.cursor.ahead = s.tokens ++ u :: rest)
    (hu : u.isSymbol "[" = false) (hlegible : ∀ t ∈ s.tokens, t.Legible) :
    a.readSimpleType.1 = s.type
      ∧ Passes a s.tokens s.faults a.readSimpleType.2 := by
  cases s with
  | scalar word =>
    have h₀ : a.cursor.ahead = word.val :: u :: rest := h
    unfold readSimpleType
    simp only
    rw [atKind_of_ahead h₀, current_of_ahead h₀, word.2.1, if_pos (by
      rw [List.contains_iff_mem.2 word.2.2]
      rfl)]
    refine ⟨rfl, passes_next h₀ (Token.isEnding_eq_false_of_kind ?_)⟩
    rw [word.2.1]
    decide
  | string word =>
    have h₀ : a.cursor.ahead = word.val :: u :: rest := h
    have hpass := passes_keyword h₀
    rw [readSimpleType_of_string h₀]
    unfold readStringType
    rw [if_pos (by rw [atSymbol_of_ahead (hpass.ahead_eq h₀), hu]; rfl)]
    exact ⟨rfl, hpass⟩
  | sized word left size right =>
    have h₀ : a.cursor.ahead
        = word.val :: left.val :: size.val :: right.val :: u :: rest := h
    obtain ⟨c, hpass, hread⟩ := readSimpleType_of_size h₀
      (hlegible _ (by simp [SimpleTree.tokens]))
    have hright : c.cursor.ahead = right.val :: u :: rest :=
      hpass.ahead_eq h₀
    have hfaults : (SimpleTree.sized word left size right).faults
        = if SizeAdmitted size then []
          else [findingAt size.val (.sizeOutOfRange size.value)] := by
      unfold SimpleTree.faults SimpleTree.sizes
      exact List.flatMap_singleton ..
    have hall := hpass.trans (passes_symbol hright)
    rw [List.append_nil] at hall
    rw [hread, closeSize_of_bracket _ right hright, hfaults]
    exact ⟨rfl, hall⟩

/-- No type but an array begins with the word for one. -/
theorem unreadKeyword_of_simple (s : SimpleTree)
    (h : a.cursor.ahead = s.tokens ++ u :: rest) :
    a.unreadKeyword "array" = false := by
  cases s with
  | scalar word =>
    have h₀ : a.cursor.ahead = word.val :: u :: rest := h
    rw [unreadKeyword_of_ahead h₀]
    unfold Token.isKeyword
    rw [Bool.and_eq_false_iff, beq_eq_false_iff_ne (a := Text.lower _)]
    right
    intro harray
    exact absurd (harray ▸ word.2.2) (by decide)
  | string word =>
    have h₀ : a.cursor.ahead = word.val :: u :: rest := h
    rw [unreadKeyword_of_ahead h₀]
    exact Token.isKeyword_eq_false_of_ne word.2 (by decide)
  | sized word left size right =>
    have h₀ : a.cursor.ahead
        = word.val :: left.val :: size.val :: right.val :: u :: rest := h
    rw [unreadKeyword_of_ahead h₀]
    exact Token.isKeyword_eq_false_of_ne word.2 (by decide)

/-- The index ranges of a written array are read with their brackets. -/
theorem readArrayRanges_of_tree {word : KeywordOf "array"}
    {left : SymbolOf "["} {ranges : CommaList RangeTree}
    {right : SymbolOf "]"}
    (h : a.cursor.ahead = word.val :: left.val ::
      (ranges.tokens RangeTree.tokens ++ right.val :: rest))
    (hlegible : ∀ t ∈ ranges.tokens RangeTree.tokens, t.Legible) :
    a.readArrayRanges.1 = ranges.items.map RangeTree.value
      ∧ Passes a (word.val :: left.val ::
          (ranges.tokens RangeTree.tokens ++ [right.val]))
        (ranges.items.flatMap RangeTree.faults) a.readArrayRanges.2 := by
  have hword := passes_keyword h
  have h₁ := hword.ahead_tail h
  have hleft := passes_symbol h₁
  have h₂ : a.next.next.cursor.ahead = ranges.first.tokens
      ++ (CommaList.moreTokens RangeTree.tokens ranges.more
        ++ right.val :: rest) := by
    rw [← List.append_assoc]
    exact hleft.ahead_eq h₁
  obtain ⟨hvalues, hpasses⟩ := readRanges_of_tree ranges.first ranges.more
    right h₂ hlegible
  unfold readArrayRanges
  simp only
  rw [if_pos (by rw [atSymbol_of_ahead h₁, left.2])]
  have hpass := hword.trans (hleft.trans hpasses)
  unfold CommaList.tokens
  rw [hvalues, CommaList.map_items, CommaList.flatMap_items,
    List.append_assoc]
  exact ⟨rfl, hpass⟩

/-- Where there is room for an array, entering it changes nothing. -/
theorem descend_of_le [NestingLimit] {depth : Nat} (h : depth ≤ nestingMax)
    (a : Analysis) : a.descend depth = a :=
  if_neg (Nat.not_lt.2 h)

/-- A written type is read, where no bracket follows it and there is room for
its arrays. A nested array leaves the unknown type and a finding behind those
on all it holds. -/
theorem readType_of_tree [NestingLimit] (ty : TypeTree) (depth : Nat)
    (hroom : depth + ty.arrays ≤ nestingMax + 1)
    (h : a.cursor.ahead = ty.tokens ++ u :: rest)
    (hu : u.isSymbol "[" = false) (hlegible : ∀ t ∈ ty.tokens, t.Legible) :
    (a.readType depth).1 = (if 0 < depth then ty.elementType else ty.type)
      ∧ Passes a ty.tokens (ty.faults (0 < depth)) (a.readType depth).2 := by
  induction ty generalizing a depth with
  | simple s =>
    rw [readType_of_simple depth
      (by rw [unreadKeyword_of_simple s h]; decide)]
    obtain ⟨htype, hpass⟩ := readSimpleType_of_tree s h hu hlegible
    rw [htype]
    refine ⟨?_, hpass⟩
    split <;> rfl
  | array word left ranges right of element ih =>
    have hdepth : depth + (element.arrays + 1) ≤ nestingMax + 1 := hroom
    have h₀ : a.cursor.ahead = word.val :: left.val ::
        (ranges.tokens RangeTree.tokens
          ++ right.val :: (of.val :: (element.tokens ++ u :: rest))) := by
      rw [h]
      simp [TypeTree.tokens]
    obtain ⟨hranges, hpass⟩ := readArrayRanges_of_tree h₀ fun t ht =>
      hlegible t (by simp [TypeTree.tokens, ht])
    have hof : a.readArrayRanges.2.cursor.ahead
        = of.val :: (element.tokens ++ u :: rest) :=
      hpass.ahead_eq (by rw [h₀]; simp)
    have hnext := passes_keyword hof
    obtain ⟨htype, hpass'⟩ := ih (depth + 1) (by omega)
      (hnext.ahead_eq hof) fun t ht =>
        hlegible t (by simp [TypeTree.tokens, ht])
    have hall := hpass.trans (hnext.trans hpass')
    have htokens : (TypeTree.array word left ranges right of element).tokens
        = word.val :: left.val ::
          (ranges.tokens RangeTree.tokens ++ [right.val])
            ++ ([of.val] ++ element.tokens) := by
      simp [TypeTree.tokens]
    have helements :
        readElements depth a.readArrayRanges.1 a.readArrayRanges.2
        = (.array (ranges.items.map RangeTree.value)
            (a.readArrayRanges.2.next.readType (depth + 1)).1,
          (a.readArrayRanges.2.next.readType (depth + 1)).2) := by
      rw [readElements_of_of _ _ (by rw [atKeyword_of_ahead hof, of.2]),
        hranges]
    have hinner : decide (0 < depth + 1) = true :=
      decide_eq_true (Nat.succ_pos depth)
    have harray : a.unreadKeyword "array" = true := by
      rw [unreadKeyword_of_ahead h₀, word.2]
    rw [hinner] at hall
    rw [htokens]
    unfold TypeTree.faults
    rcases Nat.eq_zero_or_pos depth with rfl | hnested
    · rw [readType_of_array harray, descend_of_le (by omega), helements]
      refine ⟨?_, ?_⟩
      · show VarType.array _ _ = VarType.array _ _
        rw [htype]
        rfl
      · show Passes a _ (_ ++ []) _
        rw [List.append_nil]
        exact hall
    · have hreport := hall.trans (passes_report _ word.val.pos .nestedArray)
      rw [List.append_nil] at hreport
      rw [readType_of_nested hnested harray, descend_of_le (by omega),
        helements, current_of_ahead h₀, if_pos hnested,
        if_pos (decide_eq_true hnested)]
      exact ⟨rfl, hreport⟩

-- =================================================================== names

/-- A symbol goes on with no name. -/
theorem gluedRun_of_symbol (hu : u.kind = .symbol) (n : Token)
    (rest : List Token) : gluedRun n (u :: rest) = [] := by
  unfold gluedRun
  rw [if_neg (by rw [hu]; exact fun hpart => absurd hpart.2 (by decide))]

/-- A name is read as written, where nothing goes on with it. -/
theorem readName_of_tree {n : NameLeaf}
    (h : a.cursor.ahead = n.val :: u :: rest)
    (hglued : gluedRun n.val (u :: rest) = []) (hlegible : n.val.Legible) :
    a.readName = (⟨n.val.text, n.val.pos⟩, a.next) := by
  have hnext := (passes_name h).ahead_tail h
  unfold readName
  simp only
  rw [current_of_ahead h, upcoming_of_ahead hnext, hglued]
  have hname : Text.join (List.map (·.text) [n.val]) = n.val.text :=
    List.append_nil _
  rw [hname, if_pos (hlegible.name n.2)]
  rfl

/-- Behind a name of a list stands a comma, or what follows the list. -/
theorem exists_head_behind_name (more : List (SymbolOf "," × NameLeaf))
    (u : Token) (rest : List Token) :
    ∃ v rest', CommaList.moreTokens (fun n : NameLeaf => [n.val]) more
          ++ u :: rest = v :: rest'
      ∧ (v.kind = .symbol ∨ v = u ∧ rest' = rest) := by
  cases more with
  | nil => exact ⟨u, rest, rfl, .inr ⟨rfl, rfl⟩⟩
  | cons item more =>
    exact ⟨item.1.val, _, rfl, .inl (Token.kind_of_isSymbol item.1.2)⟩

/-- The written names behind the first are read up to what follows them. -/
theorem readMoreNames_of_tree (more : List (SymbolOf "," × NameLeaf))
    (h : a.cursor.ahead = CommaList.moreTokens (fun n : NameLeaf => [n.val])
      more ++ u :: rest) (hu : u.isSymbol "," = false)
    (hglued : ∀ item ∈ more, gluedRun item.2.val (u :: rest) = [])
    (hlegible : ∀ item ∈ more, item.2.val.Legible) :
    a.readMoreNames.1
        = more.map (fun item => ⟨item.2.val.text, item.2.val.pos⟩)
      ∧ Passes a (CommaList.moreTokens (fun n : NameLeaf => [n.val]) more) []
        a.readMoreNames.2 := by
  induction more generalizing a with
  | nil =>
    have h₀ : a.cursor.ahead = u :: rest := h
    rw [readMoreNames, dif_neg (by
      rw [atSymbol_of_ahead h₀, hu]
      exact Bool.false_ne_true)]
    exact ⟨rfl, .refl a⟩
  | cons item more ih =>
    obtain ⟨comma, n⟩ := item
    have h₀ : a.cursor.ahead = comma.val :: n.val ::
        (CommaList.moreTokens (fun n : NameLeaf => [n.val]) more
          ++ u :: rest) := h
    have hcomma := passes_symbol h₀
    have h₁ := hcomma.ahead_tail h₀
    obtain ⟨v, rest', hrest', hv⟩ := exists_head_behind_name more u rest
    have hname := passes_name h₁
    have h₂ := hname.ahead_tail h₁
    rw [hrest'] at h₁
    have hglued' : gluedRun n.val (v :: rest') = [] := by
      rcases hv with hv | ⟨rfl, rfl⟩
      · exact gluedRun_of_symbol hv _ _
      · exact hglued (comma, n) List.mem_cons_self
    have hread := readName_of_tree h₁ hglued'
      (hlegible (comma, n) List.mem_cons_self)
    obtain ⟨hnames, hpass⟩ := ih h₂
      (fun item hitem => hglued item (List.mem_cons_of_mem _ hitem))
      fun item hitem => hlegible item (List.mem_cons_of_mem _ hitem)
    rw [readMoreNames, dif_pos (by rw [atSymbol_of_ahead h₀, comma.2]),
      dif_pos (by
        unfold atNameAfter
        rw [current_of_ahead h₁, n.2])]
    simp only
    rw [hread, hnames]
    exact ⟨rfl, hcomma.trans (hname.trans hpass)⟩

/-- A written list of names is read up to what follows it, if that is no
comma and goes on with no name. -/
theorem readNames_of_tree (names : CommaList NameLeaf)
    (h : a.cursor.ahead = names.tokens (fun n => [n.val]) ++ u :: rest)
    (hu : u.isSymbol "," = false)
    (hglued : ∀ n ∈ names.items, gluedRun n.val (u :: rest) = [])
    (hlegible : ∀ n ∈ names.items, n.val.Legible) :
    a.readNames.1 = names.items.map (fun n => ⟨n.val.text, n.val.pos⟩)
      ∧ Passes a (names.tokens fun n => [n.val]) [] a.readNames.2 := by
  obtain ⟨first, more⟩ := names
  have h₀ : a.cursor.ahead = first.val ::
      (CommaList.moreTokens (fun n : NameLeaf => [n.val]) more
        ++ u :: rest) := h
  obtain ⟨v, rest', hrest', hv⟩ := exists_head_behind_name more u rest
  have hname := passes_name h₀
  have h₁ := hname.ahead_tail h₀
  rw [hrest'] at h₀
  have hglued' : gluedRun first.val (v :: rest') = [] := by
    rcases hv with hv | ⟨rfl, rfl⟩
    · exact gluedRun_of_symbol hv _ _
    · exact hglued first List.mem_cons_self
  have hread := readName_of_tree h₀ hglued'
    (hlegible first List.mem_cons_self)
  have hmore : ∀ item ∈ more, item.2 ∈ (CommaList.mk first more).items :=
    fun item hitem => List.mem_cons_of_mem _ (List.mem_map_of_mem hitem)
  obtain ⟨hnames, hpass⟩ := readMoreNames_of_tree more h₁ hu
    (fun item hitem => hglued item.2 (hmore item hitem))
    fun item hitem => hlegible item.2 (hmore item hitem)
  unfold readNames
  simp only
  rw [hread, hnames, CommaList.map_items]
  exact ⟨rfl, hname.trans hpass⟩

end VarSection.Analysis
