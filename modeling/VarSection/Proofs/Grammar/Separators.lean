/-
The separators of a section: every colon and semicolon, the word `of`, the
brackets of an array, and the closing bracket of a sized string. In the
lexemes of a tree each of them stands in a place of its own, and a tree is
`PartedAt` such a place, by one rule for each. The rules are complete
(`SectionTree.exists_partedAt`): wherever a separator stands among the
lexemes of a section, it parts one of its declarations.

Of an opening bracket only the lexeme in front of it tells whether it is
that of an array. It is never the first lexeme of a part, so this is the
same among the lexemes of a section and among those of a part.
-/
import VarSection.Proofs.Analysis.Passage
import VarSection.Proofs.Grammar.Tree

namespace VarSection.Grammar

variable {before after front : List Token} {t : Token}

-- ======================================================= lists in two parts

/-- An item of two lists together lies in the first or in the second. -/
theorem split_of_append {α : Type} {xs ys before after : List α} {t : α}
    (h : xs ++ ys = before ++ t :: after) :
    (∃ rest, xs = before ++ t :: rest ∧ after = rest ++ ys)
      ∨ ∃ front, before = xs ++ front ∧ ys = front ++ t :: after := by
  rcases List.append_eq_append_iff.1 h with ⟨front, hbefore, hys⟩
    | ⟨rest, hxs, hafter⟩
  · exact .inr ⟨front, hbefore, hys⟩
  · cases rest with
    | nil =>
      rw [List.append_nil] at hxs
      exact .inr ⟨[], by rw [hxs, List.append_nil], hafter.symm⟩
    | cons u rest =>
      obtain ⟨rfl, hrest⟩ := List.cons.inj hafter
      exact .inl ⟨rest, hxs, hrest⟩

/-- An item behind another lies behind it, or is it. -/
theorem split_of_cons {α : Type} {x : α} {ys before after : List α} {t : α}
    (h : x :: ys = before ++ t :: after) :
    (before = [] ∧ t = x ∧ after = ys)
      ∨ ∃ front, before = x :: front ∧ ys = front ++ t :: after := by
  cases before with
  | nil =>
    obtain ⟨rfl, rfl⟩ := List.cons.inj h
    exact .inl ⟨rfl, rfl, rfl⟩
  | cons u before =>
    obtain ⟨rfl, hys⟩ := List.cons.inj h
    exact .inr ⟨before, rfl, hys⟩

/-- An item of many lists together lies in one of them. -/
theorem split_of_flatMap {α β : Type} {f : α → List β} {xs : List α}
    {before after : List β} {t : β}
    (h : xs.flatMap f = before ++ t :: after) :
    ∃ ys x zs front rest, xs = ys ++ x :: zs ∧ f x = front ++ t :: rest
      ∧ before = ys.flatMap f ++ front ∧ after = rest ++ zs.flatMap f := by
  induction xs generalizing before with
  | nil => exact absurd h.symm (List.append_ne_nil_of_right_ne_nil _
      (List.cons_ne_nil t after))
  | cons x xs ih =>
    rw [List.flatMap_cons] at h
    rcases split_of_append h with ⟨rest, hx, hafter⟩ | ⟨front, hbefore, hxs⟩
    · exact ⟨[], x, xs, before, rest, rfl, hx, rfl, hafter⟩
    · obtain ⟨ys, y, zs, inner, rest, rfl, hy, rfl, hafter⟩ := ih hxs
      exact ⟨x :: ys, y, zs, inner, rest, rfl, hy,
        by rw [hbefore, List.flatMap_cons, List.append_assoc], hafter⟩

-- ============================================================= separators

/-- Whether a lexeme is a separator, where others stand in front of it. -/
def Separates (before : List Token) (t : Token) : Prop :=
  t.isSymbol ":" = true ∨ t.isSymbol ";" = true ∨ t.isSymbol "]" = true
    ∨ t.isKeyword "of" = true
    ∨ t.isSymbol "[" = true ∧ before.getLast?.any (·.isKeyword "array") = true

instance (before : List Token) (t : Token) : Decidable (Separates before t) :=
  inferInstanceAs (Decidable (_ ∨ _))

/-- Where a separator is missed that stood between lexemes: a colon and a
semicolon right behind the lexeme in front of it, and any other at the lexeme
behind it. -/
def missedAt (before : List Token) (t : Token) (after : List Token) :
    Option Position :=
  if t.isSymbol ":" || t.isSymbol ";" then before.getLast?.map Token.endPos
  else after.head?.map Token.pos

/-- Of the lexemes in front only the last one counts. -/
theorem missedAt_of_front (hbefore : before ≠ []) :
    missedAt (front ++ before) t after = missedAt before t after := by
  unfold missedAt
  rw [List.getLast?_append, List.getLast?_eq_some_getLast hbefore,
    Option.some_or]

/-- A lexeme is a separator behind a part just when it is one behind all, if
it is no bracket at the beginning of the part. -/
theorem Separates.of_front (h : Separates (front ++ before) t)
    (hbefore : before = [] → t.isSymbol "[" = false) :
    Separates before t := by
  rcases h with h | h | h | h | ⟨h, harray⟩
  · exact .inl h
  · exact .inr (.inl h)
  · exact .inr (.inr (.inl h))
  · exact .inr (.inr (.inr (.inl h)))
  · refine .inr (.inr (.inr (.inr ⟨h, ?_⟩)))
    cases before with
    | nil =>
      rw [hbefore rfl] at h
      cases h
    | cons u before =>
      rwa [List.getLast?_append, List.getLast?_cons, Option.some_or,
        ← List.getLast?_cons] at harray

theorem Separates.kind (h : Separates before t) :
    t.kind = .symbol ∨ t.isKeyword "of" = true := by
  rcases h with h | h | h | h | ⟨h, -⟩
  · exact .inl (Token.kind_of_isSymbol h)
  · exact .inl (Token.kind_of_isSymbol h)
  · exact .inl (Token.kind_of_isSymbol h)
  · exact .inr h
  · exact .inl (Token.kind_of_isSymbol h)

theorem not_separates_of_kind (hsymbol : t.kind ≠ .symbol)
    (hkeyword : t.kind ≠ .keyword) : ¬ Separates before t := fun h =>
  h.kind.elim hsymbol fun hof => hkeyword (Token.kind_of_isKeyword hof)

theorem not_separates_of_isKeyword {w : Text} (h : t.isKeyword w = true)
    (hof : w ≠ "of") : ¬ Separates before t := by
  intro hsep
  rcases hsep.kind with hkind | hword
  · rw [Token.kind_of_isKeyword h] at hkind
    cases hkind
  · rw [Token.isKeyword_eq_false_of_ne h hof] at hword
    cases hword

/-- Among the symbols only three are separators wherever they stand, and one
is behind the word `array`. -/
theorem not_separates_of_isSymbol {s : Text} (h : t.isSymbol s = true)
    (hs : s ≠ ":" ∧ s ≠ ";" ∧ s ≠ "]")
    (hbracket : s = "[" → before.getLast?.any (·.isKeyword "array") = false) :
    ¬ Separates before t := by
  have hsame : ∀ {s' : Text}, t.isSymbol s' = true → s = s' := fun h' =>
    beq_iff_eq.1 ((Token.isSymbol_eq_of_isSymbol h _).symm.trans h')
  rintro (hcolon | hsemicolon | hright | hof | ⟨hleft, harray⟩)
  · exact hs.1 (hsame hcolon)
  · exact hs.2.1 (hsame hsemicolon)
  · exact hs.2.2 (hsame hright)
  · rw [Token.isKeyword_eq_false_of_kind
      (by rw [Token.kind_of_isSymbol h]; decide)] at hof
    cases hof
  · rw [hbracket (hsame hleft)] at harray
    cases harray

-- ============================================================= the leaves

/-- The lexemes of a list are those of its items, and commas. -/
theorem CommaList.mem_tokens_cases {α : Type} {written : α → List Token}
    {l : CommaList α} (h : t ∈ l.tokens written) :
    t.isSymbol "," = true ∨ ∃ x ∈ l.items, t ∈ written x := by
  unfold tokens moreTokens at h
  rcases List.mem_append.1 h with h | h
  · exact .inr ⟨l.first, List.mem_cons_self, h⟩
  · obtain ⟨item, hitem, h⟩ := List.mem_flatMap.1 h
    rcases List.mem_cons.1 h with rfl | h
    · exact .inl item.1.2
    · exact .inr ⟨item.2, List.mem_cons_of_mem _ (List.mem_map_of_mem hitem),
        h⟩

theorem not_separates_of_mem_ranges {ranges : CommaList RangeTree}
    (h : t ∈ ranges.tokens RangeTree.tokens) : ¬ Separates before t := by
  rcases CommaList.mem_tokens_cases h with hcomma | ⟨r, -, hr⟩
  · exact not_separates_of_isSymbol hcomma (by decide)
      fun h => absurd h (by decide)
  · simp only [RangeTree.tokens, List.mem_cons, List.not_mem_nil, or_false]
      at hr
    rcases hr with rfl | rfl | rfl
    · exact not_separates_of_kind (by rw [r.low.2]; decide)
        (by rw [r.low.2]; decide)
    · exact not_separates_of_isSymbol r.dots.2 (by decide)
        fun h => absurd h (by decide)
    · exact not_separates_of_kind (by rw [r.high.2]; decide)
        (by rw [r.high.2]; decide)

theorem not_separates_of_mem_names {names : CommaList NameLeaf}
    (h : t ∈ names.tokens fun n => [n.val]) : ¬ Separates before t := by
  rcases CommaList.mem_tokens_cases h with hcomma | ⟨n, -, hn⟩
  · exact not_separates_of_isSymbol hcomma (by decide)
      fun h => absurd h (by decide)
  · rw [List.mem_singleton.1 hn]
    exact not_separates_of_kind (by rw [n.2]; decide) (by rw [n.2]; decide)

-- ================================================================== types

/-- Where a type that is no array is parted: at the bracket behind a size. -/
inductive SimpleTree.PartedAt :
    SimpleTree → List Token → Token → List Token → Prop
  | size (word : KeywordOf "string") (left : SymbolOf "[")
      (size : IntegerLeaf) (right : SymbolOf "]") :
      PartedAt (.sized word left size right)
        [word.val, left.val, size.val] right.val []

/-- Where a type is parted: at the brackets of an array, at the word in
front of its elements, and where the type of these is. -/
inductive TypeTree.PartedAt :
    TypeTree → List Token → Token → List Token → Prop
  | simple {s : SimpleTree} {before after : List Token} {t : Token}
      (h : s.PartedAt before t after) : PartedAt (.simple s) before t after
  | left (word : KeywordOf "array") (left : SymbolOf "[")
      (ranges : CommaList RangeTree) (right : SymbolOf "]")
      (of : KeywordOf "of") (element : TypeTree) :
      PartedAt (.array word left ranges right of element) [word.val] left.val
        (ranges.tokens RangeTree.tokens
          ++ right.val :: of.val :: element.tokens)
  | right (word : KeywordOf "array") (left : SymbolOf "[")
      (ranges : CommaList RangeTree) (right : SymbolOf "]")
      (of : KeywordOf "of") (element : TypeTree) :
      PartedAt (.array word left ranges right of element)
        (word.val :: left.val :: ranges.tokens RangeTree.tokens) right.val
        (of.val :: element.tokens)
  | of (word : KeywordOf "array") (left : SymbolOf "[")
      (ranges : CommaList RangeTree) (right : SymbolOf "]")
      (of : KeywordOf "of") (element : TypeTree) :
      PartedAt (.array word left ranges right of element)
        (word.val :: left.val ::
          (ranges.tokens RangeTree.tokens ++ [right.val])) of.val
        element.tokens
  | element (word : KeywordOf "array") (left : SymbolOf "[")
      (ranges : CommaList RangeTree) (right : SymbolOf "]")
      (of : KeywordOf "of") {element : TypeTree}
      {before after : List Token} {t : Token}
      (h : PartedAt element before t after) :
      PartedAt (.array word left ranges right of element)
        (word.val :: left.val ::
          (ranges.tokens RangeTree.tokens ++ right.val :: of.val :: before))
        t after

theorem SimpleTree.partedAt_of_tokens {s : SimpleTree}
    (h : s.tokens = before ++ t :: after) (hsep : Separates before t) :
    s.PartedAt before t after := by
  cases s with
  | scalar word =>
    rcases split_of_cons h with ⟨-, rfl, -⟩ | ⟨front, -, hfront⟩
    · have hword : word.val.isKeyword (Text.lower word.val.text) = true := by
        unfold Token.isKeyword
        rw [word.2.1, BEq.rfl, BEq.rfl, Bool.and_self]
      exact absurd hsep (not_separates_of_isKeyword hword fun hof =>
        absurd (hof ▸ word.2.2) (by decide))
    · cases front <;> cases hfront
  | string word =>
    rcases split_of_cons h with ⟨-, rfl, -⟩ | ⟨front, -, hfront⟩
    · exact absurd hsep (not_separates_of_isKeyword word.2 (by decide))
    · cases front <;> cases hfront
  | sized word left size right =>
    rcases split_of_cons h with ⟨-, rfl, -⟩ | ⟨_, rfl, h₁⟩
    · exact absurd hsep (not_separates_of_isKeyword word.2 (by decide))
    rcases split_of_cons h₁ with ⟨rfl, rfl, -⟩ | ⟨_, rfl, h₂⟩
    · exact absurd hsep (not_separates_of_isSymbol left.2 (by decide)
        fun _ => Token.isKeyword_eq_false_of_ne word.2 (by decide))
    rcases split_of_cons h₂ with ⟨-, rfl, -⟩ | ⟨_, rfl, h₃⟩
    · exact absurd hsep (not_separates_of_kind (by rw [size.2]; decide)
        (by rw [size.2]; decide))
    rcases split_of_cons h₃ with ⟨rfl, rfl, rfl⟩ | ⟨front, -, h₄⟩
    · exact .size word left size right
    · cases front <;> cases h₄

/-- No type begins with an opening bracket. -/
theorem TypeTree.exists_head (ty : TypeTree) :
    ∃ word rest, ty.tokens = word :: rest ∧ word.kind = .keyword := by
  cases ty with
  | simple s =>
    cases s with
    | scalar word => exact ⟨_, _, rfl, word.2.1⟩
    | string word => exact ⟨_, _, rfl, Token.kind_of_isKeyword word.2⟩
    | sized word => exact ⟨_, _, rfl, Token.kind_of_isKeyword word.2⟩
  | array word => exact ⟨_, _, rfl, Token.kind_of_isKeyword word.2⟩

/-- Inside a type neither colons nor semicolons are missed. -/
theorem TypeTree.PartedAt.missedAt {ty : TypeTree}
    (h : ty.PartedAt before t after) (front rest : List Token) :
    missedAt front t rest = rest.head?.map Token.pos := by
  have hother : t.isSymbol ":" = false ∧ t.isSymbol ";" = false := by
    induction h with
    | simple h =>
      cases h with
      | size _ _ _ right =>
        exact ⟨Token.isSymbol_eq_false_of_ne right.2 (by decide),
          Token.isSymbol_eq_false_of_ne right.2 (by decide)⟩
    | left _ bracket | right _ _ _ bracket =>
      exact ⟨Token.isSymbol_eq_false_of_ne bracket.2 (by decide),
        Token.isSymbol_eq_false_of_ne bracket.2 (by decide)⟩
    | of _ _ _ _ of =>
      have hkind : of.val.kind ≠ .symbol := by
        rw [Token.kind_of_isKeyword of.2]
        decide
      exact ⟨Token.isSymbol_eq_false_of_kind hkind _,
        Token.isSymbol_eq_false_of_kind hkind _⟩
    | element _ _ _ _ _ _ ih => exact ih
  unfold Grammar.missedAt
  rw [hother.1, hother.2]
  rfl

/-- Wherever a separator stands among the lexemes of a type, it parts it. -/
theorem TypeTree.partedAt_of_tokens {ty : TypeTree}
    (h : ty.tokens = before ++ t :: after) (hsep : Separates before t) :
    ty.PartedAt before t after := by
  induction ty generalizing before after with
  | simple s => exact .simple (SimpleTree.partedAt_of_tokens h hsep)
  | array word left ranges right of element ih =>
    rcases split_of_cons h with ⟨-, rfl, -⟩ | ⟨_, rfl, h₁⟩
    · exact absurd hsep (not_separates_of_isKeyword word.2 (by decide))
    rcases split_of_cons h₁ with ⟨rfl, rfl, rfl⟩ | ⟨_, rfl, h₂⟩
    · exact .left word left ranges right of element
    rcases split_of_append h₂ with ⟨rest, hranges, -⟩ | ⟨_, rfl, h₃⟩
    · exact absurd hsep (not_separates_of_mem_ranges (by
        rw [hranges]
        exact List.mem_append_right _ List.mem_cons_self))
    rcases split_of_cons h₃ with ⟨rfl, rfl, rfl⟩ | ⟨_, rfl, h₄⟩
    · rw [List.append_nil]
      exact .right word left ranges right of element
    rcases split_of_cons h₄ with ⟨rfl, rfl, rfl⟩ | ⟨inner, rfl, h₅⟩
    · exact .of word left ranges right of element
    refine .element word left ranges right of (ih h₅ ?_)
    rw [List.append_cons _ right.val, List.append_cons _ of.val,
      ← List.cons_append, ← List.cons_append] at hsep
    refine hsep.of_front fun hinner => ?_
    obtain ⟨head, _, hhead, hkind⟩ := element.exists_head
    rw [hinner, hhead] at h₅
    rw [← (List.cons.inj h₅).1]
    exact Token.isSymbol_eq_false_of_kind (by rw [hkind]; decide) _

-- ============================================== declarations and sections

/-- Where a declaration is parted: at its colon, at its semicolon, and where
its type is. -/
inductive DeclarationTree.PartedAt (d : DeclarationTree) :
    List Token → Token → List Token → Prop
  | colon : PartedAt d (d.names.tokens fun n => [n.val]) d.colon.val
      (d.type.tokens ++ [d.semicolon.val])
  | type {before after : List Token} {t : Token}
      (h : d.type.PartedAt before t after) :
      PartedAt d ((d.names.tokens fun n => [n.val]) ++ d.colon.val :: before)
        t (after ++ [d.semicolon.val])
  | semicolon : PartedAt d
      ((d.names.tokens fun n => [n.val]) ++ d.colon.val :: d.type.tokens)
      d.semicolon.val []

/-- In front of a separator of a declaration stands its first name. -/
theorem DeclarationTree.PartedAt.exists_head {d : DeclarationTree}
    (h : d.PartedAt before t after) :
    ∃ front, before = d.names.first.val :: front := by
  cases h with
  | colon => exact ⟨_, rfl⟩
  | type => exact ⟨_, rfl⟩
  | semicolon => exact ⟨_, rfl⟩

theorem DeclarationTree.partedAt_of_tokens {d : DeclarationTree}
    (h : d.tokens = before ++ t :: after) (hsep : Separates before t) :
    d.PartedAt before t after := by
  rcases split_of_append h with ⟨rest, hnames, -⟩ | ⟨_, rfl, h₁⟩
  · exact absurd hsep (not_separates_of_mem_names (by
      rw [hnames]
      exact List.mem_append_right _ List.mem_cons_self))
  rcases split_of_cons h₁ with ⟨rfl, rfl, rfl⟩ | ⟨front, rfl, h₂⟩
  · rw [List.append_nil]
    exact .colon
  rcases split_of_append h₂ with ⟨rest, htype, rfl⟩ | ⟨_, rfl, h₃⟩
  · refine .type (TypeTree.partedAt_of_tokens htype ?_)
    rw [List.append_cons] at hsep
    refine hsep.of_front fun hfront => ?_
    obtain ⟨head, _, hhead, hkind⟩ := d.type.exists_head
    rw [hfront, hhead] at htype
    rw [← (List.cons.inj htype).1]
    exact Token.isSymbol_eq_false_of_kind (by rw [hkind]; decide) _
  rcases split_of_cons h₃ with ⟨rfl, rfl, rfl⟩ | ⟨front, -, h₄⟩
  · rw [List.append_nil]
    exact .semicolon
  · cases front <;> cases h₄

/-- Wherever a separator stands among the lexemes of a section, it parts one
of the declarations. -/
theorem SectionTree.exists_partedAt {s : SectionTree}
    (h : s.tokens = before ++ t :: after) (hsep : Separates before t) :
    ∃ blocks word ds d ds' blocks' inner rest,
      s.blocks = blocks ++ ⟨word, ds ++ d :: ds'⟩ :: blocks'
      ∧ d.PartedAt inner t rest
      ∧ before = blocks.flatMap BlockTree.tokens
          ++ word.val :: (ds.flatMap DeclarationTree.tokens ++ inner)
      ∧ after = rest ++ (ds'.flatMap DeclarationTree.tokens
          ++ blocks'.flatMap BlockTree.tokens) := by
  obtain ⟨blocks, ⟨word, all⟩, blocks', front, rest, hblocks, hblock, rfl,
    rfl⟩ := split_of_flatMap h
  rcases split_of_cons hblock with ⟨-, rfl, -⟩ | ⟨_, rfl, hall⟩
  · exact absurd hsep (not_separates_of_isKeyword word.2 (by decide))
  obtain ⟨ds, d, ds', inner, rest, rfl, hd, rfl, rfl⟩ :=
    split_of_flatMap hall
  refine ⟨blocks, word, ds, d, ds', blocks', inner, rest, hblocks,
    d.partedAt_of_tokens hd ?_, rfl, List.append_assoc ..⟩
  rw [← List.cons_append, ← List.append_assoc] at hsep
  refine hsep.of_front fun hinner => ?_
  rw [hinner] at hd
  have hhead : t = d.names.first.val := (List.cons.inj hd).1.symm
  rw [hhead]
  exact Token.isSymbol_eq_false_of_kind
    (by rw [d.names.first.2]; decide) _

end VarSection.Grammar
