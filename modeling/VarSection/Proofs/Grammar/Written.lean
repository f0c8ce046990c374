/-
What is written of declarations, read as trees. A declaration can stand in a
section if its names are words and no keywords, and its type is one that the
grammar can write and no check refuses (`Declaration.Declarable`). What is
written of it is then read as a tree that stands for it, and so are the texts
of declarations that are joined by spaces and line feeds (`Rendered`).

`Spells` says of a text that it stands for something: wherever it is
written, it is read as the lexemes of a tree with that meaning, as long as
no word goes on behind it. The texts of names, ranges, types and
declarations spell what they are written from, one statement for each, and a
list with commas spells the list of what its items spell.
-/
import VarSection.Proofs.Grammar.Tree
import VarSection.Proofs.Scanner.Written

namespace VarSection

-- ==================================================== what can be declared

/-- A word that is no keyword can be a name. -/
structure Text.IsName (name : Text) : Prop where
  word : name.IsWord
  notKeyword : isKeyword name = false

/-- Bounds in order, with not too many digits, can be declared. -/
structure IndexRange.Declarable (r : IndexRange) : Prop where
  ordered : r.low ≤ r.high
  low : r.low.natAbs < 10 ^ integerDigitsMax
  high : r.high.natAbs < 10 ^ integerDigitsMax

/-- The types that are no arrays and can be declared. -/
def VarType.Simple : VarType → Prop
  | .scalar name => name ∈ scalarTypes
  | .string none => True
  | .string (some size) => stringSizeMin ≤ size ∧ size ≤ stringSizeMax
  | .array _ _ | .unknown | .missing => False

/-- The types that can be declared. -/
def VarType.Declarable : VarType → Prop
  | .array ranges element =>
    ranges ≠ [] ∧ (∀ r ∈ ranges, r.Declarable) ∧ element.Simple
  | type => type.Simple

/-- What a declaration declares: its names and their type. -/
def Declaration.content (d : Declaration) : List Text × VarType :=
  (d.names.map (·.name), d.type)

/-- A declaration that can stand in a section. -/
structure Declaration.Declarable (d : Declaration) : Prop where
  named : d.names ≠ []
  names : ∀ n ∈ d.names, n.name.IsName
  type : d.type.Declarable

/-- Declarations that can stand in one section: no name is declared twice, in
upper or lower case. -/
structure Declarable (ds : List Declaration) : Prop where
  each : ∀ d ∈ ds, d.Declarable
  distinct : ((ds.flatMap (·.content.1)).map Text.lower).Nodup

/-- The texts of declarations, joined by spaces and line feeds. -/
inductive Rendered : List Declaration → Text → Prop
  | none : Rendered [] []
  | last (d : Declaration) : Rendered [d] d.written
  | more {d : Declaration} {ds : List Declaration} {w : Text} {c : CodePoint}
      (hds : ds ≠ []) (hc : c = CodePoint.char ' ' ∨ c = CodePoint.char '\n')
      (hrest : Rendered ds w) : Rendered (d :: ds) (d.written ++ c :: w)

-- all but the joining can be decided

instance (name : Text) : Decidable name.IsName :=
  decidable_of_iff (_ ∧ _)
    ⟨fun h => ⟨h.1, h.2⟩, fun h => ⟨h.word, h.notKeyword⟩⟩

instance (r : IndexRange) : Decidable r.Declarable :=
  decidable_of_iff (_ ∧ _ ∧ _)
    ⟨fun h => ⟨h.1, h.2.1, h.2.2⟩, fun h => ⟨h.ordered, h.low, h.high⟩⟩

instance : (type : VarType) → Decidable type.Simple
  | .scalar name => inferInstanceAs (Decidable (name ∈ scalarTypes))
  | .string none => .isTrue trivial
  | .string (some _) => inferInstanceAs (Decidable (_ ∧ _))
  | .array _ _ | .unknown | .missing => .isFalse id

instance : (type : VarType) → Decidable type.Declarable
  | .array _ _ => inferInstanceAs (Decidable (_ ≠ [] ∧ _ ∧ _))
  | .scalar name => inferInstanceAs (Decidable (VarType.Simple (.scalar name)))
  | .string size => inferInstanceAs (Decidable (VarType.Simple (.string size)))
  | .unknown | .missing => .isFalse id

instance (d : Declaration) : Decidable d.Declarable :=
  decidable_of_iff (_ ≠ [] ∧ _ ∧ _)
    ⟨fun h => ⟨h.1, h.2.1, h.2.2⟩, fun h => ⟨h.named, h.names, h.type⟩⟩

instance (ds : List Declaration) : Decidable (Declarable ds) :=
  decidable_of_iff (_ ∧ _)
    ⟨fun h => ⟨h.1, h.2⟩, fun h => ⟨h.each, h.distinct⟩⟩

-- ========================================================= texts and trees

/-- Where no word goes on behind it, a text is read as the lexemes of a tree
that stands for `x`. -/
def Spells {α β : Type} (value : α → β) (tokens : α → List Token) (w : Text)
    (x : β) : Prop :=
  ∀ (p : Position) (rest : Text), rest.head?.any isNameChar = false →
    ∃ (tree : α) (q : Position),
      value tree = x ∧ ReadAs p w rest (tokens tree) q

open Grammar

/-- Symbols that no other character goes on with are read in front of any
text. -/
theorem readAs_symbol {s : Text}
    (hs : s ∈ ([",", ";", "[", "]"] : List Text)) (p : Position)
    (rest : Text) :
    ∃ (x : SymbolOf s) (q : Position), ReadAs p s rest [x.val] q := by
  simp only [List.mem_cons, List.not_mem_nil, or_false] at hs
  rcases hs with rfl | rfl | rfl | rfl
  · exact ⟨symbolAt "," p, _, ReadAs.solitary (by decide) p rest⟩
  · exact ⟨symbolAt ";" p, _, ReadAs.solitary (by decide) p rest⟩
  · exact ⟨symbolAt "[" p, _, ReadAs.solitary (by decide) p rest⟩
  · exact ⟨symbolAt "]" p, _, ReadAs.solitary (by decide) p rest⟩

theorem readAs_dots (p : Position) (rest : Text) :
    ∃ (dots : SymbolOf "..") (q : Position),
      ReadAs p ".." rest [dots.val] q :=
  ⟨symbolAt ".." p, _,
    ReadAs.symbol (c := .char '.') (w := [.char '.']) rfl p⟩

theorem readAs_space (p : Position) (rest : Text) :
    ∃ q : Position, ReadAs p " " rest [] q :=
  ⟨_, ReadAs.blank (by decide) p rest⟩

/-- A comma with its space stands between two items. -/
theorem readAs_comma (p : Position) (rest : Text) :
    ∃ (comma : SymbolOf ",") (q : Position),
      ReadAs p ", " rest [comma.val] q := by
  obtain ⟨comma, q₁, hcomma⟩ :=
    readAs_symbol (s := ",") (by decide) p (" " ++ rest)
  obtain ⟨q₂, hspace⟩ := readAs_space q₁ rest
  exact ⟨comma, q₂, hcomma.trans hspace⟩

/-- A colon with its space stands in front of a type. -/
theorem readAs_colon (p : Position) (rest : Text) :
    ∃ (colon : SymbolOf ":") (q : Position),
      ReadAs p ": " rest [colon.val] q := by
  have hlead : Lead.read (.char ':') (([] : Text) ++ (" " ++ rest : Text))
      = .lexeme .symbol [] := rfl
  obtain ⟨q, hspace⟩ := readAs_space _ rest
  exact ⟨symbolAt ":" p, q, (ReadAs.symbol hlead p).trans hspace⟩

/-- A keyword is read as one where no word goes on with it. -/
theorem readAs_keyword {w : Text} (hw : w ∈ keywords) (p : Position)
    (rest : Text) (hrest : rest.head?.any isNameChar = false) :
    ∃ (word : KeywordOf w) (q : Position), ReadAs p w rest [word.val] q := by
  have hwords : ∀ w ∈ keywords, (w.head?.any isNameStart = true
      ∧ ∀ c ∈ w, isNameChar c = true)
        ∧ Lead.wordKind w = .keyword ∧ Text.lower w = w := by decide
  obtain ⟨⟨hstart, hchars⟩, hkind, hlower⟩ := hwords w hw
  have hread := ReadAs.word ⟨hstart, hchars⟩ hrest p
  rw [hkind] at hread
  exact ⟨keywordAt w p hlower, _, hread⟩

-- ======================================================== names and ranges

theorem spells_name {name : Text} (h : name.IsName) :
    Spells (fun n : NameLeaf => n.val.text) (fun n => [n.val]) name name := by
  intro p rest hrest
  have hkind : Lead.wordKind name = .identifier := by
    unfold Lead.wordKind
    rw [if_neg (by simp [h.notKeyword])]
  have hread := ReadAs.word h.word hrest p
  rw [hkind] at hread
  exact ⟨nameAt name p, _, rfl, hread⟩

theorem readAs_integer {n : Int} (h : n.natAbs < 10 ^ integerDigitsMax)
    (p : Position) (rest : Text) (hrest : rest.head?.any isDigit = false) :
    ∃ (leaf : IntegerLeaf) (q : Position), leaf.value = n
      ∧ ReadAs p (Text.ofInt n) rest [leaf.val] q :=
  ⟨integerAt (Text.ofInt n) p, _, Numeral.value_ofInt n,
    ReadAs.integer h hrest p⟩

theorem isDigit_of_isNameChar {rest : Text}
    (h : rest.head?.any isNameChar = false) :
    rest.head?.any isDigit = false := by
  cases rest with
  | nil => rfl
  | cons c rest => exact (Bool.or_eq_false_iff.1 h).2

theorem spells_range {r : IndexRange} (h : r.Declarable) :
    Spells RangeTree.value RangeTree.tokens r.written r := by
  intro p rest hrest
  obtain ⟨low, q₁, hlow, hread₁⟩ :=
    readAs_integer h.low p (".." ++ (Text.ofInt r.high ++ rest)) rfl
  obtain ⟨dots, q₂, hread₂⟩ := readAs_dots q₁ (Text.ofInt r.high ++ rest)
  obtain ⟨high, q₃, hhigh, hread₃⟩ :=
    readAs_integer h.high q₂ rest (isDigit_of_isNameChar hrest)
  refine ⟨⟨low, dots, high⟩, q₃, ?_, ?_⟩
  · unfold RangeTree.value
    rw [hlow, hhigh]
  · exact (hread₁.trans hread₂).trans hread₃

/-- A list with commas spells what its items spell. -/
theorem spells_list {α β : Type} {value : α → β} {tokens : α → List Token}
    (written : β → Text) {xs : List β} (hne : xs ≠ [])
    (h : ∀ x ∈ xs, Spells value tokens (written x) x) :
    Spells (fun l : CommaList α => l.items.map value)
      (CommaList.tokens tokens) (Text.joinWith ", " (xs.map written)) xs := by
  obtain ⟨x, xs, rfl⟩ := List.exists_cons_of_ne_nil hne
  clear hne
  induction xs generalizing x with
  | nil =>
    intro p rest hrest
    obtain ⟨tree, q, hvalue, hread⟩ := h x List.mem_cons_self p rest hrest
    refine ⟨⟨tree, []⟩, q, ?_, ?_⟩
    · simp [CommaList.items, hvalue]
    · simpa [CommaList.tokens, CommaList.moreTokens, Text.joinWith] using hread
  | cons y ys ih =>
    intro p rest hrest
    have hitems : ∀ z ∈ y :: ys, Spells value tokens (written z) z := by
      intro z hz
      exact h z (List.mem_cons_of_mem x hz)
    -- behind each item but the last stands a comma, where words end
    obtain ⟨tree, q₁, hvalue, hread₁⟩ := h x List.mem_cons_self p
      (", " ++ (Text.joinWith ", " ((y :: ys).map written) ++ rest)) rfl
    obtain ⟨comma, q₂, hread₂⟩ := readAs_comma q₁
      (Text.joinWith ", " ((y :: ys).map written) ++ rest)
    obtain ⟨⟨second, more⟩, q₃, hvalues, hread₃⟩ := ih y hitems q₂ rest hrest
    refine ⟨⟨tree, (comma, second) :: more⟩, q₃, ?_, ?_⟩
    · rw [← hvalues, ← hvalue]
      rfl
    · have hread := (hread₁.trans hread₂).trans hread₃
      simpa [CommaList.tokens, CommaList.moreTokens, Text.joinWith,
        List.intercalate_cons_cons, List.append_assoc] using hread

-- =================================================================== types

theorem spells_scalar {name : Text} (h : name ∈ scalarTypes) :
    Spells SimpleTree.type SimpleTree.tokens name (.scalar name) := by
  intro p rest hrest
  have hkeyword : ∀ w ∈ scalarTypes, w ∈ keywords := by decide
  obtain ⟨⟨word, hword⟩, q, hread⟩ :=
    readAs_keyword (hkeyword name h) p rest hrest
  have hboth := hword
  simp only [Token.isKeyword, Bool.and_eq_true, beq_iff_eq] at hboth
  obtain ⟨hkind, hlower⟩ := hboth
  refine ⟨.scalar ⟨word, hkind, ?_⟩, q, ?_, hread⟩
  · rw [hlower]
    exact h
  · show VarType.scalar (Text.lower word.text) = _
    rw [hlower]

/-- A size that is admitted has not too many digits. -/
theorem natAbs_lt_of_admitted {size : Int} (h : stringSizeMin ≤ size)
    (h' : size ≤ stringSizeMax) : size.natAbs < 10 ^ integerDigitsMax := by
  have hfew : size.natAbs < 10 ^ 3 := by
    unfold stringSizeMin at h
    unfold stringSizeMax at h'
    omega
  apply Nat.lt_of_lt_of_le hfew
  exact Nat.pow_le_pow_right (by decide) (by decide)

theorem spells_sized {size : Int} (h : stringSizeMin ≤ size)
    (h' : size ≤ stringSizeMax) :
    Spells SimpleTree.type SimpleTree.tokens
      (VarType.written (.string (some size))) (.string (some size)) := by
  intro p rest hrest
  obtain ⟨word, q₁, hread₁⟩ := readAs_keyword (w := "string") (by decide) p
    ("[" ++ (Text.ofInt size ++ ("]" ++ rest))) rfl
  obtain ⟨left, q₂, hread₂⟩ := readAs_symbol (s := "[") (by decide) q₁
    (Text.ofInt size ++ ("]" ++ rest))
  obtain ⟨n, q₃, hn, hread₃⟩ :=
    readAs_integer (natAbs_lt_of_admitted h h') q₂ ("]" ++ rest) rfl
  obtain ⟨right, q₄, hread₄⟩ :=
    readAs_symbol (s := "]") (by decide) q₃ rest
  refine ⟨.sized word left n right, q₄, ?_, ?_⟩
  · show VarType.string (some n.value) = _
    rw [hn]
  · exact ((hread₁.trans hread₂).trans hread₃).trans hread₄

theorem spells_simple {ty : VarType} (h : ty.Simple) :
    Spells SimpleTree.type SimpleTree.tokens ty.written ty := by
  cases ty with
  | scalar name => exact spells_scalar h
  | string size =>
    cases size with
    | none =>
      intro p rest hrest
      obtain ⟨word, q, hread⟩ :=
        readAs_keyword (w := "string") (by decide) p rest hrest
      exact ⟨.string word, q, rfl, hread⟩
    | some size => exact spells_sized h.1 h.2
  | array => cases h
  | unknown => cases h
  | missing => cases h

/-- The word for an array stands in front of the index ranges. -/
theorem readAs_arrayOpening (p : Position) (rest : Text) :
    ∃ (word : KeywordOf "array") (left : SymbolOf "[") (q : Position),
      ReadAs p "array[" rest [word.val, left.val] q := by
  obtain ⟨word, q₁, hword⟩ :=
    readAs_keyword (w := "array") (by decide) p ("[" ++ rest) rfl
  obtain ⟨left, q₂, hleft⟩ := readAs_symbol (s := "[") (by decide) q₁ rest
  exact ⟨word, left, q₂, hword.trans hleft⟩

/-- The index ranges are closed in front of the elements. -/
theorem readAs_arrayClosing (p : Position) (rest : Text) :
    ∃ (right : SymbolOf "]") (of : KeywordOf "of") (q : Position),
      ReadAs p "] of " rest [right.val, of.val] q := by
  obtain ⟨right, q₁, hright⟩ := readAs_symbol (s := "]") (by decide) p
    (" " ++ ("of" ++ (" " ++ rest)))
  obtain ⟨q₂, hspace⟩ := readAs_space q₁ ("of" ++ (" " ++ rest))
  obtain ⟨of, q₃, hof⟩ :=
    readAs_keyword (w := "of") (by decide) q₂ (" " ++ rest) rfl
  obtain ⟨q₄, hspace'⟩ := readAs_space q₃ rest
  exact ⟨right, of, q₄, ((hright.trans hspace).trans hof).trans hspace'⟩

theorem spells_array {ranges : List IndexRange} {element : VarType}
    (hne : ranges ≠ []) (hranges : ∀ r ∈ ranges, r.Declarable)
    (helement : element.Simple) :
    Spells TypeTree.type TypeTree.tokens
      (VarType.written (.array ranges element)) (.array ranges element) := by
  intro p rest hrest
  have hlist := spells_list IndexRange.written hne
    fun r hr => spells_range (hranges r hr)
  obtain ⟨word, left, q₁, hopening⟩ := readAs_arrayOpening p
    (Text.joinWith ", " (ranges.map IndexRange.written)
      ++ ("] of " ++ (element.written ++ rest)))
  obtain ⟨items, q₂, hitems, hread⟩ :=
    hlist q₁ ("] of " ++ (element.written ++ rest)) rfl
  obtain ⟨right, of, q₃, hclosing⟩ :=
    readAs_arrayClosing q₂ (element.written ++ rest)
  obtain ⟨s, q₄, hs, hread'⟩ := spells_simple helement q₃ rest hrest
  refine ⟨.array word left items right of (.simple s), q₄, ?_, ?_⟩
  · show VarType.array (items.items.map RangeTree.value) s.type = _
    rw [hs]
    exact congrArg (VarType.array · element) hitems
  · have hall := ((hopening.trans hread).trans hclosing).trans hread'
    simpa [VarType.written, TypeTree.tokens, List.append_assoc] using hall

theorem spells_type {ty : VarType} (h : ty.Declarable) :
    Spells TypeTree.type TypeTree.tokens ty.written ty := by
  have hsimple : ty.Simple → Spells TypeTree.type TypeTree.tokens
      ty.written ty := by
    intro h p rest hrest
    obtain ⟨s, q, hs, hread⟩ := spells_simple h p rest hrest
    exact ⟨.simple s, q, hs, hread⟩
  cases ty with
  | array ranges element => exact spells_array h.1 h.2.1 h.2.2
  | scalar => exact hsimple h
  | string => exact hsimple h
  | unknown => exact hsimple h
  | missing => exact hsimple h

-- ============================================================ declarations

theorem spells_declaration {d : Declaration} (h : d.Declarable) :
    Spells (fun tree : DeclarationTree => tree.declaration.content)
      DeclarationTree.tokens d.written d.content := by
  intro p rest hrest
  have hnames : ∀ name ∈ d.names.map (·.name),
      Spells (fun n : NameLeaf => n.val.text) (fun n => [n.val]) name name := by
    intro name hname
    obtain ⟨n, hn, rfl⟩ := List.mem_map.1 hname
    exact spells_name (h.names n hn)
  have hlist := spells_list id (mt List.map_eq_nil_iff.1 h.named) hnames
  rw [List.map_id] at hlist
  obtain ⟨names, q₁, hnames, hread₁⟩ :=
    hlist p (": " ++ (d.type.written ++ (";" ++ rest))) rfl
  obtain ⟨colon, q₂, hread₂⟩ :=
    readAs_colon q₁ (d.type.written ++ (";" ++ rest))
  obtain ⟨ty, q₃, hty, hread₃⟩ := spells_type h.type q₂ (";" ++ rest) rfl
  obtain ⟨semi, q₄, hread₄⟩ := readAs_symbol (s := ";") (by decide) q₃ rest
  refine ⟨⟨names, colon, ty, semi⟩, q₄, ?_, ?_⟩
  · unfold Declaration.content
    rw [← hty, ← hnames]
    simp [DeclarationTree.declaration, DeclarationTree.identifiers]
  · have hread := ((hread₁.trans hread₂).trans hread₃).trans hread₄
    simpa [Declaration.written, DeclarationTree.tokens, List.append_assoc]
      using hread

/-- Rendered declarations are read as trees that stand for them. -/
theorem readAs_rendered {ds : List Declaration} {w : Text}
    (hw : Rendered ds w) (h : ∀ d ∈ ds, d.Declarable) (p : Position) :
    ∃ (trees : List DeclarationTree) (q : Position),
      trees.map (·.declaration.content) = ds.map Declaration.content
        ∧ ReadAs p w [] (trees.flatMap DeclarationTree.tokens) q := by
  induction hw generalizing p with
  | none => exact ⟨[], p, rfl, .nil p []⟩
  | last d =>
    obtain ⟨tree, q, hcontent, hread⟩ :=
      spells_declaration (h d List.mem_cons_self) p [] rfl
    refine ⟨[tree], q, by simp [hcontent], ?_⟩
    simpa using hread
  | @more d ds w c hds hc hrest ih =>
    have hblank : isBlank c = true := by
      rcases hc with rfl | rfl <;> decide
    have hnext : Option.any isNameChar ([c] ++ (w ++ [])).head? = false := by
      rcases hc with rfl | rfl <;> rfl
    obtain ⟨tree, q₁, hcontent, hread₁⟩ :=
      spells_declaration (h d List.mem_cons_self) p ([c] ++ (w ++ [])) hnext
    have hread₂ := ReadAs.blank hblank q₁ (w ++ [])
    obtain ⟨trees, q₃, hcontents, hread₃⟩ :=
      ih (fun d' hd' => h d' (List.mem_cons_of_mem d hd')) _
    refine ⟨tree :: trees, q₃, ?_, ?_⟩
    · rw [List.map_cons, List.map_cons, hcontents]
      exact congrArg (· :: _) hcontent
    · have hread := (hread₁.trans hread₂).trans hread₃
      simpa using hread

/-- Rendered declarations behind the word for a section are read as one. -/
theorem exists_section_of_rendered {ds : List Declaration} {w : Text}
    (hw : Rendered ds w) (h : ∀ d ∈ ds, d.Declarable) :
    ∃ (s : SectionTree) (q : Position),
      s.declarations.map (·.declaration.content)
          = ds.map Declaration.content
        ∧ Scans .start ("var " ++ w) s.tokens q ∧ Readable s.tokens := by
  obtain ⟨word, q₁, hword⟩ :=
    readAs_keyword (w := "var") (by decide) .start
      (" " ++ (w ++ ([] : Text))) rfl
  obtain ⟨q₂, hspace⟩ := readAs_space q₁ (w ++ [])
  obtain ⟨trees, q, hcontents, hread⟩ := readAs_rendered hw h q₂
  have hall := (hword.trans hspace).trans hread
  refine ⟨⟨[⟨word, trees⟩]⟩, q, ?_, ?_, ?_⟩
  · simpa [SectionTree.declarations] using hcontents
  · have hvar : ("var " : Text) = "var" ++ " " := by decide
    rw [hvar]
    simpa [SectionTree.tokens, BlockTree.tokens] using hall.scans (.done q)
  · simpa [SectionTree.tokens, BlockTree.tokens] using hall.readable

end VarSection
