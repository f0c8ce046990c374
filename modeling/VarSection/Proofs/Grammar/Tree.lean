/-
The grammar of a section, as syntax trees over lexemes:

    section     ::= { "var" { declaration } }
    declaration ::= name { "," name } ":" type ";"
    type        ::= simple
                  | "array" "[" range { "," range } "]" "of" type
    simple      ::= scalar | "string" [ "[" integer "]" ]
    range       ::= integer ".." integer

The leaves of a tree are lexemes of the right class by their types, so
every tree is a derivation of the lexemes that it is written with
(`tokens`), and lexemes can be derived from the grammar just when some tree
is written with them.

Beside its lexemes a tree has a meaning: the type that a declaration
records, and the findings that an analysis owes to it. Arrays of arrays are
derivable. Where an element is an array, the recorded type has the unknown
type in its place, and the inner word `array` makes a finding behind those
of everything inside.
-/
import VarSection.Declaration
import VarSection.Diagnostic
import VarSection.Numeral
import VarSection.SymbolTable
import VarSection.Token

namespace VarSection.Grammar

-- ================================================================== leaves

/-- A lexeme that is a given symbol. -/
abbrev SymbolOf (s : Text) : Type := { t : Token // t.isSymbol s = true }

/-- A lexeme that is a given keyword. -/
abbrev KeywordOf (w : Text) : Type := { t : Token // t.isKeyword w = true }

/-- A name. -/
abbrev NameLeaf : Type := { t : Token // t.kind = .identifier }

/-- An integer. -/
abbrev IntegerLeaf : Type := { t : Token // t.kind = .number }

/-- A word that is a type on its own. -/
abbrev ScalarLeaf : Type :=
  { t : Token // t.kind = .keyword ∧ Text.lower t.text ∈ scalarTypes }

/-- The value of an integer. -/
def IntegerLeaf.value (n : IntegerLeaf) : Int := Numeral.value n.val.text

/-- A finding at a lexeme. -/
def findingAt (t : Token) (cause : Cause) : Diagnostic :=
  ⟨.syntactic, t.pos, cause⟩

/-- A symbol at a place. -/
def symbolAt (s : Text) (pos : Position) : SymbolOf s :=
  ⟨⟨.symbol, s, pos⟩, by simp [Token.isSymbol]⟩

/-- A keyword in lower case at a place. -/
def keywordAt (w : Text) (pos : Position)
    (h : Text.lower w = w := by decide) : KeywordOf w :=
  ⟨⟨.keyword, w, pos⟩, by simp [Token.isKeyword, h]⟩

def varAt (pos : Position) : KeywordOf "var" := keywordAt "var" pos

def arrayAt (pos : Position) : KeywordOf "array" := keywordAt "array" pos

def ofAt (pos : Position) : KeywordOf "of" := keywordAt "of" pos

def stringAt (pos : Position) : KeywordOf "string" := keywordAt "string" pos

/-- A word that is a type on its own, at a place. -/
def scalarAt (w : Text) (pos : Position)
    (h : scalarTypes.contains (Text.lower w) = true) : ScalarLeaf :=
  ⟨⟨.keyword, w, pos⟩, rfl, List.contains_iff_mem.1 h⟩

/-- A name at a place. -/
def nameAt (name : Text) (pos : Position) : NameLeaf :=
  ⟨⟨.identifier, name, pos⟩, rfl⟩

/-- An integer at a place. -/
def integerAt (digits : Text) (pos : Position) : IntegerLeaf :=
  ⟨⟨.number, digits, pos⟩, rfl⟩

-- ========================================================== lists with commas

/-- One or more items with commas between them. -/
structure CommaList (α : Type) where
  first : α
  more : List (SymbolOf "," × α)

namespace CommaList

variable {α : Type}

/-- The items of a list. -/
def items (l : CommaList α) : List α := l.first :: l.more.map (·.2)

theorem map_items {β : Type} (f : α → β) (l : CommaList α) :
    l.items.map f = f l.first :: l.more.map fun item => f item.2 := by
  unfold items
  rw [List.map_cons, List.map_map]
  rfl

theorem flatMap_items {β : Type} (f : α → List β) (l : CommaList α) :
    l.items.flatMap f = f l.first ++ l.more.flatMap fun item => f item.2 := by
  unfold items
  rw [List.flatMap_cons, List.flatMap_map]

/-- The lexemes of the items behind the first, each behind its comma. -/
def moreTokens (written : α → List Token)
    (more : List (SymbolOf "," × α)) : List Token :=
  more.flatMap fun item => item.1.val :: written item.2

/-- The lexemes of a list whose items are written in a given way. -/
def tokens (written : α → List Token) (l : CommaList α) : List Token :=
  written l.first ++ moreTokens written l.more

/-- The lexemes of an item are lexemes of its list. -/
theorem mem_tokens {written : α → List Token} {l : CommaList α} {x : α}
    {t : Token} (hx : x ∈ l.items) (ht : t ∈ written x) :
    t ∈ l.tokens written := by
  unfold items at hx
  unfold tokens moreTokens
  rcases List.mem_cons.1 hx with rfl | hx
  · exact List.mem_append_left _ ht
  · obtain ⟨item, hitem, rfl⟩ := List.mem_map.1 hx
    exact List.mem_append_right _
      (List.mem_flatMap.2 ⟨item, hitem, List.mem_cons_of_mem _ ht⟩)

end CommaList

-- ================================================================== ranges

/-- An index range. -/
structure RangeTree where
  low : IntegerLeaf
  dots : SymbolOf ".."
  high : IntegerLeaf

namespace RangeTree

def tokens (r : RangeTree) : List Token := [r.low.val, r.dots.val, r.high.val]

def value (r : RangeTree) : IndexRange := ⟨r.low.value, r.high.value⟩

/-- Whether the lower bound is not above the upper one. -/
def Ordered (r : RangeTree) : Prop := r.low.value ≤ r.high.value

instance (r : RangeTree) : Decidable r.Ordered :=
  inferInstanceAs (Decidable (r.low.value ≤ r.high.value))

/-- Bounds in the wrong order are found at the lower one. -/
def faults (r : RangeTree) : List Diagnostic :=
  if r.Ordered then []
  else [findingAt r.low.val (.boundsInverted r.low.value r.high.value)]

end RangeTree

-- =================================================================== types

/-- Whether the size of a string is admitted. -/
def SizeAdmitted (n : IntegerLeaf) : Prop :=
  stringSizeMin ≤ n.value ∧ n.value ≤ stringSizeMax

instance (n : IntegerLeaf) : Decidable (SizeAdmitted n) :=
  inferInstanceAs (Decidable (_ ∧ _))

/-- A type that is no array. -/
inductive SimpleTree where
  | scalar (word : ScalarLeaf)
  | string (word : KeywordOf "string")
  | sized (word : KeywordOf "string") (left : SymbolOf "[")
      (size : IntegerLeaf) (right : SymbolOf "]")

namespace SimpleTree

def tokens : SimpleTree → List Token
  | .scalar word => [word.val]
  | .string word => [word.val]
  | .sized word left size right =>
    [word.val, left.val, size.val, right.val]

/-- The type that is written. -/
def type : SimpleTree → VarType
  | .scalar word => .scalar (Text.lower word.val.text)
  | .string _ => .string none
  | .sized _ _ size _ => .string (some size.value)

/-- The sizes of strings in a type. -/
def sizes : SimpleTree → List IntegerLeaf
  | .scalar _ => []
  | .string _ => []
  | .sized _ _ size _ => [size]

/-- A size that is not admitted is found where it is written. -/
def faults (s : SimpleTree) : List Diagnostic :=
  s.sizes.flatMap fun size =>
    if SizeAdmitted size then []
    else [findingAt size.val (.sizeOutOfRange size.value)]

end SimpleTree

/-- A type. -/
inductive TypeTree where
  | simple (type : SimpleTree)
  | array (word : KeywordOf "array") (left : SymbolOf "[")
      (ranges : CommaList RangeTree) (right : SymbolOf "]")
      (of : KeywordOf "of") (element : TypeTree)

namespace TypeTree

def tokens : TypeTree → List Token
  | .simple type => type.tokens
  | .array word left ranges right of element =>
    word.val :: left.val :: (ranges.tokens RangeTree.tokens
      ++ right.val :: of.val :: element.tokens)

/-- The type that is recorded for the elements of an array. -/
def elementType : TypeTree → VarType
  | .simple type => type.type
  | .array .. => .unknown

/-- The type that is recorded. -/
def type : TypeTree → VarType
  | .simple type => type.type
  | .array _ _ ranges _ _ element =>
    .array (ranges.items.map RangeTree.value) element.elementType

/-- The findings on a type: on the ranges of an array, then on its elements,
and then on the array itself where it is nested in another. -/
def faults (nested : Bool) : TypeTree → List Diagnostic
  | .simple type => type.faults
  | .array word _ ranges _ _ element =>
    ranges.items.flatMap RangeTree.faults ++ element.faults true
      ++ if nested then [findingAt word.val .nestedArray] else []

/-- Whether the elements of arrays are no arrays. -/
def IsFlat : TypeTree → Prop
  | .simple _ => True
  | .array _ _ _ _ _ (.simple _) => True
  | .array _ _ _ _ _ (.array ..) => False

/-- How many arrays stand one inside the other in a type. -/
def arrays : TypeTree → Nat
  | .simple _ => 0
  | .array _ _ _ _ _ element => element.arrays + 1

theorem IsFlat.arrays_le {ty : TypeTree} (h : ty.IsFlat) : ty.arrays ≤ 1 := by
  cases ty with
  | simple _ => exact Nat.zero_le 1
  | array _ _ _ _ _ element =>
    cases element with
    | simple _ => exact Nat.le_refl 1
    | array => exact h.elim

/-- All index ranges in a type. -/
def ranges : TypeTree → List RangeTree
  | .simple _ => []
  | .array _ _ ranges _ _ element => ranges.items ++ element.ranges

/-- All sizes of strings in a type. -/
def sizes : TypeTree → List IntegerLeaf
  | .simple type => type.sizes
  | .array _ _ _ _ _ element => element.sizes

end TypeTree

-- ============================================================ declarations

/-- A declaration. -/
structure DeclarationTree where
  names : CommaList NameLeaf
  colon : SymbolOf ":"
  type : TypeTree
  semicolon : SymbolOf ";"

namespace DeclarationTree

def tokens (d : DeclarationTree) : List Token :=
  d.names.tokens (fun n => [n.val])
    ++ d.colon.val :: (d.type.tokens ++ [d.semicolon.val])

/-- The declared names. -/
def identifiers (d : DeclarationTree) : List Identifier :=
  d.names.items.map fun n => ⟨n.val.text, n.val.pos⟩

/-- What is recorded of a declaration. -/
def declaration (d : DeclarationTree) : Declaration :=
  ⟨d.identifiers, d.type.type, d.names.first.val.pos⟩

/-- The symbols that a declaration offers to the table. -/
def symbols (d : DeclarationTree) : List (Symbol Position) :=
  d.identifiers.map fun n => ⟨n.name, d.type.type, n.pos⟩

end DeclarationTree

/-- The first of some symbols that has a name, in upper or lower case. -/
def firstNamed? (seen : List (Symbol Position)) (name : Text) :
    Option (Symbol Position) :=
  seen.find? fun s => Text.lower s.name == Text.lower name

/-- The finding on a symbol whose name was seen: it is told of the first
symbol of that name. -/
def redeclaration? (seen : List (Symbol Position)) (s : Symbol Position) :
    Option Diagnostic :=
  (firstNamed? seen s.name).map fun first =>
    ⟨.syntactic, s.place, .redeclared s.name first.place⟩

/-- The findings on symbols that are declared one after another, behind
those seen before. -/
def redeclarations (seen : List (Symbol Position)) :
    List (Symbol Position) → List Diagnostic
  | [] => []
  | s :: rest =>
    (redeclaration? seen s).toList ++ redeclarations (seen ++ [s]) rest

theorem redeclarations_append (seen xs ys : List (Symbol Position)) :
    redeclarations seen (xs ++ ys)
      = redeclarations seen xs ++ redeclarations (seen ++ xs) ys := by
  induction xs generalizing seen with
  | nil => rw [List.append_nil]; rfl
  | cons s xs ih =>
    rw [List.cons_append, redeclarations, redeclarations, ih,
      ← List.append_cons, ← List.append_assoc]

-- ================================================================ sections

/-- A block of declarations. -/
structure BlockTree where
  word : KeywordOf "var"
  declarations : List DeclarationTree

/-- A section. -/
structure SectionTree where
  blocks : List BlockTree

def BlockTree.tokens (b : BlockTree) : List Token :=
  b.word.val :: b.declarations.flatMap DeclarationTree.tokens

namespace SectionTree

def tokens (s : SectionTree) : List Token := s.blocks.flatMap BlockTree.tokens

/-- All declarations of a section. -/
def declarations (s : SectionTree) : List DeclarationTree :=
  s.blocks.flatMap BlockTree.declarations

/-- All names that a section declares, in order. -/
def names (s : SectionTree) : List Text :=
  s.declarations.flatMap fun d => d.identifiers.map (·.name)

end SectionTree

/-- The findings on declarations behind symbols seen before: for each
declaration those on its type, then those on its names. -/
def faultsFrom (seen : List (Symbol Position)) :
    List DeclarationTree → List Diagnostic
  | [] => []
  | d :: rest =>
    d.type.faults false ++ redeclarations seen d.symbols
      ++ faultsFrom (seen ++ d.symbols) rest

theorem faultsFrom_append (seen : List (Symbol Position))
    (ds ds' : List DeclarationTree) :
    faultsFrom seen (ds ++ ds') = faultsFrom seen ds
      ++ faultsFrom (seen ++ ds.flatMap DeclarationTree.symbols) ds' := by
  induction ds generalizing seen with
  | nil =>
    rw [List.flatMap_nil, List.append_nil]
    rfl
  | cons d ds ih =>
    rw [List.cons_append, faultsFrom, ih, faultsFrom, List.flatMap_cons,
      List.append_assoc _ _ (faultsFrom _ ds'), List.append_assoc seen]

/-- The findings on a section, in the order in which they are made. -/
def SectionTree.faults (s : SectionTree) : List Diagnostic :=
  faultsFrom [] s.declarations

end VarSection.Grammar
