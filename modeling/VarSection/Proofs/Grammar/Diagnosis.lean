/-
What is found in a text that the grammar derives, whatever its bounds,
sizes and names, if there is room for its arrays: exactly what its tree owes,
in the order of the tree, and every declaration is recorded as written
(`findings_of_tree`).

The table of symbols enters only through what it answers. It `Holds` the
symbols offered so far when it gives for each name the first of them of
that name, and declaring more names keeps this: a name that is new is
entered, and any other is told of the one that is held. So the findings on
names are those of `redeclarations`, declaration by declaration.

`Records` says what reading declarations does, and composes along a section
in the way `Passes` does along a type.
-/
import VarSection.Proofs.Analysis.OfText
import VarSection.Proofs.Grammar.Derived
import VarSection.Proofs.Scanner.Reading
import VarSection.Proofs.SymbolTable

namespace VarSection

open Grammar

-- ===================================================== the table of symbols

/-- A table of symbols answers for each name with the first of some symbols
that has the name. -/
def SymbolTable.Holds (t : SymbolTable Position)
    (seen : List (Symbol Position)) : Prop :=
  ∀ name, t.lookup name = firstNamed? seen name

theorem SymbolTable.holds_empty : SymbolTable.empty.Holds [] :=
  fun _ => rfl

namespace SymbolTable

variable {t : SymbolTable Position} {seen : List (Symbol Position)}
  {s first : Symbol Position}

/-- A name that is held is told of the first symbol, and all stays. -/
theorem define_of_held (h : t.Holds seen)
    (hfirst : firstNamed? seen s.name = some first) :
    t.define s = (some first, t) ∧ t.Holds (seen ++ [s]) := by
  have hdefine := define_of_some ((h s.name).trans hfirst)
  have hmore : (t.define s).2.Holds (seen ++ [s]) := AnswersFor.define h s
  rw [hdefine] at hmore
  exact ⟨hdefine, hmore⟩

/-- A new name is entered. -/
theorem define_of_new (h : t.Holds seen)
    (hfirst : firstNamed? seen s.name = none) :
    (t.define s).1 = none ∧ (t.define s).2.Holds (seen ++ [s]) := by
  have hnew : (t.define s).1 = none :=
    (define_fst t s).trans ((h s.name).trans hfirst)
  exact ⟨hnew, AnswersFor.define h s⟩

end SymbolTable

namespace Analysis

variable {a b c : Analysis} {t u : Token} {rest : List Token}
  {seen : List (Symbol Position)}

/-- A name that is held is reported. -/
theorem declareName_of_held {n : Identifier} {type : VarType}
    {first : Symbol Position}
    (h : a.symbols.define ⟨n.name, type, n.pos⟩ = (some first, a.symbols)) :
    a.declareName type n
      = a.report n.pos (.redeclared n.name first.place) := by
  unfold declareName
  rw [h]

/-- A new name is entered. -/
theorem declareName_of_new {n : Identifier} {type : VarType}
    (h : (a.symbols.define ⟨n.name, type, n.pos⟩).1 = none) :
    a.declareName type n
      = { a with symbols := (a.symbols.define ⟨n.name, type, n.pos⟩).2 } := by
  unfold declareName
  cases hdefine : a.symbols.define ⟨n.name, type, n.pos⟩ with
  | mk found symbols =>
    rw [hdefine] at h
    cases h
    rfl

/-- Declaring names reports those that are held and enters the others. -/
theorem declare_of_holds (names : List Identifier) (type : VarType)
    (h : a.symbols.Holds seen) :
    (a.declare names type).errors
        = (redeclarations seen
            (names.map fun n => ⟨n.name, type, n.pos⟩)).reverse ++ a.errors
      ∧ (a.declare names type).symbols.Holds
          (seen ++ names.map fun n => ⟨n.name, type, n.pos⟩)
      ∧ (a.declare names type).declarations = a.declarations
      ∧ (a.declare names type).halt? = a.halt? := by
  induction names generalizing a seen with
  | nil =>
    refine ⟨rfl, ?_, rfl, rfl⟩
    rw [List.map_nil, List.append_nil]
    exact h
  | cons n names ih =>
    rw [List.map_cons, redeclarations, redeclaration?, declare_cons]
    cases hfirst : firstNamed? seen n.name with
    | some first =>
      obtain ⟨hdefine, hholds⟩ := SymbolTable.define_of_held
        (s := ⟨n.name, type, n.pos⟩) h hfirst
      rw [declareName_of_held hdefine]
      obtain ⟨herrors, hsymbols, hrest⟩ :=
        ih (a := a.report n.pos (.redeclared n.name first.place)) hholds
      rw [← List.append_cons] at hsymbols
      refine ⟨?_, hsymbols, hrest⟩
      rw [herrors, List.reverse_append, List.append_assoc]
      rfl
    | none =>
      obtain ⟨hdefine, hholds⟩ := SymbolTable.define_of_new
        (s := ⟨n.name, type, n.pos⟩) h hfirst
      rw [declareName_of_new hdefine]
      obtain ⟨herrors, hsymbols, hrest⟩ := ih (a := { a with
        symbols := (a.symbols.define ⟨n.name, type, n.pos⟩).2 }) hholds
      rw [← List.append_cons] at hsymbols
      exact ⟨herrors, hsymbols, hrest⟩

-- ================================================ one declaration

/-- Between two states these declarations were read: these findings were
made, and all was recorded behind the symbols seen before. -/
structure Enters (a : Analysis) (seen : List (Symbol Position))
    (found : List Diagnostic) (ds : List DeclarationTree) (b : Analysis) :
    Prop where
  errors : b.errors = found.reverse ++ a.errors
  symbols : b.symbols.Holds (seen ++ ds.flatMap DeclarationTree.symbols)
  declarations : b.declarations
    = (ds.map DeclarationTree.declaration).reverse ++ a.declarations
  halt? : b.halt? = a.halt?

theorem Enters.trans {ds ds' : List DeclarationTree}
    {found more : List Diagnostic} (h : Enters a seen found ds b)
    (h' : Enters b (seen ++ ds.flatMap DeclarationTree.symbols) more ds' c) :
    Enters a seen (found ++ more) (ds ++ ds') c where
  errors := by
    rw [h'.errors, h.errors, List.reverse_append, List.append_assoc]
  symbols := by
    rw [List.flatMap_append, ← List.append_assoc]
    exact h'.symbols
  declarations := by
    rw [h'.declarations, h.declarations, List.map_append,
      List.reverse_append, List.append_assoc]
  halt? := h'.halt?.trans h.halt?

/-- Between two states these declarations were read: what they owe was
found, and all was recorded behind the symbols seen before. -/
structure Records (a : Analysis) (seen : List (Symbol Position))
    (ds : List DeclarationTree) (b : Analysis) : Prop where
  errors : b.errors = (faultsFrom seen ds).reverse ++ a.errors
  symbols : b.symbols.Holds (seen ++ ds.flatMap DeclarationTree.symbols)
  declarations : b.declarations
    = (ds.map DeclarationTree.declaration).reverse ++ a.declarations
  halt? : b.halt? = a.halt?

namespace Records

variable {ds ds' : List DeclarationTree}

theorem refl (h : a.symbols.Holds seen) : Records a seen [] a :=
  ⟨rfl, by rw [List.flatMap_nil, List.append_nil]; exact h, rfl, rfl⟩

theorem enters (h : Records a seen ds b) :
    Enters a seen (faultsFrom seen ds) ds b :=
  ⟨h.errors, h.symbols, h.declarations, h.halt?⟩

theorem of_enters (h : Enters a seen (faultsFrom seen ds) ds b) :
    Records a seen ds b :=
  ⟨h.errors, h.symbols, h.declarations, h.halt?⟩

theorem trans (h : Records a seen ds b)
    (h' : Records b (seen ++ ds.flatMap DeclarationTree.symbols) ds' c) :
    Records a seen (ds ++ ds') c := by
  refine of_enters ?_
  rw [faultsFrom_append]
  exact h.enters.trans h'.enters

end Records

/-- The semicolon of a written declaration is passed, and with it the unknown
symbols behind it on its line. -/
theorem endDeclaration_of_tree (semicolon : SymbolOf ";")
    (h : a.cursor.ahead = semicolon.val :: u :: rest) :
    Passes a (semicolon.val :: unknownRun semicolon.val.line (u :: rest))
      (unknownFindings (unknownRun semicolon.val.line (u :: rest)))
      a.endDeclaration := by
  have hpass := passes_symbol h
  have hrun := passes_reportUnknown_of_ahead (hpass.ahead_tail h)
    semicolon.val.line
  unfold endDeclaration
  simp only
  rw [reportUnknown_of_head h
    (by rw [Token.kind_of_isSymbol semicolon.2]; decide)]
  rw [if_pos (by rw [atSymbol_of_ahead h, semicolon.2]), current_of_ahead h]
  exact hpass.trans hrun

/-- The names of a declaration are read up to its colon. -/
theorem readNames_of_colon {names : CommaList NameLeaf} {colon : SymbolOf ":"}
    (h : a.cursor.ahead = names.tokens (fun n => [n.val])
      ++ colon.val :: rest)
    (hlegible : ∀ n ∈ names.items, n.val.Legible) :
    a.readNames.1 = names.items.map (fun n => ⟨n.val.text, n.val.pos⟩)
      ∧ Passes a (names.tokens fun n => [n.val]) [] a.readNames.2 :=
  readNames_of_tree names h
    (Token.isSymbol_eq_false_of_ne colon.2 (by decide))
    (fun _ _ => gluedRun_of_symbol (Token.kind_of_isSymbol colon.2) _ _)
    hlegible

variable [NestingLimit]

/-- The colon and the type of a written declaration are read, where there is
room for the type. -/
theorem readTypePart_of_tree (colon : SymbolOf ":") (ty : TypeTree)
    (hroom : ty.HasRoom)
    (h : a.cursor.ahead = colon.val :: (ty.tokens ++ u :: rest))
    (hu : u.isSymbol "[" = false) (hlegible : ∀ t ∈ ty.tokens, t.Legible) :
    a.readTypePart.1 = ty.type
      ∧ Passes a (colon.val :: ty.tokens) (ty.faults false)
          a.readTypePart.2 := by
  have hcolon := passes_symbol h
  obtain ⟨htype, hpass⟩ := readType_of_tree ty 0
    (by rw [Nat.zero_add]; exact hroom) (hcolon.ahead_tail h) hu hlegible
  unfold readTypePart
  simp only
  rw [reportUnknown_of_head h (by rw [Token.kind_of_isSymbol colon.2]; decide)]
  rw [if_pos (by rw [atSymbol_of_ahead h, colon.2]), htype]
  exact ⟨rfl, hcolon.trans hpass⟩

/-- The three parts of a written declaration are read one after another. -/
theorem readParts_of_tree (d : DeclarationTree) (hroom : d.type.HasRoom)
    (h : a.cursor.ahead = d.tokens ++ u :: rest)
    (hlegible : ∀ t ∈ d.tokens, t.Legible) :
    a.readNames.1 = d.identifiers
      ∧ a.readNames.2.readTypePart.1 = d.type.type
      ∧ Passes a
          (d.tokens ++ unknownRun d.semicolon.val.line (u :: rest))
          (d.type.faults false
            ++ unknownFindings (unknownRun d.semicolon.val.line (u :: rest)))
          a.readNames.2.readTypePart.2.endDeclaration := by
  obtain ⟨names, colon, ty, semicolon⟩ := d
  have hahead : a.cursor.ahead = names.tokens (fun n => [n.val])
      ++ colon.val :: (ty.tokens ++ semicolon.val :: u :: rest) := by
    rw [h]
    simp [DeclarationTree.tokens]
  obtain ⟨hnames, hpass₁⟩ := readNames_of_colon hahead fun n hn =>
    hlegible n.val (List.mem_append_left _
      (CommaList.mem_tokens hn List.mem_cons_self))
  have h₁ := hpass₁.ahead_eq hahead
  obtain ⟨htype, hpass₂⟩ := readTypePart_of_tree colon ty hroom h₁
    (Token.isSymbol_eq_false_of_ne semicolon.2 (by decide))
    fun t ht => hlegible t (List.mem_append_right _
      (List.mem_cons_of_mem _ (List.mem_append_left _ ht)))
  have h₂ : a.readNames.2.readTypePart.2.cursor.ahead
      = semicolon.val :: u :: rest := hpass₂.ahead_eq h₁
  have hpass₃ := endDeclaration_of_tree semicolon h₂
  exact ⟨hnames, htype, by
    simpa [DeclarationTree.tokens] using hpass₁.trans (hpass₂.trans hpass₃)⟩

/-- A declaration whose parts are read as written is recorded, and to the
findings on its parts come those on its names. -/
theorem enters_of_parts (d : DeclarationTree) {ts : List Token}
    {found : List Diagnostic}
    (hfirst : a.cursor.ahead = d.names.first.val :: rest)
    (hnames : a.unmarked.readNames.1 = d.identifiers)
    (htype : a.unmarked.readNames.2.readTypePart.1 = d.type.type)
    (hpass : Passes a.unmarked ts found
      a.unmarked.readNames.2.readTypePart.2.endDeclaration.unmarked)
    (hseen : a.symbols.Holds seen) :
    a.cursor.ahead = ts ++ a.readDeclaration.cursor.ahead
      ∧ Enters a seen (found ++ redeclarations seen d.symbols) [d]
          a.readDeclaration := by
  have hholds : a.readParts.symbols.Holds seen := by
    show SymbolTable.Holds (unmarked _).symbols seen
    rw [hpass.symbols]
    exact hseen
  have hentered : a.readParts.declarations
      = d.declaration :: a.declarations := by
    unfold readParts enter DeclarationTree.declaration
    simp only
    rw [hnames, htype, current_of_ahead hfirst]
    exact congrArg _ hpass.declarations
  obtain ⟨herrors, hsymbols, hdeclarations, hhalt⟩ :=
    declare_of_holds d.identifiers d.type.type hholds
  rw [readDeclaration_eq, hnames, htype, cursor_declare]
  refine ⟨hpass.ahead, ?_, ?_, hdeclarations.trans hentered,
    hhalt.trans hpass.halt?⟩
  · rw [herrors, List.reverse_append, List.append_assoc]
    exact congrArg _ hpass.errors
  · rw [List.flatMap_singleton]
    exact hsymbols

/-- A written declaration is read and recorded. -/
theorem readDeclaration_of_tree (d : DeclarationTree)
    (hroom : d.type.HasRoom)
    (h : a.cursor.ahead = d.tokens ++ u :: rest) (hu : u.kind ≠ .unknown)
    (hlegible : ∀ t ∈ d.tokens, t.Legible) (hseen : a.symbols.Holds seen) :
    a.readDeclaration.cursor.ahead = u :: rest
      ∧ Records a seen [d] a.readDeclaration := by
  obtain ⟨hnames, htype, hpass⟩ := readParts_of_tree (a := a.unmarked) d
    hroom h hlegible
  rw [unknownRun_of_head hu, show unknownFindings [] = [] from rfl,
    List.append_nil, List.append_nil] at hpass
  obtain ⟨hahead, henters⟩ := enters_of_parts d h hnames htype hpass.unmarked
    hseen
  refine ⟨List.append_cancel_left (hahead.symm.trans h), .of_enters ?_⟩
  rw [faultsFrom, faultsFrom, List.append_nil]
  exact henters

-- ==================================================== blocks and sections

/-- Written declarations are read one after another, where no unknown symbol
follows them, and the block goes on behind them. -/
theorem readBlock_of_front (ds : List DeclarationTree)
    (hroom : ∀ d ∈ ds, d.type.HasRoom)
    (h : a.cursor.ahead = ds.flatMap DeclarationTree.tokens ++ u :: rest)
    (hu : u.kind ≠ .unknown)
    (hlegible : ∀ d ∈ ds, ∀ t ∈ d.tokens, t.Legible)
    (hseen : a.symbols.Holds seen) :
    ∃ c, c.cursor.ahead = u :: rest ∧ Records a seen ds c
      ∧ a.readBlock = c.readBlock ∧ (a.Inside → c.Inside) := by
  induction ds generalizing a seen with
  | nil => exact ⟨a, h, .refl hseen, rfl, id⟩
  | cons d ds ih =>
    rw [List.flatMap_cons, List.append_assoc] at h
    obtain ⟨v, rest', hv, hrest'⟩ : ∃ v rest', v.kind ≠ .unknown
        ∧ ds.flatMap DeclarationTree.tokens ++ u :: rest = v :: rest' := by
      cases ds with
      | nil => exact ⟨u, rest, hu, rfl⟩
      | cons d' ds =>
        exact ⟨d'.names.first.val, _, by rw [d'.names.first.2]; decide, rfl⟩
    rw [hrest'] at h
    have hname : a.unreadName = true := by
      rw [unreadName_of_ahead (t := d.names.first.val) h, d.names.first.2]
      rfl
    obtain ⟨hahead, hrecords⟩ := readDeclaration_of_tree d
      (hroom d List.mem_cons_self) h hv (hlegible d List.mem_cons_self) hseen
    obtain ⟨c, hahead', hrecords', hread, hinside⟩ :=
      ih (fun d' hd' => hroom d' (List.mem_cons_of_mem d hd'))
        (hahead.trans hrest'.symm)
        (fun d' hd' => hlegible d' (List.mem_cons_of_mem d hd'))
        hrecords.symbols
    refine ⟨c, hahead', hrecords.trans hrecords', ?_, fun ha => hinside
      ((steps_readDeclaration ha (isEnding_of_unreadName hname)).inside ha)⟩
    rw [readBlock, dif_pos hname, hread]

/-- Written declarations are read, where neither a name nor an unknown
symbol follows them. -/
theorem readBlock_of_tree (ds : List DeclarationTree)
    (hroom : ∀ d ∈ ds, d.type.HasRoom)
    (h : a.cursor.ahead
      = ds.flatMap DeclarationTree.tokens ++ u :: rest)
    (hname : u.kind ≠ .identifier) (hunknown : u.kind ≠ .unknown)
    (hlegible : ∀ d ∈ ds, ∀ t ∈ d.tokens, t.Legible)
    (hseen : a.symbols.Holds seen) :
    a.readBlock.cursor.ahead = u :: rest ∧ Records a seen ds a.readBlock := by
  obtain ⟨c, hahead, hrecords, hread, -⟩ :=
    readBlock_of_front ds hroom h hunknown hlegible hseen
  rw [hread, readBlock, dif_neg (by
    rw [unreadName_of_ahead hahead, beq_iff_eq]
    exact hname)]
  exact ⟨hahead, hrecords⟩

/-- Written blocks are read one after another, where another block or the
mark of the end follows them, and the section goes on behind them. -/
theorem readSection_of_front (blocks : List BlockTree)
    (hroom : ∀ block ∈ blocks, ∀ d ∈ block.declarations, d.type.HasRoom)
    (h : a.cursor.ahead = blocks.flatMap BlockTree.tokens ++ u :: rest)
    (hu : u.kind = .keyword ∨ u.kind = .ending)
    (hlegible : ∀ t ∈ blocks.flatMap BlockTree.tokens, t.Legible)
    (hseen : a.symbols.Holds seen) :
    ∃ c, c.cursor.ahead = u :: rest
      ∧ Records a seen (blocks.flatMap BlockTree.declarations) c
      ∧ a.readSection = c.readSection ∧ (a.Inside → c.Inside) := by
  induction blocks generalizing a seen with
  | nil => exact ⟨a, h, .refl hseen, rfl, id⟩
  | cons block blocks ih =>
    obtain ⟨word, ds⟩ := block
    have h₀ : a.cursor.ahead = word.val
        :: (ds.flatMap DeclarationTree.tokens
          ++ (blocks.flatMap BlockTree.tokens ++ u :: rest)) := by
      rw [h, List.flatMap_cons, List.append_assoc]
      rfl
    obtain ⟨v, rest', hv, hrest'⟩ : ∃ v rest',
        (v.kind = .keyword ∨ v.kind = .ending)
        ∧ blocks.flatMap BlockTree.tokens ++ u :: rest = v :: rest' := by
      cases blocks with
      | nil => exact ⟨u, rest, hu, rfl⟩
      | cons block blocks =>
        exact ⟨block.word.val, _, .inl (Token.kind_of_isKeyword block.word.2),
          rfl⟩
    have hword := passes_keyword h₀
    have h₁ := hword.ahead_tail h₀
    rw [hrest'] at h₁
    have hblock : ∀ d ∈ ds, ∀ t ∈ d.tokens, t.Legible := by
      intro d hd t ht
      refine hlegible t (List.mem_append_left _ (List.mem_cons_of_mem _ ?_))
      exact List.mem_flatMap.2 ⟨d, hd, ht⟩
    obtain ⟨hahead, hrecords⟩ := readBlock_of_tree ds
      (hroom ⟨word, ds⟩ List.mem_cons_self) h₁
      (by rcases hv with hv | hv <;> rw [hv] <;> decide)
      (by rcases hv with hv | hv <;> rw [hv] <;> decide) hblock
      (by rw [hword.symbols]; exact hseen)
    obtain ⟨c, hahead', hrecords', hread, hinside⟩ :=
      ih (fun block hblock => hroom block (List.mem_cons_of_mem _ hblock))
        (hahead.trans hrest'.symm)
        (fun t ht => hlegible t (by
          rw [List.flatMap_cons]; exact List.mem_append_right _ ht))
        hrecords.symbols
    refine ⟨c, hahead', ?_, (readSection_of_var h₀ word.2).trans hread,
      fun ha => hinside ?_⟩
    · have hall := hrecords.trans hrecords'
      rw [List.flatMap_cons]
      exact ⟨by rw [hall.errors, hword.errors]; rfl, hall.symbols,
        by rw [hall.declarations, hword.declarations],
        hall.halt?.trans hword.halt?⟩
    · have hpassed := hword.inside ha
      exact (steps_readBlock hpassed).inside hpassed

/-- Written blocks are read up to the mark of the end. -/
theorem readSection_of_blocks (blocks : List BlockTree) {last : Token}
    (hroom : ∀ block ∈ blocks, ∀ d ∈ block.declarations, d.type.HasRoom)
    (h : a.cursor.ahead = blocks.flatMap BlockTree.tokens ++ last :: rest)
    (hlast : last.kind = .ending)
    (hlegible : ∀ t ∈ blocks.flatMap BlockTree.tokens, t.Legible)
    (hseen : a.symbols.Holds seen) :
    Records a seen (blocks.flatMap BlockTree.declarations) a.readSection := by
  obtain ⟨c, hahead, hrecords, hread, -⟩ :=
    readSection_of_front blocks hroom h (.inr hlast) hlegible hseen
  rw [hread, readSection_of_ending hahead hlast]
  exact hrecords

/-- What the analysis of a derived table finds and records. -/
theorem records_of_tree (s : SectionTree) (hroom : s.HasRoom) {last : Token}
    (hlast : last.kind = .ending) (hlegible : ∀ t ∈ s.tokens, t.Legible) :
    Records (ofTable (s.tokens ++ [last])) [] s.declarations
      (ofTable (s.tokens ++ [last])).run := by
  have hahead : (ofTable (s.tokens ++ [last])).cursor.ahead
      = s.blocks.flatMap BlockTree.tokens ++ last :: [] := rfl
  rw [run_ofTable]
  exact readSection_of_blocks s.blocks hroom.blocks hahead hlast hlegible
    SymbolTable.holds_empty

end Analysis

-- ============================================================= whole texts

/-- The lexemes of a derived text are legible, if its numbers are short,
and the mark of the end follows them. -/
theorem legible_of_tokenize {text : Text} {tokens : List Token} {last : Token}
    (htable : tokenize text = .ok (tokens ++ [last]))
    (hreadable : Readable tokens) :
    (∃ q, last = .mark q ∧ Scans .start text tokens q)
      ∧ ∀ t ∈ tokens, t.Legible := by
  obtain ⟨tokens', q, hscans, heq⟩ := tokenize_eq_ok_iff.1 htable
  obtain ⟨rfl, hlast⟩ := List.append_inj' heq rfl
  obtain rfl := List.singleton_inj.1 hlast
  refine ⟨⟨q, rfl, hscans⟩, fun t ht => ?_⟩
  exact hscans.lexed.legible (hreadable.append (readable_mark q)) t
    (List.mem_append_left _ ht)

/-- Where there is room for the arrays of a derived text, exactly the findings
that its tree owes are made, and each declaration is recorded. -/
theorem findings_of_tree [NestingLimit] {text : Text} (s : SectionTree)
    {last : Token} (htable : tokenize text = .ok (s.tokens ++ [last]))
    (hreadable : Readable s.tokens) (hroom : s.HasRoom) :
    let a := (Analysis.ofTable (s.tokens ++ [last])).run
    a.halt? = none
      ∧ a.findings = s.faults
      ∧ a.declared = s.declarations.map DeclarationTree.declaration
      ∧ check text = .ok (.ofFindings s.faults a.symbols
          (s.declarations.map DeclarationTree.declaration)) := by
  obtain ⟨⟨q, rfl, hscans⟩, hlegible⟩ :=
    legible_of_tokenize htable hreadable
  have hend : (Token.mark q).kind = .ending := rfl
  have hrecords := Analysis.records_of_tree s hroom hend hlegible
  have hhalt := hrecords.halt?
  have hfindings : (Analysis.ofTable (s.tokens ++ [.mark q])).run.findings
      = s.faults := by
    unfold Analysis.findings
    rw [hrecords.errors]
    show ((SectionTree.faults s).reverse ++ []).reverse = s.faults
    rw [List.append_nil, List.reverse_reverse]
  have hdeclared : (Analysis.ofTable (s.tokens ++ [.mark q])).run.declared
      = s.declarations.map DeclarationTree.declaration := by
    unfold Analysis.declared
    rw [hrecords.declarations]
    show (_ ++ []).reverse = _
    rw [List.append_nil, List.reverse_reverse]
  refine ⟨hhalt, hfindings, hdeclared, ?_⟩
  rw [check_of_unhalted hscans hhalt, hfindings, hdeclared]

end VarSection
