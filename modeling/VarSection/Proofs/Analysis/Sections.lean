/-
Whole sections in lockstep. What a section does at its top is to pass a
lexeme, to report a stray one, and to read a declaration; a relation that
all three keep (`Walk`) is kept by the whole section, up to the stop
(`Walk.readSection`). There the first table ends, and the second section
has still to be read from the stop on.

What a declaration keeps follows from its parts, which both read alike
(`Alike.readParts`), and from entering its names, which moves nothing and
makes no findings but redeclarations (`errors_declare`).
-/
import VarSection.Proofs.Analysis.Readers

namespace VarSection

/-- Whether a finding tells of a name that was declared before. -/
def Cause.isRedeclared : Cause → Bool
  | .redeclared .. => true
  | _ => false

namespace Analysis

variable {a b : Analysis}

/-- Whatever entering one name keeps, entering names keeps. -/
theorem declare_keeps {α : Type} (part : Analysis → α) {type : VarType}
    (hname : ∀ (c : Analysis) (n : Identifier),
      part (c.declareName type n) = part c) (names : List Identifier)
    (a : Analysis) :
    part (a.declare names type) = part a := by
  induction names generalizing a with
  | nil => rfl
  | cons n names ih => rw [declare_cons, ih, hname]

/-- Entering names does not change the declarations. -/
theorem declarations_declare (names : List Identifier) (type : VarType)
    (a : Analysis) :
    (a.declare names type).declarations = a.declarations := by
  refine declare_keeps Analysis.declarations (fun c n => ?_) names a
  unfold declareName
  split <;> rfl

/-- Entering names notes no fault. -/
theorem halt?_declare (names : List Identifier) (type : VarType)
    (a : Analysis) : (a.declare names type).halt? = a.halt? := by
  refine declare_keeps Analysis.halt? (fun c n => ?_) names a
  unfold declareName
  split <;> rfl

/-- Entering names makes no findings but redeclarations. -/
theorem errors_declare (names : List Identifier) (type : VarType)
    (a : Analysis) :
    ∃ found, (a.declare names type).errors = found ++ a.errors
      ∧ ∀ d ∈ found, d.cause.isRedeclared = true := by
  induction names generalizing a with
  | nil => exact ⟨[], rfl, fun _ hd => absurd hd List.not_mem_nil⟩
  | cons n names ih =>
    obtain ⟨found, hfound, hall⟩ := ih (a.declareName type n)
    rw [declare_cons, hfound]
    unfold declareName
    split
    next first _ _ =>
      refine ⟨found ++ [⟨.syntactic, n.pos, .redeclared n.name first.place⟩],
        by rw [List.append_assoc]; rfl, fun d hd => ?_⟩
      rcases List.mem_append.1 hd with hd | hd
      · exact hall d hd
      · rw [List.mem_singleton.1 hd]
        rfl
    next => exact ⟨found, rfl, hall⟩

end Analysis

namespace Fork

variable {p : Fork} {Q : Analysis → Analysis → Prop} {a b : Analysis}

/-- Both pass the same stray lexeme. -/
theorem Alike.passStray (h : p.Alike a b) (hend : a.current.isEnding = false) :
    p.Alike a.passStray b.passStray :=
  (h.next hend).congr rfl rfl

/-- A declaration and its names are entered without moving. -/
theorem Alike.declare (h : p.Alike a b) (d d' : Declaration)
    (names names' : List Identifier) (type type' : VarType) :
    p.Alike ((a.enter d).declare names type)
      ((b.enter d').declare names' type') :=
  h.congr (Analysis.cursor_declare ..) (Analysis.cursor_declare ..)

/-- A relation between two analyses that is kept by all that a section does
in front of the stop. -/
structure Walk [NestingLimit] (p : Fork) (Q : Analysis → Analysis → Prop) :
    Prop where
  alike : ∀ {a b}, Q a b → p.Alike a b
  next : ∀ {a b}, Q a b → a.current.isEnding = false → Q a.next b.next
  stray : ∀ {a b}, Q a b → a.current.isEnding = false →
    Q a.passStray b.passStray
  declaration : ∀ {a b}, Q a b → a.current.isEnding = false →
    Q a.readDeclaration b.readDeclaration

namespace Walk

theorem readBlock [NestingLimit] (hQ : p.Walk Q) (h : Q a b) : Q a.readBlock
    b.readBlock := by
  revert b
  refine Analysis.readBlock.induct (fun a => ∀ {b}, Q a b →
    Q a.readBlock b.readBlock) ?name ?none a
  case name =>
    intro a hname ih b h
    rw [Analysis.readBlock.eq_def a, dif_pos hname,
      Analysis.readBlock.eq_def b,
      dif_pos (by rw [(hQ.alike h).unreadName]; exact hname)]
    exact ih (hQ.declaration h (Analysis.isEnding_of_unreadName hname))
  case none =>
    intro a hname b h
    rw [Analysis.readBlock.eq_def a, dif_neg hname,
      Analysis.readBlock.eq_def b,
      dif_neg (by rw [(hQ.alike h).unreadName]; exact hname)]
    exact h

/-- A section that ends at the stop, and what the other section is behind
the same lexemes: still to be read from the stop on. -/
theorem readSection [NestingLimit] (hQ : p.Walk Q) (h : Q a b) :
    ∃ c, Q a.readSection c ∧ b.readSection = c.readSection
      ∧ a.readSection.current = p.stop
      ∧ c.cursor.ahead = p.stop' :: p.rest' := by
  induction hn : a.left using Nat.strongRecOn generalizing a b with
  | ind n ih =>
    have halike := hQ.alike h
    have hless : ∀ {c : Analysis}, a.current.isEnding = false →
        c.left ≤ a.next.left → c.left < n := by
      intro c hend hle
      obtain ⟨rest, hrest⟩ := halike.inside.exists_ahead
      have hlt := Analysis.left_next_lt (a := a) (t := a.current)
        (by rw [hrest]; rfl) (Token.kind_ne_of_isEnding_eq_false hend)
      omega
    rcases halike.heads with ⟨t, rest, rest', ht, hahead, hahead'⟩ |
      ⟨hahead, hahead'⟩
    · have hcurrent := Analysis.current_of_ahead hahead
      have hend : a.current.isEnding = false := by
        rw [hcurrent]
        exact p.notEnding t ht
      by_cases hvar : t.isKeyword "var" = true
      · rw [Analysis.readSection_of_var hahead hvar,
          Analysis.readSection_of_var hahead' hvar]
        exact ih _ (hless hend (Analysis.left_readBlock_le _))
          (hQ.readBlock (hQ.next h hend)) rfl
      · rw [Bool.not_eq_true] at hvar
        have hkind := Token.kind_ne_of_isEnding_eq_false (p.notEnding t ht)
        rw [Analysis.readSection_of_stray hahead hkind hvar,
          Analysis.readSection_of_stray hahead' hkind hvar]
        exact ih _ (hless hend (Nat.le_of_eq (Analysis.left_congr rfl)))
          (hQ.stray h hend) rfl
    · rw [Analysis.readSection_of_ending hahead kind_stop]
      exact ⟨b, h, rfl, Analysis.current_of_ahead hahead, hahead'⟩

end Walk

end Fork

end VarSection
