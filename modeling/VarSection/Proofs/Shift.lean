/-
The same a number of lines further down: places, lexemes, declared names,
declarations and findings. A column never changes.
-/
import VarSection.Declaration
import VarSection.Diagnostic
import VarSection.Token

namespace VarSection

/-- The same column a number of lines further down. -/
def Position.shift (n : Int) (p : Position) : Position := ⟨p.line + n, p.col⟩

theorem Position.shift_inj {n : Int} {p q : Position} :
    p.shift n = q.shift n ↔ p = q := by
  constructor
  · intro h
    cases p
    cases q
    simp only [shift, mk.injEq] at h ⊢
    omega
  · rintro rfl
    rfl

@[simp] theorem Position.shift_zero (p : Position) : p.shift 0 = p := by
  unfold shift
  rw [Int.add_zero]

/-- A lexeme a number of lines further down. -/
def Token.shift (n : Int) (t : Token) : Token :=
  { t with pos := t.pos.shift n }

@[simp] theorem Token.shift_zero (t : Token) : t.shift 0 = t := by
  unfold shift
  rw [Position.shift_zero]

/-- A declared name a number of lines further down. -/
def Identifier.shift (n : Int) (name : Identifier) : Identifier :=
  { name with pos := name.pos.shift n }

@[simp] theorem Identifier.shift_zero (name : Identifier) :
    name.shift 0 = name := by
  unfold shift
  rw [Position.shift_zero]

/-- A declaration a number of lines further down. -/
def Declaration.shift (n : Int) (d : Declaration) : Declaration :=
  { d with names := d.names.map (·.shift n), pos := d.pos.shift n }

@[simp] theorem Declaration.shift_zero (d : Declaration) : d.shift 0 = d := by
  unfold shift
  rw [List.map_id'' Identifier.shift_zero, Position.shift_zero]

/-- A finding a number of lines further down. -/
def Diagnostic.shift (n : Int) (d : Diagnostic) : Diagnostic :=
  { d with pos := d.pos.shift n }

end VarSection
