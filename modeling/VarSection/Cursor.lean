/-
A place in a finite sequence, possibly behind its end. What has been read
lies behind the cursor, what has not lies ahead, and steps taken when
nothing lay ahead are only counted. The sequence itself never changes
(`toList_advance`), and every step moves the place by one
(`position_advance`).
-/
namespace VarSection

/-- A place in a sequence: what lies behind it (nearest first), what lies
ahead, and how many steps were taken past the end. -/
structure Cursor (α : Type) where
  behind : List α
  ahead : List α
  overrun : Nat

namespace Cursor

variable {α : Type}

/-- The place in front of a whole sequence. -/
def ofList (items : List α) : Cursor α := ⟨[], items, 0⟩

/-- The sequence that the cursor moves in. -/
def toList (c : Cursor α) : List α := c.behind.reverse ++ c.ahead

/-- How many steps lie between the beginning and here. -/
def position (c : Cursor α) : Nat := c.behind.length + c.overrun

/-- One step forward. -/
def advance (c : Cursor α) : Cursor α :=
  match c.ahead with
  | x :: rest => ⟨x :: c.behind, rest, c.overrun⟩
  | [] => { c with overrun := c.overrun + 1 }

@[simp] theorem toList_ofList (items : List α) :
    (ofList items).toList = items := rfl

@[simp] theorem toList_advance (c : Cursor α) :
    c.advance.toList = c.toList := by
  unfold advance toList
  split <;> simp_all

@[simp] theorem position_advance (c : Cursor α) :
    c.advance.position = c.position + 1 := by
  unfold advance position
  split <;> simp <;> omega

theorem ahead_advance (c : Cursor α) : c.advance.ahead = c.ahead.tail := by
  unfold advance
  split <;> simp_all

end Cursor

end VarSection
