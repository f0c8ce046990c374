/-
Declarations and whole sections. A section is a sequence of blocks, each
the word `var` with declarations behind it; anything else at the top is
reported and passed.

A declaration always reads its first name, and a section always passes a
lexeme, so both loops end with the table (`left_readDeclaration_lt`).
-/
import VarSection.Analysis.Names
import VarSection.Analysis.Types

namespace VarSection.Analysis

-- =========================================================== one declaration

/-- Enters names with their common type into the table of symbols, and
reports each that is declared already. -/
def declare (names : List Identifier) (type : VarType) (a : Analysis) :
    Analysis :=
  names.foldl (fun a name =>
    match a.symbols.define ⟨name.name, type, name.pos⟩ with
    | (some first, _) =>
      a.report name.pos (.redeclared name.name first.place)
    | (none, symbols) => { a with symbols }) a

/-- Passes what is left of a declaration on the line of the lexeme in front
of the place. -/
def synchronizeHere (a : Analysis) : Analysis :=
  let a := a.lookBack
  match a.previous? with
  | some previous => a.synchronize previous.line
  | none => a.halt .nothingBefore

/-- Ends a declaration at its semicolon. Unknown symbols on either side of
it are reported; whatever else stands in its place is passed. -/
def endDeclaration (a : Analysis) : Analysis :=
  let read := a.reportUnknown a.current.line
  let a := read.2
  if a.atSymbol ";" then (a.next.reportUnknown a.current.line).2
  else if read.1 || a.recovering then a.synchronizeHere
  else
    let a := a.reportAfterPrevious .semicolonExpected
    if a.atKind .identifier || a.atKind .ending then a
    else a.synchronizeHere

/-- Reads the colon behind the names of a declaration, and the type behind
it. An unknown symbol passes for a colon. -/
def readTypePart [NestingLimit] (a : Analysis) : VarType × Analysis :=
  let read := a.reportUnknown a.current.line
  let a := read.2
  if a.atSymbol ":" then a.next.readType 0
  else
    let a :=
      if read.1 || a.recovering then a
      else a.reportAfterPrevious .colonExpected
    if read.1 || a.startsType then a.readType 0
    else (.unknown, a.recover)

/-- Reads a declaration and enters its names. -/
def readDeclaration [NestingLimit] (a : Analysis) : Analysis :=
  let first := a.current
  let names := { a with recovering := false }.readNames
  let type := names.2.readTypePart
  let a := type.2.endDeclaration
  { a with
    declarations := ⟨names.1, type.1, first.pos⟩ :: a.declarations
  }.declare names.1 type.1

-- ==================================================== how far steps go

theorem cursor_declare (names : List Identifier) (type : VarType)
    (a : Analysis) : (a.declare names type).cursor = a.cursor := by
  unfold declare
  induction names generalizing a with
  | nil => rfl
  | cons name names ih =>
    rw [List.foldl_cons, ih]
    split <;> rfl

theorem left_readTypePart_le [NestingLimit] (a : Analysis) :
    a.readTypePart.2.left ≤ a.left := by
  have hread := left_reportUnknown_le a.current.line a
  unfold readTypePart
  simp only
  split
  · exact Nat.le_trans (left_readType_le ..)
      (Nat.le_trans (left_next_le _) hread)
  · have hafter : ∀ c : Analysis,
        c.left = (a.reportUnknown a.current.line).2.left →
        (if (a.reportUnknown a.current.line).1 || c.startsType then
            readType 0 c
          else (.unknown, c.recover)).2.left ≤ a.left := by
      intro c hc
      have hle := Nat.le_trans (Nat.le_of_eq hc) hread
      split
      · exact Nat.le_trans (left_readType_le ..) hle
      · exact hle
    apply hafter
    split
    · rfl
    · exact left_congr (by simp)

theorem left_synchronizeHere_le (a : Analysis) :
    a.synchronizeHere.left ≤ a.left := by
  unfold synchronizeHere
  simp only
  split
  · exact Nat.le_trans (left_synchronize_le ..)
      (Nat.le_of_eq (left_congr (by simp)))
  · exact Nat.le_of_eq (left_congr (by simp))

theorem left_endDeclaration_le (a : Analysis) :
    a.endDeclaration.left ≤ a.left := by
  have hread := left_reportUnknown_le a.current.line a
  unfold endDeclaration
  simp only
  split
  · exact Nat.le_trans (left_reportUnknown_le ..)
      (Nat.le_trans (left_next_le _) hread)
  · split
    · exact Nat.le_trans (left_synchronizeHere_le _) hread
    · split
      · exact Nat.le_trans (Nat.le_of_eq (left_congr (by simp))) hread
      · exact Nat.le_trans (left_synchronizeHere_le _)
          (Nat.le_trans (Nat.le_of_eq (left_congr (by simp))) hread)

variable [NestingLimit]

/-- Reading a declaration that begins with an unread lexeme, other than the
mark of the end, leaves less unread. -/
theorem left_readDeclaration_lt {a : Analysis} {t : Token}
    (hhead : a.cursor.ahead.head? = some t) (hkind : t.kind ≠ .ending) :
    a.readDeclaration.left < a.left := by
  unfold readDeclaration
  simp only
  rw [left_congr (cursor_declare ..)]
  exact Nat.lt_of_le_of_lt (left_endDeclaration_le _)
    (Nat.lt_of_le_of_lt (left_readTypePart_le _)
      (left_readNames_lt (a := { a with recovering := false }) hhead hkind))

theorem left_readDeclaration_lt_of_name {a : Analysis}
    (h : a.unreadName) : a.readDeclaration.left < a.left := by
  unfold unreadName at h
  cases hhead : a.cursor.ahead.head? with
  | none => simp [hhead] at h
  | some t =>
    simp only [hhead, Option.any_some, beq_iff_eq] at h
    exact left_readDeclaration_lt hhead (by simp [h])

-- ============================================================ the section

/-- Reads the declarations of a block, as long as names begin them. -/
def readBlock (a : Analysis) : Analysis :=
  if _hname : a.unreadName then a.readDeclaration.readBlock else a
termination_by a.left
decreasing_by exact left_readDeclaration_lt_of_name _hname

theorem left_readBlock_le (a : Analysis) : a.readBlock.left ≤ a.left := by
  fun_induction readBlock a with
  | case1 a hname ih =>
    exact Nat.le_trans ih
      (Nat.le_of_lt (left_readDeclaration_lt_of_name hname))
  | case2 a hname => exact Nat.le_refl _

/-- Reports and passes a lexeme that stands outside all blocks. -/
def passStray (a : Analysis) : Analysis :=
  let t := a.current
  let cause :=
    if t.kind == .unknown then .unknownSymbol t.text
    else .unexpectedToken t.text
  a.next.report t.pos cause

/-- Reads the rest of a section, up to the mark of the end. -/
def readSection (a : Analysis) : Analysis :=
  match _hhead : a.cursor.ahead.head? with
  | none => a.halt .outsideTable
  | some t =>
    if _hend : t.kind = .ending then a
    else if t.isKeyword "var" then a.next.readBlock.readSection
    else a.passStray.readSection
termination_by a.left
decreasing_by
  · exact Nat.lt_of_le_of_lt (left_readBlock_le _)
      (left_next_lt _hhead _hend)
  · exact Nat.lt_of_le_of_lt (Nat.le_of_eq (left_congr rfl))
      (left_next_lt _hhead _hend)

/-- Analyses a whole table. Of the state before, only the table and the
recovery mark count. -/
def run (a : Analysis) : Analysis :=
  readSection
    { ofTable a.cursor.toList with recovering := a.recovering }

/-- Of a fresh state nothing is lost by starting again. -/
theorem run_ofTable (table : List Token) :
    (ofTable table).run = (ofTable table).readSection := rfl

/-- Whether nothing was found. -/
def isClean (a : Analysis) : Bool := a.errors.isEmpty

end VarSection.Analysis
