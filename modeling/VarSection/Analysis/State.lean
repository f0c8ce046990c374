/-
The state of an analysis: a place in a table of lexemes, and what has been
found so far. Every operation of the analysis is a function on this state,
and each defines how it moves the place and what it records.

Two things are only ever added to: the findings and the declarations, both
kept latest first. The recovery mark is set when the structure of the
current declaration is broken; while it is set, a separator that is missing
is not reported once more.

An operation that cannot be carried out does not stop the analysis. The
first such fault is noted, together with what had been recorded by then
(`halt`), and the analysis goes on; whoever asks for its result looks at
the note first. So every function of the analysis is total, and a table
that ends with the mark of the end leaves two faults to look out for, an
integer with too many digits and arrays that are nested too deep.

How deep arrays may be nested is not said by the language: reading an array
inside another is a call inside a call, and the machine has room for so many
of them. That number is a parameter of the whole development
(`NestingLimit`), and what is proved holds for each.
-/
import VarSection.Cursor
import VarSection.Declaration
import VarSection.Diagnostic
import VarSection.Fault
import VarSection.Numeral
import VarSection.SymbolTable
import VarSection.Token

namespace VarSection

/-- The room that there is for arrays inside arrays. It is counted in arrays,
whatever an array holds: the calls that read a bound or report a finding
inside the last of them take little room, which is not counted. -/
class NestingLimit where
  /-- how many arrays may stand around an array -/
  nestingMax : Nat

export NestingLimit (nestingMax)

namespace UsualNesting

/-- Room for so many arrays is left by a stack of a usual size. -/
scoped instance limit : NestingLimit := ⟨490⟩

end UsualNesting

/-- The first fault of an analysis and what was recorded before it. -/
structure Halt where
  fault : Fault
  symbols : SymbolTable Position
  declarations : List Declaration

/-- The state of an analysis. -/
structure Analysis where
  cursor : Cursor Token
  errors : List Diagnostic
  recovering : Bool
  symbols : SymbolTable Position
  declarations : List Declaration
  halt? : Option Halt

namespace Analysis

/-- The state in front of a table. -/
def ofTable (table : List Token) : Analysis :=
  ⟨.ofList table, [], false, .empty, [], none⟩

/-- How many lexemes are unread: the measure by which reading ends. -/
def left (a : Analysis) : Nat := a.cursor.ahead.length

-- ======================================================= looking around

/-- The lexeme at the place. Behind the last lexeme of the table the place
stays at it. -/
def current (a : Analysis) : Token :=
  match a.cursor.ahead, a.cursor.behind with
  | t :: _, _ => t
  | [], last :: _ => last
  | [], [] => .emptyEnding

/-- The unread lexemes, of which there is always one to look at. -/
def upcoming (a : Analysis) : List Token :=
  match a.cursor.ahead with
  | [] => [a.current]
  | t :: rest => t :: rest

/-- The lexeme behind the current one, or the last of the table. -/
def following (a : Analysis) : Token :=
  match a.cursor.ahead with
  | _ :: t :: _ => t
  | _ => a.current

/-- The lexeme in front of the current one. -/
def previous? (a : Analysis) : Option Token :=
  if a.cursor.overrun = 0 then a.cursor.behind.head? else none

/-- Whether the current lexeme is of a class. -/
def atKind (a : Analysis) (kind : Kind) : Bool := a.current.kind == kind

/-- Whether the current lexeme is a symbol. -/
def atSymbol (a : Analysis) (symbol : Text) : Bool :=
  a.current.isSymbol symbol

/-- Whether the current lexeme is a keyword. -/
def atKeyword (a : Analysis) (word : Text) : Bool :=
  a.current.isKeyword word

/-- Whether the current lexeme is an integer. -/
def atInteger (a : Analysis) : Bool :=
  a.atKind .number && Numeral.isInteger a.current.text

/-- Whether an unread lexeme is at the place and is a symbol. -/
def unreadSymbol (a : Analysis) (symbol : Text) : Bool :=
  a.cursor.ahead.head?.any (·.isSymbol symbol)

/-- Whether an unread lexeme is at the place and is a keyword. -/
def unreadKeyword (a : Analysis) (word : Text) : Bool :=
  a.cursor.ahead.head?.any (·.isKeyword word)

/-- Whether an unread lexeme is at the place and is a name. -/
def unreadName (a : Analysis) : Bool :=
  a.cursor.ahead.head?.any (·.kind == .identifier)

/-- Whether a lexeme stands on the line of the one in front of the place;
the first lexeme of a table does. -/
def onLineOfPrevious (a : Analysis) (t : Token) : Bool :=
  match a.previous? with
  | none => true
  | some previous => previous.line == t.line

/-- Whether a type begins at the place. -/
def startsType (a : Analysis) : Bool :=
  a.atKind .keyword && typeKeywords.contains (Text.lower a.current.text)

end Analysis

/-- Whether a declaration seems to begin with `t`, where `next` follows: a
name in front of a colon or a comma. -/
def Token.startsDeclaration (t next : Token) : Bool :=
  t.kind == .identifier && (next.isSymbol ":" || next.isSymbol ",")

namespace Analysis

/-- Whether a declaration seems to begin at the place. -/
def startsDeclaration (a : Analysis) : Bool :=
  a.current.startsDeclaration a.following

-- ============================================================== moving

/-- One lexeme forward; the mark of the end is never passed. -/
def next (a : Analysis) : Analysis :=
  if a.current.isEnding then a else { a with cursor := a.cursor.advance }

/-- A number of lexemes forward. -/
def nextBy : Nat → Analysis → Analysis
  | 0, a => a
  | n + 1, a => nextBy n a.next

-- =========================================================== recording

/-- Records a finding. -/
def report (a : Analysis) (pos : Position) (cause : Cause) : Analysis :=
  { a with errors := ⟨.syntactic, pos, cause⟩ :: a.errors }

/-- Records a finding, unless the latest one lies at the same place. -/
def expect (a : Analysis) (pos : Position) (cause : Cause) : Analysis :=
  if a.errors.head?.any (·.pos == pos) then a else a.report pos cause

/-- Sets the recovery mark. -/
def recover (a : Analysis) : Analysis := { a with recovering := true }

/-- Notes a fault, unless one is noted already. An analysis that noted one
goes on, but its result is the fault, with what was recorded until then. -/
def halt (a : Analysis) (fault : Fault) : Analysis :=
  match a.halt? with
  | some _ => a
  | none => { a with halt? := some ⟨fault, a.symbols, a.declarations⟩ }

/-- Notes a fault if the lexeme in front of the place is sought behind the
end of the table. -/
def lookBack (a : Analysis) : Analysis :=
  if a.cursor.overrun = 0 then a else a.halt .outsideTable

/-- Records a finding right behind the lexeme in front of the place. -/
def reportAfterPrevious (a : Analysis) (cause : Cause) : Analysis :=
  let a := a.lookBack
  match a.previous? with
  | none => a.report a.current.pos cause
  | some previous => a.report previous.endPos cause

/-- The value of a number, noting a fault if it has too many digits. -/
def readInteger (a : Analysis) (number : Token) : Int × Analysis :=
  let count := Numeral.digitCount number.text
  (Numeral.value number.text,
    if integerDigitsMax < count then a.halt (.tooManyDigits count) else a)

/-- Enters an array with a number of arrays around it, noting a fault if
there is no room for it. -/
def descend [NestingLimit] (depth : Nat) (a : Analysis) : Analysis :=
  if nestingMax < depth then a.halt .nestedTooDeep else a

/-- For an array that is in no other there is always room. -/
@[simp] theorem descend_zero [NestingLimit] (a : Analysis) :
    a.descend 0 = a :=
  if_neg (Nat.not_lt_zero _)

/-- The findings in the order in which they were made. -/
def findings (a : Analysis) : List Diagnostic := a.errors.reverse

/-- The declarations in the order of the table. -/
def declared (a : Analysis) : List Declaration := a.declarations.reverse

-- =================================================== what never moves

@[simp] theorem cursor_report (a : Analysis) (pos : Position)
    (cause : Cause) : (a.report pos cause).cursor = a.cursor := rfl

@[simp] theorem cursor_expect (a : Analysis) (pos : Position)
    (cause : Cause) : (a.expect pos cause).cursor = a.cursor := by
  unfold expect; split <;> rfl

@[simp] theorem cursor_recover (a : Analysis) :
    a.recover.cursor = a.cursor := rfl

@[simp] theorem cursor_halt (a : Analysis) (fault : Fault) :
    (a.halt fault).cursor = a.cursor := by
  unfold halt; split <;> rfl

@[simp] theorem cursor_lookBack (a : Analysis) :
    a.lookBack.cursor = a.cursor := by
  unfold lookBack; split <;> simp

@[simp] theorem cursor_reportAfterPrevious (a : Analysis) (cause : Cause) :
    (a.reportAfterPrevious cause).cursor = a.cursor := by
  unfold reportAfterPrevious; simp only; split <;> simp

@[simp] theorem cursor_readInteger (a : Analysis) (number : Token) :
    (a.readInteger number).2.cursor = a.cursor := by
  unfold readInteger; simp only; split <;> simp

@[simp] theorem cursor_descend [NestingLimit] (depth : Nat)
    (a : Analysis) : (a.descend depth).cursor = a.cursor := by
  unfold descend; split <;> simp

/-- The place decides which lexeme is current. -/
theorem current_congr {a b : Analysis} (h : a.cursor = b.cursor) :
    a.current = b.current := by
  unfold current; rw [h]

/-- The place decides how much is unread. -/
theorem left_congr {a b : Analysis} (h : a.cursor = b.cursor) :
    a.left = b.left := by
  unfold left; rw [h]

-- ==================================================== how far steps go

theorem left_next_le (a : Analysis) : a.next.left ≤ a.left := by
  unfold next
  split
  · exact Nat.le_refl _
  · simp [left, Cursor.ahead_advance]

theorem left_nextBy_le (n : Nat) (a : Analysis) :
    (nextBy n a).left ≤ a.left := by
  induction n generalizing a with
  | zero => exact Nat.le_refl _
  | succ n ih => exact Nat.le_trans (ih a.next) (left_next_le a)

/-- Passing an unread lexeme other than the mark of the end leaves less
unread. -/
theorem left_next_lt {a : Analysis} {t : Token}
    (hhead : a.cursor.ahead.head? = some t) (hkind : t.kind ≠ .ending) :
    a.next.left < a.left := by
  obtain ⟨rest, hrest⟩ : ∃ rest, a.cursor.ahead = t :: rest := by
    cases hahead : a.cursor.ahead with
    | nil => simp [hahead] at hhead
    | cons u rest => simp_all
  have hcurrent : a.current = t := by simp [current, hrest]
  simp [next, hcurrent, Token.isEnding, hkind, left, Cursor.ahead_advance,
    hrest]

end Analysis

end VarSection
