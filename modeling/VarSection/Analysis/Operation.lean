/-
An analysis driven from outside, step by step. A step is one operation with
its arguments; applied to a state it gives an answer and the state after
it, or the note of the fault that ends the run.
-/
import VarSection.Analysis.Section

namespace VarSection.Analysis

/-- The operations of an analysis. -/
inductive Operation where
  | current
  | next
  | following
  | previous
  | atKind (kind : Kind)
  | atSymbol (symbol : Text)
  | atKeyword (word : Text)
  | atInteger
  | onLineOfPrevious
  | startsType
  | startsDeclaration
  | report (pos : Position) (cause : Cause)
  | expect (pos : Position) (cause : Cause)
  | reportAfterPrevious (cause : Cause)
  | reportUnknown (line : Option Int)
  | synchronize (line : Int)
  | run
  | readDeclaration
  | readNames
  | readName
  | endDeclaration
  | declare (names : List Identifier) (common : VarType)
  | readType (depth : Nat)
  | readStringType
  | readArrayType
  | readRanges
  | readRange
  | skipToRangeBoundary
  | setRecovering (value : Bool)

/-- What an operation gives back. -/
inductive Answer where
  | nothing
  | token (t : Option Token)
  | flag (value : Bool)
  | name (name : Identifier)
  | names (names : List Identifier)
  | type (type : VarType)
  | range (range : Option IndexRange)
  | ranges (ranges : List IndexRange)

namespace Operation

variable [NestingLimit]

/-- What an operation answers and the state that it leaves, faults aside. -/
def perform (a : Analysis) : Operation → Answer × Analysis
  | .current => (.token a.current, a)
  | .next => (.token a.current, a.next)
  | .following => (.token a.following, a)
  | .previous => (.token a.previous?, a.lookBack)
  | .atKind kind => (.flag (a.atKind kind), a)
  | .atSymbol symbol => (.flag (a.atSymbol symbol), a)
  | .atKeyword word => (.flag (a.atKeyword word), a)
  | .atInteger => (.flag a.atInteger, a)
  | .onLineOfPrevious => (.flag (a.onLineOfPrevious a.current), a.lookBack)
  | .startsType => (.flag a.startsType, a)
  | .startsDeclaration => (.flag a.startsDeclaration, a)
  | .report pos cause => (.nothing, a.report pos cause)
  | .expect pos cause => (.nothing, a.expect pos cause)
  | .reportAfterPrevious cause => (.nothing, a.reportAfterPrevious cause)
  | .reportUnknown line =>
    let read := a.reportUnknown (line.getD a.current.line)
    (.flag read.1, read.2)
  | .synchronize line => (.nothing, a.synchronize line)
  | .run => (.flag a.run.isClean, a.run)
  | .readDeclaration => (.nothing, a.readDeclaration)
  | .readNames => (.names a.readNames.1, a.readNames.2)
  | .readName => (.name a.readName.1, a.readName.2)
  | .endDeclaration => (.nothing, a.endDeclaration)
  | .declare names common => (.nothing, a.declare names common)
  | .readType depth =>
    let read := a.readType depth
    (.type read.1, read.2)
  | .readStringType => (.type a.readStringType.1, a.readStringType.2)
  | .readArrayType => (.type a.readArrayType.1, a.readArrayType.2)
  | .readRanges => (.ranges a.readRanges.1, a.readRanges.2)
  | .readRange => (.range a.readRange.1, a.readRange.2)
  | .skipToRangeBoundary => (.nothing, a.skipToRangeBoundary)
  | .setRecovering value => (.flag value, { a with recovering := value })

/-- Whether an operation can be carried out on an empty table. -/
def needsNoToken : Operation → Bool
  | .previous | .report .. | .expect .. | .declare ..
  | .setRecovering _ => true
  | _ => false

/-- One step of an analysis. Only the whole analysis starts afresh; any
other operation on an empty table that needs a lexeme keeps what is
recorded. -/
def apply (a : Analysis) (op : Operation) :
    Except Halt (Answer × Analysis) :=
  let start :=
    if a.cursor.toList.isEmpty && !op.needsNoToken then
      a.halt .outsideTable
    else a
  let done := op.perform start
  match done.2.halt? with
  | some note => .error note
  | none => .ok done

end Operation

end VarSection.Analysis
