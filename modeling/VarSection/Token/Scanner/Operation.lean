/-
A scanner driven from outside, step by step. A step is one operation with
its arguments; applied to a scanner it gives an answer and the scanner
after it, or the fault that ends the run.
-/
import VarSection.Token.Listing
import VarSection.Token.Scanner

namespace VarSection.Scanner

/-- The operations of a scanner. -/
inductive Operation where
  | advance
  | peek (offset : Int)
  | readWhile (allowed : Text)
  | skipComment (opener closer : Text)
  | scan
  | push (token : Token)
  | report (pos : Position) (cause : Cause)
  | listing
  | findings

/-- What an operation gives back. -/
inductive Answer where
  | nothing
  | character (c : Option CodePoint)
  | text (chars : Text)
  | flag (value : Bool)
  | token (t : Token)
  | lines (texts : List Text)
  | findings (errors : List Diagnostic)

/-- One step of a scanner. -/
def Operation.apply (s : Scanner) :
    Operation → Except Fault (Answer × Scanner)
  | .advance => .ok (.nothing, s.advance)
  | .peek offset => (s.peek offset).map fun c => (.character c, s)
  | .readWhile allowed =>
    let (run, s') := s.readWhile allowed.contains
    .ok (.text run, s')
  | .skipComment opener closer =>
    let (closed, s') := s.skipComment opener closer
    .ok (.flag closed, s')
  | .scan =>
    let (clean, s') := s.scan
    .ok (.flag clean, s')
  | .push token => .ok (.token token, s.push token)
  | .report pos cause => .ok (.nothing, s.report pos cause)
  | .listing => .ok (.lines (Listing.lines s.table), s)
  | .findings => .ok (.findings s.findings, s)

end VarSection.Scanner
