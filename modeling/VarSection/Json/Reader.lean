/-
Reading JSON texts. Besides the standard grammar the words `NaN`,
`Infinity` and `-Infinity` are numbers, of two members under one key the
later counts, and a whole number may not have more digits than an integer
may have. How deep lists and objects may be nested is up to the one who
reads; what lies deeper is told apart from a text that is no JSON.

Each reader takes the text ahead and gives back what is left, with the
proof that it is shorter; so lists and objects come to an end however long
they are.
-/
import VarSection.Json.Value
import VarSection.Text.Encoding
import VarSection.Text.Hex
import VarSection.Vocabulary

namespace VarSection.Json

/-- Why a text cannot be read. -/
inductive ReadFault where
  | malformed
  /-- a list inside too many lists and objects -/
  | listTooDeep
  /-- an object inside too many lists and objects -/
  | objectTooDeep
deriving DecidableEq

/-- What is left of a text after something was read from it. -/
abbrev Rest (text : Text) :=
  { rest : Text // rest.length < text.length }

/-- The characters between values. -/
def isSpace (c : CodePoint) : Bool :=
  c == ' ' || c == '\t' || c == '\n' || c == '\r'

/-- A text without leading space. -/
def skipSpace (text : Text) : Text := text.dropWhile isSpace

theorem length_skipSpace_le (text : Text) :
    (skipSpace text).length ≤ text.length := by
  unfold skipSpace
  induction text with
  | nil => exact Nat.le_refl _
  | cons c text ih =>
    rw [List.dropWhile_cons]
    split
    · exact Nat.le_succ_of_le ih
    · exact Nat.le_refl _

-- ================================================================ numbers

/-- The value of decimal digits. -/
def digitsValue (digits : Text) : Nat :=
  digits.foldl (fun n c => 10 * n + (c.code - '0'.toNat)) 0

/-- The digits at the head of a text and what is left. -/
def spanDigits (text : Text) : Text × Text :=
  (text.takeWhile isDigit, text.dropWhile isDigit)

/-- The fraction at the head of a text, without its point; empty where no
digit follows a point. -/
def readFraction (text : Text) : Text × Text :=
  match text with
  | .char '.' :: rest =>
    match spanDigits rest with
    | ([], _) => ([], text)
    | (digits, rest') => (digits, rest')
  | _ => ([], text)

/-- The exponent at the head of a text, `none` where there is none. -/
def readExponent (text : Text) : Option Int × Text :=
  match text with
  | mark :: rest =>
    if mark == 'e' || mark == 'E' then
      let (negative, rest') := match rest with
        | .char '-' :: rest' => (true, rest')
        | .char '+' :: rest' => (false, rest')
        | rest' => (false, rest')
      match spanDigits rest' with
      | ([], _) => (none, text)
      | (digits, rest'') =>
        let n : Int := digitsValue digits
        (some (if negative then -n else n), rest'')
    else (none, text)
  | [] => (none, text)

/-- The number `digits * 10 ^ exponent`, where one far beyond the greatest
number is infinite and one far below the least is zero. -/
def floatOf (digits : Nat) (exponent : Int) : Float :=
  let size := exponent + (Nat.toDigits 10 digits).length
  if digits = 0 || size < -400 then 0
  else if size > 400 then 1 / 0
  else Float.ofScientific digits (exponent < 0) exponent.natAbs

/-- The whole part of a number: a zero, or digits without a leading
zero. -/
def readWhole (text : Text) : Option (Text × Text) :=
  match text with
  | .char '0' :: rest => some (['0'], rest)
  | _ =>
    match spanDigits text with
    | ([], _) => none
    | found => some found

/-- The unsigned number at the head of a text. -/
def readNumber (negative : Bool) (text : Text) :
    Option (Json × Text) := do
  let (whole, rest) ← readWhole text
  let (fraction, rest) := readFraction rest
  let (exponent?, rest) := readExponent rest
  let digits := digitsValue (whole ++ fraction)
  if fraction.isEmpty && exponent?.isNone then
    if integerDigitsMax < whole.length then none
    else some (.int (if negative then -digits else digits), rest)
  else
    let exponent := exponent?.getD 0 - fraction.length
    let size := floatOf digits exponent
    some (.float (if negative then -size else size), rest)

-- ================================================================== texts

/-- The value of four hexadecimal digits. -/
def hexUnit? (a b c d : CodePoint) : Option Nat := do
  let a ← Text.hexValue? a
  let b ← Text.hexValue? b
  let c ← Text.hexValue? c
  let d ← Text.hexValue? d
  some (((a * 16 + b) * 16 + c) * 16 + d)

/-- The character that a letter behind a backslash stands for. -/
def escapedChar? : CodePoint → Option CodePoint
  | .char '"' => some '"'
  | .char '\\' => some '\\'
  | .char '/' => some '/'
  | .char 'b' => some '\u0008'
  | .char 'f' => some '\u000c'
  | .char 'n' => some '\n'
  | .char 'r' => some '\r'
  | .char 't' => some '\t'
  | _ => none

/-- What a text between quotes is made of. -/
inductive Piece where
  /-- a code point as it stands, or one named by a letter -/
  | plain (c : CodePoint)
  /-- a code unit named by its number -/
  | unit (n : Nat)

/-- The text of some pieces. Two units in a row that make a surrogate pair
are one character. -/
def ofPieces : List Piece → Text
  | [] => []
  | .plain c :: rest => c :: ofPieces rest
  | .unit high :: .unit low :: rest =>
    if Text.isHighHalf high && Text.isLowHalf low then
      Text.pair high low :: ofPieces rest
    else .ofCode high :: ofPieces (.unit low :: rest)
  | .unit n :: rest => .ofCode n :: ofPieces rest

/-- Reads the pieces of a text up to its closing quote; `read` holds what
was read, latest first. Characters below the space must be escaped. -/
def readPieces (read : List Piece) : Text → Option (List Piece × Text)
  | [] => none
  | .char '"' :: rest => some (read.reverse, rest)
  | .char '\\' :: .char 'u' :: a :: b :: c :: d :: rest =>
    match hexUnit? a b c d with
    | some n => readPieces (.unit n :: read) rest
    | none => none
  | .char '\\' :: c :: rest =>
    match escapedChar? c with
    | some c => readPieces (.plain c :: read) rest
    | none => none
  | c :: rest =>
    if c.code < 0x20 || c == '\\' then none
    else readPieces (.plain c :: read) rest

/-- Reads a text up to its closing quote. -/
def readText (text : Text) : Option (Text × Text) :=
  (readPieces [] text).map fun (pieces, rest) => (ofPieces pieces, rest)

-- ================================================================= values

/-- Cuts a result down to what is left, where that is shorter. -/
def shorter {α : Type} (text : Text) :
    Option (α × Text) → Except ReadFault (α × Rest text)
  | some (value, rest) =>
    if h : rest.length < text.length then .ok (value, ⟨rest, h⟩)
    else .error .malformed
  | none => .error .malformed

/-- The words that are values, and what they stand for. -/
def wordValues : List (Text × Json) :=
  [("null", .null), ("true", .bool true), ("false", .bool false),
    ("NaN", .float (0 / 0)), ("Infinity", .float (1 / 0)),
    ("-Infinity", .float (-1 / 0))]

/-- The word at the head of a text. -/
def readWord (text : Text) : Option (Json × Text) :=
  (wordValues.find? fun word => word.1.isPrefixOf text).map
    fun word => (word.2, text.drop word.1.length)

/-- The value at the head of a text that is neither list nor object. -/
def readPlain (text : Text) : Option (Json × Text) :=
  match text with
  | .char '"' :: rest => (readText rest).map fun (s, rest') => (.text s, rest')
  | .char '-' :: rest => (readNumber true rest).or (readWord text)
  | _ => (readNumber false text).or (readWord text)

/-- Reads the key of a member and the colon behind it. -/
def readKey (text : Text) : Option (Text × Text) :=
  match skipSpace text with
  | .char '"' :: rest => do
    let (key, rest') ← readText rest
    match skipSpace rest' with
    | .char ':' :: rest'' => some (key, rest'')
    | _ => none
  | _ => none

mutual

/-- Reads a value, where lists and objects may be nested `depth` deep. -/
def readValue (depth : Nat) (text : Text) :
    Except ReadFault (Json × Rest text) :=
  match h : skipSpace text with
  | .char '[' :: rest =>
    have : rest.length < text.length := by
      have := length_skipSpace_le text
      rw [h, List.length_cons] at this
      omega
    if depth = 0 then .error .listTooDeep
    else
      match h' : skipSpace rest with
      | .char ']' :: rest' =>
        .ok (.list [], ⟨rest', by
          have := length_skipSpace_le rest
          rw [h', List.length_cons] at this
          omega⟩)
      | _ =>
        match readItems (depth - 1) rest with
        | .ok (items, ⟨rest', _⟩) => .ok (.list items, ⟨rest', by omega⟩)
        | .error fault => .error fault
  | .char '\x7b' :: rest =>
    have : rest.length < text.length := by
      have := length_skipSpace_le text
      rw [h, List.length_cons] at this
      omega
    if depth = 0 then .error .objectTooDeep
    else
      match h' : skipSpace rest with
      | .char '\x7d' :: rest' =>
        .ok (.object [], ⟨rest', by
          have := length_skipSpace_le rest
          rw [h', List.length_cons] at this
          omega⟩)
      | _ =>
        match readMembers (depth - 1) rest with
        | .ok (members, ⟨rest', _⟩) =>
          .ok (.object (ofMembers members), ⟨rest', by omega⟩)
        | .error fault => .error fault
  | start => shorter text (readPlain start)
termination_by 2 * text.length

/-- Reads the items of a list up to its closing bracket. -/
def readItems (depth : Nat) (text : Text) :
    Except ReadFault (List Json × Rest text) :=
  match readValue depth text with
  | .error fault => .error fault
  | .ok (item, ⟨rest, _⟩) =>
    match h : skipSpace rest with
    | .char ',' :: rest' =>
      have : rest'.length < text.length := by
        have := length_skipSpace_le rest
        rw [h, List.length_cons] at this
        omega
      match readItems depth rest' with
      | .ok (items, ⟨rest'', _⟩) =>
        .ok (item :: items, ⟨rest'', by omega⟩)
      | .error fault => .error fault
    | .char ']' :: rest' =>
      .ok ([item], ⟨rest', by
        have := length_skipSpace_le rest
        rw [h, List.length_cons] at this
        omega⟩)
    | _ => .error .malformed
termination_by 2 * text.length + 1

/-- Reads the members of an object up to its closing brace. -/
def readMembers (depth : Nat) (text : Text) :
    Except ReadFault (List (Text × Json) × Rest text) :=
  match shorter text (readKey text) with
  | .error fault => .error fault
  | .ok (key, ⟨start, _⟩) =>
    match readValue depth start with
    | .error fault => .error fault
    | .ok (value, ⟨rest, _⟩) =>
      match h : skipSpace rest with
      | .char ',' :: rest' =>
        have : rest'.length < text.length := by
          have := length_skipSpace_le rest
          rw [h, List.length_cons] at this
          omega
        match readMembers depth rest' with
        | .ok (members, ⟨rest'', _⟩) =>
          .ok ((key, value) :: members, ⟨rest'', by omega⟩)
        | .error fault => .error fault
      | .char '\x7d' :: rest' =>
        .ok ([(key, value)], ⟨rest', by
          have := length_skipSpace_le rest
          rw [h, List.length_cons] at this
          omega⟩)
      | _ => .error .malformed
termination_by 2 * text.length + 1

end

/-- Reads a text that is one value, with nothing but space around it. Lists
and objects may be nested `depth` deep. -/
def read (depth : Nat) (text : Text) : Except ReadFault Json :=
  match readValue depth text with
  | .ok (value, ⟨rest, _⟩) =>
    if (skipSpace rest).isEmpty then .ok value else .error .malformed
  | .error fault => .error fault

/-- The value that a text is, if it is one. -/
def read? (depth : Nat) (text : Text) : Option Json :=
  (read depth text).toOption

end VarSection.Json
