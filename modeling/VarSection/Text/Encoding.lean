/-
Texts as code units and as bytes. A character beyond the first 65536 takes
two units of sixteen bits, the halves of a surrogate pair; a half without
the other stands for itself. So does a half that is spelled out in units of
eight bits.

JSON in bytes does not say how it is encoded. It may begin with a mark of
the order of its bytes. Otherwise it begins with characters of ASCII, so
where the zeros lie among its first four bytes tells the width of its units
and their order (`Encoding.ofZeros`).
-/
import VarSection.Text

namespace VarSection.Text

-- ============================================================= code units

/-- Whether a unit is the first half of a surrogate pair. -/
def isHighHalf (unit : Nat) : Bool := 0xD800 ≤ unit && unit < 0xDC00

/-- Whether a unit is the second half of a surrogate pair. -/
def isLowHalf (unit : Nat) : Bool := 0xDC00 ≤ unit && unit < 0xE000

/-- The character of a surrogate pair. -/
def pair (high low : Nat) : CodePoint :=
  .ofCode (0x10000 + (high - 0xD800) * 0x400 + (low - 0xDC00))

/-- The text of units of sixteen bits. -/
def ofUnits : List Nat → Text
  | [] => []
  | [unit] => [.ofCode unit]
  | high :: low :: rest =>
    if isHighHalf high && isLowHalf low then pair high low :: ofUnits rest
    else .ofCode high :: ofUnits (low :: rest)

/-- The text of units of thirty-two bits, if each is a code point. -/
def ofCodes? (codes : List Nat) : Option Text :=
  if codes.all (· < 0x110000) then some (codes.map .ofCode) else none

/-- Whether a unit of eight bits goes on with a character. -/
def isTail (unit : Nat) : Bool := 0x80 ≤ unit && unit < 0xC0

/-- A text with one more code point in front, unless its units are none. -/
def cons? (good : Bool) (code : Nat) (rest : Option Text) : Option Text :=
  if good then rest.map (.ofCode code :: ·) else none

/-- The text of units of eight bits, if they are one. The first unit of a
character tells how many others there are, of six bits each, and no
character takes more units than it needs. -/
def ofUnits8? : List Nat → Option Text
  | [] => some []
  | a :: rest =>
    if a < 0x80 then cons? true a (ofUnits8? rest)
    else if a < 0xE0 then
      match rest with
      | b :: rest =>
        cons? (0xC2 ≤ a && isTail b) ((a - 0xC0) * 0x40 + (b - 0x80))
          (ofUnits8? rest)
      | _ => none
    else if a < 0xF0 then
      match rest with
      | b :: c :: rest =>
        let code := ((a - 0xE0) * 0x40 + (b - 0x80)) * 0x40 + (c - 0x80)
        cons? (isTail b && isTail c && 0x800 ≤ code) code (ofUnits8? rest)
      | _ => none
    else
      match rest with
      | b :: c :: d :: rest =>
        let code := (((a - 0xF0) * 0x40 + (b - 0x80)) * 0x40 +
          (c - 0x80)) * 0x40 + (d - 0x80)
        cons? (isTail b && isTail c && isTail d && 0x10000 ≤ code &&
          code < 0x110000) code (ofUnits8? rest)
      | _ => none

-- ================================================================== bytes

/-- Which byte of a unit comes first: the greatest or the least. -/
inductive ByteOrder where
  | big
  | little
deriving DecidableEq

/-- The unit of some bytes. -/
def ByteOrder.unit (order : ByteOrder) (bytes : List Nat) : Nat :=
  match order with
  | .big => bytes.foldl (fun n byte => 256 * n + byte) 0
  | .little => bytes.foldr (fun byte n => byte + 256 * n) 0

/-- The units of two bytes each, if the bytes come out even. -/
def units16? (order : ByteOrder) : List Nat → Option (List Nat)
  | [] => some []
  | a :: b :: rest => (units16? order rest).map (order.unit [a, b] :: ·)
  | [_] => none

/-- The units of four bytes each, if the bytes come out even. -/
def units32? (order : ByteOrder) : List Nat → Option (List Nat)
  | [] => some []
  | a :: b :: c :: d :: rest =>
    (units32? order rest).map (order.unit [a, b, c, d] :: ·)
  | _ => none

/-- How a text is encoded in bytes. -/
inductive Encoding where
  | units8
  | units16 (order : ByteOrder)
  | units32 (order : ByteOrder)
deriving DecidableEq

namespace Encoding

/-- The marks that tell an encoding at the head of some bytes. The mark of
units of four bytes begins with that of two. -/
def marks : List (List Nat × Encoding) :=
  [([0x00, 0x00, 0xFE, 0xFF], .units32 .big),
    ([0xFF, 0xFE, 0x00, 0x00], .units32 .little),
    ([0xFE, 0xFF], .units16 .big), ([0xFF, 0xFE], .units16 .little),
    ([0xEF, 0xBB, 0xBF], .units8)]

/-- The encoding of some bytes of JSON without a mark, told from the zeros
among them. -/
def ofZeros : List Nat → Encoding
  | 0 :: b :: _ :: _ :: _ => if b = 0 then .units32 .big else .units16 .big
  | _ :: 0 :: c :: d :: _ =>
    if c = 0 ∧ d = 0 then .units32 .little else .units16 .little
  | [0, _] => .units16 .big
  | [_, 0] => .units16 .little
  | _ => .units8

/-- The encoding of some bytes of JSON, and the bytes without the mark. -/
def detect (bytes : List Nat) : Encoding × List Nat :=
  match marks.find? fun mark => mark.1.isPrefixOf bytes with
  | some (mark, encoding) => (encoding, bytes.drop mark.length)
  | none => (ofZeros bytes, bytes)

/-- The text that some bytes hold in an encoding, if they hold one. -/
def text? (encoding : Encoding) (bytes : List Nat) : Option Text :=
  match encoding with
  | .units8 => ofUnits8? bytes
  | .units16 order => (units16? order bytes).map ofUnits
  | .units32 order => (units32? order bytes).bind ofCodes?

end Encoding

/-- The text of some bytes of JSON, if they hold one. -/
def ofBytes? (bytes : ByteArray) : Option Text :=
  let (encoding, rest) :=
    Encoding.detect (bytes.data.toList.map UInt8.toNat)
  encoding.text? rest

end VarSection.Text
