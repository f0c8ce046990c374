/-
Decimal text of binary floating-point numbers: the fewest digits that read
back as the same number, and of those the nearest to it.

A finite number is `m * 2 ^ q`. The decimals that read back as it form an
interval, which reaches halfway to its neighbours on either side and holds
its ends exactly when `m` is even. For one digit, two digits and so on the
two points of that decimal grid around the number are tested in exact
arithmetic, and the first grid with a point in the interval wins.
-/
namespace VarSection.Decimal

/-- A decimal number: `digits * 10 ^ exponent`. -/
structure Scaled where
  digits : Nat
  exponent : Int
deriving DecidableEq

/-- A finite positive binary number, `m * 2 ^ q`. Below a power of two the
next number is only half as far away as above it. -/
structure Binary where
  m : Nat
  q : Int
  narrowBelow : Bool

/-- The finite number with the given bits, its sign aside. -/
def Binary.ofBits (bits : UInt64) : Binary :=
  let exponent := ((bits >>> 52) &&& 0x7FF).toNat
  let fraction := (bits &&& 0xFFFFFFFFFFFFF).toNat
  if exponent = 0 then ⟨fraction, -1074, false⟩
  else ⟨0x10000000000000 + fraction, (exponent : Int) - 1075,
    fraction == 0 && exponent > 1⟩

/-- Compares `a * 10 ^ i` with `n * 2 ^ j` exactly. -/
def compareScaled (a : Nat) (i : Int) (n : Nat) (j : Int) : Ordering :=
  compare (a * Nat.pow 10 i.toNat * Nat.pow 2 (-j).toNat)
    (n * Nat.pow 2 j.toNat * Nat.pow 10 (-i).toNat)

/-- Whether a decimal reads back as the number. -/
def Binary.readsBack (x : Binary) (d : Scaled) : Bool :=
  let low := if x.narrowBelow then 4 * x.m - 1 else 4 * x.m - 2
  let atLow := compareScaled d.digits d.exponent low (x.q - 2)
  let atHigh := compareScaled d.digits d.exponent (4 * x.m + 2) (x.q - 2)
  let closed := x.m % 2 == 0
  (atLow == .gt || (closed && atLow == .eq)) &&
    (atHigh == .lt || (closed && atHigh == .eq))

/-- The number in units of `10 ^ exponent`, rounded down. -/
def Binary.floorAt (x : Binary) (exponent : Int) : Nat :=
  x.m * Nat.pow 2 x.q.toNat * Nat.pow 10 (-exponent).toNat /
    (Nat.pow 2 (-x.q).toNat * Nat.pow 10 exponent.toNat)

/-- The exponent of the first decimal digit, counted from an estimate that
is at most one off. -/
def Binary.magnitude (x : Binary) : Int :=
  let estimate := ((x.m.log2 : Int) + x.q) * 30103 / 100000
  if compareScaled 1 (estimate + 1) x.m x.q != .gt then estimate + 1
  else if compareScaled 1 estimate x.m x.q != .gt then estimate
  else estimate - 1

/-- The nearer of the two grid points around the number that read back; at
equal distance the even one. -/
def Binary.nearestAt? (x : Binary) (exponent : Int) : Option Scaled :=
  let below : Scaled := ⟨x.floorAt exponent, exponent⟩
  let above : Scaled := ⟨below.digits + 1, exponent⟩
  match x.readsBack below, x.readsBack above with
  | false, false => none
  | true, false => some below
  | false, true => some above
  | true, true =>
    match compareScaled (2 * below.digits + 1) exponent (2 * x.m) x.q with
    | .gt => some below
    | .lt => some above
    | .eq => some (if below.digits % 2 = 0 then below else above)

/-- A decimal without zeros at the end of its digits; `fuel` bounds their
number. -/
def Scaled.trim : Nat → Scaled → Scaled
  | 0, d => d
  | fuel + 1, d =>
    if d.digits % 10 = 0 && d.digits != 0 then
      trim fuel ⟨d.digits / 10, d.exponent + 1⟩
    else d

/-- The shortest decimal of a positive number. Seventeen digits always
suffice. -/
def Binary.shortest (x : Binary) : Scaled :=
  let found := (List.range 17).findSome? fun (n : Nat) =>
    x.nearestAt? (x.magnitude - n)
  (found.getD ⟨x.floorAt (x.magnitude - 16), x.magnitude - 16⟩).trim 20

/-- Lays out a decimal: positionally from four places behind the point up
to sixteen in front of it, with at least one place behind the point;
otherwise with one digit in front of the point and a signed exponent of at
least two digits. -/
def Scaled.layout (d : Scaled) : String :=
  let digits := toString d.digits
  let lead := d.exponent + (digits.length : Int) - 1
  let cut (n : Nat) : String × String :=
    ((digits.take n).toString, (digits.drop n).toString)
  let zeros (n : Int) : String := String.ofList (List.replicate n.toNat '0')
  if -4 ≤ lead && lead < 0 then "0." ++ zeros (-lead - 1) ++ digits
  else if 0 ≤ lead && lead < 16 then
    if 0 ≤ d.exponent then digits ++ zeros d.exponent ++ ".0"
    else
      let (front, back) := cut (lead.toNat + 1)
      front ++ "." ++ back
  else
    let (front, back) := cut 1
    let power := toString lead.natAbs
    front ++ (if back.isEmpty then "" else "." ++ back) ++ "e" ++
      (if lead < 0 then "-" else "+") ++
      (if power.length < 2 then "0" ++ power else power)

/-- The decimal text of a number. -/
def written (x : Float) : String :=
  if x.isNaN then "nan"
  else
    let sign := if x.toBits >>> 63 = 1 then "-" else ""
    let b := Binary.ofBits (x.toBits &&& 0x7FFFFFFFFFFFFFFF)
    sign ++
      if x.isInf then "inf"
      else if b.m = 0 then "0.0"
      else b.shortest.layout

end VarSection.Decimal
