/-!
# Reading numerals

A numeral is an optional sign, digits, an optional fraction and an optional exponent. One without
fraction and exponent is an integer if it fits 64 bits. Every other numeral is a double: as many
leading digits as fit 64 bits are gathered into a significand, which is then scaled by one power of
ten in double precision.
-/

namespace FieldPromotion

/-- A number as it stands in a text. -/
inductive Number where
  | int (value : Int)
  | float (value : Float)
  deriving Inhabited

/-- The parts of a numeral; digits are numbers below ten. -/
structure Numeral where
  negative : Bool := false
  whole : List Nat
  fraction : List Nat := []
  /-- Whether the exponent is negative, and its digits. -/
  exponent : Option (Bool × List Nat) := none
  /-- Whether a decimal point was written. -/
  hasPoint : Bool := false
  deriving DecidableEq, Inhabited

namespace Numeral

/-- Appends digits to a significand while it fits 64 bits, and returns the digits left over. -/
def gather : Nat → List Nat → Nat × List Nat
  | n, [] => (n, [])
  | n, d :: ds => if n * 10 + d < Nat.pow 2 64 then gather (n * 10 + d) ds else (n, d :: ds)

/-- The value of a digit list; `none` from `2^31` on. -/
def smallNat? (ds : List Nat) : Option Nat :=
  ds.foldlM (fun n d => if n * 10 + d < Nat.pow 2 31 then some (n * 10 + d) else none) 0

private def powerOfTen (n : Nat) : Float :=
  Float.ofScientific 1 false n

/-- Divides by powers of ten until the exponent is used up; `fuel` bounds the number of large
steps, each of which takes up 308 places. -/
def scaleDown : Nat → Float → Nat → Float
  | 0, x, _ => x
  | fuel + 1, x, places =>
    if places ≤ 308 then x / powerOfTen places
    else if x == 0 then x
    else scaleDown fuel (x / powerOfTen 308) (places - 308)

/-- `significand · 10^exponent` in double precision; `none` when it is too large. -/
def scale? (significand : Nat) (exponent : Int) : Option Float :=
  let x := significand.toUInt64.toFloat
  if exponent < 0 then
    let places := exponent.natAbs
    some (scaleDown (places / 308 + 1) x places)
  else if exponent ≤ 308 then
    let y := x * powerOfTen exponent.toNat
    if y.isInf then none else some y
  else if significand = 0 then some x
  else none

/-- A double with the sign of the numeral. -/
def signed (n : Numeral) (x : Float) : Float :=
  if n.negative then -x else x

/-- The number a numeral stands for; `none` when it is too large for a double. -/
def value? (n : Numeral) : Option Number :=
  let (high, excess) := gather 0 n.whole
  if n.hasPoint || n.exponent.isSome || !excess.isEmpty then
    let (significand, ignored) := gather high n.fraction
    let places : Int := excess.length - ((n.fraction.length - ignored.length : Nat) : Int)
    match n.exponent with
    | none => (scale? significand places).map fun x => .float (n.signed x)
    | some (down, digits) =>
      match smallNat? digits with
      | some e =>
        (scale? significand (if down then places - e else places + e)).map fun x =>
          .float (n.signed x)
      | none =>
        if significand ≠ 0 && !down then none else some (.float (n.signed 0.0))
  else if !n.negative then
    some (.int high)
  else if high = 0 || Nat.pow 2 63 < high then
    some (.float (-high.toUInt64.toFloat))
  else
    some (.int (-high))

end Numeral

end FieldPromotion
