/-!
# Shortest decimals

Every finite double is `mantissa · 2^exponent`, and every real number close enough to it rounds to
it. Among the decimals that do, `Decimal.shortest` picks one with the fewest digits, and of those
the nearest. Where two are equally near, the writer says which it wants. Everything is exact
arithmetic on natural numbers.
-/

namespace FieldPromotion

/-- The number `coefficient · 10^exponent`. -/
structure Decimal where
  coefficient : Nat
  exponent : Int
  deriving DecidableEq, Inhabited

/-- The magnitude `mantissa · 2^exponent` of a double. `narrow` marks the powers of two, whose
lower neighbour is only half as far away as the upper one. -/
structure Dyadic where
  mantissa : Nat
  exponent : Int
  narrow : Bool
  deriving DecidableEq, Inhabited

/-- Which of two equally near decimals is taken: the larger one, or the one whose last digit is
even. -/
inductive Tie where
  | up
  | toEven
  deriving DecidableEq, Inhabited

/-- Whether a tie between `d` and `d + 1` goes to `d`. -/
def Tie.keeps : Tie → Nat → Bool
  | .up, _ => false
  | .toEven, d => d % 2 == 0

namespace Dyadic

/-- The magnitude encoded by the bits of a double; `none` if that is no finite number. -/
def ofBits? (bits : UInt64) : Option Dyadic :=
  let fraction : Nat := bits.toNat % Nat.pow 2 52
  let biased : Nat := bits.toNat / Nat.pow 2 52 % Nat.pow 2 11
  if biased = 2047 then none
  else if biased = 0 then some ⟨fraction, -1074, false⟩
  else some ⟨fraction + Nat.pow 2 52, (biased : Int) - 1075, fraction = 0 && 1 < biased⟩

end Dyadic

namespace Decimal

/-- `base ^ e` as a fraction of natural numbers. -/
def powerFraction (base : Nat) (e : Int) : Nat × Nat :=
  if 0 ≤ e then (base.pow e.toNat, 1) else (1, base.pow (-e).toNat)

/-- How many zeros follow the decimal point of `num / den < 1`. -/
def leadingZeros : Nat → Nat → Nat → Nat
  | 0, _, _ => 0
  | fuel + 1, num, den => if num * 10 < den then leadingZeros fuel (num * 10) den + 1 else 0

/-- The position of the decimal point of `num / den`: the number of digits before it, or minus the
number of zeros that follow it directly. -/
def pointOf (num den : Nat) : Int :=
  if den ≤ num then (Nat.toDigits 10 (num / den)).length
  else -(leadingZeros 400 num den : Int)

/-- A point `d · 10^s` of a decimal grid that rounds to `v`. Only the two neighbours of `v` on the
grid are tried; when both round to `v` the nearer one is taken. -/
def onGrid? (tie : Tie) (v : Dyadic) (s : Int) : Option Nat :=
  let (binaryNum, binaryDen) := powerFraction 2 (v.exponent - 2)
  let (gridNum, gridDen) := powerFraction 10 s
  -- `unit` measures quarters of the last binary place, `step` measures steps of the grid
  let unit := binaryNum * gridDen
  let step := gridNum * binaryDen
  let value := 4 * v.mantissa * unit
  let above := (4 * v.mantissa + 2) * unit
  let below := (4 * v.mantissa - if v.narrow then 1 else 2) * unit
  let inside (d : Nat) : Bool :=
    if v.mantissa % 2 = 0 then below ≤ d * step && d * step ≤ above
    else below < d * step && d * step < above
  let d := value / step
  match inside d, inside (d + 1) with
  | true, true =>
    let twice := 2 * (value - d * step)
    if twice < step || (twice == step && tie.keeps d) then some d else some (d + 1)
  | true, false => some d
  | false, true => some (d + 1)
  | false, false => none

/-- Drops the trailing zeros of a coefficient. -/
def normalize : Nat → Decimal → Decimal
  | 0, d => d
  | fuel + 1, d =>
    if d.coefficient ≠ 0 ∧ d.coefficient % 10 = 0 then
      normalize fuel ⟨d.coefficient / 10, d.exponent + 1⟩
    else d

/-- The decimal with the fewest digits that rounds to `v`, the nearest of them. Seventeen digits
always suffice. -/
def shortest (tie : Tie) (v : Dyadic) : Decimal :=
  if v.mantissa = 0 then ⟨0, 0⟩
  else
    let (num, den) := powerFraction 2 v.exponent
    let point := pointOf (v.mantissa * num) den
    let grids := (List.range 17).map fun (n : Nat) => point - ((n + 1 : Nat) : Int)
    (grids.findSome? fun s => (onGrid? tie v s).map fun d => normalize 20 ⟨d, s⟩).getD ⟨0, 0⟩

end Decimal

end FieldPromotion
