import FieldPromotion.Decimal.Shortest

/-!
# Writing doubles

The digits of a double are those of its shortest decimal. What remains to be chosen is the layout:
which of two equally near decimals is taken, which magnitudes are written positionally, and how an
exponent is written otherwise. A layout is a value, and each output format of this library has its
own.
-/

namespace FieldPromotion.Decimal

/-- How a decimal is laid out. `positional p` says whether a number whose decimal point stands at
position `p` is written without an exponent; `plusSign` writes positive exponents with a sign. -/
structure Layout where
  tie : Tie
  positional : Int → Bool
  plusSign : Bool

namespace Layout

/-- A row of zeros. -/
def zeros (n : Int) : String :=
  String.ofList (List.replicate n.toNat '0')

/-- Digits with a decimal point at position `point`, and at least one digit on either side. -/
def fixedText (digits : List Char) (point : Int) : String :=
  if point ≤ 0 then
    "0." ++ zeros (-point) ++ String.ofList digits
  else if (digits.length : Int) ≤ point then
    String.ofList digits ++ zeros (point - digits.length) ++ ".0"
  else
    String.ofList (digits.take point.toNat) ++ "." ++ String.ofList (digits.drop point.toNat)

/-- Digits with the decimal point after the first one and an exponent. -/
def exponentText (plusSign : Bool) (digits : List Char) (point : Int) : String :=
  let fraction := digits.drop 1
  let exponent := point - 1
  String.ofList (digits.take 1)
    ++ (if fraction.isEmpty then "" else "." ++ String.ofList fraction)
    ++ "e"
    ++ (if plusSign && 0 ≤ exponent then "+" else "")
    ++ toString exponent

/-- The text of a decimal magnitude. -/
def decimalText (layout : Layout) (d : Decimal) : String :=
  if d.coefficient = 0 then "0.0"
  else
    let digits := Nat.toDigits 10 d.coefficient
    let point := digits.length + d.exponent
    if layout.positional point then fixedText digits point
    else exponentText layout.plusSign digits point

/-- The text of a double; `none` for infinities and for what is no number. -/
def text? (layout : Layout) (x : Float) : Option String :=
  let bits := x.toBits
  (Dyadic.ofBits? bits).map fun v =>
    (if bits.toNat / Nat.pow 2 63 = 1 then "-" else "")
      ++ layout.decimalText (shortest layout.tie v)

end Layout

/-- Source text: positional from `0.0001` up to sixteen digits before the point; ties go up. -/
def sourceLayout : Layout where
  tie := .up
  positional p := -3 ≤ p && p ≤ 16
  plusSign := false

/-- JSON text: positional from `0.00001` up to sixteen digits before the point, and exponents with
their sign; ties go to the even digit. -/
def jsonLayout : Layout where
  tie := .toEven
  positional p := -4 ≤ p && p ≤ 16
  plusSign := true

/-- How a double that is no finite number is named. -/
def nonFiniteText (x : Float) : String :=
  if x.isNaN then "NaN" else if x < 0 then "-inf" else "inf"

/-- The text of a double in source code. -/
def sourceText (x : Float) : String :=
  (sourceLayout.text? x).getD (nonFiniteText x)

/-- The text of a double in a message about JSON, where it looks as it does in JSON. -/
def messageText (x : Float) : String :=
  (jsonLayout.text? x).getD (nonFiniteText x)

end FieldPromotion.Decimal
