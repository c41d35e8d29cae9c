import Stylesheet.Decimal.Shortest
import Stylesheet.Dyadic.Rounding

/-!
# Number text

Two texts of a float. `floatText` is the plain one: the shortest decimal that reads back, always
positional, whatever the size of the number. `numberText` is the one that style sheets show: at
most eight decimals, and a zero without a sign.
-/

namespace Stylesheet.Decimal

/-- The digits written out around a decimal point, never with an exponent. -/
def Scaled.positional (s : Scaled) : String :=
  let digits := Nat.toDigits 10 s.digits
  let places := (-s.exponent).toNat
  let whole := digits.length - places
  let padded := List.replicate (places - digits.length) '0' ++ digits
  if 0 ≤ s.exponent then String.ofList (digits ++ List.replicate s.exponent.toNat '0')
  else if 0 < whole then String.ofList (digits.take whole ++ '.' :: digits.drop whole)
  else String.ofList ('0' :: '.' :: padded)

/-- The text of a float that is not finite. -/
def nonFiniteText (x : Float) : String :=
  if x.isNaN then "NaN" else if x < 0 then "-inf" else "inf"

/-- The shortest decimal that reads back as the float, in positional notation. -/
def floatText (x : Float) : String :=
  match Dyadic.ofFloat? x with
  | none => nonFiniteText x
  | some d =>
    let magnitude :=
      if d.mantissa = 0 then "0" else (shortest d.mantissa d.exponent).positional
    if d.negative then "-" ++ magnitude else magnitude

/-- A number as a style sheet shows it: rounded to eight decimals, and without a sign on zero. Whole
numbers from `10 ^ 15` on take the general path, which writes them the same way. -/
def numberText (x : Float) : String :=
  let rounded := Rounding.nearest.apply (x * 1e8) / 1e8
  match wholeNumber? rounded with
  | some n => if n.natAbs < Nat.pow 10 15 then toString n else floatText rounded
  | none => floatText rounded

end Stylesheet.Decimal
