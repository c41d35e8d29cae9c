import Stylesheet.Dyadic.Basic

/-!
# Whole numbers near a float

Rounding a float to a whole number, in three directions, and the two readings that the colour and
list code needs: the byte nearest to a channel and the natural number that an index denotes.
Everything is computed on the exact value, so the results do not depend on how a machine rounds;
an infinity and NaN are their own whole numbers.
-/

namespace Stylesheet

/-- A direction in which to round to a whole number. -/
inductive Rounding where
  /-- Towards minus infinity. -/
  | floor
  /-- Towards plus infinity. -/
  | ceiling
  /-- To the nearest whole number, and a half away from zero. -/
  | nearest
  deriving Repr, DecidableEq

namespace Rounding

/-- The whole magnitude next to `numerator / 2 ^ places`, for a number of the given sign. -/
def magnitude (r : Rounding) (negative : Bool) (numerator places : Nat) : Nat :=
  let down := numerator / Nat.pow 2 places
  let up := (numerator + Nat.pow 2 places - 1) / Nat.pow 2 places
  match r with
  | floor => if negative then up else down
  | ceiling => if negative then down else up
  | nearest => (2 * numerator + Nat.pow 2 places) / (2 * Nat.pow 2 places)

/-- The rounded number. The sign stays, so a small negative number rounds to `-0`. -/
def apply (r : Rounding) (x : Float) : Float :=
  match Dyadic.ofFloat? x with
  | none => x
  | some d =>
    if 0 ≤ d.exponent then x
    else Dyadic.toFloat ⟨d.negative, r.magnitude d.negative d.numerator d.places, 0⟩

end Rounding

/-- The byte nearest to a number: numbers outside the range of a byte go to its ends, and NaN goes
to zero. -/
def nearestByte (x : Float) : UInt8 :=
  match Dyadic.ofFloat? x with
  | none => if 0 < x then 255 else 0
  | some d =>
    if d.negative then 0
    else UInt8.ofNat (min 255 (Rounding.nearest.magnitude false d.numerator d.places))

/-- The integer that a float denotes, if it denotes one. -/
def wholeNumber? (x : Float) : Option Int :=
  (Dyadic.ofFloat? x).bind Dyadic.toInt?

/-- What `x` leaves modulo `n`, in `[0, n)` up to one last rounding: a negative remainder is moved
up by `n`. An infinity leaves nothing that is a number. -/
def remainderModulo (x : Float) (n : Nat) : Float :=
  match Dyadic.ofFloat? x with
  | none => 0.0 / 0.0
  | some d =>
    let r := (d.remainder n).toFloat
    if r < 0 then r + Float.ofNat n else r

end Stylesheet
