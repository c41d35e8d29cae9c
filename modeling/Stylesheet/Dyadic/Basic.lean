/-!
# Dyadic numbers: what a float is, exactly

A finite binary64 value is `± m · 2 ^ e` for a natural `m` and an integer `e`. Reading a float into
that form, and writing such a form back, turns questions about floats (is it whole, what is its
integer part, what does it leave modulo 360) into questions about natural numbers, where they are
exact and can be reasoned about.

The sign is kept beside the magnitude and not folded into it, because the two zeros are different
values of the format: a rounded `-0.3` is `-0`, and the answers show it.
-/

namespace Stylesheet

/-- The number `± mantissa · 2 ^ exponent`, with a sign also on zero. -/
structure Dyadic where
  /-- Whether the number carries a minus sign. -/
  negative : Bool
  /-- The digits of the magnitude, as a natural number. -/
  mantissa : Nat
  /-- The power of two that scales the magnitude. -/
  exponent : Int
  deriving Repr, DecidableEq

namespace Dyadic

/-- The exact value of a finite float; there is none for an infinity or for NaN. -/
def ofFloat? (x : Float) : Option Dyadic :=
  let bits : Nat := x.toBits.toNat
  let negative := bits / Nat.pow 2 63 == 1
  let biased : Nat := bits / Nat.pow 2 52 % Nat.pow 2 11
  let fraction : Nat := bits % Nat.pow 2 52
  if biased = 2047 then none
  else if biased = 0 then some ⟨negative, fraction, -1074⟩
  else some ⟨negative, fraction + Nat.pow 2 52, (biased : Int) - 1075⟩

/-- The bit pattern of a magnitude `m · 2 ^ e` below `2 ^ 1024` that the format can hold: `m` below
`2 ^ 53` and `e` at least `-1074`. The mantissa is moved up until it fills 53 bits or the exponent
can go no lower. -/
def magnitudeBits (m : Nat) (e : Int) : Nat :=
  let shift := min (52 - m.log2) (e + 1074).toNat
  let full := m * Nat.pow 2 shift
  if full < Nat.pow 2 52 then full
  else (e + 1075 - shift).toNat * Nat.pow 2 52 + (full - Nat.pow 2 52)

/-- The float with this value; the value must be one that the format can hold. -/
def toFloat (d : Dyadic) : Float :=
  let sign := if d.negative then Nat.pow 2 63 else 0
  Float.ofBits (UInt64.ofNat (sign + magnitudeBits d.mantissa d.exponent))

/-- The magnitude times `2 ^ k` for the least natural `k` that makes it whole. -/
def numerator (d : Dyadic) : Nat :=
  d.mantissa * Nat.pow 2 d.exponent.toNat

/-- The number of binary places after the point. -/
def places (d : Dyadic) : Nat :=
  (-d.exponent).toNat

/-- The value as an integer, if it is one. Both zeros are the integer zero. -/
def toInt? (d : Dyadic) : Option Int :=
  if d.numerator % Nat.pow 2 d.places = 0 then
    let whole := d.numerator / Nat.pow 2 d.places
    some (if d.negative then -(whole : Int) else whole)
  else
    none

/-- What the magnitude leaves modulo `n`, with the sign of the number. -/
def remainder (d : Dyadic) (n : Nat) : Dyadic :=
  if 0 ≤ d.exponent then ⟨d.negative, d.numerator % n, 0⟩
  else ⟨d.negative, d.mantissa % (n * Nat.pow 2 d.places), d.exponent⟩

end Dyadic

end Stylesheet
