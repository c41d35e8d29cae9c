import Stylesheet.Dyadic.Basic

/-!
# The shortest decimal that reads back

The text of a float is the decimal with the fewest digits among those that round to it, and among
those of equally few digits the one nearest to the float; of two equally near ones the larger.

The decimals that round to a value `v` form an interval around it, closed exactly if the mantissa
of `v` is even. `shortest` walks through the decimal grids from coarse to fine. On each grid only
the two neighbours of `v` need a test: if any point of the grid lies in the interval, so does one
of these. The seventeenth digit always suffices for a binary64 value.
-/

namespace Stylesheet.Decimal

/-- The digits `digits` scaled by `10 ^ exponent`. -/
structure Scaled where
  /-- The significant digits, as a natural number. -/
  digits : Nat
  /-- The power of ten that scales them. -/
  exponent : Int
  deriving Repr, DecidableEq

/-- The number of decimal digits of a natural number. -/
def digitCount (n : Nat) : Nat :=
  (Nat.toDigits 10 n).length

/-- The power of ten with `10 ^ p ≤ a / b < 10 ^ (p + 1)`, for positive `a` and `b`. -/
def leadingExponent (a b : Nat) : Int :=
  let p := (digitCount a : Int) - digitCount b
  if b * Nat.pow 10 p.toNat ≤ a * Nat.pow 10 (-p).toNat then p else p - 1

/-- A value between the ends of the interval of the reals that round to it, all three over one
common denominator. -/
structure Span where
  /-- The lower end. -/
  low : Nat
  /-- The value itself. -/
  value : Nat
  /-- The upper end. -/
  high : Nat
  /-- The common denominator. -/
  denominator : Nat
  /-- Whether the ends themselves round to the value. -/
  closed : Bool

/-- The reals that round to the float with magnitude `m · 2 ^ e`. The step below a power of two is
half the step above it. -/
def Span.ofMagnitude (m : Nat) (e : Int) : Span :=
  let scale := Nat.pow 2 (e - 2).toNat
  let below := if m = Nat.pow 2 52 ∧ -1074 < e then 1 else 2
  { low := (4 * m - below) * scale
    value := 4 * m * scale
    high := (4 * m + 2) * scale
    denominator := Nat.pow 2 (2 - e).toNat
    closed := m % 2 == 0 }

/-- The neighbour of the value on the grid of multiples of `10 ^ p` that lies in the span, if there
is one: of two the nearer, and of two equally near the upper. -/
def Span.neighbour? (s : Span) (p : Int) : Option Nat :=
  let up := Nat.pow 10 (-p).toNat
  let unit := s.denominator * Nat.pow 10 p.toNat
  let value := s.value * up
  let below := value / unit
  let above := below + 1
  let inside (x : Nat) : Bool :=
    if s.closed then s.low * up ≤ x && x ≤ s.high * up else s.low * up < x && x < s.high * up
  match inside (below * unit), inside (above * unit) with
  | true, true => some (if above * unit - value ≤ value - below * unit then above else below)
  | true, false => some below
  | false, true => some above
  | false, false => none

/-- The first hit on the grids `10 ^ p`, `10 ^ (p - 1)`, …, of which `count` are tried. -/
def Span.firstHit (s : Span) : (count : Nat) → (p : Int) → Scaled
  | 0, p => ⟨s.value * Nat.pow 10 (-p).toNat / (s.denominator * Nat.pow 10 p.toNat), p⟩
  | count + 1, p =>
    match s.neighbour? p with
    | some digits => ⟨digits, p⟩
    | none => s.firstHit count (p - 1)

/-- The shortest decimal that rounds to the positive magnitude `m · 2 ^ e`. -/
def shortest (m : Nat) (e : Int) : Scaled :=
  let s := Span.ofMagnitude m e
  s.firstHit 18 (leadingExponent s.value s.denominator + 1)

end Stylesheet.Decimal
