import Stylesheet.Quantity

/-!
# Colours

A colour has three channels between 0 and 255 and an opacity between 0 and 1. Every colour that is
computed is clamped to these ranges; NaN is in no range and stays.

A colour that was written as a literal remembers its text, and is printed by it. Everything that
computes a colour makes a new one without text, so a remembered text always belongs to the channels
that stand beside it.
-/

namespace Stylesheet

/-- Moves a number into the range from `low` to `high`. NaN stays. -/
def clamp (low high x : Float) : Float :=
  if x < low then low else if high < x then high else x

/-- One of the three channels of a colour. -/
inductive Channel where
  | red
  | green
  | blue
  deriving Repr, DecidableEq

/-- A colour with an opacity. -/
structure Color where
  /-- The red channel, from 0 to 255. -/
  red : Float
  /-- The green channel, from 0 to 255. -/
  green : Float
  /-- The blue channel, from 0 to 255. -/
  blue : Float
  /-- The opacity, from 0 to 1. -/
  alpha : Float
  /-- The text of a literal, `#123` or `Red`. -/
  source : Option String
  deriving Repr

namespace Color

/-- Colours are compared by channels and opacity; a remembered text plays no part. -/
instance : BEq Color where
  beq a b := a.red == b.red && a.green == b.green && a.blue == b.blue && a.alpha == b.alpha

/-- The colour with these channels and opacity, each clamped to its range. -/
def ofChannels (red green blue alpha : Float) : Color where
  red := clamp 0 255 red
  green := clamp 0 255 green
  blue := clamp 0 255 blue
  alpha := clamp 0 1 alpha
  source := none

/-- The opaque grey with one value in each channel. A number that meets a colour in an operation is
read as a grey. -/
def grey (value : Float) : Color :=
  ofChannels value value value 1

/-- The value of a channel. -/
def channel (c : Color) : Channel → Float
  | .red => c.red
  | .green => c.green
  | .blue => c.blue

/-- The colour with one channel replaced. -/
def withChannel (c : Color) (i : Channel) (value : Float) : Color :=
  match i with
  | .red => ofChannels value c.green c.blue c.alpha
  | .green => ofChannels c.red value c.blue c.alpha
  | .blue => ofChannels c.red c.green value c.alpha

/-- The colour with another opacity. -/
def withAlpha (c : Color) (alpha : Float) : Color :=
  ofChannels c.red c.green c.blue alpha

/-- An operator on colours works channel by channel. The result has the opacity of the left one. -/
def operate (op : Operator) (a b : Color) : Except EvalError Color := do
  let red ← op.apply a.red b.red
  let green ← op.apply a.green b.green
  let blue ← op.apply a.blue b.blue
  return ofChannels red green blue a.alpha

end Color

end Stylesheet
