import Stylesheet.Color.Basic
import Stylesheet.Dyadic.Rounding

/-!
# Hue, saturation and lightness

The conversions between channels and the cylinder of hue, saturation and lightness. The arithmetic
is that of the binary64 format in the order written here; a result shows every rounding of it, so
no step may be regrouped.
-/

namespace Stylesheet

/-- A point of the colour cylinder. -/
structure Hsl where
  /-- The hue in degrees. -/
  hue : Float
  /-- The saturation, from 0 to 1. -/
  saturation : Float
  /-- The lightness, from 0 to 1. -/
  lightness : Float
  deriving Repr

namespace Hsl

/-- The larger of two numbers; one that is NaN is passed over. Of two equal ones, which can only be
told apart if they are the two zeros, it is the second. -/
def larger (x y : Float) : Float :=
  if x.isNaN then y else if y ≥ x then y else x

/-- The smaller of two numbers, under the same rules. -/
def smaller (x y : Float) : Float :=
  if x.isNaN then y else if y ≤ x then y else x

/-- The strength, from 0 to 255, of a channel whose place on the colour wheel is `turn`, between the
strengths `low` and `high`. -/
def channelAt (low high turn : Float) : Float :=
  let t := if turn < 0.0 then turn + 1.0 else if turn > 1.0 then turn - 1.0 else turn
  let strength :=
    if t * 6.0 < 1.0 then low + (high - low) * t * 6.0
    else if t * 2.0 < 1.0 then high
    else if t * 3.0 < 2.0 then low + (high - low) * (2.0 / 3.0 - t) * 6.0
    else low
  strength * 255.0

end Hsl

namespace Color

/-- The colour at a point of the cylinder. The hue is taken modulo a full turn, and saturation and
lightness are clamped. -/
def ofHsl (p : Hsl) (alpha : Float) : Color :=
  let turn := remainderModulo p.hue 360 / 360.0
  let saturation := clamp 0.0 1.0 p.saturation
  let lightness := clamp 0.0 1.0 p.lightness
  let high :=
    if lightness ≤ 0.5 then lightness * (saturation + 1.0)
    else lightness + saturation - lightness * saturation
  let low := lightness * 2.0 - high
  ofChannels (Hsl.channelAt low high (turn + 1.0 / 3.0)) (Hsl.channelAt low high turn)
    (Hsl.channelAt low high (turn - 1.0 / 3.0)) alpha

/-- The place of a colour on the cylinder. A grey has hue and saturation zero. -/
def toHsl (c : Color) : Hsl :=
  let r := c.red / 255.0
  let g := c.green / 255.0
  let b := c.blue / 255.0
  let high := Hsl.larger (Hsl.larger r g) b
  let low := Hsl.smaller (Hsl.smaller r g) b
  let lightness := (high + low) / 2.0
  if high == low then ⟨0.0, 0.0, lightness⟩
  else
    let range := high - low
    let saturation :=
      if lightness > 0.5 then range / (2.0 - high - low) else range / (high + low)
    let sixths :=
      if high == r then (g - b) / range + (if g < b then 6.0 else 0.0)
      else if high == g then (b - r) / range + 2.0
      else (r - g) / range + 4.0
    ⟨sixths * 60.0, saturation, lightness⟩

end Color

end Stylesheet
