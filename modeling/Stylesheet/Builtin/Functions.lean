import Stylesheet.Builtin.Arguments
import Stylesheet.Color.Hsl

/-!
# What the built-in functions compute

Functions on numbers keep the unit. Functions on colours come in two forms: with one argument they
read a component of a colour, with two they give the colour with that component changed. A component
may be given as a percentage of its range or as a plain number.
-/

namespace Stylesheet

namespace Quantity

/-- The value on the scale of a channel: `50%` is 127.5 and `128` is 128. -/
def onChannelScale (q : Quantity) : Float :=
  if q.isPercentage then q.value * 255.0 / 100.0 else q.value

/-- The value on the scale from 0 to 1: `50%` and `0.5` are both 0.5. -/
def onUnitScale (q : Quantity) : Float :=
  if q.isPercentage then q.value / 100.0 else q.value

end Quantity

/-- The items of a list; any other node is a list of one item. -/
def Node.items : Node → List Node
  | .list items => items
  | .expression items => items
  | node => [node]

namespace Arguments

/-! ## Numbers -/

/-- The only argument with a function applied to its number. -/
def mapNumber (args : Arguments) (f : Float → Float) : Except EvalError Node := do
  args.expectCount 1
  let q ← args.number 0
  return .number { q with value := f q.value }

/-- The only argument as a percentage: `0.5` is `50%`. -/
def percentage (args : Arguments) : Except EvalError Node := do
  args.expectCount 1
  let q ← args.number 0
  return .number ⟨q.value * 100.0, "%"⟩

/-! ## Colours from components -/

/-- The colour built from four numbers. -/
def colorOfFour (args : Arguments) (build : Quantity → Quantity → Quantity → Quantity → Color) :
    Except EvalError Node := do
  args.expectCount 4
  match ← args.numbers with
  | [p, q, r, s] => return .color (build p q r s)
  | found => throw (.argumentCount args.function (.exactly 4) found.length)

/-- The colour with the given channels and opacity. -/
def rgba (args : Arguments) : Except EvalError Node :=
  args.colorOfFour fun r g b a =>
    .ofChannels r.onChannelScale g.onChannelScale b.onChannelScale a.onUnitScale

/-- The opaque colour with the given channels. -/
def rgb (args : Arguments) : Except EvalError Node := do
  args.expectCount 3
  (args.append (.number (.plain 1.0))).rgba

/-- The colour with the given hue, saturation, lightness and opacity. -/
def hsla (args : Arguments) : Except EvalError Node :=
  args.colorOfFour fun h s l a => .ofHsl ⟨h.value, s.onUnitScale, l.onUnitScale⟩ a.onUnitScale

/-- The opaque colour with the given hue, saturation and lightness. -/
def hsl (args : Arguments) : Except EvalError Node := do
  args.expectCount 3
  (args.append (.number (.plain 1.0))).hsla

/-! ## Components of colours -/

/-- A component of a colour, read or changed. -/
def component (args : Arguments) (read : Color → Quantity) (change : Color → Quantity → Color) :
    Except EvalError Node :=
  match args.nodes with
  | [_] => do return .number (read (← args.color 0))
  | [_, _] => do
    let c ← args.color 0
    let q ← args.number 1
    return .color (change c q)
  | nodes => .error (.argumentCount args.function .oneOrTwo nodes.length)

/-- A channel, read as a whole number. -/
def channel (args : Arguments) (i : Channel) : Except EvalError Node :=
  args.component (fun c => .plain (Rounding.nearest.apply (c.channel i)))
    fun c q => c.withChannel i q.onChannelScale

/-- The opacity. -/
def alpha (args : Arguments) : Except EvalError Node :=
  args.component (fun c => .plain c.alpha) fun c q => c.withAlpha q.onUnitScale

/-- The hue, read in whole degrees. -/
def hue (args : Arguments) : Except EvalError Node :=
  args.component (fun c => .plain (Rounding.nearest.apply c.toHsl.hue))
    fun c q => .ofHsl { c.toHsl with hue := q.value } c.alpha

/-- The saturation, read in whole percent. -/
def saturation (args : Arguments) : Except EvalError Node :=
  args.component (fun c => ⟨Rounding.nearest.apply (c.toHsl.saturation * 100.0), "%"⟩)
    fun c q => .ofHsl { c.toHsl with saturation := q.onUnitScale } c.alpha

/-- The lightness, read in whole percent. -/
def lightness (args : Arguments) : Except EvalError Node :=
  args.component (fun c => ⟨Rounding.nearest.apply (c.toHsl.lightness * 100.0), "%"⟩)
    fun c q => .ofHsl { c.toHsl with lightness := q.onUnitScale } c.alpha

/-- The colour with its lightness moved by the amount given, in the direction 1 or -1. -/
def shiftLightness (args : Arguments) (direction : Float) : Except EvalError Node := do
  args.expectCount 2
  let c ← args.color 0
  let amount := (← args.number 1).onUnitScale
  let p := c.toHsl
  return .color (.ofHsl { p with lightness := p.lightness + direction * amount } c.alpha)

/-! ## Texts and lists -/

/-- A quoted text without its quotes. -/
def unquote (args : Arguments) : Except EvalError Node := do
  args.expectCount 1
  match args.nodes.head? with
  | some (.quoted value _) => return .text value
  | some (.text value) => return .text value
  | other => throw (args.wrongKind "string" other)

/-- The items of the first argument. -/
def firstItems (args : Arguments) : List Node :=
  (args.nodes.head?.map Node.items).getD []

/-- The number of items of a list. -/
def length (args : Arguments) : Except EvalError Node := do
  args.expectCount 1
  return .number (.plain (Float.ofNat args.firstItems.length))

/-- The item at a place of a list that counts from one; none if the number is no such place. -/
def itemAt? (items : List Node) (index : Float) : Option Node := do
  let n ← wholeNumber? index
  if n < 1 then none else items[n.toNat - 1]?

/-- The item of a list at a place that counts from one. -/
def extract (args : Arguments) : Except EvalError Node := do
  args.expectCount 2
  let index := (← args.number 1).value
  match itemAt? args.firstItems index with
  | some item => return item
  | none => throw (.indexOutOfRange args.function (Decimal.floatText index))

end Arguments

end Stylesheet
