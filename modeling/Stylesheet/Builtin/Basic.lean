import Stylesheet.Builtin.Functions

/-!
# Built-in functions

The functions that a style sheet can call without defining them. They are called by name in any
letter case.
-/

namespace Stylesheet

/-- A built-in function. -/
inductive Builtin where
  | abs
  | alpha
  | blue
  | ceil
  | darken
  | e
  | extract
  | floor
  | green
  | hsl
  | hsla
  | hue
  | length
  | lighten
  | lightness
  | percentage
  | red
  | rgb
  | rgba
  | round
  | saturation
  deriving Repr, DecidableEq

namespace Builtin

/-- The name of a built-in function. -/
def name : Builtin → String
  | abs => "abs"
  | alpha => "alpha"
  | blue => "blue"
  | ceil => "ceil"
  | darken => "darken"
  | e => "e"
  | extract => "extract"
  | floor => "floor"
  | green => "green"
  | hsl => "hsl"
  | hsla => "hsla"
  | hue => "hue"
  | length => "length"
  | lighten => "lighten"
  | lightness => "lightness"
  | percentage => "percentage"
  | red => "red"
  | rgb => "rgb"
  | rgba => "rgba"
  | round => "round"
  | saturation => "saturation"

/-- All built-in functions, in the order of their names. -/
def all : List Builtin :=
  [abs, alpha, blue, ceil, darken, e, extract, floor, green, hsl, hsla, hue, length, lighten,
    lightness, percentage, red, rgb, rgba, round, saturation]

/-- The names of all built-in functions, in order. -/
def names : List String :=
  all.map name

/-- The built-in function of that name, in any letter case. -/
def ofName? (text : String) : Option Builtin :=
  all.find? fun f => f.name == Text.lower text

/-- The result of a call. -/
def apply (f : Builtin) (args : Arguments) : Except EvalError Node :=
  match f with
  | abs => args.mapNumber Float.abs
  | alpha => args.alpha
  | blue => args.channel .blue
  | ceil => args.mapNumber Rounding.ceiling.apply
  | darken => args.shiftLightness (-1.0)
  | e => args.unquote
  | extract => args.extract
  | floor => args.mapNumber Rounding.floor.apply
  | green => args.channel .green
  | hsl => args.hsl
  | hsla => args.hsla
  | hue => args.hue
  | length => args.length
  | lighten => args.shiftLightness 1.0
  | lightness => args.lightness
  | percentage => args.percentage
  | red => args.channel .red
  | rgb => args.rgb
  | rgba => args.rgba
  | round => args.mapNumber Rounding.nearest.apply
  | saturation => args.saturation

end Builtin

end Stylesheet
