import Stylesheet.Color.Keyword
import Stylesheet.Decimal.Text
import Stylesheet.Text.Characters

/-!
# The text of a colour

Reading `#rgb` and `#rrggbb`, and printing. A literal is printed as it was written. A computed
colour is printed with its opacity if it is not opaque, else by its keyword if it has one, else in
the long hexadecimal form.

Each channel of the hexadecimal form is an unsigned number of two characters in base sixteen, and
such a number may begin with a plus sign: `#+f+f+f` is the colour `#0f0f0f`. In the short form each
character stands for two equal ones, so no sign can occur there.
-/

namespace Stylesheet.Color

/-- The byte that two characters denote: two digits, or a plus sign and a digit. -/
def hexPair? (high low : Char) : Option UInt8 :=
  if high = '+' then (Text.hexDigit? low).map UInt8.ofNat
  else do
    let h ← Text.hexDigit? high
    let l ← Text.hexDigit? low
    return UInt8.ofNat (16 * h + l)

/-- The channels that the characters after the hash sign denote. -/
def hexBytes? : List Char → Option Bytes
  | [r, g, b] => do return ⟨← hexPair? r r, ← hexPair? g g, ← hexPair? b b⟩
  | [r₁, r₂, g₁, g₂, b₁, b₂] => do
    return ⟨← hexPair? r₁ r₂, ← hexPair? g₁ g₂, ← hexPair? b₁ b₂⟩
  | _ => none

/-- The colour that a text such as `#123` or `#112233` denotes; the text is remembered. -/
def ofHex? (text : String) : Option Color :=
  match text.toList with
  | '#' :: digits => (hexBytes? digits).map fun b => ofBytes b text
  | _ => none

/-- The colour that a text denotes: a hexadecimal literal or else a keyword. -/
def ofText? (text : String) : Option Color :=
  (ofHex? text).or (ofKeyword? text)

/-- A byte as two hexadecimal digits. -/
def hexText (b : UInt8) : String :=
  String.ofList [Nat.digitChar (b.toNat / 16), Nat.digitChar (b.toNat % 16)]

/-- The long hexadecimal form. -/
def Bytes.toHex (b : Bytes) : String :=
  "#" ++ hexText b.red ++ hexText b.green ++ hexText b.blue

/-- The form of a colour that is not opaque. -/
def Bytes.toRgba (b : Bytes) (alpha : Float) : String :=
  "rgba(" ++ ", ".intercalate
    [toString b.red, toString b.green, toString b.blue, Decimal.numberText alpha] ++ ")"

/-- The text by which a colour is printed. -/
def toCss (c : Color) : String :=
  match c.source with
  | some text => text
  | none => if c.alpha < 1 then c.bytes.toRgba c.alpha else c.keyword?.getD c.bytes.toHex

end Stylesheet.Color
