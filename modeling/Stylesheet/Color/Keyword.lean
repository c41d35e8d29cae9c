import Stylesheet.Color.Basic
import Stylesheet.Dyadic.Rounding
import Stylesheet.Text.Characters

/-!
# Colour keywords

The keywords that are no longer than the hexadecimal form of their colour. They are read in any
letter case, and an opaque colour that rounds to one of them is printed as that keyword.
-/

namespace Stylesheet.Color

/-- Three bytes: the channels of a colour as they are printed. -/
structure Bytes where
  /-- The red channel. -/
  red : UInt8
  /-- The green channel. -/
  green : UInt8
  /-- The blue channel. -/
  blue : UInt8
  deriving Repr, DecidableEq

/-- The channels rounded to the nearest byte. -/
def bytes (c : Color) : Bytes :=
  ⟨nearestByte c.red, nearestByte c.green, nearestByte c.blue⟩

/-- The literal `text` for an opaque colour with these channels. -/
def ofBytes (b : Bytes) (text : String) : Color :=
  { ofChannels (Float.ofNat b.red.toNat) (Float.ofNat b.green.toNat) (Float.ofNat b.blue.toNat) 1
    with source := some text }

/-- The keywords with their channels. -/
def keywords : List (String × Bytes) :=
  [("black", ⟨0x00, 0x00, 0x00⟩),
    ("silver", ⟨0xc0, 0xc0, 0xc0⟩),
    ("gray", ⟨0x80, 0x80, 0x80⟩),
    ("white", ⟨0xff, 0xff, 0xff⟩),
    ("maroon", ⟨0x80, 0x00, 0x00⟩),
    ("red", ⟨0xff, 0x00, 0x00⟩),
    ("purple", ⟨0x80, 0x00, 0x80⟩),
    ("green", ⟨0x00, 0x80, 0x00⟩),
    ("lime", ⟨0x00, 0xff, 0x00⟩),
    ("olive", ⟨0x80, 0x80, 0x00⟩),
    ("yellow", ⟨0xff, 0xff, 0x00⟩),
    ("navy", ⟨0x00, 0x00, 0x80⟩),
    ("blue", ⟨0x00, 0x00, 0xff⟩),
    ("teal", ⟨0x00, 0x80, 0x80⟩),
    ("aqua", ⟨0x00, 0xff, 0xff⟩),
    ("orange", ⟨0xff, 0xa5, 0x00⟩),
    ("azure", ⟨0xf0, 0xff, 0xff⟩),
    ("beige", ⟨0xf5, 0xf5, 0xdc⟩),
    ("bisque", ⟨0xff, 0xe4, 0xc4⟩),
    ("brown", ⟨0xa5, 0x2a, 0x2a⟩),
    ("coral", ⟨0xff, 0x7f, 0x50⟩),
    ("gold", ⟨0xff, 0xd7, 0x00⟩),
    ("indigo", ⟨0x4b, 0x00, 0x82⟩),
    ("ivory", ⟨0xff, 0xff, 0xf0⟩),
    ("khaki", ⟨0xf0, 0xe6, 0x8c⟩),
    ("linen", ⟨0xfa, 0xf0, 0xe6⟩),
    ("orchid", ⟨0xda, 0x70, 0xd6⟩),
    ("peru", ⟨0xcd, 0x85, 0x3f⟩),
    ("pink", ⟨0xff, 0xc0, 0xcb⟩),
    ("plum", ⟨0xdd, 0xa0, 0xdd⟩),
    ("salmon", ⟨0xfa, 0x80, 0x72⟩),
    ("sienna", ⟨0xa0, 0x52, 0x2d⟩),
    ("snow", ⟨0xff, 0xfa, 0xfa⟩),
    ("tan", ⟨0xd2, 0xb4, 0x8c⟩),
    ("tomato", ⟨0xff, 0x63, 0x47⟩),
    ("violet", ⟨0xee, 0x82, 0xee⟩),
    ("wheat", ⟨0xf5, 0xde, 0xb3⟩)]

/-- The colour that a keyword names, in any letter case; the text is remembered as written. -/
def ofKeyword? (name : String) : Option Color :=
  (keywords.find? fun entry => Text.sameLetters entry.1 name).map fun entry => ofBytes entry.2 name

/-- The keyword by which a colour is printed: there is none for a colour that is not opaque. -/
def keyword? (c : Color) : Option String :=
  if c.alpha < 1 then none
  else (keywords.find? fun entry => entry.2 = c.bytes).map Prod.fst

end Stylesheet.Color
