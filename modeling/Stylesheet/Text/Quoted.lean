import Stylesheet.Text.Characters
import Stylesheet.Text.Extending
import Stylesheet.Text.Unassigned

/-!
# Text in quotes, for descriptions

A description shows a text between double quotes on one line. Characters that would end the quotes
or the line are escaped, and so are all that leave no mark of their own on the page: those that show
nothing, those that only change the character before them, and code points without a character.
-/

namespace Stylesheet.Text

/-- The characters that show nothing: controls, format characters, separators other than the plain
space, characters for private use, and those with the property `Default_Ignorable_Code_Point`. -/
def invisibleRanges : Ranges :=
  [(0x00, 0x1f), (0x7f, 0xa0), (0xad, 0xad), (0x34f, 0x34f), (0x600, 0x605), (0x61c, 0x61c),
    (0x6dd, 0x6dd), (0x70f, 0x70f), (0x890, 0x891), (0x8e2, 0x8e2), (0x115f, 0x1160),
    (0x1680, 0x1680), (0x17b4, 0x17b5), (0x180b, 0x180f), (0x2000, 0x200f), (0x2028, 0x202f),
    (0x205f, 0x206f), (0x3000, 0x3000), (0x3164, 0x3164), (0xe000, 0xf8ff), (0xfe00, 0xfe0f),
    (0xfeff, 0xfeff), (0xffa0, 0xffa0), (0xfff0, 0xfffb), (0x110bd, 0x110bd), (0x110cd, 0x110cd),
    (0x13430, 0x1343f), (0x1bca0, 0x1bca3), (0x1d173, 0x1d17a), (0xe0000, 0xe0fff),
    (0xf0000, 0xffffd), (0x100000, 0x10fffd)]

/-- Whether a character shows nothing. -/
def isInvisible (c : Char) : Bool :=
  invisibleRanges.has c

/-- Whether a character leaves no mark of its own. -/
def isUnmarked (c : Char) : Bool :=
  isInvisible c || isExtending c || isUnassigned c

/-- A character as it stands between quotes. -/
def escaped (c : Char) : String :=
  match c with
  | '"' => "\\\""
  | '\\' => "\\\\"
  | '\n' => "\\n"
  | '\r' => "\\r"
  | '\t' => "\\t"
  | '\x00' => "\\0"
  | _ => if isUnmarked c then "\\u\x7b" ++ hexDigits c.toNat ++ "\x7d" else c.toString

/-- A text between quotes. -/
def quoted (s : String) : String :=
  "\"" ++ String.join (s.toList.map escaped) ++ "\""

end Stylesheet.Text
