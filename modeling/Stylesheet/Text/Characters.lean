/-!
# Characters

What the other modules ask about single characters, and about texts character by character.

* **Classes** (`Ranges`): a class is written as the closed ranges of code points that belong to it, in
  ascending order.
* **Blanks** (`isBlank`, `trim`): white space, where a selector is read and where its text is trimmed,
  is the Unicode property `White_Space`: twenty-five characters, of which the usual ASCII blanks are
  six. A no-break space therefore separates two selector elements just as a plain space does.
* **Letter case** (`sameLetters`): function names and colour keywords are compared without regard to
  the case of the letters `A` to `Z`. No other letter has a case here: `É` and `é` are two different
  characters.
* **Hexadecimal digits** (`hexDigit?`, `hexDigits`): read in either letter case, written in lower case.
-/

namespace Stylesheet.Text

/-! ## Classes -/

/-- A class of characters: the first and the last code point of each of its ranges. -/
abbrev Ranges := List (Nat × Nat)

/-- Whether the character lies in one of the ranges. -/
def Ranges.has (ranges : Ranges) (c : Char) : Bool :=
  ranges.any fun (first, last) => first ≤ c.toNat && c.toNat ≤ last

/-! ## Blanks -/

/-- The characters with the property `White_Space`. -/
def blankRanges : Ranges :=
  [(0x09, 0x0d), (0x20, 0x20), (0x85, 0x85), (0xa0, 0xa0), (0x1680, 0x1680), (0x2000, 0x200a),
    (0x2028, 0x2029), (0x202f, 0x202f), (0x205f, 0x205f), (0x3000, 0x3000)]

/-- A blank separates selector elements and is trimmed from both ends of a selector's text. -/
def isBlank (c : Char) : Bool :=
  blankRanges.has c

/-- The characters without the blanks at either end. -/
def trimChars (cs : List Char) : List Char :=
  ((cs.dropWhile isBlank).reverse.dropWhile isBlank).reverse

/-- The text without the blanks at either end. -/
def trim (s : String) : String :=
  String.ofList (trimChars s.toList)

/-- Every blank of the standard library is a blank here. -/
theorem isBlank_of_isWhitespace {c : Char} (h : c.isWhitespace = true) : isBlank c = true := by
  simp only [Char.isWhitespace, Bool.or_eq_true, decide_eq_true_eq] at h
  rcases h with ((rfl | rfl) | rfl) | rfl <;> decide

/-! ## Letter case -/

/-- The text with `A` to `Z` replaced by `a` to `z`. -/
def lower (s : String) : String :=
  String.ofList (s.toList.map Char.toLower)

/-- Two texts that differ at most in the case of the letters `A` to `Z`. -/
def sameLetters (s t : String) : Bool :=
  lower s == lower t

/-! ## Hexadecimal digits -/

/-- The value of a hexadecimal digit. -/
def hexDigit? (c : Char) : Option Nat :=
  if '0' ≤ c ∧ c ≤ '9' then some (c.toNat - '0'.toNat)
  else if 'a' ≤ c ∧ c ≤ 'f' then some (c.toNat - 'a'.toNat + 10)
  else if 'A' ≤ c ∧ c ≤ 'F' then some (c.toNat - 'A'.toNat + 10)
  else none

/-- The digits of a number in base sixteen, without leading zeros. -/
def hexDigits (n : Nat) : String :=
  String.ofList (Nat.toDigits 16 n)

end Stylesheet.Text
