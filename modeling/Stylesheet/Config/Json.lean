import Stylesheet.Text.Characters

/-!
# Reading JSON

A strict reader: one value between blanks and nothing else, no comments, no trailing commas, no
unpaired surrogates, no control characters in strings. Arrays and objects may be nested 127 deep.

Of the numbers only those matter that a configuration can use: the natural numbers below `2 ^ 64`
without point or exponent. All other numbers are one value, `otherNumber`, but a number beyond the
range of binary64 is refused like any malformed text. Objects keep repeated keys, since whether a
repetition is a fault depends on the key.
-/

namespace Stylesheet

/-- A JSON value. -/
inductive Json where
  /-- The value `null`. -/
  | null
  /-- A truth value. -/
  | bool (value : Bool)
  /-- A natural number below `2 ^ 64`, written without point and exponent. -/
  | natural (value : Nat)
  /-- Any other number. -/
  | otherNumber
  /-- A string. -/
  | string (value : String)
  /-- An array. -/
  | array (items : List Json)
  /-- An object, with its members in order. -/
  | object (members : List (String × Json))

namespace Json

/-- The rest of a text after blanks. -/
def skipBlanks (cs : List Char) : List Char :=
  cs.dropWhile fun c => c = ' ' ∨ c = '\n' ∨ c = '\r' ∨ c = '\t'

/-! ## Numbers -/

/-- The decimal value of digits. -/
def digitsValue (ds : List Char) : Nat :=
  ds.foldl (fun n d => 10 * n + (d.toNat - '0'.toNat)) 0

/-- Digits as far as they fit into 64 bits, with the power of ten that scales them. -/
structure Significand where
  /-- The digits taken so far. -/
  value : Nat := 0
  /-- The power of ten. -/
  exponent : Int := 0
  /-- Whether a digit has been left out. -/
  full : Bool := false

/-- Takes a digit before the point. A digit that is left out counts as a power of ten. -/
def Significand.takeWhole (s : Significand) (d : Char) : Significand :=
  let next := 10 * s.value + (d.toNat - '0'.toNat)
  if !s.full && next < Nat.pow 2 64 then { s with value := next }
  else { s with exponent := s.exponent + 1, full := true }

/-- Takes a digit after the point. After one digit is left out, so are all others. -/
def Significand.takeFraction (s : Significand) (d : Char) : Significand :=
  let next := 10 * s.value + (d.toNat - '0'.toNat)
  if !s.full && next < Nat.pow 2 64 then { s with value := next, exponent := s.exponent - 1 }
  else { s with full := true }

/-- Whether the scaled digits are within the range of binary64. -/
def Significand.inRange (s : Significand) : Bool :=
  s.value == 0 || s.exponent ≤ 0 ||
    (s.exponent ≤ 308 &&
      (Float.ofNat s.value * Float.ofScientific 1 false s.exponent.toNat).isFinite)

/-- The digits at the front, of which there has to be one. -/
def digits? (cs : List Char) : Option (List Char × List Char) :=
  let ds := cs.takeWhile Char.isDigit
  if ds.isEmpty then none else some (ds, cs.dropWhile Char.isDigit)

/-- The digits after a point, if there is a point. -/
def fraction? : List Char → Option (List Char × List Char)
  | '.' :: rest => digits? rest
  | cs => some ([], cs)

/-- The exponent, if there is one; the result says whether it was written. -/
def exponent? : List Char → Option (Option Int × List Char)
  | c :: rest =>
    if c = 'e' ∨ c = 'E' then
      match rest with
      | '+' :: rest => do
        let (ds, rest) ← digits? rest
        return (some (digitsValue ds : Int), rest)
      | '-' :: rest => do
        let (ds, rest) ← digits? rest
        return (some (-(digitsValue ds : Int)), rest)
      | rest => do
        let (ds, rest) ← digits? rest
        return (some (digitsValue ds : Int), rest)
    else some (none, c :: rest)
  | [] => some (none, [])

/-- Reads a number without its sign. -/
def magnitude? (negative : Bool) (cs : List Char) : Option (Json × List Char) := do
  let (whole, rest) ← digits? cs
  if whole.head? == some '0' && 1 < whole.length then none
  let (fraction, rest) ← fraction? rest
  let (exponent, rest) ← exponent? rest
  let s := fraction.foldl Significand.takeFraction
    { whole.foldl Significand.takeWhole {} with full := false }
  let s := { s with exponent := s.exponent + exponent.getD 0 }
  if negative || !fraction.isEmpty || exponent.isSome || Nat.pow 2 64 ≤ digitsValue whole then
    if s.inRange then some (.otherNumber, rest) else none
  else some (.natural (digitsValue whole), rest)

/-- Reads a number. -/
def number? : List Char → Option (Json × List Char)
  | '-' :: rest => magnitude? true rest
  | cs => magnitude? false cs

/-! ## Strings -/

/-- The number that four hexadecimal digits denote. -/
def hexFour? (a b c d : Char) : Option Nat := do
  let a ← Text.hexDigit? a
  let b ← Text.hexDigit? b
  let c ← Text.hexDigit? c
  let d ← Text.hexDigit? d
  return ((a * 16 + b) * 16 + c) * 16 + d

/-- The character behind a backslash, apart from `u`. -/
def escape? : Char → Option Char
  | '"' => some '"'
  | '\\' => some '\\'
  | '/' => some '/'
  | 'b' => some '\x08'
  | 'f' => some '\x0c'
  | 'n' => some '\n'
  | 'r' => some '\r'
  | 't' => some '\t'
  | _ => none

/-- The character that two halves of a surrogate pair stand for. -/
def surrogatePair? (high low : Nat) : Option Char :=
  if 0xdc00 ≤ low ∧ low ≤ 0xdfff then
    some (Char.ofNat (0x10000 + (high - 0xd800) * 0x400 + (low - 0xdc00)))
  else none

/-- Reads a string from behind its opening quote: the characters and what follows the closing
quote. -/
def stringTail? : List Char → Option (List Char × List Char)
  | [] => none
  | '"' :: rest => some ([], rest)
  | '\\' :: 'u' :: a :: b :: c :: d :: rest => do
    let unit ← hexFour? a b c d
    if unit < 0xd800 ∨ 0xdfff < unit then
      let (cs, rest) ← stringTail? rest
      return (Char.ofNat unit :: cs, rest)
    else if unit ≤ 0xdbff then
      match rest with
      | '\\' :: 'u' :: e :: f :: g :: h :: rest => do
        let char ← surrogatePair? unit (← hexFour? e f g h)
        let (cs, rest) ← stringTail? rest
        return (char :: cs, rest)
      | _ => none
    else none
  | '\\' :: c :: rest => do
    let char ← escape? c
    let (cs, rest) ← stringTail? rest
    return (char :: cs, rest)
  | c :: rest =>
    if c.toNat < 0x20 ∨ c = '\\' then none
    else do
      let (cs, rest) ← stringTail? rest
      return (c :: cs, rest)

/-! ## Values -/

/-- How deep arrays and objects may be nested. -/
def maxNesting : Nat := 127

mutual

/-- Reads a value, in which arrays and objects may be nested as deep as given. -/
def value? : (fuel : Nat) → (nesting : Nat) → List Char → Option (Json × List Char)
  | 0, _, _ => none
  | fuel + 1, nesting, cs =>
    match skipBlanks cs with
    | 'n' :: 'u' :: 'l' :: 'l' :: rest => some (.null, rest)
    | 't' :: 'r' :: 'u' :: 'e' :: rest => some (.bool true, rest)
    | 'f' :: 'a' :: 'l' :: 's' :: 'e' :: rest => some (.bool false, rest)
    | '"' :: rest => do
      let (cs, rest) ← stringTail? rest
      return (.string (String.ofList cs), rest)
    | '[' :: rest =>
      if nesting = 0 then none
      else match skipBlanks rest with
        | ']' :: rest => some (.array [], rest)
        | rest => do
          let (items, rest) ← items? fuel (nesting - 1) rest
          return (.array items, rest)
    | '\x7b' :: rest =>
      if nesting = 0 then none
      else match skipBlanks rest with
        | '\x7d' :: rest => some (.object [], rest)
        | rest => do
          let (members, rest) ← members? fuel (nesting - 1) rest
          return (.object members, rest)
    | cs => number? cs

/-- Reads the items of an array, of which there is at least one, with the closing bracket. -/
def items? : (fuel : Nat) → (nesting : Nat) → List Char → Option (List Json × List Char)
  | 0, _, _ => none
  | fuel + 1, nesting, cs => do
    let (item, rest) ← value? fuel nesting cs
    match skipBlanks rest with
    | ']' :: rest => return ([item], rest)
    | ',' :: rest => do
      let (items, rest) ← items? fuel nesting rest
      return (item :: items, rest)
    | _ => none

/-- Reads the members of an object, of which there is at least one, with the closing brace. -/
def members? : (fuel : Nat) → (nesting : Nat) → List Char →
    Option (List (String × Json) × List Char)
  | 0, _, _ => none
  | fuel + 1, nesting, cs =>
    match skipBlanks cs with
    | '"' :: rest => do
      let (key, rest) ← stringTail? rest
      match skipBlanks rest with
      | ':' :: rest => do
        let (value, rest) ← value? fuel nesting rest
        match skipBlanks rest with
        | '\x7d' :: rest => return ([(String.ofList key, value)], rest)
        | ',' :: rest => do
          let (members, rest) ← members? fuel nesting rest
          return ((String.ofList key, value) :: members, rest)
        | _ => none
      | _ => none
    | _ => none

end

/-- Reads a text that holds one value. Every second step of the reader takes a character, so twice
the length of the text is fuel enough. -/
def parse? (text : String) : Option Json := do
  let cs := text.toList
  let (value, rest) ← value? (2 * cs.length + 2) maxNesting cs
  if (skipBlanks rest).isEmpty then some value else none

end Json

end Stylesheet
