import Stylesheet.Selector.Basic

/-!
# Reading selectors

Selector text is read character by character. A blank or a combinator sign ends the element at hand,
and so does a character that begins a new part of a compound (`.`, `#`, `:` and `[`). Within round or
square brackets every character belongs to the element; a bracket closes whichever kind is open.

Nothing is refused. A combinator without an element after it is dropped, of several combinators in a
row the last one counts, and brackets may stay open to the end.
-/

namespace Stylesheet

/-- The number of open brackets after a character. A closing bracket without an opening one changes
nothing. -/
def bracketDepth (depth : Nat) (c : Char) : Nat :=
  if c = '[' ∨ c = '(' then depth + 1
  else if c = ']' ∨ c = ')' then depth - 1
  else depth

/-- The state of reading one selector. -/
structure Scan where
  /-- The elements that are complete. -/
  elements : List Element := []
  /-- How the element at hand is attached. -/
  combinator : Combinator := .compound
  /-- The characters of the element at hand. -/
  value : List Char := []
  /-- Whether the element at hand counts even without characters: a lone `&`. -/
  started : Bool := false
  /-- The number of open brackets. -/
  depth : Nat := 0
  /-- The character read last. -/
  previous : Option Char := none
  deriving Repr, DecidableEq

namespace Scan

/-- Adds a character to the element at hand. -/
def push (s : Scan) (c : Char) : Scan :=
  { s with value := s.value ++ [c] }

/-- Completes the element at hand, if there is one. -/
def flush (s : Scan) : Scan :=
  if s.started || !s.value.isEmpty then
    { s with
      elements := s.elements ++ [⟨s.combinator, String.ofList s.value⟩]
      combinator := .compound
      value := []
      started := false }
  else s

/-- Completes the element at hand and attaches the next one by `k`. -/
def combine (s : Scan) (k : Combinator) : Scan :=
  { s.flush with combinator := k }

/-- A blank completes the element at hand. It makes the next one a descendant, unless a sign has
said otherwise or there is nothing to descend from. -/
def separate (s : Scan) : Scan :=
  let s := s.flush
  if !s.elements.isEmpty && s.combinator = .compound then { s with combinator := .descendant }
  else s

/-- Begins a new part of a compound with the character `c`. -/
def begin (s : Scan) (c : Char) : Scan :=
  (if s.value.isEmpty then s else s.flush).push c

/-- Reads a character inside brackets. -/
def readNested (s : Scan) (c : Char) : Scan :=
  { s.push c with depth := bracketDepth s.depth c }

/-- Reads a character outside brackets. -/
def readPlain (s : Scan) (c : Char) : Scan :=
  if Text.isBlank c then s.separate
  else match c with
    | '>' => s.combine .child
    | '+' => s.combine .adjacent
    | '~' => s.combine .sibling
    | '&' => { s.combine .parent with started := true }
    | ':' => if s.previous = some ':' then s.push c else s.begin c
    | '.' => s.begin c
    | '#' => s.begin c
    | '[' => { s.begin c with depth := 1 }
    | '(' => { s.push c with depth := 1 }
    | _ => s.push c

/-- Reads a character. -/
def step (s : Scan) (c : Char) : Scan :=
  { (if 0 < s.depth then s.readNested c else s.readPlain c) with previous := some c }

/-- The selector read so far. -/
def finish (s : Scan) : Selector :=
  Selector.ofElements s.flush.elements

end Scan

namespace Selector

/-- Reads one selector from its characters. -/
def ofChars (cs : List Char) : Selector :=
  (cs.foldl Scan.step {}).finish

/-- Reads one selector. -/
def parse (text : String) : Selector :=
  ofChars text.toList

/-- Adds a character to the first of several pieces. -/
def consPiece (c : Char) : List (List Char) → List (List Char)
  | [] => [[c]]
  | piece :: rest => (c :: piece) :: rest

/-- The pieces between the commas that stand outside brackets. -/
def splitGroup : (depth : Nat) → List Char → List (List Char)
  | _, [] => [[]]
  | depth, c :: rest =>
    if c = ',' ∧ depth = 0 then [] :: splitGroup depth rest
    else consPiece c (splitGroup (bracketDepth depth c) rest)

/-- Reads a selector group: the selectors between its commas, without the empty ones. -/
def parseGroup (text : String) : List Selector :=
  ((splitGroup 0 text.toList).map ofChars).filter fun s => !s.isEmpty

end Selector

end Stylesheet
