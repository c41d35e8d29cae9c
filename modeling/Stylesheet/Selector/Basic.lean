import Stylesheet.Text.Characters

/-!
# Selectors

A selector is a list of elements, each attached to the one before it by a combinator. A compound
such as `a.b:hover` is three elements joined without any sign, so that a mixin can be called by the
parts of its name. The first element of a selector has nothing before it, and counts as a descendant
of whatever encloses the block.

The printed text of a selector is the concatenation of its elements, each behind the sign of its
combinator. Two selectors can have one text: `a&b` and `ab` are both printed ` ab`.
-/

namespace Stylesheet

/-- How an element is attached to the one before it. -/
inductive Combinator where
  /-- Directly, as in `a.b`. -/
  | compound
  /-- By a blank. -/
  | descendant
  /-- By `>`. -/
  | child
  /-- By `+`. -/
  | adjacent
  /-- By `~`. -/
  | sibling
  /-- By `&`: directly to the enclosing selector. -/
  | parent
  deriving Repr, DecidableEq

/-- The sign of a combinator in printed text. -/
def Combinator.toCss : Combinator → String
  | compound => ""
  | descendant => " "
  | child => " > "
  | adjacent => " + "
  | sibling => " ~ "
  | parent => ""

/-- A part of a selector: a name, class, id, pseudo-class or attribute test. -/
structure Element where
  /-- How the element is attached to the one before it. -/
  combinator : Combinator
  /-- The text of the element. -/
  value : String
  deriving Repr, DecidableEq

/-- The printed text of an element. -/
def Element.toCss (e : Element) : String :=
  e.combinator.toCss ++ e.value

/-- One selector of a selector group. -/
structure Selector where
  /-- The elements, outermost first. -/
  elements : List Element
  deriving Repr, DecidableEq

/-- Selectors from the outermost block inward; printed by concatenation. -/
abbrev Path := List Selector

namespace Selector

/-- The selector with these elements. A first element that is attached to nothing becomes a
descendant. -/
def ofElements : List Element → Selector
  | ⟨.compound, value⟩ :: rest => ⟨⟨.descendant, value⟩ :: rest⟩
  | elements => ⟨elements⟩

/-- Whether the selector has no elements. -/
def isEmpty (s : Selector) : Bool :=
  s.elements.isEmpty

/-- The selector without its first element; there is none if no element would remain. -/
def tail? (s : Selector) : Option Selector :=
  match s.elements with
  | _ :: second :: rest => some (ofElements (second :: rest))
  | _ => none

/-- Whether two selectors begin with elements of the same text. Later elements and combinators play
no part, and an empty selector agrees with nothing. -/
def agrees (s t : Selector) : Bool :=
  match s.elements, t.elements with
  | a :: _, b :: _ => a.value == b.value
  | _, _ => false

/-- The printed text of a selector, with the sign of its first combinator. -/
def toCss (s : Selector) : String :=
  String.join (s.elements.map Element.toCss)

/-- The text of a selector in messages. -/
def toSource (s : Selector) : String :=
  Text.trim s.toCss

end Selector

end Stylesheet
