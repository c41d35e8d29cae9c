import Stylesheet.Selector.Basic

/-!
# Headers of nested blocks

A block stands under the selectors of all blocks around it. Its header lists every way to go from an
outermost selector inward, one selector of each group; the selectors of the innermost group vary
slowest.

An `&` after the first element of a selector stands for all that encloses the block: `div &` inside
`a` gives `div a`. The first such `&` is replaced, and the result is a path of one selector.
-/

namespace Stylesheet

namespace Selector

/-- The elements before, at and after the first `&` that does not stand in front. -/
def splitAtParent? (s : Selector) : Option (List Element × Element × List Element) :=
  match s.elements with
  | [] => none
  | first :: rest =>
    match rest.span fun e => e.combinator ≠ .parent with
    | (before, parent :: after) => some (first :: before, parent, after)
    | (_, []) => none

/-- The elements of a path as they stand for an `&`: the first one becomes a descendant. -/
def inherited (path : Path) : List Element :=
  match path.flatMap Selector.elements with
  | [] => []
  | first :: rest => { first with combinator := .descendant } :: rest

/-- What was written directly behind an `&`, as an element of its own. -/
def suffixOf (parent : Element) : List Element :=
  if parent.value == "" then [] else [⟨.compound, parent.value⟩]

end Selector

namespace Path

/-- The path one block further in. -/
def extend (path : Path) (s : Selector) : Path :=
  match s.splitAtParent? with
  | none => path ++ [s]
  | some (before, parent, after) =>
    [Selector.ofElements
      (before ++ Selector.inherited path ++ Selector.suffixOf parent ++ after)]

/-- The paths of a block with the given selectors, inside a block with the given paths. -/
def combine (context : List Path) (selectors : List Selector) : List Path :=
  if context.isEmpty then selectors.map fun s => [s]
  else selectors.flatMap fun s => context.map fun path => extend path s

/-- The printed text of a path. -/
def toCss (path : Path) : String :=
  Text.trim (String.join (path.map Selector.toCss))

/-- The header of a block. More than three paths are printed one to a line. -/
def header (paths : List Path) : String :=
  (if 3 < paths.length then ",\n" else ", ").intercalate (paths.map toCss)

end Path

end Stylesheet
