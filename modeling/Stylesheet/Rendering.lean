import Stylesheet.Evaluation.Basic
import Stylesheet.Imports
import Stylesheet.Selector.Path

/-!
# Rendering: from nested blocks to flat CSS

A block is printed as its own lines, under a header that combines its selectors with those around it,
followed by the blocks nested in it, each printed in the same way. The lines of the root stand
without header, and its comments keep their place among the nested blocks. A block without lines of
its own prints no header. Variable declarations and mixin definitions print nothing.

Rendering evaluates as it goes: imports of a root are replaced first, then mixin calls are expanded,
and the value of each declaration is evaluated where it is printed.
-/

namespace Stylesheet

/-- What one rule adds to the text of its block. -/
inductive Piece where
  /-- A line among the block's own lines. -/
  | line (text : String)
  /-- Text after the block's own lines. -/
  | nested (text : String)
  /-- Nothing. -/
  | nothing
  deriving Repr, DecidableEq

namespace Piece

/-- The line that a piece is. -/
def line? : Piece → Option String
  | line text => some text
  | _ => none

/-- The nested text that a piece is. -/
def nested? : Piece → Option String
  | nested text => some text
  | _ => none

/-- The lines of a root. -/
def rootText (lines : List String) : String :=
  if lines.isEmpty then "" else "\n".intercalate lines ++ "\n"

/-- The lines of a block under their header. -/
def blockText (paths : List Path) (lines : List String) : String :=
  if lines.isEmpty then ""
  else Path.header paths ++ " \x7b\n  " ++ "\n  ".intercalate lines ++ "\n\x7d\n"

/-- The text of a block from the pieces of its rules. -/
def assemble (isRoot : Bool) (paths : List Path) (pieces : List Piece) : String :=
  let lines := pieces.filterMap line?
  let own := if isRoot then rootText lines else blockText paths lines
  own ++ String.join (pieces.filterMap nested?)

end Piece

namespace Block

/-- The line of a rule that is evaluated and printed by itself. -/
def renderLine (ev : Evaluator) (env : Env) (scope : Scope) (rule : Node) : EvalM Piece := do
  let value ← ev.node env scope rule
  return .line (← value.toCss)

/-- Renders one rule of a block that is the innermost frame of the scope. -/
def renderRule (ev : Evaluator) (inner : Block → EvalM String) (env : Env) (scope : Scope)
    (isRoot : Bool) : Node → EvalM Piece
  | .block child => do
    if child.isDefinition then return .nothing else return .nested (← inner child)
  | .comment text =>
    if isRoot then return .nested (text ++ "\n") else renderLine ev env scope (.comment text)
  | .declaration d =>
    if d.isVariable then return .nothing else renderLine ev env scope (.declaration d)
  | rule => renderLine ev env scope rule

/-- The rules for rendering, over an evaluator and a way to render nested blocks. -/
def renderWith (ev : Evaluator) (inner : Env → Scope → List Path → Block → EvalM String)
    (env : Env) (scope : Scope) (context : List Path) (b : Block) : EvalM String := do
  if b.rules.isEmpty then return ""
  let source ← if b.isRoot then b.expandImports env else pure b
  let paths := if b.isRoot then context else Path.combine context b.selectors
  let frame ← source.expandCalls ev env scope
  let scope := frame :: scope
  let pieces ← frame.rules.mapM (renderRule ev (inner env scope paths) env scope frame.isRoot)
  return Piece.assemble frame.isRoot paths pieces

/-- Renders a block and all that is nested in it. The context holds the paths of the block around
it. -/
def render : (fuel : Nat) → Env → Scope → List Path → Block → EvalM String
  | 0 => fun _ _ _ _ => throw .outOfFuel
  | fuel + 1 => renderWith (evaluator fuel) (render fuel)

/-- Renders a style sheet. -/
def toCss (fuel : Nat) (env : Env) (b : Block) : EvalM String :=
  render fuel env [] [] b

end Block

end Stylesheet
