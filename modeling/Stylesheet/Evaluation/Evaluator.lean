import Stylesheet.Evaluation.Env

/-!
# Evaluators

The rules of evaluation call each other: a value can name a variable, a variable a mixin's block, a
block further values. Each rule is therefore written over an *evaluator*, which it uses for the parts
of a node. A rule is then an ordinary function that can be read and reasoned about on its own, and
what holds for every evaluator with some property holds for the one built from all rules.
-/

namespace Stylesheet

/-- A way to evaluate nodes and blocks in an environment and a scope. -/
structure Evaluator where
  /-- Evaluates a node. -/
  node : Env → Scope → Node → EvalM Node
  /-- Evaluates a block with all that is in it. -/
  block : Env → Scope → Block → EvalM Block

/-- The evaluator that has no fuel to evaluate anything. -/
def Evaluator.exhausted : Evaluator where
  node _ _ _ := throw .outOfFuel
  block _ _ _ := throw .outOfFuel

/-- The block with other rules. It is a new block, without readings. -/
def Block.rebuilt (b : Block) (rules : List Node) : StateM Memory Block := do
  return { b with stamp := ← freshStamp, rules := rules }

/-- A definition with the blocks around it. One that has captured its surroundings keeps them. -/
def Block.capture (b : Block) (scope : Scope) : StateM Memory Block := do
  match b.kind with
  | .definition params => return { b with stamp := ← freshStamp, kind := .captured params scope }
  | _ => return b

end Stylesheet
