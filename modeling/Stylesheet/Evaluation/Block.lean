import Stylesheet.Evaluation.Mixin

/-!
# Evaluating blocks

A block is evaluated in two steps. First its mixin calls are expanded, from the first to the last:
each call is evaluated with the block itself as innermost frame, in which the earlier calls have been
replaced by what they stand for and the later ones still stand. Then every rule is evaluated, with
the expanded block as innermost frame. Definitions are not evaluated, they capture their
surroundings.

What a call stands for is evaluated already, and it is evaluated once more as part of the block; that
changes nothing but the stamps of the blocks in it.
-/

namespace Stylesheet

namespace Block

/-- Expands the calls among `rest`; the block at hand has the rules `done ++ rest`. -/
def expandCallsFrom (ev : Evaluator) (env : Env) (scope : Scope) :
    (frame : Block) → (done rest : List Node) → EvalM Block
  | frame, _, [] => return frame
  | frame, done, .mixin call :: rest => do
    let expanded ← call.evaluateWith ev env (frame :: scope)
    let frame ← frame.rebuilt (done ++ expanded ++ rest)
    expandCallsFrom ev env scope frame (done ++ expanded) rest
  | frame, done, rule :: rest => expandCallsFrom ev env scope frame (done ++ [rule]) rest

/-- The block with each mixin call among its rules replaced by the rules that it stands for. -/
def expandCalls (ev : Evaluator) (env : Env) (scope : Scope) (b : Block) : EvalM Block :=
  expandCallsFrom ev env scope b [] b.rules

/-- Evaluates one rule of a block that is the innermost frame of the scope. -/
def evaluateRule (ev : Evaluator) (env : Env) (scope : Scope) : Node → EvalM Node
  | .block child => do
    if child.isDefinition then return .block (← child.capture scope)
    else ev.node env scope (.block child)
  | rule => ev.node env scope rule

/-- The rules for blocks. -/
def evaluateWith (ev : Evaluator) (env : Env) (scope : Scope) (b : Block) : EvalM Block := do
  let frame ← b.expandCalls ev env scope
  let rules ← frame.rules.mapM (evaluateRule ev env (frame :: scope))
  frame.rebuilt rules

end Block

end Stylesheet
