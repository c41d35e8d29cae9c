import Stylesheet.Evaluation.Block
import Stylesheet.Evaluation.Value

/-!
# Evaluation

`evaluator fuel` applies the rules with `fuel` levels of recursion to spend; one level is spent for
each node or block inside another one and for each step to the value of a variable or to the body of
a mixin. More fuel never changes an answer, it only replaces `outOfFuel` by one.

The fuel is a bound on the recursion of the evaluator and not on the work. Evaluation always ends, and
`defaultFuel` is more than any tree that can be written down makes it use; rendering may go on forever,
where imports bring in roots that import again.
-/

namespace Stylesheet

/-- The evaluator with the given levels of recursion to spend. -/
def evaluator : (fuel : Nat) → Evaluator
  | 0 => .exhausted
  | fuel + 1 =>
    { node := fun env scope node => node.evaluateWith (evaluator fuel) env scope
      block := fun env scope b => b.evaluateWith (evaluator fuel) env scope }

/-- Levels of recursion for an evaluation that is not meant to run out of them. -/
def defaultFuel : Nat := Nat.pow 2 62

/-- Evaluates a node. -/
def Node.evaluate (fuel : Nat) (env : Env) (scope : Scope) (node : Node) : EvalM Node :=
  (evaluator fuel).node env scope node

/-- Evaluates a block with all that is in it. -/
def Block.evaluate (fuel : Nat) (env : Env) (scope : Scope) (b : Block) : EvalM Block :=
  (evaluator fuel).block env scope b

/-- The rules that a mixin call stands for. -/
def MixinCall.evaluate (fuel : Nat) (env : Env) (scope : Scope) (call : MixinCall) :
    EvalM (List Node) :=
  call.evaluateWith (evaluator fuel) env scope

end Stylesheet
