import Stylesheet.Evaluation.Binding
import Stylesheet.Lookup.Search

/-!
# Mixin calls

A call stands for the rules of every block that its selector names, evaluated. A block without
parameters can be called as a mixin too, but takes no arguments. A call that names nothing stands for
no rules.

The body of a mixin is evaluated in the scope of the call. On top of that come, from the outside
inward, the blocks that the definition has captured, the blocks that the selector went through, each
behind a frame with its own parameters at their defaults, and a frame with the bound parameters.
-/

namespace Stylesheet

namespace MixinCall

/-- A frame that holds bound parameters. -/
def argumentFrame (bound : List Node) : StateM Memory Block := do
  return ⟨← freshStamp, [], bound, .plain⟩

/-- The scope with the parameters of a block bound in a frame on top; a block without parameter list
adds no frame. -/
def enterParams (ev : Evaluator) (env : Env) (scope : Scope) (call : MixinCall)
    (args : List Argument) (b : Block) (bodyScope : Scope) : EvalM Scope := do
  match b.kind.params? with
  | none => return bodyScope
  | some params =>
    let bound ← bind ev env scope call params args
    let frame ← argumentFrame bound
    return frame :: bodyScope

/-- The scope with the blocks on top that a search went through. -/
def enterEnclosing (ev : Evaluator) (env : Env) (scope : Scope) (call : MixinCall) :
    List Block → Scope → EvalM Scope
  | [], bodyScope => return bodyScope
  | b :: rest, bodyScope => do
    let bodyScope ← enterParams ev env scope call [] b bodyScope
    enterEnclosing ev env scope call rest (b :: bodyScope)

/-- The rules of one block that the call names, evaluated. -/
def expandMatch (ev : Evaluator) (env : Env) (scope : Scope) (call : MixinCall) (found : Match) :
    EvalM (List Node) := do
  let bodyScope := (found.block.kind.closure?.getD []) ++ scope
  let bodyScope ← enterEnclosing ev env scope call found.enclosing bodyScope
  let bodyScope ← enterParams ev env scope call call.args found.block bodyScope
  return (← ev.block env bodyScope found.block).rules

/-- The rules that a call stands for. -/
def evaluateWith (ev : Evaluator) (env : Env) (scope : Scope) (call : MixinCall) :
    EvalM (List Node) := do
  let found ← resolve call.selector (!call.args.isEmpty) scope
  let bodies ← found.mapM fun m =>
    env.guarded call.toSource fun env => expandMatch ev env scope call m
  return bodies.flatten

end MixinCall

end Stylesheet
