import Stylesheet.Builtin.Basic
import Stylesheet.Evaluation.Evaluator
import Stylesheet.Lookup.Search
import Stylesheet.Node.Printer

/-!
# Evaluating values

Variables, calls of built-in functions, accessors and operations, and from these every node.

A variable stands for the value of its declaration, evaluated where the variable is *used*. A literal
is taken as it is, without going through the depth guard. An accessor reads the last declaration of
that name in the first block that its selector names; the value is evaluated in the scope of the
accessor with that block as the innermost frame.

Numbers and colours can be computed with. A number that meets a colour is read as the grey with that
value in each channel.
-/

namespace Stylesheet

/-- The result of an operator on two evaluated nodes. -/
def Node.operate (op : Operator) (left right : Node) : Except EvalError Node :=
  match left, right with
  | .number p, .number q => do return .number (← Quantity.operate op p q)
  | .color a, .color b => do return .color (← Color.operate op a b)
  | .color a, .number q => do return .color (← Color.operate op a (.grey q.value))
  | .number p, .color b => do return .color (← Color.operate op (.grey p.value) b)
  | _, _ => .error (.badOperands op left.toSource right.toSource)

namespace Evaluator

/-- The value of a variable. -/
def reference (ev : Evaluator) (env : Env) (scope : Scope) (name : String) : EvalM Node :=
  match scope.lookup? name with
  | none => throw (.undefinedVariable name)
  | some d =>
    if d.value.isLiteral then return d.value
    else env.guarded name fun env => ev.node env scope d.value

/-- The result of a function call. The arguments are evaluated first, left to right. -/
def call (ev : Evaluator) (env : Env) (scope : Scope) (name : String) (args : List Node) :
    EvalM Node := do
  let args ← args.mapM (ev.node env scope)
  match Builtin.ofName? name with
  | some f => f.apply ⟨Text.lower name, args⟩
  | none =>
    match env.options.unknownFunctions with
    | .fault => throw (.unknownFunction name)
    | .passThrough =>
      let printed ← Node.toCssAll args
      return .text (name ++ "(" ++ ", ".intercalate printed ++ ")")

/-- The value that an accessor reads. -/
def accessor (ev : Evaluator) (env : Env) (scope : Scope) (a : Accessor) : EvalM Node := do
  match ← resolve a.selector false scope with
  | [] => throw (.noMatch a.selector.toSource a.toSource)
  | found :: _ =>
    match found.block.lastNamed? a.key.name with
    | none => throw (.notDeclared a.key.name a.selector.toSource)
    | some d => env.guarded a.toSource fun env => ev.node env (found.block :: scope) d.value

/-- The result of an operation. The left operand is evaluated first. -/
def operation (ev : Evaluator) (env : Env) (scope : Scope) (op : Operator) (left right : Node) :
    EvalM Node := do
  let left ← ev.node env scope left
  let right ← ev.node env scope right
  Node.operate op left right

end Evaluator

/-- The rules for nodes. A mixin call is not a value: it is expanded by the block it stands in. -/
def Node.evaluateWith (ev : Evaluator) (env : Env) (scope : Scope) : Node → EvalM Node
  | .expression items => do return .expression (← items.mapM (ev.node env scope))
  | .list items => do return .list (← items.mapM (ev.node env scope))
  | .var name => ev.reference env scope name
  | .operation op left right => ev.operation env scope op left right
  | .call name args => ev.call env scope name args
  | .accessor a => ev.accessor env scope a
  | .declaration d => do
    return .declaration { d with value := ← ev.node env scope d.value }
  | .block b => do return .block (← ev.block env scope b)
  | .mixin m => throw (.unexpandedCall m.toSource)
  | node => return node

end Stylesheet
