import Stylesheet.Node.Source

/-!
# Printing evaluated nodes

The printed form of a value or of a single rule. Values that are still to be evaluated have none:
printing one is a breach of the evaluator's rules, never a fault of the style sheet. A block is not
a single rule, and how it is printed depends on what is around it (`Block.render`).
-/

namespace Stylesheet

mutual

/-- The printed form of a node. -/
def Node.toCss : Node → Except EvalError String
  | .text value => .ok value
  | .quoted value quote => .ok (Node.quotedText value quote)
  | .number q => .ok q.toCss
  | .color c => .ok c.toCss
  | .expression items => do return " ".intercalate (← Node.toCssAll items)
  | .list items => do return ", ".intercalate (← Node.toCssAll items)
  | .declaration ⟨name, value, important⟩ => do
    return name ++ ": " ++ (← value.toCss) ++ (if important then " !important" else "") ++ ";"
  | .comment value => .ok value
  | .atImport path => .ok (Node.importText path)
  | .var name => .error (.unevaluated (Node.var name).kind name)
  | .operation op left right =>
    let node := Node.operation op left right
    .error (.unevaluated node.kind node.toSource)
  | .call name args =>
    let node := Node.call name args
    .error (.unevaluated node.kind node.toSource)
  | .accessor a => .error (.unevaluated (Node.accessor a).kind a.toSource)
  | .block b => .error (.notPrintable (Node.block b).kind)
  | .mixin m => .error (.notPrintable (Node.mixin m).kind)

/-- The printed forms of several nodes; the first that has none decides. -/
def Node.toCssAll : List Node → Except EvalError (List String)
  | [] => .ok []
  | node :: rest => do
    let first ← node.toCss
    let others ← Node.toCssAll rest
    return first :: others

end

end Stylesheet
