import Stylesheet.Evaluation.Evaluator

/-!
# Imports

An import of another style sheet is replaced by the rules of that style sheet, in which imports are
replaced in turn. Only imports among the outermost rules are replaced, and imports of plain `.css`
files stay as they are.

Imports can be circular. Each nested import counts as one level of depth, so a circle ends at the
depth limit; a path that leads nowhere is reported before the limit is.
-/

namespace Stylesheet

namespace Imports

/-- Replaces the imports among rules by what `serve` makes of the trees they stand for. -/
def expandWith (env : Env) (serve : String → Block → Except EvalError (List Node))
    (rules : List Node) : Except EvalError (List Node) := do
  let parts ← rules.mapM fun rule =>
    match rule.pendingImport? with
    | none => .ok [rule]
    | some path =>
      match env.importTree? path with
      | none => .error (.importNotFound path)
      | some tree => serve path tree
  return parts.flatten

/-- Replaces the imports among rules, with so many levels of depth left. -/
def expandRules (env : Env) : (levels : Nat) → List Node → Except EvalError (List Node)
  | 0 => expandWith env fun path _ => .error (.recursionLimit env.options.maxDepth path)
  | levels + 1 => expandWith env fun _ tree => expandRules env levels tree.rules

end Imports

/-- The block with its imports replaced. A block without such imports stays the same block. -/
def Block.expandImports (env : Env) (b : Block) : EvalM Block := do
  if b.rules.any fun rule => rule.pendingImport?.isSome then
    let rules ← Imports.expandRules env (env.options.maxDepth - env.depth) b.rules
    b.rebuilt rules
  else return b

end Stylesheet
