import Stylesheet.Lookup.Memory

/-!
# Stamping a tree

A tree that comes from outside gets a stamp of its own for each block in it, wherever the block
stands: among the rules, in a value, in an argument or in the default of a parameter. Captured
blocks keep their stamps, since they are shared with the scope they were captured from.
-/

namespace Stylesheet

mutual

/-- The node with a new stamp on each block in it. -/
def Node.stamped : Node → StateM Memory Node
  | .expression items => do return .expression (← Node.stampedAll items)
  | .list items => do return .list (← Node.stampedAll items)
  | .operation op left right => do
    let left ← left.stamped
    let right ← right.stamped
    return .operation op left right
  | .call name args => do return .call name (← Node.stampedAll args)
  | .declaration ⟨name, value, important⟩ => do
    return .declaration ⟨name, ← value.stamped, important⟩
  | .block b => do return .block (← b.stamped)
  | .mixin ⟨selector, args⟩ => do return .mixin ⟨selector, ← Argument.stampedAll args⟩
  | node => return node

/-- The nodes with a new stamp on each block in them. -/
def Node.stampedAll : List Node → StateM Memory (List Node)
  | [] => return []
  | node :: rest => do
    let first ← node.stamped
    let others ← Node.stampedAll rest
    return first :: others

/-- The block with a new stamp on it and on each block in it. -/
def Block.stamped : Block → StateM Memory Block
  | ⟨_, selectors, rules, kind⟩ => do
    let stamp ← freshStamp
    let rules ← Node.stampedAll rules
    let kind ← kind.stamped
    return ⟨stamp, selectors, rules, kind⟩

/-- The kind with a new stamp on each block in a default. -/
def BlockKind.stamped : BlockKind → StateM Memory BlockKind
  | .definition params => do return .definition (← Parameter.stampedAll params)
  | .captured params closure => do return .captured (← Parameter.stampedAll params) closure
  | kind => return kind

/-- The parameters with a new stamp on each block in a default. -/
def Parameter.stampedAll : List Parameter → StateM Memory (List Parameter)
  | [] => return []
  | .required name :: rest => do return .required name :: (← Parameter.stampedAll rest)
  | .optional name default :: rest => do
    let default ← default.stamped
    let others ← Parameter.stampedAll rest
    return .optional name default :: others

/-- The arguments with a new stamp on each block in them. -/
def Argument.stampedAll : List Argument → StateM Memory (List Argument)
  | [] => return []
  | .positional value :: rest => do
    let value ← value.stamped
    let others ← Argument.stampedAll rest
    return .positional value :: others
  | .named name value :: rest => do
    let value ← value.stamped
    let others ← Argument.stampedAll rest
    return .named name value :: others

end

end Stylesheet
