import Mathlib.Tactic.Common
import Stylesheet.Node.Basic

/-!
# Trees up to stamps and closures

Stamps tell blocks of one shape apart, and closures are what definitions have seen around them.
Neither is written in a style sheet. `erase` forgets them: every stamp becomes zero, and a captured
definition becomes one as it was written. Two trees are *the same up to stamps and closures* if their
erasures are equal.
-/

namespace Stylesheet

mutual

/-- The node without the stamps and closures in it. -/
def Node.erase : Node → Node
  | .expression items => .expression (Node.eraseAll items)
  | .list items => .list (Node.eraseAll items)
  | .operation op left right => .operation op left.erase right.erase
  | .call name args => .call name (Node.eraseAll args)
  | .declaration ⟨name, value, important⟩ => .declaration ⟨name, value.erase, important⟩
  | .block b => .block b.erase
  | .mixin ⟨selector, args⟩ => .mixin ⟨selector, Argument.eraseAll args⟩
  | node => node

/-- The nodes without the stamps and closures in them. -/
def Node.eraseAll : List Node → List Node
  | [] => []
  | node :: rest => node.erase :: Node.eraseAll rest

/-- The block without its stamp and closure and those in it. -/
def Block.erase : Block → Block
  | ⟨_, selectors, rules, kind⟩ => ⟨0, selectors, Node.eraseAll rules, kind.erase⟩

/-- The kind without the closure, and without what is to be forgotten of the defaults. -/
def BlockKind.erase : BlockKind → BlockKind
  | .definition params => .definition (Parameter.eraseAll params)
  | .captured params _ => .definition (Parameter.eraseAll params)
  | kind => kind

/-- The parameters without the stamps and closures in them. -/
def Parameter.eraseAll : List Parameter → List Parameter
  | [] => []
  | .required name :: rest => .required name :: Parameter.eraseAll rest
  | .optional name default :: rest => .optional name default.erase :: Parameter.eraseAll rest

/-- The arguments without the stamps and closures in them. -/
def Argument.eraseAll : List Argument → List Argument
  | [] => []
  | .positional value :: rest => .positional value.erase :: Argument.eraseAll rest
  | .named name value :: rest => .named name value.erase :: Argument.eraseAll rest

end

/-! ## The parts of an erased tree -/

/-- Nodes are erased one by one. -/
lemma Node.eraseAll_eq_map (l : List Node) : Node.eraseAll l = l.map Node.erase := by
  induction l with
  | nil => rfl
  | cons n l ih => rw [Node.eraseAll, ih, List.map_cons]

/-- Erasing an expression erases its items. -/
lemma Node.erase_expression (items : List Node) :
    (Node.expression items).erase = .expression (items.map Node.erase) := by
  rw [Node.erase, Node.eraseAll_eq_map]

/-- Erasing a list erases its items. -/
lemma Node.erase_list (items : List Node) :
    (Node.list items).erase = .list (items.map Node.erase) := by
  rw [Node.erase, Node.eraseAll_eq_map]

/-- Erasing a declaration erases its value. -/
lemma Node.erase_declaration (d : Declaration) :
    (Node.declaration d).erase = .declaration { d with value := d.value.erase } := by
  obtain ⟨name, value, important⟩ := d
  rw [Node.erase]

/-- Erasing a block that stands as a node erases the block. -/
lemma Node.erase_block (b : Block) : (Node.block b).erase = .block b.erase := by
  rw [Node.erase]

/-- An erased block has stamp zero, and its rules and its kind are erased. -/
lemma Block.erase_eq (b : Block) :
    b.erase = ⟨0, b.selectors, b.rules.map Node.erase, b.kind.erase⟩ := by
  obtain ⟨stamp, selectors, rules, kind⟩ := b
  rw [Block.erase, Node.eraseAll_eq_map]

end Stylesheet
