import Stylesheet.Color.Text
import Stylesheet.Quantity
import Stylesheet.Selector.Parser

/-!
# The tree of a style sheet

A style sheet is a tree of nodes. Blocks hold lists of nodes, their *rules*: declarations, nested
blocks, comments, imports and mixin calls. Declarations hold values, which are nodes too: texts,
numbers, colours, lists of these, and the expressions that evaluate to them. Any node may stand
anywhere, and what a misplaced one does is settled where it is evaluated or printed.

## Kinds of blocks

The outermost block is the *root*, which has no selectors. A *definition* is a block with a
parameter list, even an empty one: it prints nothing, and only contributes through mixin calls. A
definition that is met during evaluation captures the blocks around it, so that its body can be
evaluated later, where it is called, and still see what it saw where it was written.

## Stamps

Each block carries a stamp. A block is searched for mixins by the *text* of a selector, and what
that text means in a block is settled by the first search (`Memory`). The stamp says whose searches
those were: two blocks of the same shape at two places have two stamps, and a block that evaluation
builds anew gets a new one.
-/

namespace Stylesheet

/-- What an accessor reads from a block. -/
inductive AccessorKey where
  /-- A property, as in `.a['width']`. -/
  | property (name : String)
  /-- A variable, as in `.a[@width]`. -/
  | variableNamed (name : String)
  deriving Repr, DecidableEq

/-- The name of the declaration that an accessor reads. -/
def AccessorKey.name : AccessorKey → String
  | property name => name
  | variableNamed name => name

/-- The value of one declaration of another block, as in `.a['width']`. -/
structure Accessor where
  /-- The block to read. -/
  selector : Selector
  /-- The declaration to read. -/
  key : AccessorKey
  deriving Repr, DecidableEq

mutual

/-- A node of a style sheet. -/
inductive Node where
  /-- A keyword or any text that is printed as it stands. -/
  | text (value : String)
  /-- A text in quotes. -/
  | quoted (value : String) (quote : Char)
  /-- A number with its unit. -/
  | number (quantity : Quantity)
  /-- A colour. -/
  | color (color : Color)
  /-- Values separated by blanks, as in `1px solid black`. -/
  | expression (items : List Node)
  /-- Values separated by commas. -/
  | list (items : List Node)
  /-- A reference to a variable; the name includes the sign `@`. -/
  | var (name : String)
  /-- Two operands and the operator between them. -/
  | operation (operator : Operator) (left right : Node)
  /-- A call of a function by name. -/
  | call (name : String) (args : List Node)
  /-- The value of a declaration of another block. -/
  | accessor (accessor : Accessor)
  /-- A declaration of a property or of a variable. -/
  | declaration (declaration : Declaration)
  /-- A comment, with its signs. -/
  | comment (text : String)
  /-- The import of another style sheet. -/
  | atImport (path : String)
  /-- A nested block. -/
  | block (block : Block)
  /-- A call of a mixin. -/
  | mixin (call : MixinCall)

/-- A rule `name: value`. A name that begins with `@` declares a variable. -/
structure Declaration where
  /-- The name of the property or variable. -/
  name : String
  /-- The value. -/
  value : Node
  /-- Whether the declaration is marked `!important`. -/
  important : Bool

/-- Rules under a group of selectors. -/
structure Block where
  /-- Whose searches are remembered for this block. -/
  stamp : Nat
  /-- The selector group. -/
  selectors : List Selector
  /-- The rules in document order. -/
  rules : List Node
  /-- What the block is for. -/
  kind : BlockKind

/-- What a block is for. -/
inductive BlockKind where
  /-- The outermost block of a style sheet. -/
  | root
  /-- A block that is printed under its selectors. -/
  | plain
  /-- A mixin definition as written. -/
  | definition (params : List Parameter)
  /-- A mixin definition with the blocks that were around it, innermost first. -/
  | captured (params : List Parameter) (closure : List Block)

/-- A parameter of a mixin definition. -/
inductive Parameter where
  /-- A parameter that every call must give. -/
  | required (name : String)
  /-- A parameter with a value for calls that do not give one. -/
  | optional (name : String) (default : Node)

/-- A mixin that is named where its rules are wanted, as in `.m(1px, @b: 2px)`. -/
structure MixinCall where
  /-- The name of the mixin. -/
  selector : Selector
  /-- The arguments in order. -/
  args : List Argument

/-- An argument of a mixin call. -/
inductive Argument where
  /-- An argument for the parameter at its position. -/
  | positional (value : Node)
  /-- An argument for the parameter of that name. -/
  | named (name : String) (value : Node)

end

/-- The blocks around a node, innermost first. -/
abbrev Scope := List Block

instance : Inhabited Node := ⟨.text ""⟩

instance : Inhabited Block := ⟨⟨0, [], [], .root⟩⟩

namespace Parameter

/-- The name of a parameter. -/
def name : Parameter → String
  | required name => name
  | optional name _ => name

/-- The value for calls that give none. -/
def default? : Parameter → Option Node
  | required _ => none
  | optional _ default => some default

end Parameter

namespace Argument

/-- The name under which an argument is given. -/
def name? : Argument → Option String
  | positional _ => none
  | named name _ => some name

/-- The value of an argument. -/
def value : Argument → Node
  | positional value => value
  | named _ value => value

end Argument

namespace Declaration

/-- A declaration that is not marked. -/
def plain (name : String) (value : Node) : Declaration :=
  ⟨name, value, false⟩

/-- Whether the declaration is that of a variable. -/
def isVariable (d : Declaration) : Bool :=
  d.name.toList.head? == some '@'

end Declaration

namespace BlockKind

/-- The parameters of a mixin definition. -/
def params? : BlockKind → Option (List Parameter)
  | root => none
  | plain => none
  | definition params => some params
  | captured params _ => some params

/-- The blocks that a definition has captured. -/
def closure? : BlockKind → Option Scope
  | captured _ closure => some closure
  | _ => none

end BlockKind

namespace Block

/-- Whether the block is the outermost one of a style sheet. -/
def isRoot (b : Block) : Bool :=
  match b.kind with
  | .root => true
  | _ => false

/-- Whether the block is a mixin definition. -/
def isDefinition (b : Block) : Bool :=
  b.kind.params?.isSome

/-- A style sheet with these rules, before its blocks are stamped. -/
def ofRules (rules : List Node) : Block :=
  ⟨0, [], rules, .root⟩

end Block

namespace Node

/-- The word for a node in messages. -/
def kind : Node → String
  | text _ => "text"
  | quoted _ _ => "string"
  | number _ => "number"
  | color _ => "color"
  | expression _ => "expression"
  | list _ => "list"
  | var _ => "variable"
  | operation _ _ _ => "operation"
  | call _ _ => "function call"
  | accessor _ => "accessor"
  | declaration _ => "declaration"
  | comment _ => "comment"
  | atImport _ => "import"
  | block _ => "ruleset"
  | mixin _ => "mixin call"

/-- Whether the node is a value that stands for itself. -/
def isLiteral : Node → Bool
  | text _ => true
  | quoted _ _ => true
  | number _ => true
  | color _ => true
  | comment _ => true
  | _ => false

/-- The declaration that a rule is. -/
def declaration? : Node → Option Declaration
  | declaration d => some d
  | _ => none

/-- The block that a rule is. -/
def block? : Node → Option Block
  | block b => some b
  | _ => none

/-- Whether an import names a plain style sheet, which stays in the output. -/
def isCssPath (path : String) : Bool :=
  ".css".toList.isSuffixOf path.toList

/-- The path of an import that is to be replaced by the rules it stands for. -/
def pendingImport? : Node → Option String
  | atImport path => if isCssPath path then none else some path
  | _ => none

/-- The value that a colour literal denotes; any other text stands for itself. -/
def ofColorText (text : String) : Node :=
  match Color.ofText? text with
  | some c => color c
  | none => .text text

end Node

namespace Block

/-- The blocks among the rules, in document order. -/
def children (b : Block) : List Block :=
  b.rules.filterMap Node.block?

/-- The last declaration of a variable among the rules. -/
def lookup? (b : Block) (name : String) : Option Declaration :=
  (b.rules.filterMap Node.declaration?).reverse.find? fun d => d.isVariable && d.name == name

/-- The last declaration of a property or variable among the rules. -/
def lastNamed? (b : Block) (name : String) : Option Declaration :=
  (b.rules.filterMap Node.declaration?).reverse.find? fun d => d.name == name

end Block

/-- The declaration of a variable in the innermost block that has one. -/
def Scope.lookup? (scope : Scope) (name : String) : Option Declaration :=
  scope.findSome? fun b => b.lookup? name

end Stylesheet
