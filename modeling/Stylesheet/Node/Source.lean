import Stylesheet.Node.Basic

/-!
# Source-like text

The text of a node in messages. It is close to what an author would have written, and it is defined
for every node, evaluated or not. A block is named by its selectors and the number of its rules.
-/

namespace Stylesheet

/-- The text of an accessor in messages. -/
def Accessor.toSource (a : Accessor) : String :=
  match a.key with
  | .property name => a.selector.toSource ++ "['" ++ name ++ "']"
  | .variableNamed name => a.selector.toSource ++ "[" ++ name ++ "]"

/-- The text of a block in messages. -/
def Block.toSource (b : Block) : String :=
  let name :=
    if b.selectors.isEmpty then "*" else ", ".intercalate (b.selectors.map Selector.toSource)
  name ++ "\x7b" ++ toString b.rules.length ++ "\x7d"

/-- The text of a quoted text: the quotes are those of the literal, and nothing is escaped. -/
def Node.quotedText (value : String) (quote : Char) : String :=
  quote.toString ++ value ++ quote.toString

/-- The text of an import rule. -/
def Node.importText (path : String) : String :=
  "@import \"" ++ path ++ "\";"

mutual

/-- The text of a node in messages. -/
def Node.toSource : Node → String
  | .text value => value
  | .quoted value quote => Node.quotedText value quote
  | .number q => q.toCss
  | .color c => c.toCss
  | .expression items => " ".intercalate (Node.toSources items)
  | .list items => ", ".intercalate (Node.toSources items)
  | .var name => name
  | .operation op left right =>
    left.toSource ++ " " ++ op.symbol.toString ++ " " ++ right.toSource
  | .call name args => name ++ "(" ++ ", ".intercalate (Node.toSources args) ++ ")"
  | .accessor a => a.toSource
  | .declaration ⟨name, value, _⟩ => name ++ ": " ++ value.toSource
  | .comment value => value
  | .atImport path => Node.importText path
  | .block b => b.toSource
  | .mixin ⟨selector, args⟩ =>
    if args.isEmpty then selector.toSource
    else selector.toSource ++ "(" ++ ", ".intercalate (Argument.toSources args) ++ ")"

/-- The texts of nodes in messages. -/
def Node.toSources : List Node → List String
  | [] => []
  | node :: rest => node.toSource :: Node.toSources rest

/-- The texts of arguments in messages. -/
def Argument.toSources : List Argument → List String
  | [] => []
  | .positional value :: rest => value.toSource :: Argument.toSources rest
  | .named name value :: rest => (name ++ ": " ++ value.toSource) :: Argument.toSources rest

end

/-- The text of a mixin call in messages. -/
def MixinCall.toSource (call : MixinCall) : String :=
  (Node.mixin call).toSource

end Stylesheet
