import Stylesheet.Node.Source

/-!
# Arguments of built-in functions

The arguments of one call, and the checks that the functions share. A complaint names the function
as it was called, and quotes the argument that was found.
-/

namespace Stylesheet

/-- The evaluated arguments of a call, with the name that was called. -/
structure Arguments where
  /-- The name of the function as called. -/
  function : String
  /-- The arguments in order. -/
  nodes : List Node

namespace Arguments

/-- The same call with one more argument at the end. -/
def append (args : Arguments) (node : Node) : Arguments :=
  { args with nodes := args.nodes ++ [node] }

/-- The complaint that an argument is not of the wanted kind. -/
def wrongKind (args : Arguments) (kind : String) (found : Option Node) : EvalError :=
  .wrongArgument args.function kind ((found.map Node.toSource).getD "nothing")

/-- Checks the number of arguments. -/
def expectCount (args : Arguments) (count : Nat) : Except EvalError Unit :=
  if args.nodes.length = count then .ok ()
  else .error (.argumentCount args.function (.exactly count) args.nodes.length)

/-- The argument at a place, which has to be a number. -/
def number (args : Arguments) (index : Nat) : Except EvalError Quantity :=
  match args.nodes[index]? with
  | some (.number q) => .ok q
  | other => .error (args.wrongKind "number" other)

/-- The argument at a place, which has to be a colour. -/
def color (args : Arguments) (index : Nat) : Except EvalError Color :=
  match args.nodes[index]? with
  | some (.color c) => .ok c
  | other => .error (args.wrongKind "color" other)

/-- All arguments, which have to be numbers; the first that is none is complained about. -/
def numbers (args : Arguments) : Except EvalError (List Quantity) :=
  (List.range args.nodes.length).mapM args.number

end Arguments

end Stylesheet
