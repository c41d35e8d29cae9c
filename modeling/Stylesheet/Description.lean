import Stylesheet.Builtin.Basic
import Stylesheet.Evaluation.Env
import Stylesheet.Text.Quoted

/-!
# Descriptions for diagnosis

One-line descriptions of the things that an evaluation is set up from. They name the parts of a
value and what they hold. A tree is described only if it is a root that holds nothing but texts.
-/

namespace Stylesheet

/-- The parts of a described value after its name. -/
def describeParts (name : String) (parts : List (String × String)) : String :=
  name ++ " \x7b " ++ ", ".intercalate (parts.map fun (part, value) => part ++ ": " ++ value) ++
    " \x7d"

/-- The description of a choice for unknown functions. -/
def UnknownFunctions.describe : UnknownFunctions → String
  | fault => "Error"
  | passThrough => "PassThrough"

/-- The description of options. -/
def Options.describe (o : Options) : String :=
  describeParts "EvalOptions"
    [("max_depth", toString o.maxDepth), ("unknown_functions", o.unknownFunctions.describe)]

/-- The description of an environment. -/
def Env.describe (env : Env) : String :=
  describeParts "Env"
    [("options", env.options.describe),
      ("functions", Text.quoted (toString Builtin.all.length ++ " functions")),
      ("importer", toString env.importer.isSome),
      ("depth", toString env.depth)]

/-- The description of a scope. -/
def Scope.describe (scope : Scope) : String :=
  describeParts "Scope" [("depth", toString scope.length)]

/-- The description of a text; other nodes have none. -/
def Node.describe? : Node → Option String
  | .text value => some ("Text(" ++ Text.quoted value ++ ")")
  | _ => none

/-- The description of a root that holds nothing but texts; other blocks have none. -/
def Block.describe? (b : Block) : Option String := do
  let rules ← b.rules.mapM Node.describe?
  if b.isRoot then
    some (describeParts "Ruleset"
      [("selectors", "[]"), ("rules", "[" ++ ", ".intercalate rules ++ "]"), ("root", "true"),
        ("params", "None"), ("closure", "false")])
  else none

end Stylesheet
