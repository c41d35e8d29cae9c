/-!
# What can go wrong

`EvalError` lists the causes for which evaluation or printing stops. The wording of each is in one
place, `EvalError.message`, and `EvalError.category` sorts the causes: most are faults of the style
sheet, two are breaches of the evaluator's own rules, and one marks nodes that have no printed form.

`outOfFuel` belongs to none of these. Evaluation is a total function only because it is given a
bound on how deep it may recurse; running into that bound says nothing about the style sheet, so the
cause is kept apart from the recursion limit that a style sheet's author can meet and set.

Causes name the operator or the arity that was not kept to, so `Operator` and `Arity` stand here too.
-/

namespace Stylesheet

/-- An operator between two values. -/
inductive Operator where
  | add
  | subtract
  | multiply
  | divide
  deriving Repr, DecidableEq

/-- The sign of an operator, in source text and in messages. -/
def Operator.symbol : Operator → Char
  | add => '+'
  | subtract => '-'
  | multiply => '*'
  | divide => '/'

/-- How many arguments a built-in function takes. -/
inductive Arity where
  /-- One fixed count. -/
  | exactly (count : Nat)
  /-- One argument to read a channel of a colour, two to change it. -/
  | oneOrTwo
  deriving Repr, DecidableEq

/-- The wording of an arity. -/
def Arity.text : Arity → String
  | exactly count => toString count
  | oneOrTwo => "1 or 2"

/-- A cause for which evaluation or printing stops. Texts in a cause are source-like. -/
inductive EvalError where
  /-- No frame of the scope declares the variable. -/
  | undefinedVariable (name : String)
  /-- The right operand of a division is zero. -/
  | divisionByZero
  /-- The operator is defined for numbers and colours only. -/
  | badOperands (operator : Operator) (left right : String)
  /-- The call names no built-in function, and unknown functions are faults. -/
  | unknownFunction (name : String)
  /-- A built-in function was called with too few or too many arguments. -/
  | argumentCount (function : String) (expected : Arity) (found : Nat)
  /-- An argument of a built-in function is of the wrong kind. -/
  | wrongArgument (function kind found : String)
  /-- The index is not a whole number between one and the number of items. -/
  | indexOutOfRange (function index : String)
  /-- The selector of an accessor names no block. -/
  | noMatch (selector accessor : String)
  /-- The block that an accessor reads has no such declaration. -/
  | notDeclared (key selector : String)
  /-- A mixin was called with more arguments than it has parameters. -/
  | tooManyArguments (limit : Nat) (call : String) (found : Nat)
  /-- A named argument names no parameter. -/
  | unknownParameter (name call : String)
  /-- A positional argument stands after a named one. -/
  | positionalAfterNamed (call : String)
  /-- A parameter without default got no argument. -/
  | missingArgument (name call : String)
  /-- A mixin call stands where a value is expected. -/
  | unexpandedCall (call : String)
  /-- Something that is still to be evaluated was printed. -/
  | unevaluated (kind text : String)
  /-- The node has no printed form of its own. -/
  | notPrintable (kind : String)
  /-- Evaluation is nested as deep as the options allow. -/
  | recursionLimit (limit : Nat) (context : String)
  /-- No tree is served for the path of an import. -/
  | importNotFound (path : String)
  /-- The bound on the evaluator's own recursion was reached. -/
  | outOfFuel
  deriving Repr, DecidableEq

namespace EvalError

/-- The kinds of causes. -/
inductive Category where
  /-- A fault of the style sheet, described by the message alone. -/
  | fault
  /-- A breach of the evaluator's own rules. -/
  | breach
  /-- A node without a printed form. -/
  | notSupported
  /-- The nesting limit of the options. -/
  | recursionLimit
  /-- An import that leads nowhere. -/
  | importNotFound
  /-- The bound on the evaluator's own recursion. -/
  | outOfFuel
  deriving Repr, DecidableEq

/-- The kind of a cause. -/
def category : EvalError → Category
  | unexpandedCall _ => .breach
  | unevaluated _ _ => .breach
  | notPrintable _ => .notSupported
  | .recursionLimit _ _ => .recursionLimit
  | .importNotFound _ => .importNotFound
  | .outOfFuel => .outOfFuel
  | _ => .fault

/-- Whether the style sheet, and not the evaluator, is to blame. -/
def isUserError (e : EvalError) : Bool :=
  match e.category with
  | .fault => true
  | .recursionLimit => true
  | .importNotFound => true
  | _ => false

/-- The wording of a cause. -/
def message : EvalError → String
  | undefinedVariable name => s!"variable {name} is undefined"
  | divisionByZero => "Division by zero"
  | badOperands operator left right =>
    "Cannot apply operator '" ++ operator.symbol.toString ++ s!"' to {left} and {right}"
  | unknownFunction name => s!"Unknown function '{name}'"
  | argumentCount function expected found =>
    "Expected " ++ expected.text ++ s!" arguments in function '{function}', found {found}"
  | wrongArgument function kind found =>
    s!"Expected {kind} in function '{function}', found {found}"
  | indexOutOfRange function index => s!"Index {index} out of range in function '{function}'"
  | noMatch selector accessor => s!"No ruleset matches '{selector}' in '{accessor}'"
  | notDeclared key selector => s!"'{key}' is not defined in '{selector}'"
  | tooManyArguments limit call found =>
    s!"Expected at most {limit} arguments in '{call}', found {found}"
  | unknownParameter name call => s!"Argument '{name}' not found. in '{call}'"
  | positionalAfterNamed call =>
    s!"Positional arguments must appear before all named arguments. in '{call}'"
  | missingArgument name call => s!"Missing value for argument '{name}' in '{call}'"
  | unexpandedCall call =>
    s!"Internal error: mixin call '{call}' must be expanded by its enclosing ruleset"
  | unevaluated kind text => s!"Internal error: cannot render unevaluated {kind} '{text}'"
  | notPrintable kind => s!"Rendering is not supported for {kind}"
  | .recursionLimit limit context =>
    s!"Recursion limit of {limit} exceeded while evaluating '{context}'"
  | .importNotFound path => s!"Import '{path}' could not be resolved"
  | .outOfFuel => "Evaluation ran out of fuel"

end EvalError

end Stylesheet
