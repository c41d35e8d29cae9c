import Stylesheet.Evaluation.Evaluator
import Stylesheet.Node.Source

/-!
# Binding arguments to parameters

Every parameter of a definition has a slot. Arguments are taken in order: a positional one goes to
the slot at its position, a named one to the first parameter of that name, and a later argument for
the same slot replaces an earlier one. Slots that stay empty are filled by the defaults. Values and
defaults alike are evaluated where the call stands.
-/

namespace Stylesheet

namespace MixinCall

/-- The slot of the argument at a position. Once an argument was named, all later ones have to be. -/
def slot (call : MixinCall) (params : List Parameter) (position : Nat) (named : Bool) :
    Argument → Except EvalError Nat
  | .named name _ =>
    match params.findIdx? fun p => p.name == name with
    | some slot => .ok slot
    | none => .error (.unknownParameter name call.toSource)
  | .positional _ =>
    if named then .error (.positionalAfterNamed call.toSource) else .ok position

/-- Fills slots with the values of the arguments, of which the first has the given position. -/
def fillSlots (ev : Evaluator) (env : Env) (scope : Scope) (call : MixinCall)
    (params : List Parameter) :
    (position : Nat) → (named : Bool) → List Argument → List (Option Node) →
      EvalM (List (Option Node))
  | _, _, [], slots => return slots
  | position, named, arg :: rest, slots => do
    let slot ← call.slot params position named arg
    let value ← ev.node env scope arg.value
    fillSlots ev env scope call params (position + 1) (named || arg.name?.isSome) rest
      (slots.set slot (some value))

/-- The value of a parameter: what is in its slot, or else its default. -/
def parameterValue (ev : Evaluator) (env : Env) (scope : Scope) (call : MixinCall)
    (p : Parameter) : Option Node → EvalM Node
  | some value => return value
  | none =>
    match p.default? with
    | some default => ev.node env scope default
    | none => throw (.missingArgument p.name call.toSource)

/-- Binds arguments to parameters: one declaration for each parameter, in order. -/
def bind (ev : Evaluator) (env : Env) (scope : Scope) (call : MixinCall)
    (params : List Parameter) (args : List Argument) : EvalM (List Node) := do
  if params.length < args.length then
    throw (.tooManyArguments params.length call.toSource args.length)
  let slots ← fillSlots ev env scope call params 0 false args (List.replicate params.length none)
  (params.zip slots).mapM fun (p, slot) => do
    let value ← parameterValue ev env scope call p slot
    return .declaration (.plain p.name value)

end MixinCall

end Stylesheet
