import Stylesheet.Rendering

/-!
# Evaluation with a depth counter

`Env.guarded` continues in an environment one level deeper, and nothing has to be undone. There is
another way to keep the depth: one environment for the whole run, with a counter in it. The guard
counts up, runs the guarded part, and counts down again, and whoever reads the environment reads what
it is at the moment. Then the counter has to be right at the end of each guarded part, however it
ends, or all that comes later is off.

This file writes evaluation and rendering in that way. A `Counter` is the state of a run: the
environment, the memory, and a trail of all environments that there have been. Each rule is the rule
of the same name, except that no environment is handed on.

A `Task` is something to run, and many tasks can be run one after the other on the same counter
(`Counted.series`). One that stops for a cause does not keep the next one from being run.
-/

namespace Stylesheet

variable {α β : Type}

/-- The state of a run that counts its depth. -/
structure Counter where
  /-- The environment, with the depth of the moment. -/
  env : Env
  /-- The readings of selector texts. -/
  memory : Memory
  /-- The environments that the counter has made, the latest first. -/
  trail : List Env := []

/-- A computation that can stop for a cause, and that keeps the counter in either case. -/
abbrev CountM := ExceptT EvalError (StateM Counter)

/-- What works on the memory works on the memory of a counter. -/
instance : MonadLift (StateM Memory) (StateM Counter) where
  monadLift x := fun s =>
    let (a, m) := x.run s.memory
    (a, { s with memory := m })

namespace CountM

/-- The environment of the moment. -/
def env : CountM Env := do
  return (← getThe Counter).env

/-- Changes the depth of the environment. -/
def changeDepth (change : Nat → Nat) : CountM Unit :=
  modifyThe Counter fun s =>
    let env := { s.env with depth := change s.env.depth }
    { s with env := env, trail := env :: s.trail }

/-- Runs a computation to its end, which is a value or a cause. -/
def attempt (x : CountM α) : CountM (Except EvalError α) :=
  ExceptT.lift x.run

/-- Runs a computation one level deeper, unless that is deeper than the options allow. The counter is
set back in any case, and only then the run goes on, or stops. -/
def guarded (context : String) (run : CountM α) : CountM α := do
  let env ← env
  if env.depth < env.options.maxDepth then
    changeDepth (· + 1)
    let result ← attempt run
    changeDepth (· - 1)
    result
  else throw (.recursionLimit env.options.maxDepth context)

end CountM

namespace Counted

/-- A way to evaluate nodes and blocks in a scope. -/
structure Evaluator where
  /-- Evaluates a node. -/
  node : Scope → Node → CountM Node
  /-- Evaluates a block with all that is in it. -/
  block : Scope → Block → CountM Block

/-- The evaluator that has no fuel to evaluate anything. -/
def Evaluator.exhausted : Evaluator where
  node _ _ := throw .outOfFuel
  block _ _ := throw .outOfFuel

/-! ## Values -/

/-- The value of a variable. -/
def reference (ev : Evaluator) (scope : Scope) (name : String) : CountM Node :=
  match scope.lookup? name with
  | none => throw (.undefinedVariable name)
  | some d =>
    if d.value.isLiteral then return d.value
    else CountM.guarded name (ev.node scope d.value)

/-- The result of a function call. -/
def call (ev : Evaluator) (scope : Scope) (name : String) (args : List Node) : CountM Node := do
  let args ← args.mapM (ev.node scope)
  match Builtin.ofName? name with
  | some f => f.apply ⟨Text.lower name, args⟩
  | none =>
    match (← CountM.env).options.unknownFunctions with
    | .fault => throw (.unknownFunction name)
    | .passThrough =>
      let printed ← Node.toCssAll args
      return .text (name ++ "(" ++ ", ".intercalate printed ++ ")")

/-- The value that an accessor reads. -/
def accessor (ev : Evaluator) (scope : Scope) (a : Accessor) : CountM Node := do
  match ← resolve a.selector false scope with
  | [] => throw (.noMatch a.selector.toSource a.toSource)
  | found :: _ =>
    match found.block.lastNamed? a.key.name with
    | none => throw (.notDeclared a.key.name a.selector.toSource)
    | some d => CountM.guarded a.toSource (ev.node (found.block :: scope) d.value)

/-- The result of an operation. -/
def operation (ev : Evaluator) (scope : Scope) (op : Operator) (left right : Node) :
    CountM Node := do
  let left ← ev.node scope left
  let right ← ev.node scope right
  Node.operate op left right

/-- The rules for nodes. -/
def node (ev : Evaluator) (scope : Scope) : Node → CountM Node
  | .expression items => do return .expression (← items.mapM (ev.node scope))
  | .list items => do return .list (← items.mapM (ev.node scope))
  | .var name => reference ev scope name
  | .operation op left right => operation ev scope op left right
  | .call name args => call ev scope name args
  | .accessor a => accessor ev scope a
  | .declaration d => do return .declaration { d with value := ← ev.node scope d.value }
  | .block b => do return .block (← ev.block scope b)
  | .mixin m => throw (.unexpandedCall m.toSource)
  | node => return node

/-! ## Mixin calls -/

/-- Fills slots with the values of the arguments, of which the first has the given position. -/
def fillSlots (ev : Evaluator) (scope : Scope) (call : MixinCall) (params : List Parameter) :
    (position : Nat) → (named : Bool) → List Argument → List (Option Node) →
      CountM (List (Option Node))
  | _, _, [], slots => return slots
  | position, named, arg :: rest, slots => do
    let slot ← call.slot params position named arg
    let value ← ev.node scope arg.value
    fillSlots ev scope call params (position + 1) (named || arg.name?.isSome) rest
      (slots.set slot (some value))

/-- The value of a parameter: what is in its slot, or else its default. -/
def parameterValue (ev : Evaluator) (scope : Scope) (call : MixinCall) (p : Parameter) :
    Option Node → CountM Node
  | some value => return value
  | none =>
    match p.default? with
    | some default => ev.node scope default
    | none => throw (.missingArgument p.name call.toSource)

/-- Binds arguments to parameters. -/
def bind (ev : Evaluator) (scope : Scope) (call : MixinCall) (params : List Parameter)
    (args : List Argument) : CountM (List Node) := do
  if params.length < args.length then
    throw (.tooManyArguments params.length call.toSource args.length)
  let slots ← fillSlots ev scope call params 0 false args (List.replicate params.length none)
  (params.zip slots).mapM fun (p, slot) => do
    let value ← parameterValue ev scope call p slot
    return .declaration (.plain p.name value)

/-- The scope with the parameters of a block bound in a frame on top. -/
def enterParams (ev : Evaluator) (scope : Scope) (call : MixinCall) (args : List Argument)
    (b : Block) (bodyScope : Scope) : CountM Scope := do
  match b.kind.params? with
  | none => return bodyScope
  | some params =>
    let bound ← bind ev scope call params args
    let frame ← MixinCall.argumentFrame bound
    return frame :: bodyScope

/-- The scope with the blocks on top that a search went through. -/
def enterEnclosing (ev : Evaluator) (scope : Scope) (call : MixinCall) :
    List Block → Scope → CountM Scope
  | [], bodyScope => return bodyScope
  | b :: rest, bodyScope => do
    let bodyScope ← enterParams ev scope call [] b bodyScope
    enterEnclosing ev scope call rest (b :: bodyScope)

/-- The rules of one block that the call names, evaluated. -/
def expandMatch (ev : Evaluator) (scope : Scope) (call : MixinCall) (found : Match) :
    CountM (List Node) := do
  let bodyScope := (found.block.kind.closure?.getD []) ++ scope
  let bodyScope ← enterEnclosing ev scope call found.enclosing bodyScope
  let bodyScope ← enterParams ev scope call call.args found.block bodyScope
  return (← ev.block bodyScope found.block).rules

/-- The rules that a call stands for. -/
def mixin (ev : Evaluator) (scope : Scope) (call : MixinCall) : CountM (List Node) := do
  let found ← resolve call.selector (!call.args.isEmpty) scope
  let bodies ← found.mapM fun m => CountM.guarded call.toSource (expandMatch ev scope call m)
  return bodies.flatten

/-! ## Blocks -/

/-- Expands the calls among `rest`; the block at hand has the rules `done ++ rest`. -/
def expandCallsFrom (ev : Evaluator) (scope : Scope) :
    (frame : Block) → (done rest : List Node) → CountM Block
  | frame, _, [] => return frame
  | frame, done, .mixin call :: rest => do
    let expanded ← mixin ev (frame :: scope) call
    let frame ← frame.rebuilt (done ++ expanded ++ rest)
    expandCallsFrom ev scope frame (done ++ expanded) rest
  | frame, done, rule :: rest => expandCallsFrom ev scope frame (done ++ [rule]) rest

/-- The block with each mixin call among its rules replaced by the rules that it stands for. -/
def expandCalls (ev : Evaluator) (scope : Scope) (b : Block) : CountM Block :=
  expandCallsFrom ev scope b [] b.rules

/-- Evaluates one rule of a block that is the innermost frame of the scope. -/
def rule (ev : Evaluator) (scope : Scope) : Node → CountM Node
  | .block child => do
    if child.isDefinition then return .block (← child.capture scope)
    else ev.node scope (.block child)
  | rule => ev.node scope rule

/-- The rules for blocks. -/
def block (ev : Evaluator) (scope : Scope) (b : Block) : CountM Block := do
  let frame ← expandCalls ev scope b
  let rules ← frame.rules.mapM (rule ev (frame :: scope))
  frame.rebuilt rules

/-- The evaluator with the given levels of recursion to spend. -/
def evaluator : (fuel : Nat) → Evaluator
  | 0 => .exhausted
  | fuel + 1 =>
    { node := fun scope n => node (evaluator fuel) scope n
      block := fun scope b => block (evaluator fuel) scope b }

/-! ## Rendering -/

/-- Replaces the imports among rules by what `serve` makes of the trees they stand for. -/
def expandWith (serve : String → Block → CountM (List Node)) (rules : List Node) :
    CountM (List Node) := do
  let parts ← rules.mapM fun rule =>
    match rule.pendingImport? with
    | none => return [rule]
    | some path => do
      match (← CountM.env).importTree? path with
      | none => throw (.importNotFound path)
      | some tree => serve path tree
  return parts.flatten

/-- Replaces the imports among rules. The guard counts the levels; that there are at most `levels`
more of them is needed only to see that this ends. -/
def expandRules : (levels : Nat) → List Node → CountM (List Node)
  | 0 => expandWith fun path _ => CountM.guarded path (throw .outOfFuel)
  | levels + 1 => expandWith fun path tree => CountM.guarded path (expandRules levels tree.rules)

/-- The block with its imports replaced. -/
def expandImports (b : Block) : CountM Block := do
  if b.rules.any fun rule => rule.pendingImport?.isSome then
    let env ← CountM.env
    let rules ← expandRules (env.options.maxDepth - env.depth) b.rules
    b.rebuilt rules
  else return b

/-- The line of a rule that is evaluated and printed by itself. -/
def renderLine (ev : Evaluator) (scope : Scope) (rule : Node) : CountM Piece := do
  let value ← ev.node scope rule
  return .line (← value.toCss)

/-- Renders one rule of a block that is the innermost frame of the scope. -/
def renderRule (ev : Evaluator) (inner : Block → CountM String) (scope : Scope) (isRoot : Bool) :
    Node → CountM Piece
  | .block child => do
    if child.isDefinition then return .nothing else return .nested (← inner child)
  | .comment text =>
    if isRoot then return .nested (text ++ "\n") else renderLine ev scope (.comment text)
  | .declaration d =>
    if d.isVariable then return .nothing else renderLine ev scope (.declaration d)
  | rule => renderLine ev scope rule

/-- The rules for rendering, over an evaluator and a way to render nested blocks. -/
def renderWith (ev : Evaluator) (inner : Scope → List Path → Block → CountM String)
    (scope : Scope) (context : List Path) (b : Block) : CountM String := do
  if b.rules.isEmpty then return ""
  let source ← if b.isRoot then expandImports b else pure b
  let paths := if b.isRoot then context else Path.combine context b.selectors
  let frame ← expandCalls ev scope source
  let scope := frame :: scope
  let pieces ← frame.rules.mapM (renderRule ev (inner scope paths) scope frame.isRoot)
  return Piece.assemble frame.isRoot paths pieces

/-- Renders a block and all that is nested in it. -/
def render : (fuel : Nat) → Scope → List Path → Block → CountM String
  | 0 => fun _ _ _ => throw .outOfFuel
  | fuel + 1 => renderWith (evaluator fuel) (render fuel)

end Counted

/-! ## Tasks

What can be asked for from outside, and how a series of such requests is answered: in an environment that
is handed to each of them, or on one counter that they all share. -/

/-- Something to run, with all that it needs except an environment. -/
inductive Task where
  /-- A style sheet is rendered. -/
  | sheet (b : Block)
  /-- A block is rendered. -/
  | rendering (scope : Scope) (context : List Path) (b : Block)
  /-- A block is evaluated. -/
  | block (scope : Scope) (b : Block)
  /-- A node is evaluated. -/
  | node (scope : Scope) (n : Node)
  /-- A mixin call is evaluated. -/
  | call (scope : Scope) (call : MixinCall)

/-- What a task gives. -/
inductive Answer where
  /-- The text of a rendering. -/
  | css (text : String)
  /-- An evaluated block. -/
  | block (b : Block)
  /-- The value of a node. -/
  | node (n : Node)
  /-- The rules that a mixin call stands for. -/
  | rules (rules : List Node)

namespace Task

/-- Runs a task in an environment. -/
def evaluate (fuel : Nat) (env : Env) : Task → EvalM Answer
  | sheet b => return .css (← b.toCss fuel env)
  | rendering scope context b => return .css (← Block.render fuel env scope context b)
  | block scope b => return .block (← b.evaluate fuel env scope)
  | node scope n => return .node (← n.evaluate fuel env scope)
  | call scope m => return .rules (← m.evaluate fuel env scope)

/-- Runs tasks one after the other in one environment. -/
def evaluateAll (fuel : Nat) (env : Env) (tasks : List Task) :
    StateM Memory (List (Except EvalError Answer)) :=
  tasks.mapM fun task => (task.evaluate fuel env).run

end Task

namespace Counted

/-- Runs a task. -/
def task (fuel : Nat) : Task → CountM Answer
  | .sheet b => return .css (← render fuel [] [] b)
  | .rendering scope context b => return .css (← render fuel scope context b)
  | .block scope b => return .block (← (evaluator fuel).block scope b)
  | .node scope n => return .node (← (evaluator fuel).node scope n)
  | .call scope m => return .rules (← mixin (evaluator fuel) scope m)

/-- Runs tasks one after the other. Each of them comes with the environment in which it starts. -/
def series (fuel : Nat) (tasks : List Task) :
    StateM Counter (List (Env × Except EvalError Answer)) :=
  tasks.mapM fun t => do
    let start ← get
    let result ← (task fuel t).run
    return (start.env, result)

end Counted

end Stylesheet
