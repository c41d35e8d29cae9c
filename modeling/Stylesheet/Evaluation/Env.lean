import Stylesheet.Error
import Stylesheet.Lookup.Memory
import Stylesheet.Options

/-!
# The setting of an evaluation

An evaluation reads an environment: the options, the trees that imports stand for, and how deep it is
nested at the moment. What an evaluation changes is only the memory of selector readings, and that
also when it fails, so the memory stands outside the failure in `EvalM`.

## The depth guard

Mixin calls, variables, accessors and imports can refer to themselves. Each of them goes through
`Env.guarded`, which stops at the depth that the options allow and otherwise continues in an
environment one level deeper. The depth is part of what is read, not of what is changed: it is the
old one again as soon as the guarded part is over, however that part ends.
-/

namespace Stylesheet

/-- The trees that imports stand for, by path. -/
abbrev Importer := String → Option Block

/-- What an evaluation reads. -/
structure Env where
  /-- The options of the compilation. -/
  options : Options := {}
  /-- The trees that imports stand for; an environment may serve no imports at all. -/
  importer : Option Importer := none
  /-- How many guarded evaluations are around this one. -/
  depth : Nat := 0

/-- A computation that can stop for a cause, and that keeps the memory in either case. -/
abbrev EvalM := ExceptT EvalError (StateM Memory)

namespace Env

/-- The tree that an import stands for. -/
def importTree? (env : Env) (path : String) : Option Block :=
  env.importer.bind fun importer => importer path

/-- The environment one level deeper. -/
def deeper (env : Env) : Env :=
  { env with depth := env.depth + 1 }

/-- Runs a computation one level deeper, unless that is deeper than the options allow. The context
names what was being evaluated. -/
@[inline]
def guarded {α : Type} (env : Env) (context : String) (run : Env → EvalM α) : EvalM α :=
  if env.depth < env.options.maxDepth then run env.deeper
  else throw (.recursionLimit env.options.maxDepth context)

end Env

end Stylesheet
