import Stylesheet.Lookup.Stamps
import Stylesheet.Rendering

/-!
# Compiling style sheets

A compiler holds options and the trees that imports stand for. Compiling works on trees whose blocks
are stamped, and leaves the readings of selector texts in the memory, so that trees can be compiled
again or be shared between compilations; `compileTree` compiles trees that come from outside, in a
memory of their own.
-/

namespace Stylesheet

/-- Options, and the trees that imports stand for. -/
structure Compiler where
  /-- The options of each compilation. -/
  options : Options := {}
  /-- The trees that imports stand for, by path. -/
  imports : List (String × Block) := []

namespace Compiler

/-- Sets the tree that the import of a path stands for. -/
def addImport (c : Compiler) (path : String) (tree : Block) : Compiler :=
  { c with imports := (path, tree) :: c.imports }

/-- The environment of a compilation. -/
def env (c : Compiler) : Env where
  options := c.options
  importer := some fun path => c.imports.lookup path

/-- Compiles a stamped tree with so many levels of recursion to spend. -/
def compileWithin (fuel : Nat) (c : Compiler) (root : Block) : EvalM String :=
  root.toCss fuel c.env

/-- Compiles a stamped tree. -/
def compile (c : Compiler) (root : Block) : EvalM String :=
  c.compileWithin defaultFuel root

/-- The compiler with a new stamp on each block of its trees. -/
def stamped (c : Compiler) : StateM Memory Compiler := do
  let imports ← c.imports.mapM fun (path, tree) => do return (path, ← tree.stamped)
  return { c with imports := imports }

/-- Compiles a tree that comes from outside. -/
def compileTree (c : Compiler) (root : Block) : Except EvalError String :=
  let run : EvalM String := do
    let c ← c.stamped
    let root ← root.stamped
    c.compile root
  (run.run Memory.empty).1

end Compiler

end Stylesheet
