/-!
# Options of a compilation

Two settings that an author can choose: how deep evaluation may be nested, and whether a call of an
unknown function is a fault.
-/

namespace Stylesheet

/-- What becomes of a call that names no built-in function. -/
inductive UnknownFunctions where
  /-- It is a fault. -/
  | fault
  /-- It is printed as it stands, with its arguments evaluated. -/
  | passThrough
  deriving Repr, DecidableEq

/-- The options of a compilation. -/
structure Options where
  /-- How deep mixin calls, variables, accessors and imports may be nested. -/
  maxDepth : Nat := 64
  /-- What becomes of a call that names no built-in function. -/
  unknownFunctions : UnknownFunctions := .fault
  deriving Repr, DecidableEq

end Stylesheet
