import Stylesheet.Node.Basic

/-!
# Equality of trees

Two trees are equal if they were written alike: stamps and captured blocks play no part, numbers are
compared as numbers and colours by what they look like. Since NaN is not equal to itself, a tree
that holds one is not equal to itself either.
-/

namespace Stylesheet

mutual

/-- Whether two nodes were written alike. -/
def Node.beq : Node → Node → Bool
  | .text a, .text b => a == b
  | .quoted a p, .quoted b q => a == b && p == q
  | .number a, .number b => a == b
  | .color a, .color b => a == b
  | .expression a, .expression b => Node.beqAll a b
  | .list a, .list b => Node.beqAll a b
  | .var a, .var b => a == b
  | .operation o a₁ a₂, .operation p b₁ b₂ => o == p && a₁.beq b₁ && a₂.beq b₂
  | .call n a, .call m b => n == m && Node.beqAll a b
  | .accessor a, .accessor b => a == b
  | .declaration ⟨n, a, i⟩, .declaration ⟨m, b, j⟩ => n == m && a.beq b && i == j
  | .comment a, .comment b => a == b
  | .atImport a, .atImport b => a == b
  | .block a, .block b => a.beq b
  | .mixin ⟨s, a⟩, .mixin ⟨t, b⟩ => s == t && Argument.beqAll a b
  | _, _ => false

/-- Whether two lists of nodes were written alike. -/
def Node.beqAll : List Node → List Node → Bool
  | [], [] => true
  | a :: as, b :: bs => a.beq b && Node.beqAll as bs
  | _, _ => false

/-- Whether two blocks were written alike. -/
def Block.beq : Block → Block → Bool
  | ⟨_, s, a, k⟩, ⟨_, t, b, l⟩ => s == t && Node.beqAll a b && k.beq l

/-- Whether two blocks are for the same. -/
def BlockKind.beq : BlockKind → BlockKind → Bool
  | .root, .root => true
  | .plain, .plain => true
  | .definition a, .definition b => Parameter.beqAll a b
  | .definition a, .captured b _ => Parameter.beqAll a b
  | .captured a _, .definition b => Parameter.beqAll a b
  | .captured a _, .captured b _ => Parameter.beqAll a b
  | _, _ => false

/-- Whether two parameter lists were written alike. -/
def Parameter.beqAll : List Parameter → List Parameter → Bool
  | [], [] => true
  | .required n :: as, .required m :: bs => n == m && Parameter.beqAll as bs
  | .optional n a :: as, .optional m b :: bs => n == m && a.beq b && Parameter.beqAll as bs
  | _, _ => false

/-- Whether two argument lists were written alike. -/
def Argument.beqAll : List Argument → List Argument → Bool
  | [], [] => true
  | .positional a :: as, .positional b :: bs => a.beq b && Argument.beqAll as bs
  | .named n a :: as, .named m b :: bs => n == m && a.beq b && Argument.beqAll as bs
  | _, _ => false

end

instance : BEq Node := ⟨Node.beq⟩

instance : BEq Block := ⟨Block.beq⟩

end Stylesheet
