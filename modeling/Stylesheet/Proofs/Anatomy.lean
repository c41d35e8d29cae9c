import Mathlib.Tactic.Common
import Stylesheet.Node.Basic

/-!
# The parts of a node

Statements about trees speak of two kinds of places. A node stands in *value position* if it is an
item, an operand, an argument, the value of a declaration or the default of a parameter; it stands in
*rule position* if it is a rule of a block. `Node.values` lists the nodes in value position directly
under a node, and `Block.defaults` those of a parameter list.

`Node.induction` is induction over both kinds of places. A block that a definition has captured is no
part of the tree in this sense: it is not evaluated with the definition, only looked into. Where captured
blocks count too, as for the stamps that occur in a tree (`Block.StampsIn`), induction is over nodes and
blocks at once (`Node.joint_induction`).
-/

namespace Stylesheet

/-- The nodes in value position directly under a node. -/
def Node.values : Node → List Node
  | .expression items => items
  | .list items => items
  | .operation _ left right => [left, right]
  | .call _ args => args
  | .declaration d => [d.value]
  | .mixin m => m.args.map Argument.value
  | _ => []

/-- The defaults of the parameters of a block. -/
def Block.defaults (b : Block) : List Node :=
  (b.kind.params?.getD []).filterMap Parameter.default?

/-- The blocks that a definition has captured. -/
def Block.captures (b : Block) : Scope :=
  b.kind.closure?.getD []

/-- Only what takes parameters has captured blocks. -/
lemma BlockKind.closure?_eq_none {kind : BlockKind} (h : kind.params? = none) :
    kind.closure? = none := by
  cases kind with
  | captured => cases h
  | _ => rfl

/-- Whether a rule is a mixin definition. -/
def Node.isDefinition : Node → Bool
  | .block b => b.isDefinition
  | _ => false

/-- A node without its parts: what kind of node it is, and the names in it that decide what it may
be taken for. -/
inductive Shape where
  | text
  | quoted
  | number
  | color
  | expression
  | list
  | var
  | operation
  | call
  | accessor (selector : Selector)
  | declaration
  | comment
  | atImport (path : String)
  | block (isRoot : Bool)
  | mixin (selector : Selector)
  deriving DecidableEq

/-- The shape of a node. -/
def Node.shape : Node → Shape
  | .text _ => .text
  | .quoted _ _ => .quoted
  | .number _ => .number
  | .color _ => .color
  | .expression _ => .expression
  | .list _ => .list
  | .var _ => .var
  | .operation _ _ _ => .operation
  | .call _ _ => .call
  | .accessor a => .accessor a.selector
  | .declaration _ => .declaration
  | .comment _ => .comment
  | .atImport path => .atImport path
  | .block b => .block b.isRoot
  | .mixin m => .mixin m.selector

/-- Shapes of nodes that evaluation replaces by something else. -/
def Shape.isPending : Shape → Bool
  | .var => true
  | .operation => true
  | .call => true
  | .accessor _ => true
  | .mixin _ => true
  | _ => false

/-- The shape of a block. -/
def Shape.isBlock : Shape → Bool
  | .block _ => true
  | _ => false

/-- The shape of a mixin call. -/
def Shape.isMixin : Shape → Bool
  | .mixin _ => true
  | _ => false

/-- A node without parts. -/
def Node.isLeaf : Node → Bool
  | .expression _ => false
  | .list _ => false
  | .operation _ _ _ => false
  | .call _ _ => false
  | .declaration _ => false
  | .block _ => false
  | .mixin _ => false
  | _ => true

/-- What a rule is to the rules beside it. -/
inductive Role where
  /-- A comment. -/
  | comment
  /-- The declaration of a property or variable. -/
  | declaration (name : String)
  /-- A mixin definition. -/
  | definition
  /-- Any other block. -/
  | block
  /-- Any other rule. -/
  | other
  deriving DecidableEq

/-- The role of a rule. -/
def Node.role : Node → Role
  | .comment _ => .comment
  | .declaration d => .declaration d.name
  | .block b => if b.isDefinition then .definition else .block
  | _ => .other

/-! ## Induction over a tree

Nodes, blocks, arguments and parameters are defined in one nested family, and the induction principle that
comes with it speaks of all of them and of the lists in between. The two principles here speak of nodes
and blocks only. That they are sound is seen from the sizes of the parts. -/

/-- The value of a node is a smaller tree than the node. -/
lemma Node.sizeOf_lt_of_mem_values {n k : Node} (h : k ∈ n.values) : sizeOf k < sizeOf n := by
  cases n with
  | expression items =>
    have : sizeOf k < sizeOf items := List.sizeOf_lt_of_mem h
    simp only [Node.expression.sizeOf_spec]
    omega
  | list items =>
    have : sizeOf k < sizeOf items := List.sizeOf_lt_of_mem h
    simp only [Node.list.sizeOf_spec]
    omega
  | operation op left right =>
    simp only [Node.values, List.mem_cons, List.not_mem_nil, or_false] at h
    rcases h with rfl | rfl <;> simp only [Node.operation.sizeOf_spec] <;> omega
  | call name args =>
    have : sizeOf k < sizeOf args := List.sizeOf_lt_of_mem h
    simp only [Node.call.sizeOf_spec]
    omega
  | declaration d =>
    obtain ⟨name, value, important⟩ := d
    simp only [Node.values, List.mem_cons, List.not_mem_nil, or_false] at h
    subst h
    simp only [Node.declaration.sizeOf_spec, Declaration.mk.sizeOf_spec]
    omega
  | mixin call =>
    obtain ⟨selector, args⟩ := call
    simp only [Node.values, List.mem_map] at h
    obtain ⟨arg, harg, rfl⟩ := h
    have := List.sizeOf_lt_of_mem harg
    have hvalue : sizeOf arg.value < sizeOf arg := by
      cases arg <;> simp only [Argument.value, Argument.positional.sizeOf_spec,
        Argument.named.sizeOf_spec] <;> omega
    simp only [Node.mixin.sizeOf_spec, MixinCall.mk.sizeOf_spec]
    omega
  | _ => simp [Node.values] at h

/-- A rule is a smaller tree than the block that holds it. -/
lemma Block.sizeOf_lt_of_mem_rules {b : Block} {r : Node} (h : r ∈ b.rules) :
    sizeOf r < sizeOf b := by
  obtain ⟨stamp, selectors, rules, kind⟩ := b
  have : sizeOf r < sizeOf rules := List.sizeOf_lt_of_mem h
  simp only [Block.mk.sizeOf_spec]
  omega

/-- A default is a smaller tree than its parameter. -/
lemma Parameter.sizeOf_lt_of_default {p : Parameter} {d : Node} (h : p.default? = some d) :
    sizeOf d < sizeOf p := by
  cases p with
  | required name => cases h
  | optional name default =>
    cases h
    simp only [Parameter.optional.sizeOf_spec]
    omega

/-- A default is a smaller tree than the block that has the parameter. -/
lemma Block.sizeOf_lt_of_mem_defaults {b : Block} {d : Node} (h : d ∈ b.defaults) :
    sizeOf d < sizeOf b := by
  obtain ⟨stamp, selectors, rules, kind⟩ := b
  obtain ⟨p, hp, hd⟩ := List.mem_filterMap.mp h
  have hdp := Parameter.sizeOf_lt_of_default hd
  have hkind : sizeOf p < sizeOf kind := by
    cases kind with
    | root => cases hp
    | plain => cases hp
    | definition params =>
      have : sizeOf p < sizeOf params := List.sizeOf_lt_of_mem hp
      simp only [BlockKind.definition.sizeOf_spec]
      omega
    | captured params closure =>
      have : sizeOf p < sizeOf params := List.sizeOf_lt_of_mem hp
      simp only [BlockKind.captured.sizeOf_spec]
      omega
  simp only [Block.mk.sizeOf_spec]
  omega

/-- What a definition has captured is smaller than the definition. -/
lemma Block.sizeOf_lt_of_mem_captures {b c : Block} (h : c ∈ b.captures) :
    sizeOf c < sizeOf b := by
  obtain ⟨stamp, selectors, rules, kind⟩ := b
  have hkind : sizeOf c < sizeOf kind := by
    cases kind with
    | captured params closure =>
      have : sizeOf c < sizeOf closure := List.sizeOf_lt_of_mem h
      simp only [BlockKind.captured.sizeOf_spec]
      omega
    | _ => cases h
  simp only [Block.mk.sizeOf_spec]
  omega

/-- Induction over nodes and blocks at once. A node follows from the nodes in value position under it
and from the block that it is; a block follows from its rules, its defaults and what it has
captured. -/
theorem Node.joint_induction {P : Node → Prop} {Q : Block → Prop}
    (node : ∀ n, (∀ k ∈ n.values, P k) → (∀ b, n = .block b → Q b) → P n)
    (block : ∀ b, (∀ r ∈ b.rules, P r) → (∀ d ∈ b.defaults, P d) → (∀ c ∈ b.captures, Q c) → Q b) :
    (∀ n, P n) ∧ ∀ b, Q b := by
  have key : ∀ size, (∀ n : Node, sizeOf n < size → P n) ∧ ∀ b : Block, sizeOf b < size → Q b := by
    intro size
    induction size with
    | zero => exact ⟨fun n h => absurd h (Nat.not_lt_zero _), fun b h => absurd h (Nat.not_lt_zero _)⟩
    | succ size ih =>
      constructor
      · intro n hn
        refine node n (fun k hk => ih.1 k ?_) (fun b hb => ih.2 b ?_)
        · have := Node.sizeOf_lt_of_mem_values hk
          omega
        · subst hb
          simp only [Node.block.sizeOf_spec] at hn
          omega
      · intro b hb
        refine block b (fun r hr => ih.1 r ?_) (fun d hd => ih.1 d ?_) (fun c hc => ih.2 c ?_)
        · have := Block.sizeOf_lt_of_mem_rules hr
          omega
        · have := Block.sizeOf_lt_of_mem_defaults hd
          omega
        · have := Block.sizeOf_lt_of_mem_captures hc
          omega
  exact ⟨fun n => (key _).1 n (Nat.lt_succ_self _), fun b => (key _).2 b (Nat.lt_succ_self _)⟩

/-- What holds of a node as soon as it holds of the nodes in value position under it and, for a
block, of its rules, holds of every node. -/
theorem Node.induction {P : Node → Prop}
    (step : ∀ n, (∀ k ∈ n.values, P k) → (∀ b, n = .block b → ∀ r ∈ b.rules, P r) → P n)
    (n : Node) : P n :=
  (Node.joint_induction (Q := fun b => ∀ r ∈ b.rules, P r) step fun _ hrules _ _ => hrules).1 n

/-! ## Small facts on shapes -/

/-- A block has rules, and no parts that are values. -/
@[simp] lemma Node.values_block (b : Block) : (Node.block b).values = [] := rfl

/-- A value that stands for itself has no parts. -/
lemma Node.values_of_isLiteral {n : Node} (h : n.isLiteral = true) : n.values = [] := by
  cases n <;> first | rfl | cases h

/-! ## The stamps in a tree

`StampsIn P` says that every stamp in a tree satisfies `P`: those of the blocks among rules, and those of the
blocks in values, in the defaults of parameters and in what definitions have captured. -/

mutual

/-- Every stamp in the node satisfies `P`. -/
inductive Node.StampsIn (P : Nat → Prop) : Node → Prop
  | intro {n : Node} (values : ∀ k ∈ n.values, Node.StampsIn P k)
      (block : ∀ b, n = .block b → Block.StampsIn P b) : Node.StampsIn P n

/-- The stamp of the block and every stamp in it satisfies `P`. -/
inductive Block.StampsIn (P : Nat → Prop) : Block → Prop
  | intro {b : Block} (stamp : P b.stamp) (rules : ∀ r ∈ b.rules, Node.StampsIn P r)
      (defaults : ∀ d ∈ b.defaults, Node.StampsIn P d)
      (captures : ∀ c ∈ b.captures, Block.StampsIn P c) : Block.StampsIn P b

end

section stampsIn

variable {P : Nat → Prop} {b : Block}

/-- A block that stands as a node. -/
lemma Node.StampsIn.block (h : b.StampsIn P) : (Node.block b).StampsIn P := by
  refine .intro (by simp) ?_
  intro c hc
  cases hc
  exact h

/-- A node that is no block has stamps in its parts only. -/
lemma Node.StampsIn.of_values {n : Node} (h : n.shape.isBlock = false)
    (hvalues : ∀ k ∈ n.values, k.StampsIn P) : n.StampsIn P := by
  refine .intro hvalues ?_
  rintro c rfl
  cases h

/-- A block without parameter list has stamps in its rules only. -/
lemma Block.StampsIn.without_params (hkind : b.kind.params? = none) (hstamp : P b.stamp)
    (hrules : ∀ r ∈ b.rules, r.StampsIn P) : b.StampsIn P := by
  refine .intro hstamp hrules ?_ ?_
  · simp [Block.defaults, hkind]
  · simp [Block.captures, BlockKind.closure?_eq_none hkind]

/-- The block of a node. -/
lemma Node.StampsIn.of_block (h : (Node.block b).StampsIn P) : b.StampsIn P := by
  cases h with
  | intro _ block => exact block b rfl

/-- The stamp of the block itself. -/
lemma Block.StampsIn.stamp (h : b.StampsIn P) : P b.stamp := by
  cases h with
  | intro stamp _ _ _ => exact stamp

/-- The rules of the block. -/
lemma Block.StampsIn.of_mem_rules (h : b.StampsIn P) {r : Node} (hr : r ∈ b.rules) :
    r.StampsIn P := by
  cases h with
  | intro _ rules _ _ => exact rules r hr

end stampsIn

/-- What holds of all stamps holds of the stamps in a tree. -/
theorem stampsIn_of_forall {P : Nat → Prop} (h : ∀ s, P s) :
    (∀ n : Node, n.StampsIn P) ∧ ∀ b : Block, b.StampsIn P :=
  Node.joint_induction (fun _ hvalues hblock => .intro hvalues hblock)
    fun b hrules hdefaults hcaptures => .intro (h b.stamp) hrules hdefaults hcaptures

end Stylesheet
